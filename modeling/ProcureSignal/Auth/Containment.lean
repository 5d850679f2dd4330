/-
# Containment of a stolen token

Histories of sign-ins, rotations, sign-outs and `revoke_all_sessions`, one call after the
other.  Every call renews the lineage of the refresh tokens (`renewal_apply`), a rotation
is accepted only for a live row and kills it, and a rotation that meets a dead row kills
its family.  Hence `theft_contained`: a token is accepted at most once, and once a dead
token of a family was presented no token of the family is accepted again.
-/
import ProcureSignal.Auth.Families
import ProcureSignal.Library.Execution

namespace ProcureSignal.Auth

open Lineage

variable {τ : Type} (C : Crypto τ) (U : Unicode)

/-! ## Histories -/

/-- One call of a route. -/
inductive Operation
  | login (email password : String) (context : ClientContext) (d : Draw)
  | refresh (presented : Option String) (context : ClientContext) (d : Draw)
  | logout (presented : Option String) (now : Instant)
  | revokeAll (userId : ℕ) (now : Instant)
  deriving DecidableEq, Repr

/-- The store after a call. -/
def apply (st : Store) : Operation → Store
  | .login email password context d => (login C U st email password context d).1
  | .refresh presented context d => (refresh C st presented context d).1
  | .logout presented now => logout C st presented now
  | .revokeAll userId now => revokeAllSessions st userId now

/-- A call always ends. -/
def step (st : Store) (op : Operation) : Option Store := some (apply C U st op)

/-- `uuid4` draws, for a sign-in, an identifier no family has. -/
def FreshFamily (st : Store) : Operation → Prop
  | .login _ _ _ d =>
      ∀ digest row, st.token? digest = some row → row.familyId ≠ d.familyId
  | _ => True

/-- The call is a rotation of the given token, and is accepted. -/
def accepts (digest : String) (x : Store × Operation) : Bool :=
  match x.2 with
  | .refresh (some presented) context d =>
      C.hashRefreshToken presented = digest &&
        (refresh C x.1 (some presented) context d).2.toBool
  | _ => false

/-- The call presents a revoked token of the family to `rotate_refresh_token`. -/
def PresentsRevoked (family : FamilyId) (x : Store × Operation) : Prop :=
  ∃ presented context d stored, x.2 = .refresh (some presented) context d ∧ presented ≠ "" ∧
    x.1.token? (C.hashRefreshToken presented) = some stored ∧ stored.revokedAt ≠ none ∧
    stored.familyId = family

/-! ## One call -/

variable {C U} {st : Store}

/-- An accepted rotation is one of `rotate_refresh_token`. -/
theorem exists_of_accepts {digest : String} {op : Operation} (h : accepts C digest (st, op)) :
    ∃ presented context d st' issued, op = .refresh (some presented) context d ∧
      C.hashRefreshToken presented = digest ∧ apply C U st op = st' ∧
      rotateRefreshToken C st presented context d = (st', .ok issued) := by
  unfold accepts at h
  split at h
  · rename_i presented context d hop
    have hop : op = .refresh (some presented) context d := hop
    subst hop
    rw [Bool.and_eq_true, decide_eq_true_eq] at h
    obtain ⟨hdigest, hok⟩ := h
    unfold refresh at hok
    simp only at hok
    split at hok
    · cases hok
    · rename_i hne
      cases hrot : rotateRefreshToken C st presented context d with
      | mk st' result =>
          rw [hrot] at hok
          cases result with
          | error e => cases hok
          | ok issued =>
              refine ⟨presented, context, d, st', issued, rfl, hdigest, ?_, hrot⟩
              show (refresh C st (some presented) context d).1 = st'
              unfold refresh
              simp only [if_neg hne, hrot]
  · cases h

/-- Accepted means live before, dead after. -/
theorem live_of_accepts {digest : String} {op : Operation} (h : accepts C digest (st, op)) :
    (∃ row, st.token? digest = some row ∧ row.Live) ∧
      ∃ row, (apply C U st op).token? digest = some row ∧ ¬ row.Live := by
  obtain ⟨presented, context, d, st', issued, rfl, rfl, happly, hrot⟩ :=
    exists_of_accepts (U := U) h
  obtain ⟨stored, user, membership, organization, hstored, hlive, -, -, hfree, hst, -⟩ :=
    rotateRefreshToken_eq_ok hrot
  refine ⟨⟨stored, hstored, hlive⟩, stored.revoke d.now, ?_, nofun⟩
  have hne : C.hashRefreshToken presented ≠ C.hashRefreshToken d.plaintext := by
    intro heq
    rw [← heq, hstored] at hfree
    cases hfree
  rw [happly, hst, token?_rotate hfree, tokenHash_tokenRow, if_neg hne, if_pos rfl, hstored]
  rfl

/-- **Every call renews the lineage of the tokens.** -/
theorem renewal_apply {op : Operation} (hfresh : FreshFamily st op) :
    Renewal RefreshToken.familyId RefreshToken.Live st.token? (apply C U st op).token? := by
  cases op with
  | login email password context d =>
      cases hlogin : login C U st email password context d with
      | mk st' result =>
          have happly : apply C U st (.login email password context d) = st' :=
            congrArg Prod.fst hlogin
          rw [happly]
          cases result with
          | error e =>
              rw [login_eq_error hlogin]
              exact .refl _
          | ok issued =>
              obtain ⟨userId, -, -, -, -, hfree, rfl, -⟩ := login_eq_ok hlogin
              refine renewal_signIn hfree ?_ userId d.now
              exact hfresh
  | refresh presented context d =>
      cases presented with
      | none => exact .refl _
      | some token =>
          by_cases htoken : token = ""
          · have happly : apply C U st (.refresh (some token) context d) = st := by
              simp [apply, refresh, htoken]
            rw [happly]
            exact .refl _
          · have happly : apply C U st (.refresh (some token) context d) =
                (rotateRefreshToken C st token context d).1 := by
              simp [apply, refresh, htoken]
            rw [happly]
            cases hrot : rotateRefreshToken C st token context d with
            | mk st' result =>
                cases result with
                | error e =>
                    rcases rotateRefreshToken_eq_error hrot with heq | ⟨stored, -, -, heq⟩
                    · rw [heq]
                      exact .refl _
                    · rw [heq]
                      exact renewal_revokeRows familyId_revoke st _ _
                | ok issued =>
                    obtain ⟨stored, -, -, -, hstored, hlive, -, -, hfree, heq, -⟩ :=
                      rotateRefreshToken_eq_ok hrot
                    rw [heq]
                    exact renewal_rotate familyId_revoke hstored hlive hfree rfl
  | logout presented now =>
      have happly : apply C U st (.logout presented now) = logout C st presented now := rfl
      rw [happly]
      rcases logout_eq C st presented now with heq | ⟨token, -, heq⟩
      · rw [heq]
        exact .refl _
      · rw [heq]
        exact renewal_revokeRows familyId_revoke st _ _
  | revokeAll userId now => exact renewal_revokeRows familyId_revoke st _ now

/-- A rotation of a revoked token is refused and kills the family of the token. -/
theorem apply_of_presentsRevoked {family : FamilyId} {op : Operation}
    (h : PresentsRevoked C family (st, op)) :
    (∃ now, apply C U st op = revokeFamily st family now) ∧
      (∃ digest row, st.token? digest = some row ∧ row.familyId = family) ∧
      ∀ digest, accepts C digest (st, op) = false := by
  obtain ⟨presented, context, d, stored, hop, hne, hstored, hrevoked, rfl⟩ := h
  have hop : op = .refresh (some presented) context d := hop
  subst hop
  have hstored : st.token? (C.hashRefreshToken presented) = some stored := hstored
  have hrefresh : refresh C st (some presented) context d =
      (revokeFamily st stored.familyId d.now, .error .invalidCredentials) := by
    simp [refresh, hne, rotateRefreshToken, hstored, hrevoked]
  refine ⟨⟨d.now, congrArg Prod.fst hrefresh⟩, ⟨_, stored, hstored, rfl⟩, ?_⟩
  intro digest
  simp [accepts, hrefresh, Except.toBool]

/-- The family of a revoked token that was presented is dead. -/
theorem deadFamily_of_presentsRevoked {family : FamilyId} {op : Operation}
    (h : PresentsRevoked C family (st, op)) :
    DeadFamily RefreshToken.familyId RefreshToken.Live family
      (apply C U st op).token? := by
  obtain ⟨⟨now, heq⟩, ⟨digest, row, hrow, hfamily⟩, -⟩ := apply_of_presentsRevoked (U := U) h
  rw [heq]
  constructor
  · obtain ⟨row', hrow', hlater⟩ :=
      (renewal_revokeRows familyId_revoke st
        (fun r => (r.familyId = family) && r.revokedAt.isNone) now).keeps _ _ hrow
    exact ⟨digest, row', hrow', hlater.family_eq.trans hfamily⟩
  · intro d r hr hf hlive
    rw [revokeFamily, token?_revokeWhere, Option.map_eq_some_iff] at hr
    obtain ⟨r₀, hr₀, rfl⟩ := hr
    split at hlive
    · cases hlive
    · rename_i hnot
      rw [if_neg hnot] at hf
      have hnone : r₀.revokedAt = none := hlive
      simp [hf, hnone] at hnot

/-- The tokens of the other families, and what decides about them, are as they were. -/
theorem others_of_presentsRevoked {family : FamilyId} {op : Operation}
    (h : PresentsRevoked C family (st, op)) :
    (∀ digest row, st.token? digest = some row → row.familyId ≠ family →
      (apply C U st op).token? digest = some row) ∧
      (apply C U st op).users = st.users ∧ (apply C U st op).memberships = st.memberships ∧
      (apply C U st op).organizations = st.organizations := by
  obtain ⟨⟨now, heq⟩, -, -⟩ := apply_of_presentsRevoked (U := U) h
  rw [heq]
  refine ⟨?_, rfl, rfl, rfl⟩
  intro digest row hrow hne
  rw [revokeFamily, token?_revokeWhere, hrow, Option.map_some, if_neg]
  simp [hne]

/-! ## Every history -/

/-- One more call. -/
theorem execution_snoc {G : Store → Operation → Prop} {st₀ st : Store}
    {tr : List (Store × Operation)} (h : Execution (step C U) G st₀ tr st) (op : Operation)
    (hG : G st op) : Execution (step C U) G st₀ ((st, op) :: tr) (apply C U st op) :=
  h.snoc hG rfl

/-- A call renews the lineage, whatever was drawn. -/
theorem renewal_step {op : Operation} {st' : Store} (hfresh : FreshFamily st op)
    (h : step C U st op = some st') :
    Renewal RefreshToken.familyId RefreshToken.Live st.token? st'.token? := by
  rw [← Option.some.inj h]
  exact renewal_apply hfresh

/-- A token is accepted at most once, and dead afterwards. -/
theorem accepts_once {st₀ : Store} {tr : List (Store × Operation)}
    (h : Execution (step C U) FreshFamily st₀ tr st) (digest : String) :
    tr.countP (accepts C digest) ≤ 1 ∧
      (tr.countP (accepts C digest) ≠ 0 →
        ∃ row, st.token? digest = some row ∧ ¬ row.Live) := by
  refine h.traceInvariant (I := fun tr st => tr.countP (accepts C digest) ≤ 1 ∧
    (tr.countP (accepts C digest) ≠ 0 →
      ∃ row, st.token? digest = some row ∧ ¬ row.Live)) ?_ ?_
  · exact ⟨Nat.zero_le 1, fun hne => absurd rfl hne⟩
  · rintro tr p op q ⟨hle, hdead⟩ hfresh hq
    by_cases hacc : accepts C digest (p, op)
    · rw [List.countP_cons_of_pos hacc]
      obtain ⟨⟨row, hrow, hlive⟩, hafter⟩ := live_of_accepts (U := U) hacc
      have hzero : tr.countP (accepts C digest) = 0 := by
        by_contra hne
        obtain ⟨row', hrow', hnot⟩ := hdead hne
        rw [hrow, Option.some.injEq] at hrow'
        exact hnot (hrow' ▸ hlive)
      rw [← Option.some.inj hq]
      exact ⟨by omega, fun _ => hafter⟩
    · rw [List.countP_cons_of_neg hacc]
      exact ⟨hle, fun hne => (renewal_step hfresh hq).keeps.dead (hdead hne)⟩

/-- **Theft containment.**  In every history of sign-ins, rotations, sign-outs and
revocations in which `uuid4` gives every sign-in a new family:

* a refresh token is accepted by rotation at most once;
* once a revoked token of a family has been presented, no rotation of a token of that
  family is accepted, then or later, and the call leaves the tokens of every other family,
  and everything their acceptance depends on, as they were. -/
theorem theft_contained {st₀ : Store} {tr : List (Store × Operation)}
    (h : Execution (step C U) FreshFamily st₀ tr st) :
    (∀ digest, tr.countP (accepts C digest) ≤ 1) ∧
      ∀ tr₁ tr₂ x family, tr = tr₂ ++ x :: tr₁ → PresentsRevoked C family x →
        (∀ digest, accepts C digest x = false) ∧
        (∀ y ∈ tr₂, ∀ digest row, y.1.token? digest = some row →
          row.familyId = family → accepts C digest y = false) ∧
        ∀ q, step C U x.1 x.2 = some q →
          (∀ digest row, x.1.token? digest = some row → row.familyId ≠ family →
            q.token? digest = some row) ∧
          q.users = x.1.users ∧ q.memberships = x.1.memberships ∧
            q.organizations = x.1.organizations := by
  refine ⟨fun digest => (accepts_once h digest).1, ?_⟩
  rintro tr₁ tr₂ ⟨p, op⟩ family rfl hpresents
  obtain ⟨q, -, -, hq, h₂⟩ := h.of_append
  have hq' : apply C U p op = q := Option.some.inj hq
  refine ⟨(apply_of_presentsRevoked (U := U) hpresents).2.2, ?_, ?_⟩
  · have hdead := deadFamily_of_presentsRevoked (U := U) hpresents
    rw [hq'] at hdead
    have hmem := h₂.forall_mem
      (I := fun st => DeadFamily RefreshToken.familyId RefreshToken.Live family st.token?)
      hdead (fun _ _ _ hd hfresh hstep => hd.renewal (renewal_step hfresh hstep))
    rintro ⟨st', op'⟩ hy digest row hrow hfamily
    by_contra hacc
    rw [Bool.not_eq_false] at hacc
    obtain ⟨⟨row', hrow', hlive⟩, -⟩ := live_of_accepts (U := U) hacc
    have heq : some row' = some row := hrow'.symm.trans hrow
    rw [Option.some.injEq] at heq
    exact (hmem _ hy).2 digest row hrow hfamily (heq ▸ hlive)
  · intro q' hstep
    rw [← Option.some.inj hstep]
    exact others_of_presentsRevoked hpresents

/-- A sign-in and a rotation; the rotated token is presented again, then its successor. -/
theorem theft_contained_replay : ∃ tr st,
    Execution (step Crypto.plain Unicode.ascii) FreshFamily oneUser tr st ∧
      tr.countP (accepts Crypto.plain "first") = 1 ∧
      tr.countP (accepts Crypto.plain "second") = 0 := by
  have hrun : Execution (step Crypto.plain Unicode.ascii) FreshFamily oneUser _ _ :=
    execution_snoc (execution_snoc (execution_snoc (execution_snoc Execution.nil
      (.login "buyer@acme.com" "password" ⟨none, none⟩
        ⟨"first", ⟨"f-1", by decide⟩, "j-1", 0, 0⟩) (fun _ _ hrow => by cases hrow))
      (.refresh (some "first") ⟨none, none⟩ ⟨"second", ⟨"f-2", by decide⟩, "j-2", 1, 1⟩) trivial)
      (.refresh (some "first") ⟨none, none⟩ ⟨"third", ⟨"f-3", by decide⟩, "j-3", 2, 2⟩) trivial)
      (.refresh (some "second") ⟨none, none⟩ ⟨"third", ⟨"f-3", by decide⟩, "j-3", 3, 3⟩) trivial
  exact ⟨_, _, hrun, Nat.le_antisymm ((theft_contained hrun).1 "first") (by decide +kernel),
    by decide +kernel⟩

end ProcureSignal.Auth
