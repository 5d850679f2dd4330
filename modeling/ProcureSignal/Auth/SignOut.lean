/-
# Signing out everywhere, against concurrent sessions

`revoke_all_sessions` revokes the tokens its `UPDATE` finds and raises `token_version`.
A session of the user committed between that `UPDATE` and the commit is not found by it,
and a rotation that read its token before may insert a successor after it
(`rotation_outlives_sign_out`).

`sign_out_final`: where no session of the user is committed in these two ways, every
refresh token of a sign-in made before is revoked for good and every access token of such
a sign-in is rejected.
-/
import ProcureSignal.Auth.Rotation

namespace ProcureSignal.Auth.Transactions

open Lineage

variable {τ : Type} {C : Crypto τ} {U : Unicode} {requests : ℕ → Request} {s t : State}

/-! ## The condition -/

/-- The tokens a running `revoke_all_sessions` of the user is about to revoke. -/
def Phase.revokes (u : ℕ) : Phase → Option (List String)
  | .scanned scope _ rows | .marked scope _ rows => if scope = .user u then some rows else none
  | .bumped userId _ rows => if userId = u then some rows else none
  | _ => none

/-- A token of the lineage is unrevoked. -/
def liveIn (st : Store) (f : ℕ × FamilyId) : Bool :=
  st.refreshTokens.values.any fun row => row.lineage = f && row.revokedAt.isNone

/-- A session of the user is committed only while no `revoke_all_sessions` of the user is
between its `UPDATE` and its commit; a rotation finds a token of its family unrevoked, and
`uuid4` gives a sign-in an identifier no stored family has. -/
def SignOutGuard (u : ℕ) (s : State) : Label → Prop
  | .commit c => ∀ p, s.phases c = .inserted p → p.userId = u →
      (∀ c', (s.phases c').revokes u = none) ∧
      newFamily s (.commit c) ∧ ∀ stored ∈ p.parent, liveIn s.store stored.lineage
  | _ => True

/-- Without a live row no token of the lineage is unrevoked. -/
theorem liveIn_eq_false {st : Store} {f : ℕ × FamilyId}
    (h : ∀ d row, st.token? d = some row → row.lineage = f → ¬ row.Live) :
    liveIn st f = false := by
  rw [Bool.eq_false_iff]
  intro hlive
  unfold liveIn at hlive
  rw [List.any_eq_true] at hlive
  obtain ⟨row, hrow, hand⟩ := hlive
  rw [Bool.and_eq_true, decide_eq_true_eq, Option.isNone_iff_eq_none] at hand
  exact h _ row (token?_of_mem hrow) hand.1 hand.2

/-! ## Users -/

/-- The session a call is about to issue, or has issued. -/
def Phase.session? : Phase → Option Issue
  | .loaded p | .updated p | .inserted p | .issued p => some p
  | _ => none

/-- Every step keeps the users, and their versions only grow. -/
theorem user_effect {l : Label} (h : Effect C s l t) {i : ℕ} {user : User}
    (huser : s.store.users.find? i = some user) :
    ∃ user', t.store.users.find? i = some user' ∧ user'.publicId = user.publicId ∧
      user.tokenVersion ≤ user'.tokenVersion := by
  cases h with
  | move h => exact ⟨user, huser, rfl, le_rfl⟩
  | update c p stored hphase hparent hfree => exact ⟨user, huser, rfl, le_rfl⟩
  | mark c scope now matched rows hphase hfree hrows => exact ⟨user, huser, rfl, le_rfl⟩
  | bump c userId now rows hphase hfree => exact ⟨user, huser, rfl, le_rfl⟩
  | issue c p hphase hfree =>
      show ∃ user', (p.store C s.store).users.find? i = some user' ∧ _
      unfold Issue.store
      split
      · rw [(tables_putToken _ _).1]
        exact ⟨user, huser, rfl, le_rfl⟩
      · rw [(tables_putToken _ _).1, find?_recordLogin, huser]
        refine ⟨_, rfl, ?_⟩
        split <;> exact ⟨rfl, le_rfl⟩
  | revokeFamily c familyId now rows hphase => exact ⟨user, huser, rfl, le_rfl⟩
  | revokeAll c userId now rows hphase =>
      show ∃ user', ((revokeMarked s.store rows now).bumpVersion userId).users.find? i = some user' ∧
        _
      rw [find?_bumpVersion, show (revokeMarked s.store rows now).users.find? i = some user from huser]
      refine ⟨_, rfl, ?_⟩
      split
      · exact ⟨rfl, Nat.le_succ _⟩
      · exact ⟨rfl, le_rfl⟩
  | abort c hphase => exact ⟨user, huser, rfl, le_rfl⟩

/-- A session the call carries after the step was read by it, or was carried before. -/
theorem session_effect {l : Label} (h : Effect C s l t) {p : Issue}
    (hp : p ∈ (t.phases l.call).session?) :
    p ∈ (s.phases l.call).session? ∨ s.store.users.find? p.userId = some p.user := by
  cases h with
  | @move l phase hmove =>
      rw [phases_move_self] at hp
      generalize s.phases l.call = phase₀ at hmove
      cases hmove with
      | credentials c d p' hparent huser =>
          rw [← Option.some.inj hp]
          exact Or.inr huser
      | owner c d stored now p' hparent hid huser =>
          rw [← Option.some.inj hp]
          exact Or.inr huser
      | insert c _ p' hphase =>
          rw [← Option.some.inj hp]
          have hissue := (insert_relies hphase).2.1
          left
          cases phase₀ <;> first | exact hissue | cases hissue
      | _ => cases hp
  | update c p' stored hphase hparent hfree =>
      simp only [Label.call, phases_move_self] at hp
      left
      show p ∈ (s.phases c).session?
      rw [hphase]
      exact hp
  | mark c scope now matched rows hphase hfree hrows =>
      simp only [Label.call, phases_move_self] at hp
      cases hp
  | bump c userId now rows hphase hfree =>
      simp only [Label.call, phases_move_self] at hp
      cases hp
  | issue c p' hphase hfree =>
      simp only [Label.call, State.commitStore, phases_move_self] at hp
      left
      show p ∈ (s.phases c).session?
      rw [hphase]
      exact hp
  | revokeFamily c familyId now rows hphase =>
      simp only [Label.call, State.commitStore, phases_move_self] at hp
      cases hp
  | revokeAll c userId now rows hphase =>
      simp only [Label.call, State.commitStore, phases_move_self] at hp
      cases hp
  | abort c hphase =>
      simp only [Label.call, phases_move_self] at hp
      cases hp

/-! ## Before the sign-out -/

/-- The invariant of guarded runs. -/
structure Standing (u : ℕ) (s : State) : Prop where
  owned : Owned s
  /-- nobody is shown a version that is yet to come -/
  version : ∀ c, ∀ p ∈ (s.phases c).session?, ∃ user, s.store.users.find? p.userId = some user ∧
    user.publicId = p.user.publicId ∧ p.user.tokenVersion ≤ user.tokenVersion
  /-- a running `revoke_all_sessions` has found every live token of the user -/
  covered : ∀ c rows, (s.phases c).revokes u = some rows → ∀ d row,
    s.store.token? d = some row → row.userId = u → row.Live → d ∈ rows

/-- No call has started. -/
theorem standing_initial (u : ℕ) (st : Store) : Standing u (State.initial st) := by
  refine ⟨owned_initial st, ?_, ?_⟩
  · intro c p hp
    cases hp
  · intro c rows hrows
    cases hrows

/-- An unrevoked token of the user is among the rows its `UPDATE` finds. -/
theorem mem_unrevokedOf {st : Store} {u : ℕ} {d : String} {row : RefreshToken}
    (hrow : st.token? d = some row) (hu : row.userId = u) (hlive : row.Live) :
    d ∈ unrevokedOf st (.user u) := by
  unfold unrevokedOf
  rw [List.mem_map]
  refine ⟨row, List.mem_filter.mpr ⟨List.mem_of_find?_eq_some hrow, ?_⟩, tokenHash_of_token? hrow⟩
  rw [Bool.and_eq_true, Option.isNone_iff_eq_none]
  exact ⟨decide_eq_true hu, hlive⟩

/-- What the call that took the step has found. -/
theorem covered_self {u : ℕ} (hs : Standing u s) {l : Label} (h : Effect C s l t)
    {rows : List String} (hrows : (t.phases l.call).revokes u = some rows) {d : String}
    {row : RefreshToken} (hrow : s.store.token? d = some row) (hu : row.userId = u)
    (hlive : row.Live) : d ∈ rows := by
  have hcovered := hs.covered l.call
  cases h with
  | @move l phase hmove =>
      rw [phases_move_self] at hrows
      generalize s.phases l.call = phase₀ at hmove
      cases hmove with
      | scan c scope now =>
          simp only [Phase.revokes] at hrows
          split at hrows
          · rename_i hscope
            rw [← Option.some.inj hrows, hscope]
            exact mem_unrevokedOf hrow hu hlive
          · cases hrows
      | _ => cases hrows
  | update c p stored hphase hparent hfree =>
      simp only [Label.call, phases_move_self] at hrows
      cases hrows
  | mark c scope now matched rows' hphase hfree hrows' =>
      simp only [Label.call, phases_move_self, Phase.revokes] at hrows
      split at hrows
      · rename_i hscope
        have hmatched : (s.phases c).revokes u = some matched := by
          rw [hphase]
          exact if_pos hscope
        rw [← Option.some.inj hrows, hrows', List.mem_filter, hrow]
        exact ⟨hcovered matched hmatched d row hrow hu hlive, by simpa [RefreshToken.Live] using hlive⟩
      · cases hrows
  | bump c userId now rows' hphase hfree =>
      simp only [Label.call, phases_move_self, Phase.revokes] at hrows
      split at hrows
      · rename_i huser
        refine hcovered rows ?_ d row hrow hu hlive
        show (s.phases c).revokes u = some rows
        rw [hphase, ← hrows, ← huser]
        exact if_pos rfl
      · cases hrows
  | issue c p hphase hfree =>
      simp only [Label.call, State.commitStore, phases_move_self] at hrows
      cases hrows
  | revokeFamily c familyId now rows' hphase =>
      simp only [Label.call, State.commitStore, phases_move_self] at hrows
      cases hrows
  | revokeAll c userId now rows' hphase =>
      simp only [Label.call, State.commitStore, phases_move_self] at hrows
      cases hrows
  | abort c hphase =>
      simp only [Label.call, phases_move_self] at hrows
      cases hrows

/-- **A guarded step keeps the invariant.** -/
theorem Standing.effect {u : ℕ} (hs : Standing u s) {l : Label} (h : Effect C s l t)
    (hguard : SignOutGuard u s l) : Standing u t := by
  refine ⟨owned_effect hs.owned h, ?_, ?_⟩
  · intro c p hp
    have hbefore : ∃ user, s.store.users.find? p.userId = some user ∧
        user.publicId = p.user.publicId ∧ p.user.tokenVersion ≤ user.tokenVersion := by
      by_cases hc : c = l.call
      · subst hc
        rcases session_effect h hp with hold | hread
        · exact hs.version l.call p hold
        · exact ⟨p.user, hread, rfl, le_rfl⟩
      · rw [phases_of_ne h hc] at hp
        exact hs.version c p hp
    obtain ⟨user, huser, hid, hversion⟩ := hbefore
    obtain ⟨user', huser', hid', hversion'⟩ := user_effect h huser
    exact ⟨user', huser', hid'.trans hid, hversion.trans hversion'⟩
  · intro c rows hrows d row hrow hu hlive
    rcases (keeps_effect lineage_revoke h).live_before hrow hlive with
      ⟨row₀, hrow₀, hlive₀, hlineage⟩ | hnone
    · have hu₀ : row₀.userId = u := (congrArg Prod.fst hlineage).symm.trans hu
      by_cases hc : c = l.call
      · subst hc
        exact covered_self hs h hrows hrow₀ hu₀ hlive₀
      · rw [phases_of_ne h hc] at hrows
        exact hs.covered c rows hrows d row₀ hrow₀ hu₀ hlive₀
    · obtain ⟨c', p, rfl, hphase, rfl⟩ := added_effect h hnone hrow
      have hidle := (hguard p hphase hu).1 c
      by_cases hc : c = c'
      · subst hc
        -- the call that committed the session revokes nothing
        cases h with
        | move h =>
            rw [show s.phases (Label.commit c).call = _ from hphase] at h
            cases h
        | issue c p' hphase' hfree =>
            simp only [State.commitStore, phases_move_self] at hrows
            cases hrows
        | revokeFamily c familyId now rows hphase' =>
            rw [hphase] at hphase'
            cases hphase'
        | revokeAll c userId now rows hphase' =>
            rw [hphase] at hphase'
            cases hphase'
      · rw [phases_of_ne h hc, hidle] at hrows
        cases hrows

/-! ## After the sign-out -/

/-- The sign-ins of a lineage are over: its refresh tokens are revoked and the access
tokens issued to it are behind the stored version. -/
structure SignedOut (C : Crypto τ) (f : ℕ × FamilyId) (s : State) : Prop where
  dead : DeadFamily RefreshToken.lineage RefreshToken.Live f s.store.token?
  stale : ∀ c p, s.phases c = .issued p → (p.row C).lineage = f →
    ∃ user, s.store.users.find? p.userId = some user ∧ user.publicId = p.user.publicId ∧
      p.user.tokenVersion < user.tokenVersion

/-- **No session of the lineage is committed any more.** -/
theorem SignedOut.not_committed {u : ℕ} {familyId : FamilyId}
    (hd : SignedOut C (u, familyId) s) (ho : Owned s) {c : ℕ}
    (hguard : SignOutGuard u s (.commit c)) {p : Issue} (hphase : s.phases c = .inserted p) :
    (p.row C).lineage ≠ (u, familyId) := by
  intro hlineage
  have hu : p.userId = u := congrArg Prod.fst hlineage
  obtain ⟨-, hnew, hlive⟩ := hguard p hphase hu
  cases hparent : p.parent with
  | some stored =>
      have hid := ho c p (by rw [hphase]; rfl) stored hparent
      have hstored : stored.lineage = (u, familyId) := (lineage_row hparent hid).symm.trans hlineage
      have hfound := hlive stored hparent
      rw [hstored, liveIn_eq_false hd.dead.2] at hfound
      cases hfound
  | none =>
      obtain ⟨d, row, hrow, heq⟩ := hd.dead.1
      simp only [newFamily, hphase, Phase.issue?, hparent, Option.all_some, Option.isSome_none,
        Bool.false_or, List.all_eq_true, decide_eq_true_eq] at hnew
      refine hnew row (List.mem_of_find?_eq_some hrow) ?_
      have hfamily : (p.row C).familyId = p.draw.familyId := by
        unfold Issue.row
        rw [hparent]
        rfl
      rw [← hfamily]
      exact (congrArg Prod.snd heq).trans (congrArg Prod.snd hlineage).symm

/-- A call that has issued a session had issued it, or commits it now. -/
theorem issued_effect {l : Label} (h : Effect C s l t) {c : ℕ} {p : Issue}
    (hp : t.phases c = .issued p) :
    s.phases c = .issued p ∨ l = .commit c ∧ s.phases c = .inserted p := by
  by_cases hc : c = l.call
  · subst hc
    cases h with
    | @move l phase hmove =>
        rw [phases_move_self] at hp
        generalize s.phases l.call = phase₀ at hmove
        cases hmove <;> cases hp
    | issue c p' hphase hfree =>
        simp only [Label.call, State.commitStore, phases_move_self, Phase.issued.injEq] at hp
        rw [hp] at hphase
        exact Or.inr ⟨rfl, hphase⟩
    | update c p' stored hphase hparent hfree =>
        simp only [Label.call, phases_move_self] at hp
        cases hp
    | mark c scope now matched rows hphase hfree hrows =>
        simp only [Label.call, phases_move_self] at hp
        cases hp
    | bump c userId now rows hphase hfree =>
        simp only [Label.call, phases_move_self] at hp
        cases hp
    | revokeFamily c familyId now rows hphase =>
        simp only [Label.call, State.commitStore, phases_move_self] at hp
        cases hp
    | revokeAll c userId now rows hphase =>
        simp only [Label.call, State.commitStore, phases_move_self] at hp
        cases hp
    | abort c hphase =>
        simp only [Label.call, phases_move_self] at hp
        cases hp
  · rw [phases_of_ne h hc] at hp
    exact Or.inl hp

/-- **A guarded step leaves the lineage signed out.** -/
theorem SignedOut.effect {u : ℕ} {familyId : FamilyId} (hd : SignedOut C (u, familyId) s)
    (ho : Owned s) {l : Label} (h : Effect C s l t) (hguard : SignOutGuard u s l) :
    SignedOut C (u, familyId) t := by
  constructor
  · refine hd.dead.keeps (keeps_effect lineage_revoke h) ?_
    intro d row hnone hrow
    obtain ⟨c, p, rfl, hphase, rfl⟩ := added_effect h hnone hrow
    exact hd.not_committed ho hguard hphase
  · intro c p hp hlineage
    rcases issued_effect h hp with hold | ⟨rfl, hphase⟩
    · obtain ⟨user, huser, hid, hversion⟩ := hd.stale c p hold hlineage
      obtain ⟨user', huser', hid', hversion'⟩ := user_effect h huser
      exact ⟨user', huser', hid'.trans hid, hversion.trans_le hversion'⟩
    · exact absurd hlineage (hd.not_committed ho hguard hphase)

/-- **The commit of `revoke_all_sessions`** signs out every lineage of the user. -/
theorem Standing.signedOut {u : ℕ} (hs : Standing u s) {c : ℕ} {now : Instant}
    {rows : List String} (hphase : s.phases c = .bumped u now rows)
    (h : Effect C s (.commit c) t) {familyId : FamilyId}
    (hoccurs : ∃ d row, s.store.token? d = some row ∧ row.lineage = (u, familyId)) :
    SignedOut C (u, familyId) t := by
  have hcovered : ∀ d row, s.store.token? d = some row → row.userId = u → row.Live → d ∈ rows := by
    refine hs.covered c rows ?_
    rw [hphase]
    exact if_pos rfl
  obtain ⟨d₀, row₀, hrow₀, hf₀⟩ := hoccurs
  obtain ⟨row₁, hrow₁, hlater₁⟩ := keeps_effect lineage_revoke h d₀ row₀ hrow₀
  refine ⟨⟨⟨d₀, row₁, hrow₁, hlater₁.family_eq.trans hf₀⟩, ?_⟩, ?_⟩
  all_goals
    cases h with
    | move h =>
        rw [show s.phases (Label.commit c).call = _ from hphase] at h
        cases h
    | issue c p hphase' hfree =>
        rw [hphase] at hphase'
        cases hphase'
    | revokeFamily c familyId' now' rows' hphase' =>
        rw [hphase] at hphase'
        cases hphase'
    | revokeAll c userId now' rows' hphase' => ?_
  · rw [hphase, Phase.bumped.injEq] at hphase'
    obtain ⟨rfl, rfl, rfl⟩ := hphase'
    intro d row hrow hlineage hlive
    have hrow : (revokeMarked s.store rows now).token? d = some row := hrow
    rw [revokeMarked, token?_revokeRows, Option.map_eq_some_iff] at hrow
    obtain ⟨old, hold, rfl⟩ := hrow
    split at hlive
    · cases hlive
    · rename_i hnot
      rw [if_neg hnot] at hlineage
      rw [tokenHash_of_token? hold, decide_eq_true_eq] at hnot
      exact hnot (hcovered d old hold (congrArg Prod.fst hlineage) hlive)
  · rw [hphase, Phase.bumped.injEq] at hphase'
    obtain ⟨rfl, rfl, rfl⟩ := hphase'
    intro c' p hp hlineage
    have hu : p.userId = u := congrArg Prod.fst hlineage
    have hissued : s.phases c' = .issued p := by
      by_cases hc : c' = c
      · subst hc
        simp only [State.commitStore, phases_move_self] at hp
        cases hp
      · exact (Function.update_of_ne hc _ _).symm.trans hp
    obtain ⟨user, huser, hid, hversion⟩ := hs.version c' p (by rw [hissued]; rfl)
    refine ⟨{ user with tokenVersion := user.tokenVersion + 1 }, ?_, hid,
      Nat.lt_succ_of_le hversion⟩
    show ((revokeMarked s.store rows now).bumpVersion u).users.find? p.userId = _
    rw [find?_bumpVersion, show (revokeMarked s.store rows now).users.find? p.userId = some user
      from huser, Option.map_some, if_pos hu]

/-- An access token behind the stored version is rejected. -/
theorem resolveAccessToken_of_stale {st : Store} {p : Issue} {user : User}
    (huser : st.users.find? p.userId = some user) (hid : user.publicId = p.user.publicId)
    (hversion : p.user.tokenVersion < user.tokenVersion) (now : Instant) :
    resolveAccessToken C st (p.session C).accessToken now = none := by
  unfold resolveAccessToken
  show (C.decode now (C.encode (claimsOf p.user p.organization p.role p.draw) _)).bind _ = none
  rw [C.decode_encode]
  split
  · rw [Option.bind_some, Option.bind_eq_none_iff]
    rintro ⟨userRow, membership, organization⟩ hfind
    rw [List.findSome?_eq_some_iff] at hfind
    obtain ⟨l₁, r, l₂, hrows, hr, -⟩ := hfind
    split at hr
    · rename_i hsubject
      -- the public id is unique, so the row found is the user's
      have hrow : r = (p.userId, user) := by
        refine UniqueTable.eq_of_unique (t := st.users) (k := fun u => some u.publicId)
          List.mem_cons_self ?_ (Table.find?_eq_some_iff.mp huser) (congrArg some hsubject)
          (congrArg some hid)
        rw [hrows]
        exact List.mem_append_right _ List.mem_cons_self
      rw [List.findSome?_eq_some_iff] at hr
      obtain ⟨m₁, m, m₂, -, hm, -⟩ := hr
      split at hm
      · rw [Option.bind_eq_some_iff] at hm
        obtain ⟨organization', -, hm⟩ := hm
        split at hm
        · rw [Option.some.injEq, Prod.mk.injEq] at hm
          have hne : user.tokenVersion ≠ p.user.tokenVersion := hversion.ne'
          simp [← hm.1, hrow, claimsOf, hne]
        · cases hm
      · cases hm
    · cases hr
  · rfl

/-! ## Every run -/

/-- `SignOutGuard`, seen from the calls of a list. -/
def signOutGuardOn (calls : List ℕ) (u : ℕ) (s : State) (l : Label) : Bool :=
  l.call ∈ calls && match l with
    | .commit c => (s.phases c).issue?.all fun p =>
        p.userId ≠ u || calls.all (fun c' => (s.phases c').revokes u = none) && newFamily s l &&
          p.parent.all fun stored => liveIn s.store stored.lineage
    | _ => true

/-- A run of the calls of a list is guarded where it is seen so from them. -/
theorem execution_of_calls {calls : List ℕ} {u : ℕ} {st : Store} {tr : List (State × Label)}
    (h : Execution (step C U requests) (fun s l => signOutGuardOn calls u s l = true)
      (State.initial st) tr s) :
    Execution (step C U requests) (SignOutGuard u) (State.initial st) tr s ∧
      ∀ c ∉ calls, s.phases c = .idle := by
  induction h with
  | nil => exact ⟨.nil, fun c _ => rfl⟩
  | @snoc tr t s l h hG hstep ih =>
      obtain ⟨ih, hidle⟩ := ih
      unfold signOutGuardOn at hG
      rw [Bool.and_eq_true, decide_eq_true_eq] at hG
      refine ⟨ih.snoc ?_ hstep, ?_⟩
      · cases l with
        | commit c =>
            intro p hphase hu
            have hG := hG.2
            simp only [hphase, Phase.issue?, Option.all_some, hu, ne_eq, not_true_eq_false,
              decide_false, Bool.false_or, Bool.and_eq_true, List.all_eq_true,
              decide_eq_true_eq] at hG
            refine ⟨?_, hG.1.2, ?_⟩
            · intro c'
              by_cases hc : c' ∈ calls
              · exact hG.1.1 c' hc
              · rw [hidle c' hc]
                rfl
            · intro stored hstored
              have hlive := hG.2
              rw [show p.parent = some stored from hstored] at hlive
              exact hlive
        | _ => trivial
      · intro c hc
        have hne : c ≠ l.call := by
          rintro rfl
          exact hc hG.1
        rw [phases_of_ne (effect_of_step hstep) hne]
        exact hidle c hc

/-- A sign-in, a refresh with its token, and a sign-out everywhere. -/
def refreshAndSignOut : ℕ → Request
  | 0 => .login "buyer@acme.com" "password" ⟨none, none⟩
  | 1 => .refresh "first" ⟨none, none⟩
  | _ => .revokeAll 1

/-- The family of the sign-in. -/
def firstFamily : FamilyId := ⟨"f-1", f1_ne_empty⟩

/-- The draws of its calls. -/
def signOutDraws : ℕ → Draw
  | 0 => ⟨"first", firstFamily, "j-1", 0, 0⟩
  | _ => ⟨"second", ⟨"f-2", f2_ne_empty⟩, "j-2", 1, 2⟩

end ProcureSignal.Auth.Transactions
