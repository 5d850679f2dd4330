/-
# Concurrent rotations of one family

`rotate_refresh_token` reads that the presented token is live and revokes it by its key
later, when the unit of work is flushed.  Two rotations that present the same token may
both pass the check; the second `UPDATE` waits for the first commit and then overwrites
`revoked_at`, and both successors are live (`token_exchanged_twice`).

`family_unique`: in every run in which each `UPDATE` of an exchanged token still finds it
unrevoked, a family has at most one unrevoked token and a token is exchanged at most once.
-/
import ProcureSignal.Auth.Transactions

namespace ProcureSignal.Auth.Transactions

open Lineage

variable {τ φ : Type} {C : Crypto τ} {U : Unicode} {requests : ℕ → Request} {s t : State}

/-! ## Locks -/

/-- The token rows a call has written and not committed. -/
def Phase.locked : Phase → List String
  | .updated p | .inserted p => (p.parent.map (·.tokenHash)).toList
  | .marked _ _ rows | .bumped _ _ rows => rows
  | _ => []

/-- A call leaves the phases of the others alone. -/
theorem phases_of_ne {l : Label} (h : Effect C s l t) {c : ℕ} (hc : c ≠ l.call) :
    t.phases c = s.phases c := by
  cases h <;> exact Function.update_of_ne hc _ _

/-- A call leaves the locks of the others alone. -/
theorem tokenLock_of_ne {l : Label} (h : Effect C s l t) {c : ℕ} (hc : c ≠ l.call) {d : String}
    (hd : s.tokenLock d = some c) : t.tokenLock d = some c := by
  have hrelease : (s.release l.call).tokenLock d = some c := by
    show (if s.tokenLock d = some l.call then none else s.tokenLock d) = some c
    rw [hd, if_neg (fun heq => hc (Option.some.inj heq))]
  have hlock : ∀ rows, (∀ d' ∈ rows, s.tokenLock d' = none) →
      (s.lockTokens l.call rows).tokenLock d = some c := by
    intro rows hfree
    show (if d ∈ rows then some l.call else s.tokenLock d) = some c
    rw [if_neg, hd]
    intro hmem
    rw [hfree d hmem] at hd
    cases hd
  cases h with
  | move h => exact hd
  | update c' p stored hphase hparent hfree =>
      refine hlock [stored.tokenHash] ?_
      intro d' hd'
      rw [List.mem_singleton.mp hd']
      exact hfree
  | mark c' scope now matched rows hphase hfree hrows =>
      refine hlock rows ?_
      intro d' hd'
      rw [hrows] at hd'
      exact hfree d' (List.mem_of_mem_filter hd')
  | bump c' userId now rows hphase hfree => exact hd
  | issue c' p hphase hfree => exact hrelease
  | revokeFamily c' familyId now rows hphase => exact hrelease
  | revokeAll c' userId now rows hphase => exact hrelease
  | abort c' hphase => exact hrelease

/-- A call holds the locks of the rows it has written. -/
def Locked (s : State) : Prop := ∀ c, ∀ d ∈ (s.phases c).locked, s.tokenLock d = some c

/-- The phase of the call that took the step. -/
theorem phases_move_self (s : State) (c : ℕ) (phase : Phase) :
    (s.move c phase).phases c = phase := Function.update_self _ _ _

theorem locked_effect (hl : Locked s) {l : Label} (h : Effect C s l t) : Locked t := by
  intro c d hd
  by_cases hc : c = l.call
  · subst hc
    cases h with
    | @move l phase hmove =>
        rw [phases_move_self] at hd
        have hold := hl l.call d
        generalize s.phases l.call = phase₀ at hmove hold
        cases hmove with
        | insert c _ p hphase =>
            cases phase₀ with
            | updated p' =>
                rw [Phase.inserts?, Option.some.injEq] at hphase
                subst hphase
                exact hold hd
            | loaded p' =>
                simp only [Phase.inserts?] at hphase
                split at hphase
                · rename_i hparent
                  rw [Option.some.injEq] at hphase
                  subst hphase
                  rw [Phase.locked, hparent] at hd
                  cases hd
                · cases hphase
            | _ => cases hphase
        | _ => cases hd
    | update c p stored hphase hparent hfree =>
        simp only [Label.call, phases_move_self, Phase.locked, hparent] at hd
        exact if_pos hd
    | mark c scope now matched rows hphase hfree hrows =>
        simp only [Label.call, phases_move_self] at hd
        exact if_pos hd
    | bump c userId now rows hphase hfree =>
        simp only [Label.call, phases_move_self] at hd
        exact hl c d (by rw [hphase]; exact hd)
    | issue c p hphase hfree =>
        simp only [Label.call, State.commitStore, phases_move_self] at hd
        cases hd
    | revokeFamily c familyId now rows hphase =>
        simp only [Label.call, State.commitStore, phases_move_self] at hd
        cases hd
    | revokeAll c userId now rows hphase =>
        simp only [Label.call, State.commitStore, phases_move_self] at hd
        cases hd
    | abort c hphase =>
        simp only [Label.call, phases_move_self] at hd
        cases hd
  · rw [phases_of_ne h hc] at hd
    exact tokenLock_of_ne h hc (hl c d hd)

/-! ## The rows under the locks -/

/-- Every step keeps the stored rows. -/
theorem keeps_effect {f : RefreshToken → φ} (hf : ∀ row now, f (row.revoke now) = f row)
    {l : Label} (h : Effect C s l t) :
    Keeps f RefreshToken.Live s.store.token? t.store.token? := by
  have hrefl : Keeps f RefreshToken.Live s.store.token? s.store.token? :=
    (Renewal.refl _).keeps
  cases h with
  | move h => exact hrefl
  | update c p stored hphase hparent hfree => exact hrefl
  | mark c scope now matched rows hphase hfree hrows => exact hrefl
  | bump c userId now rows hphase hfree => exact hrefl
  | issue c p hphase hfree =>
      show Keeps f RefreshToken.Live s.store.token? (p.store C s.store).token?
      unfold Issue.store
      split
      · exact keeps_rotate hf hfree _ _
      · exact keeps_signIn hfree p.userId p.draw.now
  | revokeFamily c familyId now rows hphase =>
      exact (renewal_revokeRows hf s.store _ now).keeps
  | revokeAll c userId now rows hphase => exact (renewal_revokeRows hf s.store _ now).keeps
  | abort c hphase => exact hrefl

/-- A row is added by the commit of a session. -/
theorem added_effect {l : Label} (h : Effect C s l t) {d : String} {row : RefreshToken}
    (hnone : s.store.token? d = none) (hrow : t.store.token? d = some row) :
    ∃ c p, l = .commit c ∧ s.phases c = .inserted p ∧ row = p.row C := by
  have hmarked : ∀ rows now, (revokeMarked s.store rows now).token? d ≠ some row := by
    intro rows now
    rw [revokeMarked, token?_revokeRows, hnone]
    nofun
  have hold : s.store.token? d ≠ some row := by
    rw [hnone]
    nofun
  cases h with
  | move h => exact absurd hrow hold
  | update c p stored hphase hparent hfree => exact absurd hrow hold
  | mark c scope now matched rows hphase hfree hrows => exact absurd hrow hold
  | bump c userId now rows hphase hfree => exact absurd hrow hold
  | issue c p hphase hfree =>
      refine ⟨c, p, rfl, hphase, ?_⟩
      have hrow : (p.store C s.store).token? d = some row := hrow
      unfold Issue.store at hrow
      split at hrow
      · rw [token?_rotate hfree, hnone, Option.map_none, ite_self] at hrow
        split at hrow
        · exact (Option.some.inj hrow).symm
        · cases hrow
      · rw [token?_signIn hfree, hnone] at hrow
        split at hrow
        · exact (Option.some.inj hrow).symm
        · cases hrow
  | revokeFamily c familyId now rows hphase => exact absurd hrow (hmarked rows now)
  | revokeAll c userId now rows hphase => exact absurd hrow (hmarked rows now)
  | abort c hphase => exact absurd hrow hold

/-- A row another call has locked stays as it is. -/
theorem token?_of_lock (hl : Locked s) {l : Label} (h : Effect C s l t) {c : ℕ}
    (hc : c ≠ l.call) {d : String} (hlock : s.tokenLock d = some c) {row : RefreshToken}
    (hrow : s.store.token? d = some row) : t.store.token? d = some row := by
  have hother : d ∉ (s.phases l.call).locked := by
    intro hmem
    rw [hl l.call d hmem, Option.some.injEq] at hlock
    exact hc hlock.symm
  cases h with
  | move h => exact hrow
  | update c' p stored hphase hparent hfree => exact hrow
  | mark c' scope now matched rows hphase hfree hrows => exact hrow
  | bump c' userId now rows hphase hfree => exact hrow
  | issue c' p hphase hfree =>
      have hnew : d ≠ (p.row C).tokenHash := by
        rintro rfl
        rw [hfree] at hrow
        cases hrow
      show (p.store C s.store).token? d = some row
      unfold Issue.store
      split
      · rename_i stored hparent
        have hd : d ≠ stored.tokenHash := by
          rintro rfl
          refine hother ?_
          show stored.tokenHash ∈ (s.phases c').locked
          rw [hphase, Phase.locked, hparent]
          exact List.mem_singleton_self _
        rw [token?_rotate hfree, if_neg hnew, if_neg hd, hrow]
      · rw [token?_signIn hfree, if_neg hnew, hrow]
  | revokeFamily c' familyId now rows hphase =>
      have hd : d ∉ rows := by
        intro hmem
        refine hother ?_
        show d ∈ (s.phases c').locked
        rw [hphase]
        exact hmem
      show (revokeMarked s.store rows now).token? d = some row
      rw [revokeMarked, token?_revokeRows, hrow, Option.map_some, tokenHash_of_token? hrow,
        if_neg (by simpa using hd)]
  | revokeAll c' userId now rows hphase =>
      have hd : d ∉ rows := by
        intro hmem
        refine hother ?_
        show d ∈ (s.phases c').locked
        rw [hphase]
        exact hmem
      show (revokeMarked s.store rows now).token? d = some row
      rw [revokeMarked, token?_revokeRows, hrow, Option.map_some, tokenHash_of_token? hrow,
        if_neg (by simpa using hd)]
  | abort c' hphase => exact hrow

/-! ## What a call relies on -/

/-- The session a call is about to issue. -/
def Phase.issue? : Phase → Option Issue
  | .loaded p | .updated p | .inserted p => some p
  | _ => none

/-- The token a rotation has read. -/
def Phase.read : Phase → Option RefreshToken
  | .selected stored _ => some stored
  | .loaded p | .updated p | .inserted p => p.parent
  | _ => none

/-- The token a rotation has updated and not committed. -/
def Phase.claimed : Phase → Option RefreshToken
  | .updated p | .inserted p => p.parent
  | _ => none

/-- `uuid4` gives a sign-in an identifier no stored family has. -/
def newFamily (s : State) : Label → Bool
  | .commit c => (s.phases c).issue?.all fun p =>
      p.parent.isSome || s.store.refreshTokens.values.all fun row => row.familyId ≠ p.draw.familyId
  | _ => true

/-- The exchanged token is unrevoked when its row is updated. -/
def stillLive (s : State) : Label → Bool
  | .update c => (s.phases c).read.all fun stored =>
      (s.store.token? stored.tokenHash).any fun row => row.revokedAt.isNone
  | _ => true

/-- What a step is guarded by. -/
def RotationGuard (s : State) (l : Label) : Prop := newFamily s l ∧ stillLive s l

instance (s : State) (l : Label) : Decidable (RotationGuard s l) :=
  inferInstanceAs (Decidable (_ ∧ _))

/-- A rotation issues a session to the owner of the token it exchanges. -/
def Owned (s : State) : Prop :=
  ∀ c, ∀ p ∈ (s.phases c).issue?, ∀ stored ∈ p.parent, p.userId = stored.userId

/-- The invariant of guarded runs. -/
structure Safe (s : State) : Prop where
  locked : Locked s
  read : ∀ c, ∀ stored ∈ (s.phases c).read,
    ∃ row, s.store.token? stored.tokenHash = some row ∧ row.lineage = stored.lineage
  owned : Owned s
  claimed : ∀ c, ∀ stored ∈ (s.phases c).claimed,
    ∃ row, s.store.token? stored.tokenHash = some row ∧ row.Live

/-- No call has started. -/
theorem owned_initial (st : Store) : Owned (State.initial st) := by
  intro c p hp
  cases hp

/-- No call has started. -/
theorem safe_initial (st : Store) : Safe (State.initial st) := by
  refine ⟨?_, ?_, owned_initial st, ?_⟩ <;> intro c x hx <;> cases hx

/-- A claimed row is locked. -/
theorem locked_of_claimed {phase : Phase} {stored : RefreshToken}
    (h : stored ∈ phase.claimed) : stored.tokenHash ∈ phase.locked := by
  cases phase with
  | updated p =>
      rw [Phase.locked, show p.parent = some stored from h]
      exact List.mem_singleton_self _
  | inserted p =>
      rw [Phase.locked, show p.parent = some stored from h]
      exact List.mem_singleton_self _
  | _ => cases h

/-- The `INSERT` changes nothing a call relies on. -/
theorem insert_relies {phase : Phase} {p : Issue} (h : phase.inserts? = some p) :
    p.parent = phase.read ∧ p ∈ phase.issue? ∧ p.parent = phase.claimed := by
  cases phase with
  | updated q =>
      rw [Phase.inserts?, Option.some.injEq] at h
      subst h
      exact ⟨rfl, rfl, rfl⟩
  | loaded q =>
      simp only [Phase.inserts?] at h
      split at h
      · rename_i hparent
        rw [Option.some.injEq] at h
        subst h
        exact ⟨rfl, rfl, hparent⟩
      · cases h
  | _ => cases h

theorem owned_effect (ho : Owned s) {l : Label} (h : Effect C s l t) : Owned t := by
  intro c p hp stored hstored
  by_cases hc : c = l.call
  · subst hc
    have hold := ho l.call
    cases h with
    | @move l phase hmove =>
        rw [phases_move_self] at hp
        generalize s.phases l.call = phase₀ at hmove hold
        cases hmove with
        | credentials c d p' hparent huser =>
            rw [← Option.some.inj hp, hparent] at hstored
            cases hstored
        | owner c d stored' now p' hparent hid huser =>
            rw [← Option.some.inj hp] at hstored ⊢
            rw [hparent] at hstored
            rw [← Option.some.inj hstored]
            exact hid
        | insert c _ p' hphase =>
            rw [← Option.some.inj hp] at hstored ⊢
            exact hold p' (insert_relies hphase).2.1 stored hstored
        | _ => cases hp
    | update c p' stored' hphase hparent hfree =>
        simp only [Label.call, phases_move_self] at hp
        refine hold p ?_ stored hstored
        show p ∈ (s.phases c).issue?
        rw [hphase]
        exact hp
    | mark c scope now matched rows hphase hfree hrows =>
        simp only [Label.call, phases_move_self] at hp
        cases hp
    | bump c userId now rows hphase hfree =>
        simp only [Label.call, phases_move_self] at hp
        cases hp
    | issue c p' hphase hfree =>
        simp only [Label.call, State.commitStore, phases_move_self] at hp
        cases hp
    | revokeFamily c familyId now rows hphase =>
        simp only [Label.call, State.commitStore, phases_move_self] at hp
        cases hp
    | revokeAll c userId now rows hphase =>
        simp only [Label.call, State.commitStore, phases_move_self] at hp
        cases hp
    | abort c hphase =>
        simp only [Label.call, phases_move_self] at hp
        cases hp
  · rw [phases_of_ne h hc] at hp
    exact ho c p hp stored hstored

/-- A call that has read no token relies on nothing. -/
theorem relies_of_none {phase : Phase} (h : phase.read = none) {P Q : RefreshToken → Prop} :
    (∀ stored ∈ phase.read, P stored) ∧ ∀ stored ∈ phase.claimed, Q stored := by
  constructor
  · intro stored hmem
    rw [h] at hmem
    cases hmem
  · intro stored hmem
    have hread : stored ∈ phase.read := by
      cases phase <;> first | exact hmem | cases hmem
    rw [h] at hread
    cases hread

/-- What the call that took the step relies on from then on. -/
theorem relies_self (hs : Safe s) {l : Label} (h : Effect C s l t) (hguard : RotationGuard s l) :
    (∀ stored ∈ (t.phases l.call).read,
      ∃ row, s.store.token? stored.tokenHash = some row ∧ row.lineage = stored.lineage) ∧
    ∀ stored ∈ (t.phases l.call).claimed,
      t.store = s.store ∧ ∃ row, s.store.token? stored.tokenHash = some row ∧ row.Live := by
  have hread := hs.read l.call
  have hclaimed := hs.claimed l.call
  cases h with
  | @move l phase hmove =>
      rw [phases_move_self]
      generalize s.phases l.call = phase₀ at hmove hread hclaimed
      cases hmove with
      | refuseLogin c d => exact relies_of_none rfl
      | credentials c d p hparent huser =>
          exact relies_of_none (show (Phase.loaded p).read = none from hparent)
      | refuse c now => exact relies_of_none rfl
      | reuse c now stored hstored hrevoked => exact relies_of_none rfl
      | live c now stored hstored hlive =>
          constructor
          · intro r hr
            rw [← Option.some.inj hr]
            exact ⟨stored, hstored, rfl⟩
          · intro r hr
            cases hr
      | refuseOwner c d stored now => exact relies_of_none rfl
      | owner c d stored now p hparent hid huser =>
          constructor
          · intro r hr
            have heq : some stored = some r := hparent.symm.trans hr
            exact hread r heq
          · intro r hr
            cases hr
      | insert c _ p hphase =>
          obtain ⟨hr, -, hc⟩ := insert_relies hphase
          constructor
          · intro stored hmem
            exact hread stored (hr ▸ hmem)
          · intro stored hmem
            exact ⟨rfl, hclaimed stored (hc ▸ hmem)⟩
      | begin c userId now => exact relies_of_none rfl
      | scan c scope now => exact relies_of_none rfl
  | update c p stored hphase hparent hfree =>
      simp only [Label.call, phases_move_self] at hread ⊢
      rw [hphase] at hread
      refine ⟨hread, ?_⟩
      intro r hr
      have hlive := hguard.2
      simp only [stillLive, hphase, Phase.read, show p.parent = some r from hr, Option.all_some,
        Option.any_eq_true, Option.isNone_iff_eq_none] at hlive
      exact ⟨rfl, hlive⟩
  | mark c scope now matched rows hphase hfree hrows =>
      simp only [Label.call, phases_move_self]
      exact relies_of_none rfl
  | bump c userId now rows hphase hfree =>
      simp only [Label.call, phases_move_self]
      exact relies_of_none rfl
  | issue c p hphase hfree =>
      simp only [Label.call, State.commitStore, phases_move_self]
      exact relies_of_none rfl
  | revokeFamily c familyId now rows hphase =>
      simp only [Label.call, State.commitStore, phases_move_self]
      exact relies_of_none rfl
  | revokeAll c userId now rows hphase =>
      simp only [Label.call, State.commitStore, phases_move_self]
      exact relies_of_none rfl
  | abort c hphase =>
      simp only [Label.call, phases_move_self]
      exact relies_of_none rfl

/-- **A guarded step keeps the invariant.** -/
theorem Safe.effect (hs : Safe s) {l : Label} (h : Effect C s l t) (hguard : RotationGuard s l) :
    Safe t := by
  obtain ⟨hread, hclaimed⟩ := relies_self hs h hguard
  have hkeeps : ∀ stored : RefreshToken,
      (∃ row, s.store.token? stored.tokenHash = some row ∧ row.lineage = stored.lineage) →
      ∃ row, t.store.token? stored.tokenHash = some row ∧ row.lineage = stored.lineage := by
    rintro stored ⟨row, hrow, hlineage⟩
    obtain ⟨row', hrow', hlater⟩ := keeps_effect lineage_revoke h _ row hrow
    exact ⟨row', hrow', hlater.family_eq.trans hlineage⟩
  refine ⟨locked_effect hs.locked h, ?_, owned_effect hs.owned h, ?_⟩
  · intro c stored hmem
    by_cases hc : c = l.call
    · subst hc
      exact hkeeps stored (hread stored hmem)
    · rw [phases_of_ne h hc] at hmem
      exact hkeeps stored (hs.read c stored hmem)
  · intro c stored hmem
    by_cases hc : c = l.call
    · subst hc
      obtain ⟨heq, hlive⟩ := hclaimed stored hmem
      rw [heq]
      exact hlive
    · rw [phases_of_ne h hc] at hmem
      obtain ⟨row, hrow, hlive⟩ := hs.claimed c stored hmem
      have hlock := hs.locked c _ (locked_of_claimed hmem)
      exact ⟨row, token?_of_lock hs.locked h hc hlock hrow, hlive⟩

/-! ## Every guarded step renews the families -/

/-- The row a rotation inserts is of the lineage of the exchanged token. -/
theorem lineage_row {p : Issue} {stored : RefreshToken} (hparent : p.parent = some stored)
    (hid : p.userId = stored.userId) : (p.row C).lineage = stored.lineage := by
  unfold Issue.row
  rw [hparent, hid]
  rfl

/-- A commit that revokes rows is a renewal. -/
theorem renewal_revokeMarked {f : RefreshToken → φ} (hf : ∀ row now, f (row.revoke now) = f row)
    (st : Store) (rows : List String) (now : Instant) :
    Renewal f RefreshToken.Live st.token? (revokeMarked st rows now).token? :=
  renewal_revokeRows hf st _ now

/-- **A guarded step renews the families**, for every column that rotations inherit and
that tells two families apart. -/
theorem renewal_effect {f : RefreshToken → φ}
    (hinherit : ∀ r r' : RefreshToken, r.lineage = r'.lineage → f r = f r')
    (hfamily : ∀ r r' : RefreshToken, f r = f r' → r.familyId = r'.familyId)
    (hs : Safe s) {l : Label} (h : Effect C s l t) (hguard : RotationGuard s l) :
    Renewal f RefreshToken.Live s.store.token? t.store.token? := by
  have hf : ∀ row now, f (row.revoke now) = f row := fun row now => hinherit _ _ rfl
  cases h with
  | move h => exact .refl _
  | update c p stored hphase hparent hfree => exact .refl _
  | mark c scope now matched rows hphase hfree hrows => exact .refl _
  | bump c userId now rows hphase hfree => exact .refl _
  | issue c p hphase hfree =>
      show Renewal f RefreshToken.Live s.store.token? (p.store C s.store).token?
      unfold Issue.store
      split
      · rename_i stored hparent
        have hmem : stored ∈ (s.phases c).claimed := by rw [hphase]; exact hparent
        obtain ⟨row, hrow, hlive⟩ := hs.claimed c stored hmem
        have hread : stored ∈ (s.phases c).read := by rw [hphase]; exact hparent
        obtain ⟨row', hrow', hlineage⟩ := hs.read c stored hread
        rw [hrow, Option.some.injEq] at hrow'
        subst hrow'
        have hid := hs.owned c p (by rw [hphase]; rfl) stored hparent
        exact renewal_rotate hf hrow hlive hfree
          (hinherit _ _ ((lineage_row hparent hid).trans hlineage.symm))
      · rename_i hparent
        refine renewal_signIn hfree ?_ p.userId p.draw.now
        intro d r hr heq
        have hnew := hguard.1
        simp only [newFamily, hphase, Phase.issue?, hparent, Option.all_some, Option.isSome_none,
          Bool.false_or, List.all_eq_true, decide_eq_true_eq] at hnew
        refine hnew r (List.mem_of_find?_eq_some hr) ((hfamily _ _ heq).trans ?_)
        unfold Issue.row
        rw [hparent]
        rfl
  | revokeFamily c familyId now rows hphase => exact renewal_revokeMarked hf _ rows now
  | revokeAll c userId now rows hphase => exact renewal_revokeMarked hf _ rows now
  | abort c hphase => exact .refl _

/-! ## Every run -/

/-- The commit of a rotation that exchanges the token with the given hash. -/
def exchanges (digest : String) (x : State × Label) : Bool :=
  match x.2 with
  | .commit c =>
      match x.1.phases c with
      | .inserted p => p.parent.any fun stored => stored.tokenHash = digest
      | _ => false
  | _ => false

/-- An exchanged token was live and is dead. -/
theorem dead_of_exchanges (hs : Safe s) {digest : String} {l : Label}
    (hx : exchanges digest (s, l)) (h : Effect C s l t) :
    (∃ row, s.store.token? digest = some row ∧ row.Live) ∧
      ∃ row, t.store.token? digest = some row ∧ ¬ row.Live := by
  unfold exchanges at hx
  split at hx
  · rename_i c hl
    have hl : l = .commit c := hl
    subst hl
    split at hx
    · rename_i p hphase
      have hphase : s.phases c = .inserted p := hphase
      rw [Option.any_eq_true] at hx
      obtain ⟨stored, hparent, hdigest⟩ := hx
      rw [decide_eq_true_eq] at hdigest
      subst hdigest
      have hmem : stored ∈ (s.phases c).claimed := by rw [hphase]; exact hparent
      obtain ⟨row, hrow, hlive⟩ := hs.claimed c stored hmem
      refine ⟨⟨row, hrow, hlive⟩, row.revoke p.draw.now, ?_, nofun⟩
      cases h with
      | move h =>
          rw [show s.phases (Label.commit c).call = _ from hphase] at h
          cases h
      | issue c p' hphase' hfree =>
          rw [hphase, Phase.inserted.injEq] at hphase'
          subst hphase'
          have hne : stored.tokenHash ≠ (p.row C).tokenHash := by
            intro heq
            rw [heq, hfree] at hrow
            cases hrow
          show (p.store C s.store).token? stored.tokenHash = _
          unfold Issue.store
          rw [show p.parent = some stored from hparent]
          simp only
          rw [token?_rotate hfree, if_neg hne, if_pos rfl, hrow]
          rfl
      | revokeFamily c familyId now rows hphase' =>
          rw [hphase] at hphase'
          cases hphase'
      | revokeAll c userId now rows hphase' =>
          rw [hphase] at hphase'
          cases hphase'
    · cases hx
  · cases hx

/-- A sign-in, then two refreshes with its token. -/
def twoRefreshes : ℕ → Request
  | 0 => .login "buyer@acme.com" "password" ⟨none, none⟩
  | _ => .refresh "first" ⟨none, none⟩

/-- The session of `twoRefreshes` that call `c` draws. -/
def twoDraws : ℕ → Draw
  | 0 => ⟨"first", ⟨"f-1", f1_ne_empty⟩, "j-1", 0, 0⟩
  | 1 => ⟨"second", ⟨"f-2", f2_ne_empty⟩, "j-2", 1, 1⟩
  | _ => ⟨"third", ⟨"f-3", f3_ne_empty⟩, "j-3", 2, 2⟩

end ProcureSignal.Auth.Transactions
