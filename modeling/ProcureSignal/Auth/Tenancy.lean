/-
# Memberships under concurrent registrations

Registrations and invitations as database transactions under `READ COMMITTED`, any number
of them, their statements interleaved in any order.  A registration reads twice (the address,
the invitation) and is flushed and committed once; the unique constraints decide the commit.

* `membership_provenance`: every membership is the founder's, or was redeemed from an
  invitation to the address of its user, and an invitation is redeemed at most once.
* `role_bounded`: a chain of invitations that starts at a member gives no stronger role than
  that member's, unless the member is an admin; then the stronger role is the owner's
  (`admin_mints_owner`).
-/
import ProcureSignal.Auth.Registration
import ProcureSignal.Library.Execution

namespace ProcureSignal.Auth.Tenancy

/-! ## The state -/

/-- One call. -/
inductive Request (τ : Type)
  | register (email : String) (invitationToken : Option String) (context : ClientContext)
  | invite (token : τ) (email role : String)
  deriving DecidableEq, Repr

/-- Where a call is. -/
inductive Phase
  | idle
  /-- no account has the address. -/
  | checked
  /-- the unit of work of a registration is ready. -/
  | placed (r : Registration)
  /-- the unit of work of `invite` is ready. -/
  | offering (invitation : OrganizationInvitation)
  | returned
  | refused
  | dead
  deriving DecidableEq, Repr

/-- Committed tables and the local state of every call. -/
structure State where
  store : Tenants
  phases : ℕ → Phase

/-- Nobody has registered. -/
def State.initial : State := ⟨Tenants.empty, fun _ => .idle⟩

/-- The next statement of call `c`. -/
inductive Label
  | check (c : ℕ)
  | place (c : ℕ) (d : RegistrationDraw)
  | authorize (c : ℕ) (plaintext : String) (now : Instant)
  | commit (c : ℕ)
  | abort (c : ℕ)
  deriving DecidableEq, Repr

/-- The call a label belongs to. -/
def Label.call : Label → ℕ
  | .check c | .place c _ | .authorize c _ _ | .commit c | .abort c => c

/-- Move a call. -/
def State.move (s : State) (c : ℕ) (phase : Phase) : State :=
  { s with phases := Function.update s.phases c phase }

/-- Commit. -/
def State.commitStore (s : State) (c : ℕ) (st : Tenants) : State :=
  { s.move c .returned with store := st }

/-! ## The statements -/

variable {τ : Type} (C : Crypto τ) (U : Unicode) (requests : ℕ → Request τ)

/-- The `SELECT` of an account with the address. -/
def check (c : ℕ) (s : State) : Option State :=
  match requests c, s.phases c with
  | .register email _ _, .idle =>
      if registered s.store.toStore (normalizeEmail U email) then some (s.move c .refused)
      else some (s.move c .checked)
  | _, _ => none

/-- The `SELECT` of the invitation, and what is decided on it. -/
def placeCall (c : ℕ) (d : RegistrationDraw) (s : State) : Option State :=
  match requests c, s.phases c with
  | .register email invitationToken context, .checked =>
      match place C U s.store (normalizeEmail U email) invitationToken d with
      | .error _ => some (s.move c .refused)
      | .ok placement => some (s.move c (.placed ⟨normalizeEmail U email, placement, context, d⟩))
  | _, _ => none

/-- The dependencies of `invite`, and the invitation it adds. -/
def authorize (c : ℕ) (plaintext : String) (now : Instant) (s : State) : Option State :=
  match requests c, s.phases c with
  | .invite token email role, .idle =>
      match offer C U s.store.toStore token email role plaintext now with
      | none => some (s.move c .refused)
      | some invitation => some (s.move c (.offering invitation))
  | _, _ => none

/-- The commit of a call; a violated constraint rolls it back. -/
def commit (c : ℕ) (s : State) : Option State :=
  match s.phases c with
  | .placed r =>
      match r.commit? C s.store with
      | some (st, _) => some (s.commitStore c st)
      | none => some (s.move c .dead)
  | .offering invitation =>
      match s.store.invite? invitation with
      | some st => some (s.commitStore c st)
      | none => some (s.move c .dead)
  | _ => none

/-- The call is rolled back. -/
def abort (c : ℕ) (s : State) : Option State :=
  match s.phases c with
  | .returned | .refused | .dead => none
  | _ => some (s.move c .dead)

/-- One statement of one call. -/
def step (s : State) : Label → Option State
  | .check c => check U requests c s
  | .place c d => placeCall C U requests c d s
  | .authorize c plaintext now => authorize C U requests c plaintext now s
  | .commit c => commit C c s
  | .abort c => abort c s

/-! ## What a label does -/

/-- No unit of work is ready. -/
def Phase.Resting : Phase → Prop
  | .placed _ | .offering _ => False
  | _ => True

/-- The invitation a call is about to store or to redeem. -/
def Phase.invitation? : Phase → Option OrganizationInvitation
  | .placed r => r.placement.invitation?
  | .offering invitation => some invitation
  | _ => none

/-- **What a label does.** -/
inductive Effect (s : State) : Label → State → Prop
  | rest {l : Label} {phase : Phase} (hrest : phase.Resting) : Effect s l (s.move l.call phase)
  | place (c : ℕ) (d : RegistrationDraw) (email : String) (token : Option String)
      (context : ClientContext) (placement : Placement)
      (hrequest : requests c = .register email token context)
      (hplace : place C U s.store (normalizeEmail U email) token d = .ok placement) :
      Effect s (.place c d)
        (s.move c (.placed ⟨normalizeEmail U email, placement, context, d⟩))
  | offer (c : ℕ) (token : τ) (email role plaintext : String) (now : Instant)
      (invitation : OrganizationInvitation)
      (hoffer : offer C U s.store.toStore token email role plaintext now = some invitation) :
      Effect s (.authorize c plaintext now) (s.move c (.offering invitation))
  | enrol (c : ℕ) (r : Registration) (st : Tenants) (issued : IssuedSession τ)
      (hphase : s.phases c = .placed r) (hcommit : r.commit? C s.store = some (st, issued)) :
      Effect s (.commit c) (s.commitStore c st)
  | invite (c : ℕ) (invitation : OrganizationInvitation) (invitations : InvitationTable)
      (hphase : s.phases c = .offering invitation)
      (hinsert : s.store.invitations.insert? invitation = some invitations) :
      Effect s (.commit c) (s.commitStore c { s.store with invitations := invitations })

variable {C U requests} {s t : State}

/-- A move to a phase without a unit of work. -/
private theorem effect_rest (l : Label) {phase : Phase}
    (h : some (s.move l.call phase) = some t) (hrest : phase.Resting) : Effect C U requests s l t := by
  rw [← Option.some.inj h]
  exact .rest hrest

/-- **Every step is one of the effects.** -/
theorem effect_of_step {l : Label} (h : step C U requests s l = some t) :
    Effect C U requests s l t := by
  cases l with
  | check c =>
      simp only [step, check] at h
      split at h
      · split at h
        · exact effect_rest (.check c) h trivial
        · exact effect_rest (.check c) h trivial
      · cases h
  | place c d =>
      simp only [step, placeCall] at h
      split at h
      · rename_i email token context hrequest hphase
        split at h
        · exact effect_rest (.place c d) h trivial
        · rename_i placement hplace
          rw [← Option.some.inj h]
          exact .place c d email token context placement hrequest hplace
      · cases h
  | authorize c plaintext now =>
      simp only [step, authorize] at h
      split at h
      · rename_i token email role hrequest hphase
        split at h
        · exact effect_rest (.authorize c plaintext now) h trivial
        · rename_i invitation hoffer
          rw [← Option.some.inj h]
          exact .offer c token email role plaintext now invitation hoffer
      · cases h
  | commit c =>
      simp only [step, commit] at h
      split at h
      · rename_i r hphase
        split at h
        · rename_i st issued hcommit
          rw [← Option.some.inj h]
          exact .enrol c r st issued hphase hcommit
        · exact effect_rest (.commit c) h trivial
      · rename_i invitation hphase
        split at h
        · rename_i st hinvite
          unfold Tenants.invite? at hinvite
          obtain ⟨invitations, hinsert, rfl⟩ := Option.map_eq_some_iff.mp hinvite
          rw [← Option.some.inj h]
          exact .invite c invitation invitations hphase hinsert
        · exact effect_rest (.commit c) h trivial
      · cases h
  | abort c =>
      simp only [step, abort] at h
      split at h
      · cases h
      · cases h
      · cases h
      · exact effect_rest (.abort c) h trivial

/-- A call leaves the phases of the others alone. -/
theorem phases_of_ne {l : Label} (h : Effect C U requests s l t) {c : ℕ} (hc : c ≠ l.call) :
    t.phases c = s.phases c := by
  cases h <;> exact Function.update_of_ne hc _ _

/-- A unit of work that is ready after a step was ready before, or was just prepared. -/
theorem ready_of_effect {l : Label} (h : Effect C U requests s l t) {c : ℕ} {phase : Phase}
    (hphase : t.phases c = phase) (hready : ¬ phase.Resting) :
    s.phases c = phase ∨
      (∃ d email token context placement, l = .place c d ∧
        requests c = .register email token context ∧
        place C U s.store (normalizeEmail U email) token d = .ok placement ∧
        phase = .placed ⟨normalizeEmail U email, placement, context, d⟩ ∧ t.store = s.store) ∨
      ∃ token email role plaintext now invitation,
        offer C U s.store.toStore token email role plaintext now = some invitation ∧
        phase = .offering invitation ∧ t.store = s.store := by
  by_cases hc : c = l.call
  · subst hc
    cases h with
    | @rest l phase' hrest =>
        have heq : phase' = phase := (Function.update_self _ _ _).symm.trans hphase
        exact absurd (heq ▸ hrest) hready
    | place c d email token context placement hrequest hplace =>
        refine Or.inr (Or.inl ⟨d, email, token, context, placement, rfl, hrequest, hplace, ?_, rfl⟩)
        exact hphase.symm.trans (Function.update_self _ _ _)
    | offer c token email role plaintext now invitation hoffer =>
        refine Or.inr (Or.inr ⟨token, email, role, plaintext, now, invitation, hoffer, ?_, rfl⟩)
        exact hphase.symm.trans (Function.update_self _ _ _)
    | enrol c r st issued hphase' hcommit =>
        have heq : phase = .returned := hphase.symm.trans (Function.update_self _ _ _)
        exact absurd (heq ▸ trivial) hready
    | invite c invitation invitations hphase' hinsert =>
        have heq : phase = .returned := hphase.symm.trans (Function.update_self _ _ _)
        exact absurd (heq ▸ trivial) hready
  · rw [phases_of_ne h hc] at hphase
    exact Or.inl hphase

/-! ## Growth of the tables -/

/-- The tables after a step hold the rows before it; an invitation may be accepted. -/
structure Grows (st st' : Tenants) : Prop where
  users : st'.users.Extends st.users.toTable
  organizations : st'.organizations.Extends st.organizations.toTable
  memberships : st'.memberships.Extends st.memberships
  invitations : ∀ id row, st.invitations.find? id = some row →
    ∃ accepted, st'.invitations.find? id = some { row with acceptedAt := accepted } ∧
      (row.acceptedAt ≠ none → accepted ≠ none)

/-- Nothing is written. -/
theorem Grows.refl (st : Tenants) : Grows st st :=
  ⟨.refl _, .refl _, .refl _, fun _ row hrow => ⟨row.acceptedAt, hrow, id⟩⟩

/-- The invitations after a registration. -/
theorem find?_invitations (r : Registration) (st : Tenants) (id : ℕ) :
    (r.invitations st).find? id = (st.invitations.find? id).map fun row =>
      if r.placement.redeemed = some id then
        { row with acceptedAt := some r.draw.acceptedAt } else row := by
  unfold Registration.invitations
  cases hplacement : r.placement with
  | founded organization => simp [Placement.redeemed]
  | invited i invitation organization =>
      show (st.invitations.toTable.modify _).find? id = _
      rw [Table.find?_modify]
      simp only [Placement.redeemed, Option.some.injEq, decide_eq_true_eq, @eq_comm _ i id]

/-- Every step lets the tables grow. -/
theorem grows_effect {l : Label} (h : Effect C U requests s l t) : Grows s.store t.store := by
  cases h with
  | rest hrest => exact .refl _
  | place c d email token context placement hrequest hplace => exact .refl _
  | offer c token email role plaintext now invitation hoffer => exact .refl _
  | enrol c r st issued hphase hcommit =>
      obtain ⟨horganizations, ⟨hfree, husers⟩, hmemberships, hinvitations⟩ := commit?_eq_some hcommit
      refine ⟨?_, ?_, ?_, ?_⟩
      · show st.users.toTable.Extends s.store.users.toTable
        rw [husers]
        exact Table.extends_insert _ _
      · show st.organizations.toTable.Extends s.store.organizations.toTable
        unfold Registration.organizations? at horganizations
        split at horganizations
        · obtain ⟨hfree', heq⟩ := UniqueTable.insert?_eq_some_iff.mp horganizations
          rw [heq]
          exact Table.extends_insert _ _
        · rw [← Option.some.inj horganizations]
          exact .refl _
      · show st.memberships.Extends s.store.memberships
        rw [hmemberships]
        exact Table.extends_insert _ _
      · intro id row hrow
        show ∃ accepted, st.invitations.find? id = _ ∧ _
        rw [hinvitations, find?_invitations, hrow]
        by_cases hid : r.placement.redeemed = some id
        · exact ⟨some r.draw.acceptedAt, by rw [Option.map_some, if_pos hid], fun _ => nofun⟩
        · exact ⟨row.acceptedAt, by rw [Option.map_some, if_neg hid], fun hne => hne⟩
  | invite c invitation invitations hphase hinsert =>
      obtain ⟨hfree, heq⟩ := UniqueTable.insert?_eq_some_iff.mp hinsert
      refine ⟨.refl _, .refl _, .refl _, ?_⟩
      intro id row hrow
      refine ⟨row.acceptedAt, ?_, fun hne => hne⟩
      show invitations.find? id = some row
      rw [heq]
      exact Table.find?_insert_of_eq_some hrow

/-! ## What a registration rests on -/

/-- What the history says of a registration that call `c` has ready. -/
structure Placed (U : Unicode) (requests : ℕ → Request τ) (tr : List (State × Label)) (c : ℕ)
    (r : Registration) : Prop where
  address : ∃ email token, requests c = .register email token r.context ∧
    r.address = normalizeEmail U email
  redeemed : ∀ id invitation organization, r.placement = .invited id invitation organization →
    invitation.email = r.address ∧ invitation.acceptedAt = none ∧
      ∃ q ∈ tr, q.2 = .place c r.draw ∧ q.1.store.invitations.find? id = some invitation ∧
        r.draw.now < invitation.expiresAt

/-- A longer history says the same. -/
theorem Placed.cons {tr : List (State × Label)} {c : ℕ} {r : Registration}
    (h : Placed U requests tr c r) (x : State × Label) : Placed U requests (x :: tr) c r := by
  refine ⟨h.address, ?_⟩
  intro id invitation organization hplacement
  obtain ⟨hemail, haccepted, q, hq, hrest⟩ := h.redeemed id invitation organization hplacement
  exact ⟨hemail, haccepted, q, List.mem_cons_of_mem x hq, hrest⟩

/-- The invariant of runs. -/
structure Consistent (U : Unicode) (requests : ℕ → Request τ) (tr : List (State × Label))
    (s : State) : Prop where
  placed : ∀ c r, s.phases c = .placed r → Placed U requests tr c r
  /-- a ready registration holds its invitation as it was before any acceptance -/
  current : ∀ c r id invitation organization, s.phases c = .placed r →
    r.placement = .invited id invitation organization →
    ∃ row, s.store.invitations.find? id = some row ∧ invitation = { row with acceptedAt := none }
  /-- an accepted invitation has its user -/
  accepted : ∀ id row, s.store.invitations.find? id = some row → row.acceptedAt ≠ none →
    ∃ i user, s.store.users.find? i = some user ∧ user.email = row.email
  offered : ∀ c invitation, s.phases c = .offering invitation → invitation.acceptedAt = none

/-- Nobody has registered. -/
theorem consistent_initial : Consistent U requests [] State.initial := by
  refine ⟨?_, ?_, ?_, ?_⟩
  · intro c r hphase
    cases hphase
  · intro c r id invitation organization hphase
    cases hphase
  · intro id row hrow
    cases hrow
  · intro c invitation hphase
    cases hphase

/-- **A committed registration** found its invitation as it is in the table: unaccepted. -/
theorem Consistent.unaccepted {tr : List (State × Label)} (hs : Consistent U requests tr s)
    {c : ℕ} {r : Registration} {st : Tenants} {issued : IssuedSession τ}
    (hphase : s.phases c = .placed r) (hcommit : r.commit? C s.store = some (st, issued))
    {id : ℕ} {invitation : OrganizationInvitation} {organization : Organization}
    (hplacement : r.placement = .invited id invitation organization) :
    s.store.invitations.find? id = some invitation := by
  obtain ⟨row, hrow, rfl⟩ := hs.current c r id invitation organization hphase hplacement
  obtain ⟨-, ⟨hfree, -⟩, -, -⟩ := commit?_eq_some hcommit
  have haddress := ((hs.placed c r hphase).redeemed id _ organization hplacement).1
  have hnone : row.acceptedAt = none := by
    by_contra hne
    obtain ⟨i, user, huser, hemail⟩ := hs.accepted id row hrow hne
    -- the user of the accepted invitation holds the address
    refine hfree (fun u => some u.email) (by simp) r.address rfl (List.mem_filterMap.mpr ?_)
    refine ⟨user, Table.mem_values.mpr ⟨i, Table.find?_eq_some_iff.mp huser⟩, ?_⟩
    rw [hemail]
    exact congrArg some haddress
  rw [hrow, ← hnone]

/-- **A step keeps the invariant.** -/
theorem Consistent.effect (hU : U.LowerLaws) {tr : List (State × Label)}
    (hs : Consistent U requests tr s) {l : Label} (h : Effect C U requests s l t) :
    Consistent U requests ((s, l) :: tr) t := by
  have hgrows := grows_effect h
  refine ⟨?_, ?_, ?_, ?_⟩
  · intro c r hphase
    rcases ready_of_effect h hphase (fun hrest => hrest) with
      hold | ⟨d, email, token, context, placement, hl, hrequest, hplace, heq, hstore⟩ |
        ⟨_, _, _, _, _, _, _, heq, _⟩
    · exact (hs.placed c r hold).cons _
    · rw [Phase.placed.injEq] at heq
      subst heq
      refine ⟨⟨email, token, hrequest, rfl⟩, ?_⟩
      intro id invitation organization hplacement
      rcases place_eq_ok hplace with ⟨organization', hfounded⟩ |
        ⟨id', invitation', organization', hinvited, hfind, hnow, haccepted, hemail⟩
      · have hplacement : placement = .invited id invitation organization := hplacement
        rw [hfounded] at hplacement
        cases hplacement
      · have hplacement : placement = .invited id invitation organization := hplacement
        rw [hinvited, Placement.invited.injEq] at hplacement
        obtain ⟨rfl, rfl, rfl⟩ := hplacement
        refine ⟨?_, haccepted, (s, l), List.mem_cons_self, hl, hfind, hnow⟩
        rw [hemail, normalizeEmail_normalizeEmail hU]
    · cases heq
  · intro c r id invitation organization hphase hplacement
    have hkeep : ∀ row, s.store.invitations.find? id = some row →
        invitation = { row with acceptedAt := none } →
        ∃ row, t.store.invitations.find? id = some row ∧
          invitation = { row with acceptedAt := none } := by
      intro row hrow heq
      obtain ⟨accepted, hrow', -⟩ := hgrows.invitations id row hrow
      exact ⟨_, hrow', heq⟩
    rcases ready_of_effect h hphase (fun hrest => hrest) with
      hold | ⟨d, email, token, context, placement, hl, hrequest, hplace, heq, hstore⟩ |
        ⟨_, _, _, _, _, _, _, heq, _⟩
    · obtain ⟨row, hrow, heq⟩ := hs.current c r id invitation organization hold hplacement
      exact hkeep row hrow heq
    · rw [Phase.placed.injEq] at heq
      subst heq
      have hplacement : placement = .invited id invitation organization := hplacement
      rcases place_eq_ok hplace with ⟨organization', hfounded⟩ |
        ⟨id', invitation', organization', hinvited, hfind, hnow, haccepted, hemail⟩
      · rw [hfounded] at hplacement
        cases hplacement
      · rw [hinvited, Placement.invited.injEq] at hplacement
        obtain ⟨rfl, rfl, rfl⟩ := hplacement
        exact hkeep invitation' hfind (by rw [← haccepted])
    · cases heq
  · intro id row hrow haccepted
    cases h with
    | rest hrest => exact hs.accepted id row hrow haccepted
    | place c d email token context placement hrequest hplace =>
        exact hs.accepted id row hrow haccepted
    | offer c token email role plaintext now invitation hoffer =>
        exact hs.accepted id row hrow haccepted
    | enrol c r st issued hphase hcommit =>
        obtain ⟨-, ⟨hfree, husers⟩, -, hinvitations⟩ := commit?_eq_some hcommit
        have hrow : st.invitations.find? id = some row := hrow
        rw [hinvitations, find?_invitations, Option.map_eq_some_iff] at hrow
        obtain ⟨row₀, hrow₀, hrow⟩ := hrow
        split at hrow
        · rename_i hredeemed
          obtain ⟨invitation, organization, hplacement⟩ := exists_of_redeemed hredeemed
          have hfind := hs.unaccepted hphase hcommit hplacement
          rw [hrow₀, Option.some.injEq] at hfind
          refine ⟨s.store.users.nextId, r.user, ?_, ?_⟩
          · show st.users.find? _ = _
            rw [husers]
            show (s.store.users.toTable.insert r.user).find? _ = _
            rw [Table.find?_insert, if_pos rfl]
          · rw [← hrow, hfind]
            exact ((hs.placed c r hphase).redeemed id _ _ hplacement).1.symm
        · subst hrow
          obtain ⟨i, user, huser, hemail⟩ := hs.accepted id row₀ hrow₀ haccepted
          exact ⟨i, user, hgrows.users i user huser, hemail⟩
    | invite c invitation invitations hphase hinsert =>
        obtain ⟨hfree, heq⟩ := UniqueTable.insert?_eq_some_iff.mp hinsert
        have hrow : invitations.find? id = some row := hrow
        rw [heq] at hrow
        have hrow : (s.store.invitations.toTable.insert invitation).find? id = some row := hrow
        rw [Table.find?_insert] at hrow
        split at hrow
        · rw [Option.some.injEq] at hrow
          rw [← hrow, hs.offered c invitation hphase] at haccepted
          exact absurd rfl haccepted
        · exact hs.accepted id row hrow haccepted
  · intro c invitation hphase
    rcases ready_of_effect h hphase (fun hrest => hrest) with
      hold | ⟨_, _, _, _, _, _, _, _, heq, _⟩ | ⟨_, _, _, _, _, _, hoffer, heq, _⟩
    · exact hs.offered c invitation hold
    · cases heq
    · rw [Phase.offering.injEq] at heq
      subst heq
      obtain ⟨-, -, -, -, -, hnone⟩ := offer_eq_some hoffer
      exact hnone

/-! ## Provenance -/

/-- The registration a step commits, and the membership it adds. -/
def admission (C : Crypto τ) (x : State × Label) : Option (Registration × Membership) :=
  match x.2 with
  | .commit c =>
      match x.1.phases c with
      | .placed r =>
          (r.commit? C x.1.store).map fun _ => (r, r.membership x.1.store.toStore)
      | _ => none
  | _ => none

/-- The step redeems the invitation under the key. -/
def redeems (C : Crypto τ) (id : ℕ) (x : State × Label) : Bool :=
  (admission C x).any fun a => a.1.placement.redeemed = some id

/-- What a committed registration did. -/
theorem admission_eq_some (U : Unicode) (requests : ℕ → Request τ) {l : Label} {r : Registration} {m : Membership}
    (h : admission C (s, l) = some (r, m)) :
    ∃ c st issued, l = .commit c ∧ s.phases c = .placed r ∧
      r.commit? C s.store = some (st, issued) ∧ m = r.membership s.store.toStore ∧
      step C U requests s l = some (s.commitStore c st) := by
  unfold admission at h
  simp only at h
  split at h
  · rename_i c
    split at h
    · rename_i r' hphase
      obtain ⟨⟨st, issued⟩, hcommit, heq⟩ := Option.map_eq_some_iff.mp h
      rw [Prod.mk.injEq] at heq
      obtain ⟨rfl, rfl⟩ := heq
      refine ⟨c, st, issued, rfl, hphase, hcommit, rfl, ?_⟩
      simp only [step, commit, hphase, hcommit]
    · cases h
  · cases h

/-- A step that commits no registration leaves the memberships alone. -/
theorem memberships_of_admission {l : Label} (h : Effect C U requests s l t)
    (hnone : admission C (s, l) = none) : t.store.memberships = s.store.memberships := by
  cases h with
  | rest hrest => rfl
  | place c d email token context placement hrequest hplace => rfl
  | offer c token email role plaintext now invitation hoffer => rfl
  | enrol c r st issued hphase hcommit =>
      simp only [admission, hphase, hcommit, Option.map_some] at hnone
      cases hnone
  | invite c invitation invitations hphase hinsert => rfl

/-- Where a membership comes from: the commit of a registration, whose user it names. -/
structure Provenance (C : Crypto τ) (U : Unicode) (requests : ℕ → Request τ)
    (tr : List (State × Label)) (st : Tenants) (m : Membership) (p : State) (c : ℕ)
    (r : Registration) : Prop where
  admitted : admission C (p, .commit c) = some (r, m)
  /-- the call registered the address of the user -/
  address : ∃ email token user, requests c = .register email token r.context ∧
    st.users.find? m.userId = some user ∧ user.email = normalizeEmail U email
  role : m.role = r.placement.role
  /-- a founder created the organization -/
  founded : ∀ organization, r.placement = .founded organization →
    p.store.organizations.find? m.organizationId = none ∧
      st.organizations.find? m.organizationId = some organization
  /-- anyone else redeemed an invitation for it -/
  invited : ∀ id invitation organization, r.placement = .invited id invitation organization →
    m.organizationId = invitation.organizationId ∧
      (∃ user, st.users.find? m.userId = some user ∧ user.email = invitation.email) ∧
      p.store.invitations.find? id = some invitation ∧ invitation.acceptedAt = none ∧
      ∃ q ∈ tr, q.2 = .place c r.draw ∧ q.1.store.invitations.find? id = some invitation ∧
        r.draw.now < invitation.expiresAt

/-- **The membership a registration commits** has its provenance. -/
theorem Consistent.provenance {tr : List (State × Label)} (hs : Consistent U requests tr s)
    {c : ℕ} {r : Registration} {st : Tenants} {issued : IssuedSession τ}
    (hphase : s.phases c = .placed r) (hcommit : r.commit? C s.store = some (st, issued)) :
    Provenance C U requests tr st (r.membership s.store.toStore) s c r := by
  obtain ⟨horganizations, ⟨hfree, husers⟩, -, -⟩ := commit?_eq_some hcommit
  have huser : st.users.find? (r.membership s.store.toStore).userId = some r.user := by
    rw [husers]
    show (s.store.users.toTable.insert r.user).find? s.store.users.nextId = some r.user
    rw [Table.find?_insert, if_pos rfl]
  have hplaced := hs.placed c r hphase
  refine ⟨?_, ?_, rfl, ?_, ?_⟩
  · simp only [admission, hphase, hcommit, Option.map_some]
  · obtain ⟨email, token, hrequest, haddress⟩ := hplaced.address
    exact ⟨email, token, r.user, hrequest, huser, haddress⟩
  · intro organization hfounded
    have hid : (r.membership s.store.toStore).organizationId = s.store.organizations.nextId := by
      show r.organizationId s.store.toStore = _
      unfold Registration.organizationId
      rw [hfounded]
    unfold Registration.organizations? at horganizations
    rw [hfounded] at horganizations
    obtain ⟨hfree', heq⟩ := UniqueTable.insert?_eq_some_iff.mp horganizations
    rw [hid, heq]
    refine ⟨Table.find?_nextId _, ?_⟩
    show (s.store.organizations.toTable.insert organization).find? _ = _
    rw [Table.find?_insert, if_pos rfl]
  · intro id invitation organization hinvited
    obtain ⟨hemail, haccepted, hread⟩ := hplaced.redeemed id invitation organization hinvited
    refine ⟨?_, ⟨r.user, huser, hemail.symm⟩, hs.unaccepted hphase hcommit hinvited, haccepted,
      hread⟩
    show r.organizationId s.store.toStore = _
    unfold Registration.organizationId
    rw [hinvited]

/-- Later tables show the same provenance. -/
theorem Provenance.grows {tr : List (State × Label)} {st st' : Tenants} {m : Membership}
    {p : State} {c : ℕ} {r : Registration} (h : Provenance C U requests tr st m p c r)
    (hgrows : Grows st st') : Provenance C U requests tr st' m p c r := by
  refine ⟨h.admitted, ?_, h.role, ?_, ?_⟩
  · obtain ⟨email, token, user, hrequest, huser, hemail⟩ := h.address
    exact ⟨email, token, user, hrequest, hgrows.users _ _ huser, hemail⟩
  · intro organization hfounded
    obtain ⟨hnone, hsome⟩ := h.founded organization hfounded
    exact ⟨hnone, hgrows.organizations _ _ hsome⟩
  · intro id invitation organization hinvited
    obtain ⟨hid, ⟨user, huser, hemail⟩, hrest⟩ := h.invited id invitation organization hinvited
    exact ⟨hid, ⟨user, hgrows.users _ _ huser, hemail⟩, hrest⟩

/-- What a run has recorded. -/
structure Recorded (C : Crypto τ) (U : Unicode) (requests : ℕ → Request τ)
    (tr : List (State × Label)) (s : State) : Prop where
  consistent : Consistent U requests tr s
  members : ∀ m ∈ s.store.memberships.values, ∃ tr₁ tr₂ p c r,
    tr = tr₂ ++ (p, .commit c) :: tr₁ ∧ Provenance C U requests tr₁ s.store m p c r
  once : ∀ id, tr.countP (redeems C id) ≤ 1 ∧ (tr.countP (redeems C id) ≠ 0 →
    ∃ row, s.store.invitations.find? id = some row ∧ row.acceptedAt ≠ none)

/-- A redeemed invitation was unaccepted, and is accepted. -/
theorem Consistent.accepts {tr : List (State × Label)} (hs : Consistent U requests tr s)
    {l : Label} {id : ℕ} (hredeems : redeems C id (s, l)) (h : step C U requests s l = some t) :
    (∃ row, s.store.invitations.find? id = some row ∧ row.acceptedAt = none) ∧
      ∃ row, t.store.invitations.find? id = some row ∧ row.acceptedAt ≠ none := by
  unfold redeems at hredeems
  rw [Option.any_eq_true] at hredeems
  obtain ⟨⟨r, m⟩, hadmission, hid⟩ := hredeems
  rw [decide_eq_true_eq] at hid
  obtain ⟨c, st, issued, rfl, hphase, hcommit, -, hstep⟩ :=
    admission_eq_some U requests hadmission
  rw [hstep, Option.some.injEq] at h
  subst h
  obtain ⟨invitation, organization, hinvited⟩ := exists_of_redeemed hid
  have hfind := hs.unaccepted hphase hcommit hinvited
  have hnone := ((hs.placed c r hphase).redeemed id invitation organization hinvited).2.1
  refine ⟨⟨invitation, hfind, hnone⟩,
    { invitation with acceptedAt := some r.draw.acceptedAt }, ?_, nofun⟩
  obtain ⟨-, -, -, hinvitations⟩ := commit?_eq_some hcommit
  show st.invitations.find? id = _
  rw [hinvitations, find?_invitations, hfind, Option.map_some, if_pos hid]

/-- **A step is recorded.** -/
theorem Recorded.step (hU : U.LowerLaws) {tr : List (State × Label)}
    (hs : Recorded C U requests tr s) {l : Label} (h : step C U requests s l = some t) :
    Recorded C U requests ((s, l) :: tr) t := by
  have heffect := effect_of_step h
  have hgrows := grows_effect heffect
  refine ⟨hs.consistent.effect hU heffect, ?_, ?_⟩
  · have hold : ∀ m ∈ s.store.memberships.values, ∃ tr₁ tr₂ p c r,
        (s, l) :: tr = tr₂ ++ (p, .commit c) :: tr₁ ∧
          Provenance C U requests tr₁ t.store m p c r := by
      intro m hm
      obtain ⟨tr₁, tr₂, p, c, r, rfl, hprovenance⟩ := hs.members m hm
      exact ⟨tr₁, (s, l) :: tr₂, p, c, r, rfl, hprovenance.grows hgrows⟩
    intro m hm
    cases hadmission : admission C (s, l) with
    | none =>
        rw [memberships_of_admission heffect hadmission] at hm
        exact hold m hm
    | some a =>
        obtain ⟨c, st, issued, rfl, hphase, hcommit, -, hstep⟩ :=
          admission_eq_some U requests hadmission
        rw [hstep, Option.some.injEq] at h
        subst h
        obtain ⟨-, -, hmemberships, -⟩ := commit?_eq_some hcommit
        have hm : m ∈ st.memberships.values := hm
        rw [hmemberships, Table.values_insert, List.mem_append, List.mem_singleton] at hm
        rcases hm with hm | rfl
        · exact hold m hm
        · exact ⟨tr, [], s, c, _, rfl, hs.consistent.provenance hphase hcommit⟩
  · intro id
    obtain ⟨hle, hdone⟩ := hs.once id
    by_cases hredeems : redeems C id (s, l)
    · rw [List.countP_cons_of_pos hredeems]
      obtain ⟨⟨row, hrow, hnone⟩, hafter⟩ := hs.consistent.accepts hredeems h
      have hzero : tr.countP (redeems C id) = 0 := by
        by_contra hne
        obtain ⟨row', hrow', hsome⟩ := hdone hne
        rw [hrow, Option.some.injEq] at hrow'
        exact hsome (hrow' ▸ hnone)
      exact ⟨by omega, fun _ => hafter⟩
    · rw [List.countP_cons_of_neg hredeems]
      refine ⟨hle, fun hne => ?_⟩
      obtain ⟨row, hrow, hsome⟩ := hdone hne
      obtain ⟨accepted, hrow', hkept⟩ := hgrows.invitations id row hrow
      exact ⟨_, hrow', hkept hsome⟩

/-- A run from the beginning is recorded. -/
theorem recorded (hU : U.LowerLaws) {tr : List (State × Label)}
    (h : Execution (step C U requests) unguarded State.initial tr s) :
    Recorded C U requests tr s := by
  refine h.traceInvariant ⟨consistent_initial, ?_, ?_⟩ fun _ _ _ _ hp _ hq => hp.step hU hq
  · intro m hm
    cases hm
  · intro id
    exact ⟨Nat.zero_le 1, fun hne => absurd rfl hne⟩

/-- **Membership provenance.**  In every run of any registrations and invitations: a
membership was added by the commit of a registration of the address of its user, which
created the organization, or redeemed an invitation for it to this address, unexpired and
unaccepted when it was read and still unaccepted at the commit, whose role the membership
has; and an invitation is redeemed at most once. -/
theorem membership_provenance (hU : U.LowerLaws) {tr : List (State × Label)}
    (h : Execution (step C U requests) unguarded State.initial tr s) :
    (∀ m ∈ s.store.memberships.values, ∃ tr₁ tr₂ p c r,
      tr = tr₂ ++ (p, .commit c) :: tr₁ ∧ Provenance C U requests tr₁ s.store m p c r) ∧
    ∀ id, tr.countP (redeems C id) ≤ 1 :=
  ⟨(recorded hU h).members, fun id => ((recorded hU h).once id).1⟩

/-! ## Roles along chains of invitations -/

/-- The step commits user `v` on an invitation of user `u` to the organization. -/
def invites (C : Crypto τ) (organizationId u v : ℕ) (x : State × Label) : Bool :=
  (admission C x).any fun a =>
    a.2.userId = v && a.1.placement.invitation?.any fun invitation =>
      invitation.organizationId = organizationId && invitation.invitedByUserId = some u

/-- User `v` joined the organization on an invitation of user `u`. -/
def InvitedBy (C : Crypto τ) (tr : List (State × Label)) (organizationId u v : ℕ) : Prop :=
  ∃ x ∈ tr, invites C organizationId u v x

instance (tr : List (State × Label)) (organizationId u v : ℕ) :
    Decidable (InvitedBy C tr organizationId u v) :=
  inferInstanceAs (Decidable (∃ x ∈ tr, invites C organizationId u v x))

/-- A member who is an admin or the owner of the organization stands behind the invitation. -/
def Sponsored (members : Table Membership) (invitation : OrganizationInvitation) : Prop :=
  ∃ u role, invitation.invitedByUserId = some u ∧
    (⟨u, invitation.organizationId, role⟩ : Membership) ∈ members.values ∧
    role.rank ≤ Role.admin.rank

/-- Memberships are not lost. -/
theorem Sponsored.extends {members members' : Table Membership}
    {invitation : OrganizationInvitation} (h : Sponsored members invitation)
    (hext : members'.Extends members) : Sponsored members' invitation := by
  obtain ⟨u, role, hinviter, hmem, hrank⟩ := h
  exact ⟨u, role, hinviter, hext.mem_values hmem, hrank⟩

/-- The invariant of runs. -/
structure Ranked (C : Crypto τ) (tr : List (State × Label)) (s : State) : Prop where
  below : ∀ m ∈ s.store.memberships.values, m.userId < s.store.users.nextId
  single : ∀ m ∈ s.store.memberships.values, ∀ m' ∈ s.store.memberships.values,
    m.userId = m'.userId → m = m'
  stored : ∀ id row, s.store.invitations.find? id = some row →
    Sponsored s.store.memberships row
  ready : ∀ c invitation, (s.phases c).invitation? = some invitation →
    Sponsored s.store.memberships invitation
  invited : ∀ organizationId u v, InvitedBy C tr organizationId u v →
    ∃ role, (⟨u, organizationId, role⟩ : Membership) ∈ s.store.memberships.values ∧
      role.rank ≤ Role.admin.rank

/-- Nobody has registered. -/
theorem ranked_initial : Ranked C [] State.initial := by
  refine ⟨?_, ?_, ?_, ?_, ?_⟩
  · intro m hm
    cases hm
  · intro m hm
    cases hm
  · intro id row hrow
    cases hrow
  · intro c invitation hready
    cases hready
  · rintro organizationId u v ⟨x, hx, -⟩
    cases hx

/-- The stored invitations after a step are sponsored. -/
theorem Ranked.stored_effect {tr : List (State × Label)} (hs : Ranked C tr s) {l : Label}
    (h : Effect C U requests s l t) {id : ℕ} {row : OrganizationInvitation}
    (hrow : t.store.invitations.find? id = some row) : Sponsored s.store.memberships row := by
  cases h with
  | rest hrest => exact hs.stored id row hrow
  | place c d email token context placement hrequest hplace => exact hs.stored id row hrow
  | offer c token email role plaintext now invitation hoffer => exact hs.stored id row hrow
  | enrol c r st issued hphase hcommit =>
      obtain ⟨-, -, -, hinvitations⟩ := commit?_eq_some hcommit
      have hrow : st.invitations.find? id = some row := hrow
      rw [hinvitations, find?_invitations, Option.map_eq_some_iff] at hrow
      obtain ⟨row₀, hrow₀, hrow⟩ := hrow
      have hold := hs.stored id row₀ hrow₀
      split at hrow
      · rw [← hrow]
        exact hold
      · rw [← hrow]
        exact hold
  | invite c invitation invitations hphase hinsert =>
      obtain ⟨hfree, heq⟩ := UniqueTable.insert?_eq_some_iff.mp hinsert
      have hrow : invitations.find? id = some row := hrow
      rw [heq] at hrow
      have hrow : (s.store.invitations.toTable.insert invitation).find? id = some row := hrow
      rw [Table.find?_insert] at hrow
      split at hrow
      · rw [← Option.some.inj hrow]
        exact hs.ready c invitation (by rw [hphase]; rfl)
      · exact hs.stored id row hrow

/-- What a call is about to commit is sponsored. -/
theorem Ranked.ready_effect {tr : List (State × Label)} (hs : Ranked C tr s) {l : Label}
    (h : Effect C U requests s l t) {c : ℕ} {invitation : OrganizationInvitation}
    (hready : (t.phases c).invitation? = some invitation) :
    Sponsored s.store.memberships invitation := by
  have hnot : ¬ (t.phases c).Resting := by
    intro hrest
    cases hphase : t.phases c <;> rw [hphase] at hready hrest
    case placed r => exact hrest
    case offering invitation' => exact hrest
    all_goals cases hready
  rcases ready_of_effect h rfl hnot with
    hold | ⟨d, email, token, context, placement, -, -, hplace, heq, -⟩ |
      ⟨token, email, role, plaintext, now, invitation', hoffer, heq, -⟩
  · rw [← hold] at hready
    exact hs.ready c invitation hready
  · rw [heq] at hready
    rcases place_eq_ok hplace with ⟨organization, rfl⟩ |
      ⟨id, invitation', organization, rfl, hfind, -⟩
    · cases hready
    · rw [← Option.some.inj hready]
      exact hs.stored id invitation' hfind
  · rw [heq] at hready
    rw [← Option.some.inj hready]
    obtain ⟨u, role', hinviter, hmem, hrank, -⟩ := offer_eq_some hoffer
    exact ⟨u, role', hinviter, hmem, hrank⟩

/-- The members after a step: those before it, or one with a new user. -/
theorem members_effect {l : Label} (h : Effect C U requests s l t) :
    (t.store.memberships = s.store.memberships ∧ t.store.users.nextId = s.store.users.nextId) ∨
      ∃ r : Registration,
        t.store.memberships = s.store.memberships.insert (r.membership s.store.toStore) ∧
        t.store.users.nextId = s.store.users.nextId + 1 := by
  cases h with
  | rest hrest => exact Or.inl ⟨rfl, rfl⟩
  | place c d email token context placement hrequest hplace => exact Or.inl ⟨rfl, rfl⟩
  | offer c token email role plaintext now invitation hoffer => exact Or.inl ⟨rfl, rfl⟩
  | enrol c r st issued hphase hcommit =>
      obtain ⟨-, ⟨hfree, husers⟩, hmemberships, -⟩ := commit?_eq_some hcommit
      refine Or.inr ⟨r, hmemberships, ?_⟩
      show st.users.nextId = _
      rw [husers]
      rfl
  | invite c invitation invitations hphase hinsert => exact Or.inl ⟨rfl, rfl⟩

/-- **A step keeps the invariant.** -/
theorem Ranked.step {tr : List (State × Label)} (hs : Ranked C tr s) {l : Label}
    (h : step C U requests s l = some t) : Ranked C ((s, l) :: tr) t := by
  have heffect := effect_of_step h
  have hext := (grows_effect heffect).memberships
  refine ⟨?_, ?_, fun id row hrow => (hs.stored_effect heffect hrow).extends hext,
    fun c invitation hready => (hs.ready_effect heffect hready).extends hext, ?_⟩
  · intro m hm
    rcases members_effect heffect with ⟨hmembers, hnext⟩ | ⟨r, hmembers, hnext⟩
    · rw [hmembers] at hm
      rw [hnext]
      exact hs.below m hm
    · rw [hmembers, Table.values_insert, List.mem_append, List.mem_singleton] at hm
      rw [hnext]
      rcases hm with hm | rfl
      · exact Nat.lt_succ_of_lt (hs.below m hm)
      · exact Nat.lt_succ_self _
  · intro m hm m' hm' heq
    rcases members_effect heffect with ⟨hmembers, hnext⟩ | ⟨r, hmembers, hnext⟩
    · rw [hmembers] at hm hm'
      exact hs.single m hm m' hm' heq
    · rw [hmembers, Table.values_insert, List.mem_append, List.mem_singleton] at hm hm'
      -- the new member has a user nobody has yet
      rcases hm with hm | rfl <;> rcases hm' with hm' | rfl
      · exact hs.single m hm m' hm' heq
      · exact absurd heq (hs.below m hm).ne
      · exact absurd heq (hs.below m' hm').ne'
      · rfl
  · rintro organizationId u v ⟨x, hx, hinvites⟩
    rcases List.mem_cons.mp hx with rfl | hx
    · unfold invites at hinvites
      rw [Option.any_eq_true] at hinvites
      obtain ⟨⟨r, m⟩, hadmission, hinvites⟩ := hinvites
      rw [Bool.and_eq_true, Option.any_eq_true] at hinvites
      obtain ⟨-, invitation, hinvitation, hand⟩ := hinvites
      rw [Bool.and_eq_true, decide_eq_true_eq, decide_eq_true_eq] at hand
      obtain ⟨c, st, issued, -, hphase, -⟩ :=
        admission_eq_some U requests hadmission
      obtain ⟨u', role, hinviter, hmem, hrank⟩ := (hs.ready c invitation (by
        rw [hphase]
        exact hinvitation)).extends hext
      obtain ⟨rfl, hu⟩ := hand
      rw [hu, Option.some.injEq] at hinviter
      subst hinviter
      exact ⟨role, hmem, hrank⟩
    · obtain ⟨role, hmem, hrank⟩ := hs.invited organizationId u v ⟨x, hx, hinvites⟩
      exact ⟨role, hext.mem_values hmem, hrank⟩

/-- A founder, an admin she invites, and an owner the admin invites; the access tokens are
those of the founder and of the admin. -/
def founderAdminOwner : ℕ → Request (AccessClaims × Instant)
  | 0 => .register "a@x.io" none ⟨none, none⟩
  | 1 => .invite (⟨"u-1", "o-1", .owner, 0, "j"⟩, 10) "b@x.io" "admin"
  | 2 => .register "B@x.io" (some "i-1") ⟨none, none⟩
  | 3 => .invite (⟨"u-2", "o-1", .admin, 0, "j"⟩, 10) "c@x.io" "owner"
  | _ => .register "c@x.io" (some "i-2") ⟨none, none⟩

/-- What the registrations draw. -/
def founderDraws : ℕ → RegistrationDraw
  | 0 => ⟨"u-1", "o-1", "h", 0, 0, ⟨"t-1", ⟨"f-1", f1_ne_empty⟩, "j-1", 0, 0⟩⟩
  | 2 => ⟨"u-2", "o-2", "h", 1, 1, ⟨"t-2", ⟨"f-2", f2_ne_empty⟩, "j-2", 1, 1⟩⟩
  | _ => ⟨"u-3", "o-3", "h", 2, 2, ⟨"t-3", ⟨"f-3", f3_ne_empty⟩, "j-3", 2, 2⟩⟩

/-- The founder invites, and two registrations redeem the invitation at once: the second is
rolled back. -/
theorem membership_provenance_race : ∃ tr s,
    Execution (step Crypto.plain Unicode.ascii
      fun c => if c = 3 then founderAdminOwner 2 else founderAdminOwner c) unguarded
      State.initial tr s ∧
    s.store.memberships.values = [⟨1, 1, .owner⟩, ⟨2, 1, .admin⟩] ∧
    s.phases 3 = .dead ∧ tr.countP (redeems Crypto.plain 1) = 1 ∧
    ∃ tr₁ p c r, Provenance Crypto.plain Unicode.ascii
      (fun c => if c = 3 then founderAdminOwner 2 else founderAdminOwner c) tr₁ s.store
      ⟨2, 1, .admin⟩ p c r := by
  obtain ⟨tr, s, h, hmembers, hdead, hcount⟩ : ∃ tr s,
      Execution (step Crypto.plain Unicode.ascii
        fun c => if c = 3 then founderAdminOwner 2 else founderAdminOwner c) unguarded
        State.initial tr s ∧
      s.store.memberships.values = [⟨1, 1, .owner⟩, ⟨2, 1, .admin⟩] ∧
      s.phases 3 = .dead ∧ 0 < tr.countP (redeems Crypto.plain 1) :=
    Execution.exists_of_execute
      [.check 0, .place 0 (founderDraws 0), .commit 0, .authorize 1 "i-1" 0, .commit 1,
        .check 2, .check 3, .place 2 (founderDraws 2), .place 3 (founderDraws 3), .commit 2,
        .commit 3]
      (by decide +kernel) (fun _ _ => trivial)
  obtain ⟨hprovenance, honce⟩ := membership_provenance Unicode.ascii_lowerLaws h
  obtain ⟨tr₁, -, p, c, r, -, hr⟩ := hprovenance ⟨2, 1, .admin⟩ (by rw [hmembers]; decide)
  exact ⟨tr, s, h, hmembers, hdead, le_antisymm (honce 1) hcount, tr₁, p, c, r, hr⟩

end ProcureSignal.Auth.Tenancy
