/-
# Concurrent calls of the identity service

Sign-ins, rotations and `revoke_all_sessions` as database transactions under `READ
COMMITTED`, one call each, their statements interleaved in any order.

* A statement sees what is committed when it runs.  An `UPDATE … WHERE` first finds its
  rows (`scan`), waits until none of them is locked, and then revokes those that still
  meet the condition (`mark`).
* A row written and not committed is locked; another call that would write it is not
  enabled until the lock is free.
* The unit of work of a rotation is flushed at its commit: the `UPDATE` of the exchanged
  row by its key, whatever its `revoked_at` is by then, and the `INSERT` of the successor.
* A call may be rolled back at any point.

`Effect` says what each label does; the later modules use it and never unfold a step.
-/
import ProcureSignal.Auth.Families
import ProcureSignal.Library.Execution

namespace ProcureSignal.Auth.Transactions

open Lineage

/-! ## The state -/

/-- Whose tokens an `UPDATE … WHERE` revokes. -/
inductive Scope
  | family (familyId : FamilyId)
  | user (userId : ℕ)
  deriving DecidableEq, Repr

/-- The `WHERE` clause, apart from `revoked_at IS NULL`. -/
def Scope.covers : Scope → RefreshToken → Bool
  | .family familyId, row => row.familyId = familyId
  | .user userId, row => row.userId = userId

/-- One call. -/
inductive Request
  | login (email password : String) (context : ClientContext)
  | refresh (presented : String) (context : ClientContext)
  | revokeAll (userId : ℕ)
  deriving DecidableEq, Repr

/-- A session about to be issued; `parent` is the row a rotation exchanges, as it read it. -/
structure Issue where
  parent : Option RefreshToken
  userId : ℕ
  user : User
  organization : Organization
  role : Role
  context : ClientContext
  draw : Draw
  deriving DecidableEq, Repr

/-- Where a call is. -/
inductive Phase
  | idle
  /-- a rotation has read a live row at `now`. -/
  | selected (stored : RefreshToken) (now : Instant)
  /-- the owner is read; the unit of work is ready. -/
  | loaded (p : Issue)
  /-- the exchanged row is updated and locked. -/
  | updated (p : Issue)
  | inserted (p : Issue)
  /-- about to revoke a scope. -/
  | revoking (scope : Scope) (now : Instant)
  | scanned (scope : Scope) (now : Instant) (matched : List String)
  /-- the rows of the scope are updated and locked. -/
  | marked (scope : Scope) (now : Instant) (rows : List String)
  /-- `token_version` is updated and locked as well. -/
  | bumped (userId : ℕ) (now : Instant) (rows : List String)
  | issued (p : Issue)
  | refused
  | returned
  | dead
  deriving DecidableEq, Repr

/-- Committed tables, row locks and the local state of every call. -/
structure State where
  store : Store
  tokenLock : String → Option ℕ
  userLock : ℕ → Option ℕ
  phases : ℕ → Phase

/-- No call has started. -/
def State.initial (st : Store) : State := ⟨st, fun _ => none, fun _ => none, fun _ => .idle⟩

/-- The next statement of call `c`. -/
inductive Label
  | authenticate (c : ℕ) (d : Draw)
  | select (c : ℕ) (now : Instant)
  | load (c : ℕ) (d : Draw)
  | update (c : ℕ)
  | insert (c : ℕ)
  | begin (c : ℕ) (now : Instant)
  | scan (c : ℕ)
  | mark (c : ℕ)
  | bump (c : ℕ)
  | commit (c : ℕ)
  | abort (c : ℕ)
  deriving DecidableEq, Repr

/-- The call a label belongs to. -/
def Label.call : Label → ℕ
  | .authenticate c _ | .select c _ | .load c _ | .update c | .insert c | .begin c _ | .scan c
  | .mark c | .bump c | .commit c | .abort c => c

namespace State

variable (s : State)

/-- Move a call. -/
def move (c : ℕ) (phase : Phase) : State := { s with phases := Function.update s.phases c phase }

/-- Lock token rows. -/
def lockTokens (c : ℕ) (rows : List String) : State :=
  { s with tokenLock := fun d => if d ∈ rows then some c else s.tokenLock d }

/-- Lock a user row. -/
def lockUser (c userId : ℕ) : State :=
  { s with userLock := Function.update s.userLock userId (some c) }

/-- End the transaction of a call. -/
def release (c : ℕ) : State :=
  { s with
    tokenLock := fun d => if s.tokenLock d = some c then none else s.tokenLock d
    userLock := fun u => if s.userLock u = some c then none else s.userLock u }

/-- Commit. -/
def commitStore (c : ℕ) (st : Store) (phase : Phase) : State :=
  { (s.release c).move c phase with store := st }

end State

/-! ## The statements -/

variable {τ : Type} (C : Crypto τ) (U : Unicode) (requests : ℕ → Request)

/-- The row a session inserts. -/
def Issue.row (p : Issue) : RefreshToken :=
  tokenRow C p.userId (p.parent.map (·.familyId)) p.context p.draw

/-- What the call returns. -/
def Issue.session (p : Issue) : IssuedSession τ :=
  issuedSession C p.user p.organization p.role p.draw

/-- The tables after the commit of a session. -/
def Issue.store (p : Issue) (st : Store) : Store :=
  match p.parent with
  | some stored => (st.revokeHash stored.tokenHash p.draw.now).putToken (p.row C)
  | none => (st.recordLogin p.userId p.draw.now).putToken (p.row C)

/-- The `SELECT`s of `authenticate`. -/
def authenticate (c : ℕ) (d : Draw) (s : State) : Option State :=
  match requests c, s.phases c with
  | .login email password context, .idle =>
      match credentialsOf C U s.store email password with
      | none => some (s.move c .refused)
      | some (userId, user, membership, organization) =>
          some (s.move c (.loaded ⟨none, userId, user, organization, membership.role, context, d⟩))
  | _, _ => none

/-- The `SELECT` of the presented token, and what is decided on it. -/
def select (c : ℕ) (now : Instant) (s : State) : Option State :=
  match requests c, s.phases c with
  | .refresh presented _, .idle =>
      match s.store.token? (C.hashRefreshToken presented) with
      | none => some (s.move c .refused)
      | some stored =>
          if stored.revokedAt ≠ none then
            some (s.move c (.revoking (.family stored.familyId) now))
          else if stored.expiresAt ≤ now then some (s.move c .refused)
          else some (s.move c (.selected stored now))
  | _, _ => none

/-- The `SELECT`s of the owner of the token. -/
def load (c : ℕ) (d : Draw) (s : State) : Option State :=
  match requests c, s.phases c with
  | .refresh _ context, .selected stored now =>
      match ownerOf s.store stored.userId with
      | none => some (s.move c .refused)
      | some (user, membership, organization) =>
          some (s.move c (.loaded ⟨some stored, stored.userId, user, organization,
            membership.role, context, { d with now := now }⟩))
  | _, _ => none

/-- The `UPDATE` of the exchanged row, by its key. -/
def update (c : ℕ) (s : State) : Option State :=
  match s.phases c with
  | .loaded p =>
      match p.parent with
      | some stored =>
          if s.tokenLock stored.tokenHash = none then
            some ((s.lockTokens c [stored.tokenHash]).move c (.updated p))
          else none
      | none => none
  | _ => none

/-- Whether the `INSERT` is next. -/
def Phase.inserts? : Phase → Option Issue
  | .updated p => some p
  | .loaded p => if p.parent = none then some p else none
  | _ => none

/-- The `INSERT` of the new row. -/
def insert (c : ℕ) (s : State) : Option State :=
  match (s.phases c).inserts? with
  | some p =>
      if s.store.token? (p.row C).tokenHash = none then some (s.move c (.inserted p)) else none
  | none => none

/-- `revoke_all_sessions` is called. -/
def begin (c : ℕ) (now : Instant) (s : State) : Option State :=
  match requests c, s.phases c with
  | .revokeAll userId, .idle => some (s.move c (.revoking (.user userId) now))
  | _, _ => none

/-- The unrevoked tokens of a scope. -/
def unrevokedOf (st : Store) (scope : Scope) : List String :=
  (st.refreshTokens.values.filter fun row => scope.covers row && row.revokedAt.isNone).map
    (·.tokenHash)

/-- The `UPDATE … WHERE` finds its rows. -/
def scan (c : ℕ) (s : State) : Option State :=
  match s.phases c with
  | .revoking scope now => some (s.move c (.scanned scope now (unrevokedOf s.store scope)))
  | _ => none

/-- The `UPDATE … WHERE` writes the rows it found that are still unrevoked. -/
def mark (c : ℕ) (s : State) : Option State :=
  match s.phases c with
  | .scanned scope now matched =>
      if ∀ d ∈ matched, s.tokenLock d = none then
        let rows := matched.filter fun d => (s.store.token? d).any (·.revokedAt.isNone)
        some ((s.lockTokens c rows).move c (.marked scope now rows))
      else none
  | _ => none

/-- The `UPDATE` of `token_version`. -/
def bump (c : ℕ) (s : State) : Option State :=
  match s.phases c with
  | .marked (.user userId) now rows =>
      if s.userLock userId = none then some ((s.lockUser c userId).move c (.bumped userId now rows))
      else none
  | _ => none

/-- The tables after a revocation. -/
def revokeMarked (st : Store) (rows : List String) (now : Instant) : Store :=
  st.revokeRows (fun row => row.tokenHash ∈ rows) now

/-- The commit of a call. -/
def commit (c : ℕ) (s : State) : Option State :=
  match s.phases c with
  | .inserted p =>
      if s.store.token? (p.row C).tokenHash = none then
        some (s.commitStore c (p.store C s.store) (.issued p))
      else none
  | .marked (.family _) now rows => some (s.commitStore c (revokeMarked s.store rows now) .refused)
  | .bumped userId now rows =>
      some (s.commitStore c ((revokeMarked s.store rows now).bumpVersion userId) .returned)
  | _ => none

/-- The call has ended. -/
def Phase.Ended : Phase → Prop
  | .issued _ | .refused | .returned | .dead => True
  | _ => False

instance : DecidablePred Phase.Ended := fun phase => by
  cases phase <;> unfold Phase.Ended <;> infer_instance

/-- The call is rolled back. -/
def abort (c : ℕ) (s : State) : Option State :=
  if (s.phases c).Ended then none else some ((s.release c).move c .dead)

/-- One statement of one call. -/
def step (s : State) : Label → Option State
  | .authenticate c d => authenticate C U requests c d s
  | .select c now => select C requests c now s
  | .load c d => load requests c d s
  | .update c => update c s
  | .insert c => insert C c s
  | .begin c now => begin requests c now s
  | .scan c => scan c s
  | .mark c => mark c s
  | .bump c => bump c s
  | .commit c => commit C c s
  | .abort c => abort c s

/-! ## What a label does -/

/-- A move of one call that writes nothing. -/
inductive Move (s : State) : Label → Phase → Phase → Prop
  | refuseLogin (c : ℕ) (d : Draw) : Move s (.authenticate c d) .idle .refused
  | credentials (c : ℕ) (d : Draw) (p : Issue) (hparent : p.parent = none)
      (huser : s.store.users.find? p.userId = some p.user) :
      Move s (.authenticate c d) .idle (.loaded p)
  | refuse (c : ℕ) (now : Instant) : Move s (.select c now) .idle .refused
  | reuse (c : ℕ) (now : Instant) (stored : RefreshToken)
      (hstored : s.store.token? stored.tokenHash = some stored) (hrevoked : ¬ stored.Live) :
      Move s (.select c now) .idle (.revoking (.family stored.familyId) now)
  | live (c : ℕ) (now : Instant) (stored : RefreshToken)
      (hstored : s.store.token? stored.tokenHash = some stored) (hlive : stored.Live) :
      Move s (.select c now) .idle (.selected stored now)
  | refuseOwner (c : ℕ) (d : Draw) (stored : RefreshToken) (now : Instant) :
      Move s (.load c d) (.selected stored now) .refused
  | owner (c : ℕ) (d : Draw) (stored : RefreshToken) (now : Instant) (p : Issue)
      (hparent : p.parent = some stored) (hid : p.userId = stored.userId)
      (huser : s.store.users.find? p.userId = some p.user) :
      Move s (.load c d) (.selected stored now) (.loaded p)
  | insert (c : ℕ) (phase : Phase) (p : Issue) (hphase : phase.inserts? = some p) :
      Move s (.insert c) phase (.inserted p)
  | begin (c userId : ℕ) (now : Instant) :
      Move s (.begin c now) .idle (.revoking (.user userId) now)
  | scan (c : ℕ) (scope : Scope) (now : Instant) :
      Move s (.scan c) (.revoking scope now) (.scanned scope now (unrevokedOf s.store scope))

/-- **What a label does.** -/
inductive Effect (s : State) : Label → State → Prop
  | move {l : Label} {phase : Phase} (h : Move s l (s.phases l.call) phase) :
      Effect s l (s.move l.call phase)
  | update (c : ℕ) (p : Issue) (stored : RefreshToken) (hphase : s.phases c = .loaded p)
      (hparent : p.parent = some stored) (hfree : s.tokenLock stored.tokenHash = none) :
      Effect s (.update c) ((s.lockTokens c [stored.tokenHash]).move c (.updated p))
  | mark (c : ℕ) (scope : Scope) (now : Instant) (matched rows : List String)
      (hphase : s.phases c = .scanned scope now matched)
      (hfree : ∀ d ∈ matched, s.tokenLock d = none)
      (hrows : rows = matched.filter fun d => (s.store.token? d).any (·.revokedAt.isNone)) :
      Effect s (.mark c) ((s.lockTokens c rows).move c (.marked scope now rows))
  | bump (c userId : ℕ) (now : Instant) (rows : List String)
      (hphase : s.phases c = .marked (.user userId) now rows) (hfree : s.userLock userId = none) :
      Effect s (.bump c) ((s.lockUser c userId).move c (.bumped userId now rows))
  | issue (c : ℕ) (p : Issue) (hphase : s.phases c = .inserted p)
      (hfree : s.store.token? (p.row C).tokenHash = none) :
      Effect s (.commit c) (s.commitStore c (p.store C s.store) (.issued p))
  | revokeFamily (c : ℕ) (familyId : FamilyId) (now : Instant) (rows : List String)
      (hphase : s.phases c = .marked (.family familyId) now rows) :
      Effect s (.commit c) (s.commitStore c (revokeMarked s.store rows now) .refused)
  | revokeAll (c userId : ℕ) (now : Instant) (rows : List String)
      (hphase : s.phases c = .bumped userId now rows) :
      Effect s (.commit c)
        (s.commitStore c ((revokeMarked s.store rows now).bumpVersion userId) .returned)
  | abort (c : ℕ) (hphase : ¬ (s.phases c).Ended) :
      Effect s (.abort c) ((s.release c).move c .dead)

variable {C U requests} {s t : State}

/-- A move, with the phase the call was in. -/
private theorem effect_move {l : Label} {phase phase' : Phase} (hphase : s.phases l.call = phase)
    (h : Move s l phase phase') : Effect C s l (s.move l.call phase') := .move (hphase ▸ h)

/-- **Every step is one of the effects.** -/
theorem effect_of_step {l : Label} (h : step C U requests s l = some t) : Effect C s l t := by
  cases l with
  | authenticate c d =>
      simp only [step, authenticate] at h
      split at h
      · rename_i email password context hrequest hphase
        split at h
        · rw [← Option.some.inj h]
          exact effect_move (l := .authenticate c d) hphase (.refuseLogin c d)
        · rename_i userId user membership organization hcredentials
          rw [← Option.some.inj h]
          exact effect_move (l := .authenticate c d) hphase
            (.credentials c d _ rfl (credentialsOf_eq_some hcredentials).1)
      · cases h
  | select c now =>
      simp only [step, select] at h
      split at h
      · rename_i presented context hrequest hphase
        split at h
        · rw [← Option.some.inj h]
          exact effect_move (l := .select c now) hphase (.refuse c now)
        · rename_i stored hstored
          have hself : s.store.token? stored.tokenHash = some stored := by
            rw [tokenHash_of_token? hstored, hstored]
          split at h
          · rename_i hrevoked
            rw [← Option.some.inj h]
            exact effect_move (l := .select c now) hphase (.reuse c now stored hself hrevoked)
          · rename_i hlive
            split at h
            · rw [← Option.some.inj h]
              exact effect_move (l := .select c now) hphase (.refuse c now)
            · rw [← Option.some.inj h]
              exact effect_move (l := .select c now) hphase
                (.live c now stored hself (not_not.mp hlive))
      · cases h
  | load c d =>
      simp only [step, load] at h
      split at h
      · rename_i presented context stored now hrequest hphase
        split at h
        · rw [← Option.some.inj h]
          exact effect_move (l := .load c d) hphase (.refuseOwner c d stored now)
        · rename_i user membership organization howner
          rw [← Option.some.inj h]
          exact effect_move (l := .load c d) hphase
            (.owner c d stored now _ rfl rfl (ownerOf_eq_some howner).1)
      · cases h
  | update c =>
      simp only [step, update] at h
      split at h
      · rename_i p hphase
        split at h
        · rename_i stored hparent
          split at h
          · rename_i hfree
            rw [← Option.some.inj h]
            exact .update c p stored hphase hparent hfree
          · cases h
        · cases h
      · cases h
  | insert c =>
      simp only [step, insert] at h
      split at h
      · rename_i p hinserts
        split at h
        · rw [← Option.some.inj h]
          exact .move (l := .insert c) (.insert c _ p hinserts)
        · cases h
      · cases h
  | begin c now =>
      simp only [step, begin] at h
      split at h
      · rename_i userId hrequest hphase
        rw [← Option.some.inj h]
        exact effect_move (l := .begin c now) hphase (.begin c userId now)
      · cases h
  | scan c =>
      simp only [step, scan] at h
      split at h
      · rename_i scope now hphase
        rw [← Option.some.inj h]
        exact effect_move (l := .scan c) hphase (.scan c scope now)
      · cases h
  | mark c =>
      simp only [step, mark] at h
      split at h
      · rename_i scope now matched hphase
        split at h
        · rename_i hfree
          rw [← Option.some.inj h]
          exact .mark c scope now matched _ hphase hfree rfl
        · cases h
      · cases h
  | bump c =>
      simp only [step, bump] at h
      split at h
      · rename_i userId now rows hphase
        split at h
        · rename_i hfree
          rw [← Option.some.inj h]
          exact .bump c userId now rows hphase hfree
        · cases h
      · cases h
  | commit c =>
      simp only [step, commit] at h
      split at h
      · rename_i p hphase
        split at h
        · rename_i hfree
          rw [← Option.some.inj h]
          exact .issue c p hphase hfree
        · cases h
      · rename_i familyId now rows hphase
        rw [← Option.some.inj h]
        exact .revokeFamily c familyId now rows hphase
      · rename_i userId now rows hphase
        rw [← Option.some.inj h]
        exact .revokeAll c userId now rows hphase
      · cases h
  | abort c =>
      simp only [step, abort] at h
      split at h
      · cases h
      · rename_i hphase
        rw [← Option.some.inj h]
        exact .abort c hphase

end ProcureSignal.Auth.Transactions
