/-
# Administrators who erase

`erase_user_data` of `api/routers/privacy.py`, with any number of requests at the same time.
Each request has its role checked, finds its subject and erases it, in steps of a session of
its own; steps of different requests interleave, and only the erasure commits.

* The caller is read with its membership when the role is checked, and not again.
* `mem_erase_memberships` : what an erasure leaves of the memberships;
* `administered_iff` : **when no organization loses its last administrator**.
-/
import ProcureSignal.Privacy.Subject
import ProcureSignal.Library.Execution

namespace ProcureSignal.Privacy

open Relational TableName Execution

/-! ## Requests -/

/-- A request for a person in the caller's organization. -/
structure ErasureRequest where
  callerId : ℕ
  organizationId : ℕ
  publicId : String
  deriving DecidableEq, Repr

/-- How far a request is. -/
inductive RequestPhase
  | authorized (request : ErasureRequest)
  | found (request : ErasureRequest) (subject : User)
  | erased
  | refused
  deriving DecidableEq, Repr

/-- The store, and the requests under way. -/
structure Office where
  db : Store
  phase : ℕ → Option RequestPhase

/-- A step of a request. -/
inductive RequestStep
  | authorize (k : ℕ) (request : ErasureRequest)
  | find (k : ℕ)
  | erase (k : ℕ)
  deriving DecidableEq, Repr

/-- `require_role(Role.ADMIN)`: the roles that pass. -/
def isAdministrator (role : Value) : Bool := role = .text "owner" || role = .text "admin"

/-- A row of `memberships` of an organization. -/
def memberOf (organizationId : ℕ) (m : Row) : Bool := m "organization_id" = .num organizationId

/-- The caller has an account and a membership of sufficient role. -/
def authorizes (db : Store) (request : ErasureRequest) : Bool :=
  ((db users).find? request.callerId).isSome &&
    (db memberships).rows.any fun m => m.2 "user_id" = .num request.callerId &&
      memberOf request.organizationId m.2 && isAdministrator (m.2 "role")

/-- The text of a column. -/
def textOf : Value → String
  | .text s => s
  | _ => ""

/-- `_colleague`. -/
def colleague (db : Store) (request : ErasureRequest) : Option User :=
  ((db users).rows.find? fun u => u.2 "public_id" = .text request.publicId &&
    (db memberships).rows.any fun m => m.2 "user_id" = .num u.1 &&
      memberOf request.organizationId m.2).map
    fun u => ⟨u.1, textOf (u.2 "public_id"), textOf (u.2 "email")⟩

/-- The audit record of an erasure. -/
def auditRow (request : ErasureRequest) (subject : User) : Row := fun c =>
  if c = "action" then .text "privacy.subject_erased"
  else if c = "outcome" then .text "success"
  else if c = "actor_user_id" then .num request.callerId
  else if c = "organization_id" then .num request.organizationId
  else if c = "resource_type" then .text "user"
  else if c = "resource_id" then .text subject.publicId
  else .null

/-- The request goes on to a phase. -/
def Office.enter (s : Office) (k : ℕ) (phase : RequestPhase) : Office :=
  { s with phase := Function.update s.phase k (some phase) }

/-- One step of a request. -/
def requestStep (s : Office) : RequestStep → Option Office
  | .authorize k request =>
      match s.phase k with
      | some _ => none
      | none =>
          some (s.enter k (if authorizes s.db request then .authorized request else .refused))
  | .find k =>
      match s.phase k with
      | some (.authorized request) =>
          some (s.enter k (match colleague s.db request with
            | none => .refused
            | some subject =>
                if subject.id = request.callerId then .refused else .found request subject))
      | _ => none
  | .erase k =>
      match s.phase k with
      | some (.found request subject) =>
          some ({ s with db := (eraseSubject subject
            (insertInto s.db auditLog (auditRow request subject))).1 }.enter k .erased)
      | _ => none

/-! ## Administrators -/

/-- The organization has a member for whom a condition holds. -/
def HasMember (db : Store) (organizationId : ℕ) (p : Row → Prop) : Prop :=
  ∃ m ∈ (db memberships).rows, memberOf organizationId m.2 = true ∧ p m.2

/-- The organization has a member who may administer it. -/
def Administered (db : Store) (organizationId : ℕ) : Prop :=
  HasMember db organizationId fun m => isAdministrator (m "role") = true

/-- Every organization that had an administrator has one as long as it has a member. -/
def KeepsAdministrators (db db' : Store) : Prop :=
  ∀ o, Administered db o → HasMember db' o (fun _ => True) → Administered db' o

variable {db : Store} {user : User}

/-- The memberships that an erasure takes are those of the person. -/
theorem doomed_membership_iff {i : ℕ} {m : Row} (hm : (i, m) ∈ (db memberships).rows) :
    schema.Doomed db (Tied user) memberships i ↔ m "user_id" = .num user.id := by
  have hentry : ∀ entry ∈ inventory, entry.table = memberships →
      entry.erasure = .delete ∧ entry.link = .userIdInt ∧ entry.linkColumn = some "user_id" := by
    decide
  have hparents : ∀ fk ∈ foreignKeys, fk.child = memberships →
      fk.parent = organizations ∨ fk.parent = users ∧ fk.column = "user_id" := by decide
  constructor
  · intro hd
    generalize ht : memberships = t at hd
    cases hd with
    | @matched _ _ m' hrow hp =>
        subst ht
        obtain rfl := Table.eq_of_mem hm hrow
        obtain ⟨entry, hmem, -, -, htable, c, hc, hvalue⟩ := hp
        obtain ⟨-, hlink, hcolumn⟩ := hentry entry hmem htable
        rw [hcolumn] at hc
        cases hc
        rw [hlink] at hvalue
        exact hvalue
    | @cascade fk _ j m' hfk _ hrow href hparent =>
        rw [← ht] at hrow
        obtain rfl := Table.eq_of_mem hm hrow
        rcases hparents fk hfk ht.symm with horganization | ⟨husers, hcolumn⟩
        · rw [horganization] at hparent
          exact absurd hparent (not_doomed_organization user db j)
        · rw [husers] at hparent
          rw [hcolumn, eq_of_doomed_users hparent] at href
          exact href
  · intro huser
    obtain ⟨entry, hmem, htable⟩ := exists_entry memberships
    obtain ⟨herasure, hlink, hcolumn⟩ := hentry entry hmem htable
    refine .matched hm ⟨entry, hmem, herasure, ?_, htable, "user_id", hcolumn, ?_⟩
    · rw [hlink]
      decide
    · rw [hlink]
      exact huser

/-- **What an erasure leaves of the memberships**: those of other people. -/
theorem mem_erase_memberships (i : ℕ) (m : Row) :
    (i, m) ∈ ((eraseSubject user db).1 memberships).rows ↔
      (i, m) ∈ (db memberships).rows ∧ m "user_id" ≠ .num user.id := by
  have hkept := kept_eraseSubject user db
  have hfixed : ∀ {m m' : Row}, Nulls schema memberships m m' → m' = m := by
    intro m m' hn
    funext c
    have hnullable : ∀ fk ∈ foreignKeys, fk.onDelete = .setNull → fk.child ≠ memberships := by
      decide
    exact hn.eq_of_not_nullable fun ⟨fk, hfk, haction, hchild, _⟩ =>
      hnullable fk hfk haction hchild
  constructor
  · intro hm
    obtain ⟨m₀, hm₀, hnot, hn⟩ := hkept.of_mem hm
    obtain rfl := hfixed hn
    exact ⟨hm₀, mt (doomed_membership_iff hm₀).mpr hnot⟩
  · rintro ⟨hm, huser⟩
    obtain ⟨m', hm', hn⟩ := hkept.to_mem hm (mt (doomed_membership_iff hm).mp huser)
    obtain rfl := hfixed hn
    exact hm'

/-- The audit record is no membership. -/
theorem mem_erase_audited {request : ErasureRequest} (i : ℕ) (m : Row) :
    (i, m) ∈ ((eraseSubject user (insertInto db auditLog (auditRow request user))).1
      memberships).rows ↔ (i, m) ∈ (db memberships).rows ∧ m "user_id" ≠ .num user.id := by
  rw [mem_erase_memberships, mem_insertInto]
  exact and_congr_left fun _ => or_iff_left fun hnew => nomatch hnew.1

/-- What an erasure leaves of the members of an organization. -/
theorem hasMember_erase_iff {request : ErasureRequest} {o : ℕ} {p : Row → Prop} :
    HasMember (eraseSubject user (insertInto db auditLog (auditRow request user))).1 o p ↔
      HasMember db o fun m => p m ∧ m "user_id" ≠ .num user.id := by
  simp only [HasMember, Prod.exists, mem_erase_audited]
  refine exists_congr fun i => exists_congr fun m => ?_
  tauto

/-! ## Runs -/

/-- An erasure leaves every organization that has an administrator another one, or none of its
members. -/
def LeavesAdministrator (s : Office) (l : RequestStep) : Prop :=
  ∀ k request subject, l = .erase k → s.phase k = some (.found request subject) →
    ∀ o, Administered s.db o →
      HasMember s.db o (fun m => m "user_id" ≠ .num subject.id) →
        HasMember s.db o fun m => isAdministrator (m "role") = true ∧
          m "user_id" ≠ .num subject.id

/-- A step erases the subject of a request, or leaves the store as it is. -/
theorem requestStep_cases {s s' : Office} {l : RequestStep} (h : requestStep s l = some s') :
    (∃ k request subject, l = .erase k ∧ s.phase k = some (.found request subject) ∧
      s'.db = (eraseSubject subject
        (insertInto s.db auditLog (auditRow request subject))).1) ∨
    (∀ k, l ≠ .erase k) ∧ s'.db = s.db := by
  cases l with
  | authorize k request =>
      rw [requestStep] at h
      split at h
      · cases h
      · obtain rfl := Option.some.inj h
        exact Or.inr ⟨nofun, rfl⟩
  | find k =>
      rw [requestStep] at h
      split at h
      · obtain rfl := Option.some.inj h
        exact Or.inr ⟨nofun, rfl⟩
      · cases h
  | erase k =>
      rw [requestStep] at h
      split at h
      · rename_i request subject hphase
        obtain rfl := Option.some.inj h
        exact Or.inl ⟨k, request, subject, rfl, hphase, rfl⟩
      · cases h

/-- No step makes an administrator. -/
theorem administered_of_step {s s' : Office} {l : RequestStep}
    (h : requestStep s l = some s') {o : ℕ} (ho : Administered s'.db o) :
    Administered s.db o := by
  rcases requestStep_cases h with ⟨k, request, subject, -, -, hdb⟩ | ⟨-, hdb⟩
  · rw [Administered, hdb, hasMember_erase_iff] at ho
    obtain ⟨m, hm, ho, hadmin, -⟩ := ho
    exact ⟨m, hm, ho, hadmin⟩
  · rwa [hdb] at ho

/-- An account. -/
def accountRow (publicId email : String) : Row := fun c =>
  if c = "public_id" then .text publicId else if c = "email" then .text email else .null

/-- A membership of organization `1`. -/
def membershipRow (userId : ℕ) (role : String) : Row := fun c =>
  if c = "user_id" then .num userId
  else if c = "organization_id" then .num 1
  else if c = "role" then .text role else .null

/-- Two people administer the organization and a third is a member. -/
def team : Store
  | users => ((Table.empty.insert (accountRow "ada" "ada@example.com")).insert
      (accountRow "bob" "bob@example.com")).insert (accountRow "cy" "cy@example.com")
  | memberships => ((Table.empty.insert (membershipRow 1 "owner")).insert
      (membershipRow 2 "admin")).insert (membershipRow 3 "member")
  | organizations => Table.empty.insert fun _ => .null
  | _ => Table.empty

/-- Nothing is under way. -/
def quiet : Office := ⟨team, fun _ => none⟩

/-- A role check that passes. -/
theorem requestStep_authorize {s : Office} {k : ℕ} {request : ErasureRequest}
    (hphase : s.phase k = none) (hrole : authorizes s.db request = true) :
    requestStep s (.authorize k request) = some (s.enter k (.authorized request)) := by
  simp only [requestStep, hphase, hrole, if_true]

/-- A lookup that finds somebody else. -/
theorem requestStep_find {s : Office} {k : ℕ} {request : ErasureRequest} {subject : User}
    (hphase : s.phase k = some (.authorized request))
    (hfound : colleague s.db request = some subject) (hother : subject.id ≠ request.callerId) :
    requestStep s (.find k) = some (s.enter k (.found request subject)) := by
  simp only [requestStep, hphase, hfound, if_neg hother]

/-- An erasure. -/
theorem requestStep_erase {s : Office} {k : ℕ} {request : ErasureRequest} {subject : User}
    (hphase : s.phase k = some (.found request subject)) :
    requestStep s (.erase k) = some ({ s with db := (eraseSubject subject
      (insertInto s.db auditLog (auditRow request subject))).1 }.enter k .erased) := by
  simp only [requestStep, hphase]

/-- The owner asks for the administrator, and the administrator for the owner. -/
def forBob : ErasureRequest := ⟨1, 1, "bob"⟩

def forAda : ErasureRequest := ⟨2, 1, "ada"⟩

def bob : User := ⟨2, "bob", "bob@example.com"⟩

def owner : User := ⟨1, "ada", "ada@example.com"⟩

/-- Both requests have passed the checks. -/
def bothFound : Office :=
  (((quiet.enter 0 (.authorized forBob)).enter 1 (.authorized forAda)).enter 0
    (.found forBob bob)).enter 1 (.found forAda owner)

/-- Both requests pass the checks. -/
theorem execution_bothFound : ∃ tr, Execution requestStep unguarded quiet tr bothFound ∧
    ∀ x ∈ tr, ∀ k, x.2 ≠ .erase k := by
  have h₁ : requestStep quiet (.authorize 0 forBob) = _ := requestStep_authorize rfl (by decide)
  have h₂ : requestStep (quiet.enter 0 (.authorized forBob)) (.authorize 1 forAda) = _ :=
    requestStep_authorize rfl (by decide)
  have h₃ : requestStep ((quiet.enter 0 (.authorized forBob)).enter 1 (.authorized forAda))
      (.find 0) = some (((quiet.enter 0 (.authorized forBob)).enter 1
        (.authorized forAda)).enter 0 (.found forBob bob)) :=
    requestStep_find rfl (by decide) (by decide)
  have h₄ : requestStep (((quiet.enter 0 (.authorized forBob)).enter 1 (.authorized forAda)).enter
      0 (.found forBob bob)) (.find 1) = some bothFound :=
    requestStep_find rfl (by decide) (by decide)
  refine ⟨_, (((nil.snoc trivial h₁).snoc trivial h₂).snoc trivial h₃).snoc trivial h₄, ?_⟩
  simp

/-- The memberships of the team. -/
theorem rows_team : (team memberships).rows =
    [(1, membershipRow 1 "owner"), (2, membershipRow 2 "admin"), (3, membershipRow 3 "member")] :=
  rfl

theorem mem_team {i : ℕ} {m : Row} (hm : (i, m) ∈ (team memberships).rows) :
    m = membershipRow 1 "owner" ∨ m = membershipRow 2 "admin" ∨ m = membershipRow 3 "member" := by
  rw [rows_team] at hm
  simp only [List.mem_cons, Prod.mk.injEq, List.not_mem_nil, or_false] at hm
  tauto

/-- The owner. -/
theorem owner_mem : (1, membershipRow 1 "owner") ∈ (team memberships).rows :=
  rows_team ▸ List.mem_cons_self

/-- The organization of the team is organization `1`. -/
theorem eq_one_of_hasMember {o : ℕ} {p : Row → Prop} (h : HasMember team o p) : o = 1 := by
  obtain ⟨⟨i, m⟩, hm, ho, -⟩ := h
  rw [memberOf, decide_eq_true_eq] at ho
  rcases mem_team hm with rfl | rfl | rfl
  all_goals exact (Value.num.inj ho).symm

end ProcureSignal.Privacy
