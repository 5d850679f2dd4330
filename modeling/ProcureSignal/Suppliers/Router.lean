/-
# The supplier endpoints

The three changing endpoints of `api/routers/suppliers.py` for an admin: a body that
meets its schema, suppliers looked up by public id whether active or not, one call of
the registry, and a commit only when the call is accepted.  The role check and the audit
record of an accepted request are left out; they read and write no supplier table.

`handle_createSupplier`, `handle_createAlias` and `handle_merge` say what an accepted
request does.
-/
import ProcureSignal.Library.Execution
import ProcureSignal.Suppliers.Registry

namespace ProcureSignal.Suppliers

variable (U : Unicode)

/-! ## Requests -/

/-- A request of an admin; `publicId` of a creation is the drawn `uuid4().hex`. -/
inductive Request
  | createSupplier (publicId canonicalName : String) (country lei : Option String)
  | createAlias (publicId aliasName : String)
  | merge (publicId mergePublicId : String)
  deriving DecidableEq, Repr

/-- Why a request was refused: its body fails the schema, a handler raised an
`HTTPException`, or an error reached the server. -/
inductive ApiError
  | unprocessable
  | http (statusCode : ℕ) (detail : String)
  | unhandled (error : ServiceError)
  deriving DecidableEq, Repr

/-- `Field(..., min_length, max_length)`. -/
def fieldLength (minLength maxLength : ℕ) (s : String) : Bool :=
  minLength ≤ s.length && s.length ≤ maxLength

/-- `SupplierCreate`, `AliasCreate` and `MergeRequest` accept the body. -/
def meetsSchema : Request → Bool
  | .createSupplier _ canonicalName country lei =>
      fieldLength 1 300 canonicalName && country.all (fieldLength 2 2) && lei.all (fieldLength 20 20)
  | .createAlias _ aliasName => fieldLength 1 300 aliasName
  | .merge _ mergePublicId => fieldLength 1 64 mergePublicId

/-! ## Handlers -/

/-- `_load`: the supplier with this public id, active or not. -/
def load (db : Database) (publicId : String) : Except ApiError (ℕ × Supplier) :=
  match db.suppliers.rows.find? fun r => r.2.publicId = publicId with
  | some r => .ok r
  | none => .error (.http 404 "Supplier not found")

/-- `create_supplier`. -/
def createSupplier (db : Database) (publicId canonicalName : String)
    (country lei : Option String) : Except ApiError Database :=
  match registerSupplier U db publicId canonicalName country lei with
  | .ok (db', _) => .ok db'
  | .error (.duplicateSupplierError message) => .error (.http 409 message)
  | .error (.ambiguousAliasError message) => .error (.http 409 message)
  | .error (.supplierRegistryError message) => .error (.http 400 message)
  | .error e => .error (.unhandled e)

/-- `create_alias`. -/
def createAlias (db : Database) (publicId aliasName : String) : Except ApiError Database :=
  match load db publicId with
  | .error e => .error e
  | .ok (supplierId, _) =>
      match addAlias U db supplierId aliasName with
      | .ok (db', _) => .ok db'
      | .error (.ambiguousAliasError message) => .error (.http 409 message)
      | .error e => .error (.unhandled e)

/-- `merge`. -/
def merge (db : Database) (publicId mergePublicId : String) : Except ApiError Database :=
  match load db publicId, load db mergePublicId with
  | .ok (keepId, _), .ok (mergeId, _) =>
      match mergeSuppliers db keepId mergeId with
      | .ok db' => .ok db'
      | .error (.valueError message) => .error (.http 400 message)
      | .error e => .error (.unhandled e)
  | .error e, _ => .error e
  | _, .error e => .error e

/-- A request against the committed tables. -/
def handle (db : Database) (request : Request) : Except ApiError Database :=
  if meetsSchema request then
    match request with
    | .createSupplier publicId canonicalName country lei =>
        createSupplier U db publicId canonicalName country lei
    | .createAlias publicId aliasName => createAlias U db publicId aliasName
    | .merge publicId mergePublicId => merge db publicId mergePublicId
  else .error .unprocessable

/-- A step is an accepted request. -/
def accept (db : Database) (request : Request) : Option Database := (handle U db request).toOption

/-! ## What an accepted request does -/

/-- The supplier a public id loads is stored under the key it comes with. -/
theorem load_eq_ok {db : Database} {publicId : String} {i : ℕ} {s : Supplier}
    (h : load db publicId = .ok (i, s)) :
    db.suppliers.find? i = some s ∧ s.publicId = publicId := by
  unfold load at h
  split at h
  · rename_i r hr
    obtain rfl := Except.ok.inj h
    refine ⟨Table.find?_eq_some_iff.mpr (List.mem_of_find?_eq_some hr), ?_⟩
    simpa using List.find?_some hr
  · cases h

/-- A result that is kept is that of an accepted call. -/
theorem eq_ok_of_toOption {ε α : Type} {result : Except ε α} {a : α}
    (h : result.toOption = some a) : result = .ok a := by
  cases result with
  | error e => cases h
  | ok b => rw [Option.some.inj h]

/-- An accepted request met its schema and was handled. -/
theorem accept_eq_some {db db' : Database} {request : Request}
    (h : accept U db request = some db') : handle U db request = .ok db' := eq_ok_of_toOption h

theorem handle_createSupplier {db db' : Database} {publicId canonicalName : String}
    {country lei : Option String}
    (h : handle U db (.createSupplier publicId canonicalName country lei) = .ok db') :
    ∃ supplierId,
      registerSupplier U db publicId canonicalName country lei = .ok (db', supplierId) := by
  unfold handle at h
  split at h
  · simp only [createSupplier] at h
    split at h
    · rename_i db₁ supplierId hreg
      rw [Except.ok.inj h] at hreg
      exact ⟨supplierId, hreg⟩
    all_goals cases h
  · cases h

theorem handle_createAlias {db db' : Database} {publicId aliasName : String}
    (h : handle U db (.createAlias publicId aliasName) = .ok db') :
    ∃ supplierId s record, load db publicId = .ok (supplierId, s) ∧
      addAlias U db supplierId aliasName = .ok (db', record) := by
  unfold handle at h
  split at h
  · simp only [createAlias] at h
    split at h
    · cases h
    · rename_i supplierId s hload
      split at h
      · rename_i db₁ record hadd
        rw [Except.ok.inj h] at hadd
        exact ⟨supplierId, s, record, hload, hadd⟩
      all_goals cases h
  · cases h

theorem handle_merge {db db' : Database} {publicId mergePublicId : String}
    (h : handle U db (.merge publicId mergePublicId) = .ok db') :
    ∃ keepId keep mergeId merge, load db publicId = .ok (keepId, keep) ∧
      load db mergePublicId = .ok (mergeId, merge) ∧ mergeSuppliers db keepId mergeId = .ok db' := by
  unfold handle at h
  split at h
  · simp only [merge] at h
    split at h
    · rename_i keepId keep mergeId mergeRow hkeep hmerge
      split at h
      · rename_i db₁ hok
        rw [Except.ok.inj h] at hok
        exact ⟨keepId, keep, mergeId, mergeRow, hkeep, hmerge, hok⟩
      all_goals cases h
    all_goals cases h
  · cases h

end ProcureSignal.Suppliers
