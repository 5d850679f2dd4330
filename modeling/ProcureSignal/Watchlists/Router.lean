/-
# The watchlist endpoints

`create_watchlist`, `add_supplier` and `remove_supplier` of `watchlists/service.py` behind the
routes `create`, `watch` and `unwatch` of `api/routers/watchlists.py`.  Every lookup is scoped
to the organization of the caller.  The user that an entry or a list was made by, and the audit
record of an accepted request, are left out: no reader here looks at them.

`handle_create`, `handle_watch` and `handle_unwatch` say what an accepted request does.
-/
import ProcureSignal.Suppliers.Router
import ProcureSignal.Watchlists.Service

namespace ProcureSignal.Watchlists

open Suppliers (ApiError fieldLength normalize)

/-! ## Rows -/

/-- `Watchlist` with the columns that its endpoints read. -/
structure WatchlistRow extends Watchlist where
  publicId : String
  name : String
  normalizedName : String
  deriving DecidableEq, Repr

/-- A value of a unique constraint of `watchlists`. -/
inductive WatchlistKey
  | publicId (publicId : String)
  | orgName (organizationId : ℕ) (normalizedName : String)
  deriving DecidableEq, Repr

/-- `watchlists`: unique `public_id` and (`organization_id`, `normalized_name`). -/
abbrev WatchlistTable := UniqueTable WatchlistRow WatchlistKey
  [fun w => some (.publicId w.publicId), fun w => some (.orgName w.organizationId w.normalizedName)]

/-- The tables of the watchlist endpoints; `suppliers` is only read. -/
structure Lists where
  suppliers : SupplierTable
  watchlists : WatchlistTable
  entries : Table WatchlistEntry

/-- Why the service refused a request. -/
inductive WatchlistError
  | watchlistError (message : String)
  | duplicateWatchlistError (message : String)
  | databaseError
  deriving DecidableEq, Repr

/-! ## The service -/

variable (U : Unicode)

/-- The column widths of `watchlists`. -/
def watchlistFits (w : WatchlistRow) : Bool :=
  w.publicId.length ≤ 64 && w.name.length ≤ 200 && w.normalizedName.length ≤ 200

/-- `create_watchlist`; `publicId` is the drawn `uuid4().hex`. -/
def createWatchlist (st : Lists) (organizationId : ℕ) (publicId name : String) :
    Except WatchlistError Lists :=
  let normalized := normalize U name
  if normalized = "" then .error (.watchlistError "a watchlist needs a name")
  else
    match st.watchlists.values.find? fun w =>
        w.organizationId = organizationId ∧ w.normalizedName = normalized with
    | some existing =>
        .error (.duplicateWatchlistError
          ("'" ++ existing.name ++ "' already exists in this organization"))
    | none =>
        match insertRows st.watchlists watchlistFits
            [⟨⟨organizationId⟩, publicId, U.strip name, normalized⟩] with
        | .ok watchlists => .ok { st with watchlists := watchlists }
        | .error _ => .error .databaseError

/-- `add_supplier`. -/
def addSupplier (st : Lists) (watchlistId supplierId : ℕ) : Lists :=
  if st.entries.values.any fun e => e.watchlistId = watchlistId ∧ e.supplierId = supplierId then st
  else { st with entries := st.entries.insert ⟨watchlistId, supplierId⟩ }

/-- `remove_supplier`. -/
def removeSupplier (st : Lists) (watchlistId supplierId : ℕ) : Lists :=
  { st with
    entries := st.entries.delete fun _ e => e.watchlistId = watchlistId ∧ e.supplierId = supplierId }

/-! ## The routes -/

/-- A request of a member. -/
inductive Request
  | create (publicId name : String)
  | watch (publicId supplierPublicId : String)
  | unwatch (publicId supplierPublicId : String)
  deriving DecidableEq, Repr

/-- `_owned`: the list with this public id, of the caller's organization. -/
def owned (st : Lists) (organizationId : ℕ) (publicId : String) :
    Except ApiError (ℕ × WatchlistRow) :=
  match st.watchlists.rows.find? fun r =>
      r.2.publicId = publicId ∧ r.2.organizationId = organizationId with
  | some r => .ok r
  | none => .error (.http 404 "Watchlist not found")

/-- `_supplier`: the active supplier with this public id. -/
def activeSupplier (st : Lists) (publicId : String) : Except ApiError (ℕ × Supplier) :=
  match st.suppliers.rows.find? fun r => r.2.publicId = publicId ∧ r.2.isActive = true with
  | some r => .ok r
  | none => .error (.http 404 "Supplier not found")

/-- `create`. -/
def create (st : Lists) (organizationId : ℕ) (publicId name : String) : Except ApiError Lists :=
  if fieldLength 1 200 name then
    match createWatchlist U st organizationId publicId name with
    | .ok st' => .ok st'
    | .error (.duplicateWatchlistError message) => .error (.http 409 message)
    | .error (.watchlistError message) => .error (.http 400 message)
    | .error .databaseError => .error (.unhandled .databaseError)
  else .error .unprocessable

/-- `watch` and `unwatch`, which differ in what they do with the list and the supplier. -/
def onEntry (change : Lists → ℕ → ℕ → Lists) (st : Lists) (organizationId : ℕ)
    (publicId supplierPublicId : String) : Except ApiError Lists :=
  match owned st organizationId publicId with
  | .error e => .error e
  | .ok (watchlistId, _) =>
      match activeSupplier st supplierPublicId with
      | .error e => .error e
      | .ok (supplierId, _) => .ok (change st watchlistId supplierId)

/-- `watch`. -/
def watch : Lists → ℕ → String → String → Except ApiError Lists := onEntry addSupplier

/-- `unwatch`. -/
def unwatch : Lists → ℕ → String → String → Except ApiError Lists := onEntry removeSupplier

/-- A request of a member of an organization. -/
def handle (st : Lists) (organizationId : ℕ) : Request → Except ApiError Lists
  | .create publicId name => create U st organizationId publicId name
  | .watch publicId supplierPublicId => watch st organizationId publicId supplierPublicId
  | .unwatch publicId supplierPublicId => unwatch st organizationId publicId supplierPublicId

/-! ## What an accepted request does -/

variable {U} {st st' : Lists} {organizationId : ℕ}

/-- An owned list is stored and belongs to the organization. -/
theorem owned_eq_ok {publicId : String} {i : ℕ} {w : WatchlistRow}
    (h : owned st organizationId publicId = .ok (i, w)) :
    st.watchlists.find? i = some w ∧ w.organizationId = organizationId := by
  unfold owned at h
  split at h
  · rename_i r hr
    obtain rfl := Except.ok.inj h
    have hcond := List.find?_some hr
    rw [decide_eq_true_eq] at hcond
    exact ⟨Table.find?_eq_some_iff.mpr (List.mem_of_find?_eq_some hr), hcond.2⟩
  · cases h

theorem activeSupplier_eq_ok {publicId : String} {i : ℕ} {s : Supplier}
    (h : activeSupplier st publicId = .ok (i, s)) : st.suppliers.find? i = some s := by
  unfold activeSupplier at h
  split at h
  · rename_i r hr
    obtain rfl := Except.ok.inj h
    exact Table.find?_eq_some_iff.mpr (List.mem_of_find?_eq_some hr)
  · cases h

/-- An accepted `create` appends a list of the caller's organization. -/
theorem handle_create {publicId name : String}
    (h : handle U st organizationId (.create publicId name) = .ok st') :
    ∃ watchlists w, w.organizationId = organizationId ∧
      watchlists.toTable = st.watchlists.toTable.insert w ∧
      st' = { st with watchlists := watchlists } := by
  simp only [handle, create] at h
  split at h
  · split at h
    · rename_i st₁ hcreate
      obtain rfl := Except.ok.inj h
      unfold createWatchlist at hcreate
      simp only at hcreate
      split at hcreate
      · cases hcreate
      split at hcreate
      · cases hcreate
      split at hcreate
      · rename_i watchlists hinsert
        refine ⟨watchlists, ⟨⟨organizationId⟩, publicId, U.strip name, normalize U name⟩, rfl, ?_,
          (Except.ok.inj hcreate).symm⟩
        obtain ⟨hall, -⟩ := insertRows_eq_ok hinsert
        rw [UniqueTable.insertAll?, Option.bind_eq_some_iff] at hall
        obtain ⟨t, ht, hnil⟩ := hall
        obtain ⟨hfree, rfl⟩ := UniqueTable.insert?_eq_some_iff.mp ht
        rw [UniqueTable.insertAll?, Option.some.injEq] at hnil
        rw [← hnil]
        rfl
      · cases hcreate
    all_goals cases h
  · cases h

/-- An accepted `watch` or `unwatch` changes one entry of an owned list. -/
theorem onEntry_eq_ok {change : Lists → ℕ → ℕ → Lists} {publicId supplierPublicId : String}
    (h : onEntry change st organizationId publicId supplierPublicId = .ok st') :
    ∃ watchlistId w supplierId s, st.watchlists.find? watchlistId = some w ∧
      w.organizationId = organizationId ∧ st.suppliers.find? supplierId = some s ∧
      st' = change st watchlistId supplierId := by
  unfold onEntry at h
  split at h
  · cases h
  · rename_i watchlistId w howned
    split at h
    · cases h
    · rename_i supplierId s hactive
      obtain ⟨hw, horg⟩ := owned_eq_ok howned
      exact ⟨watchlistId, w, supplierId, s, hw, horg, activeSupplier_eq_ok hactive,
        (Except.ok.inj h).symm⟩

@[simp] theorem watchlists_addSupplier (st : Lists) (watchlistId supplierId : ℕ) :
    (addSupplier st watchlistId supplierId).watchlists = st.watchlists := by
  unfold addSupplier
  split <;> rfl

/-- The entries after `add_supplier`. -/
theorem mem_entries_addSupplier {watchlistId supplierId : ℕ} {e : WatchlistEntry} :
    e ∈ (addSupplier st watchlistId supplierId).entries.values ↔
      e ∈ st.entries.values ∨ e = ⟨watchlistId, supplierId⟩ := by
  unfold addSupplier
  split
  · rename_i hany
    rw [List.any_eq_true] at hany
    obtain ⟨e', he', hsame⟩ := hany
    rw [decide_eq_true_eq] at hsame
    constructor
    · exact Or.inl
    · rintro (he | rfl)
      · exact he
      · obtain ⟨rfl, rfl⟩ := hsame
        exact he'
  · rw [Table.values_insert, List.mem_append, List.mem_singleton]

/-- The entries after `remove_supplier`. -/
theorem mem_entries_removeSupplier {watchlistId supplierId : ℕ} {e : WatchlistEntry} :
    e ∈ (removeSupplier st watchlistId supplierId).entries.values ↔
      e ∈ st.entries.values ∧ ¬ (e.watchlistId = watchlistId ∧ e.supplierId = supplierId) := by
  simp only [removeSupplier, Table.mem_values, Table.mem_rows_delete, decide_eq_false_iff_not]
  constructor
  · rintro ⟨i, hi, hne⟩
    exact ⟨⟨i, hi⟩, hne⟩
  · rintro ⟨⟨i, hi⟩, hne⟩
    exact ⟨i, hi, hne⟩

end ProcureSignal.Watchlists
