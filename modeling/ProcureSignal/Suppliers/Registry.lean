/-
# The supplier registry: create, alias, merge

`register_supplier`, `add_alias` and `merge_suppliers` of `suppliers/registry.py`
as they act on the database.  A rejected call leaves the database as it was, so
each is a function into `Except ServiceError`.

`registerSupplier_eq_ok`, `addAlias_eq_ok` and `mergeSuppliers_eq_ok` say what an
accepted call does; later modules use these and never unfold the functions.
-/
import ProcureSignal.Suppliers.Resolver

namespace ProcureSignal.Suppliers

variable (U : Unicode)

/-! ## The operations -/

/-- `_alias_holder`: the supplier, active or not, that holds a normalized alias. -/
def aliasHolder (db : Database) (normalizedAlias : String) : Option (ℕ × Supplier) :=
  db.aliases.values.findSome? fun a =>
    if a.normalizedAlias = normalizedAlias then
      (db.suppliers.find? a.supplierId).map fun s => (a.supplierId, s)
    else none

/-- The column widths of `supplier_aliases`. -/
def aliasFits (a : SupplierAlias) : Bool :=
  a.aliasName.length ≤ 300 && a.normalizedAlias.length ≤ 300

/-- The column widths of `suppliers`. -/
def supplierFits (s : Supplier) : Bool :=
  s.publicId.length ≤ 64 && s.canonicalName.length ≤ 300 && s.normalizedName.length ≤ 300 &&
    (s.country.all fun c => c.length ≤ 2) && (s.lei.all fun l => l.length ≤ 20)

/-- The refusal of a spelling another supplier answers to. -/
def ambiguousAlias (spelling : String) (holder : Supplier) (choose : String) : ServiceError :=
  .ambiguousAliasError ("'" ++ spelling ++ "' already resolves to " ++ holder.canonicalName ++
    " (" ++ holder.publicId ++ "); merge the two suppliers or choose another " ++ choose)

/-- `_claim_alias`: attach one alias; `none` when the name has no normal form or
the supplier holds it already. -/
def claimAlias (db : Database) (supplierId : ℕ) (aliasName : String) (source : AliasSource) :
    Except ServiceError (Database × Option SupplierAlias) :=
  let normalizedAlias := normalize U aliasName
  if normalizedAlias = "" then .ok (db, none)
  else
    match aliasHolder db normalizedAlias with
    | some (holderId, holder) =>
        if holderId = supplierId then .ok (db, none)
        else .error (ambiguousAlias aliasName holder "alias")
    | none =>
        let record : SupplierAlias := ⟨supplierId, aliasName, normalizedAlias, source⟩
        match insertRows db.aliases aliasFits [record] with
        | .ok aliases => .ok ({ db with aliases := aliases }, some record)
        | .error e => .error e

/-- The aliases `register_supplier` derives from a name. -/
def derivedAliases (supplierId : ℕ) (canonicalName : String) : List SupplierAlias :=
  (aliasForms U canonicalName).zipIdx.map fun (form, index) =>
    ⟨supplierId, if index = 0 then U.strip canonicalName else form, form,
      if index = 0 then .canonical else .derived⟩

/-- `register_supplier`; `publicId` is the drawn `uuid4().hex`.  Returns the key of
the new supplier. -/
def registerSupplier (db : Database) (publicId canonicalName : String)
    (country lei : Option String) : Except ServiceError (Database × ℕ) :=
  let normalizedName := normalize U canonicalName
  if normalizedName = "" then .error (.supplierRegistryError "a supplier needs a name")
  else
    match db.suppliers.values.find? (fun s => s.normalizedName = normalizedName) with
    | some existing =>
        .error (.duplicateSupplierError
          (existing.canonicalName ++ " (" ++ existing.publicId ++ ") is already registered"))
    | none =>
        -- every derived alias is checked before anything is written
        match (aliasForms U canonicalName).findSome?
            (fun form => (aliasHolder db form).map fun h => (form, h.2)) with
        | some (form, holder) => .error (ambiguousAlias form holder "name")
        | none =>
            let supplier : Supplier :=
              ⟨publicId, U.strip canonicalName, normalizedName, country, lei, true⟩
            match insertRows db.suppliers supplierFits [supplier] with
            | .error e => .error e
            | .ok suppliers =>
                let supplierId := db.suppliers.nextId
                match insertRows db.aliases aliasFits (derivedAliases U supplierId canonicalName) with
                | .error e => .error e
                | .ok aliases =>
                    .ok ({ db with suppliers := suppliers, aliases := aliases }, supplierId)

/-- `add_alias`. -/
def addAlias (db : Database) (supplierId : ℕ) (aliasName : String)
    (source : AliasSource := .manual) : Except ServiceError (Database × Option SupplierAlias) :=
  match db.suppliers.find? supplierId with
  | none => .error (.supplierRegistryError ("no supplier with id " ++ toString supplierId))
  | some _ => claimAlias U db supplierId aliasName source

/-- `UPDATE supplier_aliases SET supplier_id = keep WHERE supplier_id = merge`. -/
def moveAliases (t : SupplierAliasTable) (keepId mergeId : ℕ) : SupplierAliasTable :=
  t.update (fun _ a => a.supplierId = mergeId) (fun a => { a with supplierId := keepId })
    (by simp)

/-- `UPDATE article_supplier_mentions SET supplier_id = keep WHERE supplier_id = merge`. -/
def moveMentions (t : MentionTable) (keepId mergeId : ℕ) : MentionTable :=
  t.update (fun _ m => m.supplierId = some mergeId) (fun m => { m with supplierId := some keepId })
    (by simp)

/-- `merge.is_active = False`. -/
def deactivate (t : SupplierTable) (mergeId : ℕ) : SupplierTable :=
  t.update (fun i _ => i = mergeId) (fun s => { s with isActive := false }) (by simp)

/-- `merge_suppliers`: the loser's aliases and mentions move to the survivor and
the loser is deactivated. -/
def mergeSuppliers (db : Database) (keepId mergeId : ℕ) : Except ServiceError Database :=
  if keepId = mergeId then .error (.valueError "a supplier cannot be merged into itself")
  else
    match db.suppliers.find? keepId, db.suppliers.find? mergeId with
    | some _, some _ =>
        .ok { db with
          aliases := moveAliases db.aliases keepId mergeId
          mentions := moveMentions db.mentions keepId mergeId
          suppliers := deactivate db.suppliers mergeId }
    | _, _ => .error (.supplierRegistryError "both suppliers must exist to merge them")

/-! ## What an accepted call does -/

/-- **An accepted registration.**  No derived alias was held; one active supplier
and its derived aliases are appended and nothing else changes. -/
theorem registerSupplier_eq_ok {db db' : Database} {publicId canonicalName : String}
    {country lei : Option String} {supplierId : ℕ}
    (h : registerSupplier U db publicId canonicalName country lei = .ok (db', supplierId)) :
    normalize U canonicalName ≠ "" ∧ supplierId = db.suppliers.nextId ∧
      (∀ form ∈ aliasForms U canonicalName, aliasHolder db form = none) ∧
      ∃ suppliers aliases, db' = { db with suppliers := suppliers, aliases := aliases } ∧
        db.suppliers.insertAll? [⟨publicId, U.strip canonicalName, normalize U canonicalName,
          country, lei, true⟩] = some suppliers ∧
        db.aliases.insertAll? (derivedAliases U supplierId canonicalName) = some aliases := by
  unfold registerSupplier at h
  simp only at h
  split at h
  · cases h
  rename_i hne
  split at h
  · cases h
  split at h
  · cases h
  rename_i hheld
  split at h
  · cases h
  rename_i suppliers hsup
  split at h
  · cases h
  rename_i aliases hali
  rw [Except.ok.injEq, Prod.mk.injEq] at h
  obtain ⟨rfl, rfl⟩ := h
  refine ⟨hne, rfl, ?_, suppliers, aliases, rfl, (insertRows_eq_ok hsup).1,
    (insertRows_eq_ok hali).1⟩
  intro form hform
  have := List.findSome?_eq_none_iff.mp hheld form hform
  simpa using this

/-- **An accepted alias.**  Either nothing changes, as the name has no normal form or the
supplier holds it already, or a normal form nobody held is now held by the supplier. -/
theorem addAlias_eq_ok {db db' : Database} {supplierId : ℕ} {aliasName : String}
    {source : AliasSource} {record : Option SupplierAlias}
    (h : addAlias U db supplierId aliasName source = .ok (db', record)) :
    (db' = db ∧ (normalize U aliasName = "" ∨
        ∃ holder, aliasHolder db (normalize U aliasName) = some (supplierId, holder))) ∨
      ((∃ s, db.suppliers.find? supplierId = some s) ∧ normalize U aliasName ≠ "" ∧
        aliasHolder db (normalize U aliasName) = none ∧
        ∃ aliases, db' = { db with aliases := aliases } ∧
          db.aliases.insertAll? [⟨supplierId, aliasName, normalize U aliasName, source⟩]
            = some aliases) := by
  unfold addAlias at h
  split at h
  · cases h
  rename_i s hs
  unfold claimAlias at h
  simp only at h
  split at h
  · rename_i hempty
    rw [Except.ok.injEq, Prod.mk.injEq] at h
    exact Or.inl ⟨h.1.symm, Or.inl hempty⟩
  rename_i hne
  split at h
  · rename_i holderId holder hholder
    split at h
    · rename_i hsame
      subst hsame
      rw [Except.ok.injEq, Prod.mk.injEq] at h
      exact Or.inl ⟨h.1.symm, Or.inr ⟨holder, hholder⟩⟩
    · cases h
  rename_i hheld
  split at h
  · rename_i aliases hali
    rw [Except.ok.injEq, Prod.mk.injEq] at h
    exact Or.inr ⟨⟨s, hs⟩, hne, hheld, aliases, h.1.symm, (insertRows_eq_ok hali).1⟩
  · cases h

/-- **An accepted merge.**  Two different suppliers that exist. -/
theorem mergeSuppliers_eq_ok {db db' : Database} {keepId mergeId : ℕ}
    (h : mergeSuppliers db keepId mergeId = .ok db') :
    keepId ≠ mergeId ∧ (∃ s, db.suppliers.find? keepId = some s) ∧
      (∃ s, db.suppliers.find? mergeId = some s) ∧
      db' = { db with
        aliases := moveAliases db.aliases keepId mergeId
        mentions := moveMentions db.mentions keepId mergeId
        suppliers := deactivate db.suppliers mergeId } := by
  unfold mergeSuppliers at h
  split at h
  · cases h
  rename_i hne
  split at h
  · rename_i s t hs ht
    rw [Except.ok.injEq] at h
    exact ⟨hne, ⟨s, hs⟩, ⟨t, ht⟩, h.symm⟩
  · cases h

end ProcureSignal.Suppliers
