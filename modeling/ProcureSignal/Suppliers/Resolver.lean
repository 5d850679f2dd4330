/-
# Resolving names to canonical suppliers

`resolve_many` of `suppliers/resolver.py`: one query for a batch of names, an
exact match on the normalized alias, and only active suppliers answer.
`resolveMany_eq_map` says that the batch resolves each name on its own, by
`answering` of its normal form.
-/
import ProcureSignal.Models
import ProcureSignal.Suppliers.Normalization

namespace ProcureSignal.Suppliers

variable (U : Unicode)

/-- `Resolution`: what one supplier name turned out to be. -/
structure Resolution where
  surfaceForm : String
  supplierId : Option ℕ
  publicId : Option String
  confidence : ℚ
  deriving DecidableEq, Repr

/-- `EXACT_MATCH_CONFIDENCE`. -/
def exactMatchConfidence : ℚ := 1

/-- `_unresolved`. -/
def unresolved (surfaceForm : String) : Resolution := ⟨surfaceForm, none, none, 0⟩

/-- The rows of the alias query: the aliases asked for whose supplier is active,
with the supplier's keys. -/
def aliasRows (db : Database) (normalized : List String) : List (String × ℕ × String) :=
  db.aliases.values.filterMap fun a =>
    if a.normalizedAlias ∈ normalized then
      match db.suppliers.find? a.supplierId with
      | some s => if s.isActive then some (a.normalizedAlias, a.supplierId, s.publicId) else none
      | none => none
    else none

/-- `resolve_many`. -/
def resolveMany (db : Database) (forms : List String) : List Resolution :=
  let normalized := (forms.map (normalize U)).filter (· ≠ "")
  if normalized = [] then forms.map unresolved
  else
    let byAlias := aliasRows db normalized
    forms.map fun form =>
      match byAlias.find? (fun row => row.1 = normalize U form) with
      | some (_, supplierId, publicId) =>
          ⟨form, some supplierId, some publicId, exactMatchConfidence⟩
      | none => unresolved form

/-- `resolve`. -/
def resolve (db : Database) (surfaceForm : String) : Resolution :=
  (resolveMany U db [surfaceForm]).headD (unresolved surfaceForm)

/-! ## One name at a time -/

/-- The active supplier that answers to a normalized alias. -/
def answering (db : Database) (key : String) : Option (ℕ × Supplier) :=
  db.aliases.values.findSome? fun a =>
    if a.normalizedAlias = key then
      (db.suppliers.find? a.supplierId).bind fun s =>
        if s.isActive then some (a.supplierId, s) else none
    else none

/-- What a name resolves to, by its normal form alone. -/
def resolutionOf (db : Database) (form : String) : Resolution :=
  if normalize U form = "" then unresolved form
  else
    match answering db (normalize U form) with
    | some (supplierId, s) => ⟨form, some supplierId, some s.publicId, exactMatchConfidence⟩
    | none => unresolved form

/-- The alias query answers a key it was asked for as `answering` does. -/
theorem find?_aliasRows (db : Database) {normalized : List String} {key : String}
    (hkey : key ∈ normalized) :
    (aliasRows db normalized).find? (fun row => row.1 = key)
      = (answering db key).map fun r => (key, r.1, r.2.publicId) := by
  unfold aliasRows answering
  generalize db.aliases.values = l
  induction l with
  | nil => rfl
  | cons a l ih =>
      rw [List.filterMap_cons, List.findSome?_cons]
      by_cases hk : a.normalizedAlias = key
      · rw [if_pos hk, if_pos (by rw [hk]; exact hkey)]
        cases hs : db.suppliers.find? a.supplierId with
        | none => simpa using ih
        | some s =>
            cases hact : s.isActive with
            | false => simpa [hact] using ih
            | true => simp [hact, hk]
      · rw [if_neg hk]
        split
        · exact ih
        · rename_i row hrow
          have hne : row.1 ≠ key := by
            split at hrow
            · cases hs : db.suppliers.find? a.supplierId with
              | none => simp [hs] at hrow
              | some s =>
                  cases hact : s.isActive with
                  | false => simp [hs, hact] at hrow
                  | true =>
                      simp only [hs, hact, if_true, Option.some.injEq] at hrow
                      rw [← hrow]
                      exact hk
            · simp at hrow
          rw [List.find?_cons_of_neg (by simpa using hne)]
          exact ih

/-- **A batch resolves name by name.**  The order and number of the names play no
role. -/
theorem resolveMany_eq_map (db : Database) (forms : List String) :
    resolveMany U db forms = forms.map (resolutionOf U db) := by
  unfold resolveMany
  by_cases hnil : (forms.map (normalize U)).filter (· ≠ "") = []
  · rw [if_pos hnil]
    apply List.map_congr_left
    intro form hform
    have hempty : normalize U form = "" := by
      by_contra hne
      have hmem : normalize U form ∈ (forms.map (normalize U)).filter (· ≠ "") :=
        List.mem_filter.mpr ⟨List.mem_map_of_mem hform, by simpa using hne⟩
      rw [hnil] at hmem
      simp at hmem
    rw [resolutionOf, if_pos hempty]
  · rw [if_neg hnil]
    apply List.map_congr_left
    intro form hform
    by_cases hempty : normalize U form = ""
    · rw [resolutionOf, if_pos hempty]
      have hnone : (aliasRows db ((forms.map (normalize U)).filter (· ≠ ""))).find?
          (fun row => row.1 = normalize U form) = none := by
        rw [List.find?_eq_none]
        rintro ⟨key, rest⟩ hrow
        obtain ⟨a, _, ha⟩ := List.mem_filterMap.mp hrow
        split at ha
        · rename_i hasked
          have hasked' := (List.mem_filter.mp hasked).2
          split at ha
          · split at ha
            · have hk : a.normalizedAlias = key := by
                simpa using congrArg (fun o => o.map Prod.fst) ha
              rw [hempty]
              simpa [hk] using hasked'
            · simp at ha
          · simp at ha
        · simp at ha
      simp only [hnone]
    · have hmem : normalize U form ∈ (forms.map (normalize U)).filter (· ≠ "") :=
        List.mem_filter.mpr ⟨List.mem_map_of_mem hform, by simpa using hempty⟩
      rw [find?_aliasRows db hmem, resolutionOf, if_neg hempty]
      cases answering db (normalize U form) with
      | none => rfl
      | some r => rfl

/-- A name on its own resolves as it does in a batch. -/
theorem resolve_eq_resolutionOf (db : Database) (name : String) :
    resolve U db name = resolutionOf U db name := by
  rw [resolve, resolveMany_eq_map, List.map_cons, List.headD_cons]

@[simp] theorem surfaceForm_resolutionOf (db : Database) (form : String) :
    (resolutionOf U db form).surfaceForm = form := by
  unfold resolutionOf unresolved
  split
  · rfl
  · split <;> rfl

/-- A name that resolves is answered by the holder of its normal form. -/
theorem supplierId_resolutionOf_eq_some_iff {db : Database} {form : String} {i : ℕ} :
    (resolutionOf U db form).supplierId = some i ↔
      normalize U form ≠ "" ∧ ∃ s, answering db (normalize U form) = some (i, s) := by
  unfold resolutionOf unresolved
  by_cases hempty : normalize U form = ""
  · simp [hempty]
  · rw [if_neg hempty]
    cases h : answering db (normalize U form) with
    | none => simp
    | some r =>
        obtain ⟨j, s⟩ := r
        simp [hempty]

/-- A resolved name carries the public id of its supplier. -/
theorem publicId_resolutionOf {db : Database} {form : String} {i : ℕ} {s : Supplier}
    (hne : normalize U form ≠ "") (h : answering db (normalize U form) = some (i, s)) :
    resolutionOf U db form = ⟨form, some i, some s.publicId, exactMatchConfidence⟩ := by
  rw [resolutionOf, if_neg hne, h]

/-- The supplier that answers holds the alias and is active. -/
theorem answering_eq_some {db : Database} {key : String} {i : ℕ} {s : Supplier}
    (h : answering db key = some (i, s)) :
    db.suppliers.find? i = some s ∧ s.isActive = true ∧
      ∃ a ∈ db.aliases.values, a.normalizedAlias = key ∧ a.supplierId = i := by
  obtain ⟨a, ha, hsome⟩ := List.exists_of_findSome?_eq_some h
  split at hsome
  · rename_i hk
    rw [Option.bind_eq_some_iff] at hsome
    obtain ⟨t, ht, hact⟩ := hsome
    split at hact
    · rename_i htrue
      obtain ⟨rfl, rfl⟩ := Prod.mk.inj (Option.some.inj hact)
      exact ⟨ht, htrue, a, ha, hk, rfl⟩
    · simp at hact
  · simp at hsome

/-- The one holder of an alias answers to it when it is active. -/
theorem answering_of_mem {db : Database} {a : SupplierAlias} {s : Supplier}
    (ha : a ∈ db.aliases.values) (hs : db.suppliers.find? a.supplierId = some s)
    (hact : s.isActive = true) :
    answering db a.normalizedAlias = some (a.supplierId, s) := by
  obtain ⟨i, hi⟩ := Table.mem_values.mp ha
  cases h : answering db a.normalizedAlias with
  | none =>
      have hnone := List.findSome?_eq_none_iff.mp h a ha
      simp [hs, hact] at hnone
  | some r =>
      obtain ⟨j, t⟩ := r
      obtain ⟨ht, -, b, hb, hk, rfl⟩ := answering_eq_some h
      obtain ⟨k, hk'⟩ := Table.mem_values.mp hb
      have heq := UniqueTable.eq_of_unique (t := db.aliases) List.mem_cons_self hi hk'
        (v := a.normalizedAlias) rfl (by rw [hk])
      have hab : a = b := (Prod.mk.inj heq).2
      subst hab
      rw [hs, Option.some.injEq] at ht
      rw [ht]

end ProcureSignal.Suppliers
