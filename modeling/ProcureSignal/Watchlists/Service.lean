/-
# Watchlists

`watched_supplier_ids` of `watchlists/service.py`, the one query the alert rules join
against: entries, lists and active suppliers of an organization.
-/
import ProcureSignal.Scoring.Impact

namespace ProcureSignal.Watchlists

open Scoring (Watches)

/-- `watched_supplier_ids`: the public ids of the active suppliers on the lists of an
organization, as a set. -/
def watchedSupplierIds (db : Database) (organizationId : ℕ) : List String :=
  (db.watchlistEntries.values.filterMap fun entry =>
    match db.suppliers.find? entry.supplierId, db.watchlists.find? entry.watchlistId with
    | some s, some w =>
        if w.organizationId = organizationId ∧ s.isActive = true then some s.publicId else none
    | _, _ => none).dedup

/-- **What an organization watches**: the active suppliers on its lists. -/
theorem mem_watchedSupplierIds {db : Database} {organizationId : ℕ} {publicId : String} :
    publicId ∈ watchedSupplierIds db organizationId ↔
      ∃ i s, db.suppliers.find? i = some s ∧ s.publicId = publicId ∧ s.isActive = true ∧
        Watches db organizationId i := by
  unfold watchedSupplierIds
  rw [List.mem_dedup, List.mem_filterMap]
  constructor
  · rintro ⟨entry, hentry, hrow⟩
    split at hrow
    · rename_i s w hs hw
      split at hrow
      · rename_i hcond
        exact ⟨entry.supplierId, s, hs, Option.some.inj hrow, hcond.2, entry, hentry, rfl, w, hw,
          hcond.1⟩
      · cases hrow
    · cases hrow
  · rintro ⟨i, s, hs, hid, hactive, entry, hentry, rfl, w, hw, horg⟩
    refine ⟨entry, hentry, ?_⟩
    simp only [hs, hw, horg, hactive, and_self, if_true, hid]

end ProcureSignal.Watchlists
