/-
# Merging suppliers and the organizations that watch them

`merge_suppliers` moves the aliases and the mentions of the merged supplier to the
survivor and leaves the watchlist entries where they are, on a supplier that is now
inactive.  Three readers join entries to active suppliers: `watched_supplier_ids`, the
alert rules and `watched_impact`.

* `Reported` : what the three readers show of a supplier; `reported_iff`;
* `mergeSuppliers_keepsWatchers_iff` : when no watcher of the merged supplier is lost;
* `merge_loses_watcher` : a watcher that is.
-/
import ProcureSignal.Notifications.Rules
import ProcureSignal.Suppliers.System

namespace ProcureSignal.Watchlists

open Scoring (Watches watchedImpact watchedSuppliers impactOf_mem_watchedImpact)
open Notifications (AlertRule RuleMatch evaluateRules meetsRule mem_evaluateRules mem_hits hits
  watchedByOrganization)
open Suppliers (mergeSuppliers mergeSuppliers_eq_ok find?_deactivate)

variable (decay : ℚ → ℚ)

/-! ## What the readers show -/

/-- A batch has a match of the organization's rule that names the supplier. -/
def Matched (db : Database) (publicId : String) (alertRules : Table AlertRule)
    (events : List (ℕ × RiskEvent)) (rule : ℕ × AlertRule) (event : ℕ × RiskEvent) : Prop :=
  ∃ m ∈ evaluateRules db alertRules events, m.rule = rule ∧ m.event = event ∧
    publicId ∈ m.supplierPublicIds

/-- All three readers show a supplier to an organization: it is among the watched ids,
every enabled rule of the organization matches every event that affects the supplier and
passes the rule's filters, and the impact report lists it. -/
structure Reported (db : Database) (organizationId : ℕ) (publicId : String) : Prop where
  watched : publicId ∈ watchedSupplierIds db organizationId
  matched : ∀ (alertRules : Table AlertRule) (events : List (ℕ × RiskEvent)),
    ∀ rule ∈ alertRules.rows, rule.2.organizationId = organizationId → rule.2.isEnabled = true →
      ∀ event ∈ events, publicId ∈ event.2.affectedSupplierIds →
        meetsRule rule.2 event.2 = true → Matched db publicId alertRules events rule event
  listed : ∀ (now : Instant) (window : ℤ),
    ∃ impact ∈ watchedImpact decay db organizationId now window, impact.supplierPublicId = publicId

/-- None of the three readers shows the supplier to the organization. -/
structure Unreported (db : Database) (organizationId : ℕ) (publicId : String) : Prop where
  unwatched : publicId ∉ watchedSupplierIds db organizationId
  unmatched : ∀ (alertRules : Table AlertRule) (events : List (ℕ × RiskEvent)),
    ∀ rule event, rule.2.organizationId = organizationId →
      ¬ Matched db publicId alertRules events rule event
  unlisted : ∀ (now : Instant) (window : ℤ),
    ∀ impact ∈ watchedImpact decay db organizationId now window, impact.supplierPublicId ≠ publicId

/-- A match that names a supplier comes from an organization that watches it. -/
theorem watched_of_matched {db : Database} {publicId : String} {alertRules : Table AlertRule}
    {events : List (ℕ × RiskEvent)} {rule : ℕ × AlertRule} {event : ℕ × RiskEvent}
    (h : Matched db publicId alertRules events rule event) :
    publicId ∈ watchedSupplierIds db rule.2.organizationId := by
  obtain ⟨m, hm, rfl, rfl, hid⟩ := h
  obtain ⟨hrule, henabled, -, -, -, heq⟩ := mem_evaluateRules.mp hm
  rw [heq, mem_hits (List.mem_filter.mpr ⟨hrule, henabled⟩)] at hid
  exact hid.2

/-- An enabled rule of an organization that watches the supplier matches. -/
theorem matched_of_watched {db : Database} {publicId : String} {alertRules : Table AlertRule}
    {events : List (ℕ × RiskEvent)} {rule : ℕ × AlertRule} {event : ℕ × RiskEvent}
    (hrule : rule ∈ alertRules.rows) (henabled : rule.2.isEnabled = true)
    (hevent : event ∈ events) (haffected : publicId ∈ event.2.affectedSupplierIds)
    (hmeets : meetsRule rule.2 event.2 = true)
    (hw : publicId ∈ watchedSupplierIds db rule.2.organizationId) :
    Matched db publicId alertRules events rule event := by
  have hid : publicId ∈ hits
      (watchedByOrganization db (alertRules.rows.filter (·.2.isEnabled))) rule.2 event.2 :=
    (mem_hits (List.mem_filter.mpr ⟨hrule, henabled⟩)).mpr ⟨haffected, hw⟩
  refine ⟨⟨rule, event, _⟩, ?_, rfl, rfl, hid⟩
  exact mem_evaluateRules.mpr ⟨hrule, henabled, hevent, hmeets, List.ne_nil_of_mem hid, rfl⟩

/-- The impact report lists only what an organization watches. -/
theorem watched_of_listed {db : Database} {organizationId : ℕ} {now : Instant} {window : ℤ}
    {impact : Scoring.SupplierImpact}
    (h : impact ∈ watchedImpact decay db organizationId now window) :
    impact.supplierPublicId ∈ watchedSupplierIds db organizationId := by
  unfold watchedImpact at h
  simp only at h
  split at h
  · cases h
  · rw [List.mem_insertionSort, List.map_map] at h
    obtain ⟨row, hrow, rfl⟩ := List.mem_map.mp h
    obtain ⟨entry, hentry, hsome⟩ := List.mem_filterMap.mp (List.mem_dedup.mp hrow)
    split at hsome
    · rename_i w s hw hs
      split at hsome
      · rename_i hcond
        obtain rfl := Option.some.inj hsome
        exact mem_watchedSupplierIds.mpr ⟨entry.supplierId, s, hs, rfl, hcond.2, entry, hentry,
          rfl, w, hw, hcond.1⟩
      · cases hsome
    · cases hsome

/-- The public id of a stored supplier is watched when that supplier is. -/
theorem mem_watchedSupplierIds_iff {db : Database} {organizationId i : ℕ} {s : Supplier}
    (hs : db.suppliers.find? i = some s) :
    s.publicId ∈ watchedSupplierIds db organizationId ↔
      s.isActive = true ∧ Watches db organizationId i := by
  rw [mem_watchedSupplierIds]
  constructor
  · rintro ⟨j, t, ht, hid, hactive, hw⟩
    -- public ids are unique
    have heq : (j, t) = (i, s) := UniqueTable.eq_of_unique (t := db.suppliers)
      List.mem_cons_self (Table.find?_eq_some_iff.mp ht) (Table.find?_eq_some_iff.mp hs) rfl
      (by rw [hid])
    obtain ⟨rfl, rfl⟩ := Prod.mk.inj heq
    exact ⟨hactive, hw⟩
  · rintro ⟨hactive, hw⟩
    exact ⟨i, s, hs, rfl, hactive, hw⟩

/-- **The readers agree**: they show a supplier to the organizations that have it on a
list, as long as it is active. -/
theorem reported_iff {db : Database} {organizationId i : ℕ} {s : Supplier}
    (hs : db.suppliers.find? i = some s) :
    Reported decay db organizationId s.publicId ↔
      s.isActive = true ∧ Watches db organizationId i := by
  constructor
  · intro h
    exact (mem_watchedSupplierIds_iff hs).mp h.watched
  · intro h
    have hw := (mem_watchedSupplierIds_iff hs).mpr h
    refine ⟨hw, ?_, ?_⟩
    · intro alertRules events rule hrule horg henabled event hevent haffected hmeets
      subst horg
      exact matched_of_watched hrule henabled hevent haffected hmeets hw
    · intro now window
      exact ⟨_, impactOf_mem_watchedImpact decay hs h.1 h.2 now window, rfl⟩

/-- What an organization does not watch no reader shows to it. -/
theorem unreported_of_not_watched {db : Database} {organizationId : ℕ} {publicId : String}
    (h : publicId ∉ watchedSupplierIds db organizationId) :
    Unreported decay db organizationId publicId := by
  refine ⟨h, ?_, ?_⟩
  · intro alertRules events rule event horg hm
    subst horg
    exact h (watched_of_matched hm)
  · intro now window impact himpact hid
    subst hid
    exact h (watched_of_listed decay himpact)

/-! ## The merge -/

/-- A merge loses no watcher and gains none: who had the merged supplier on a list is
shown the survivor, and who had neither is not. -/
def KeepsWatchers (db db' : Database) (keepId mergeId : ℕ) (keepPublicId : String) : Prop :=
  (∀ organizationId, Watches db organizationId mergeId →
    Reported decay db' organizationId keepPublicId) ∧
  ∀ organizationId, ¬ Watches db organizationId mergeId → ¬ Watches db organizationId keepId →
    Unreported decay db' organizationId keepPublicId

/-- The survivor after a merge, and the lists, are as before. -/
theorem survivor_mergeSuppliers {db db' : Database} {keepId mergeId : ℕ}
    (h : mergeSuppliers db keepId mergeId = .ok db') {keep : Supplier}
    (hkeep : db.suppliers.find? keepId = some keep) :
    db'.suppliers.find? keepId = some keep ∧
      ∀ organizationId i, Watches db' organizationId i ↔ Watches db organizationId i := by
  obtain ⟨hne, -, -, rfl⟩ := mergeSuppliers_eq_ok h
  refine ⟨?_, fun _ _ => Iff.rfl⟩
  rw [find?_deactivate, hkeep, Option.map_some, if_neg hne]

/-- **When a merge loses no watcher.**  The entries stay on the merged supplier, so every
organization that had it on a list is shown the survivor exactly when each of them had the
survivor on a list as well, and the survivor is active.  No organization gains a
supplier. -/
theorem mergeSuppliers_keepsWatchers_iff {db db' : Database} {keepId mergeId : ℕ}
    (h : mergeSuppliers db keepId mergeId = .ok db') {keep : Supplier}
    (hkeep : db.suppliers.find? keepId = some keep) :
    KeepsWatchers decay db db' keepId mergeId keep.publicId ↔
      ∀ organizationId, Watches db organizationId mergeId →
        keep.isActive = true ∧ Watches db organizationId keepId := by
  obtain ⟨hkeep', hwatches⟩ := survivor_mergeSuppliers h hkeep
  constructor
  · rintro ⟨hlost, -⟩ organizationId hw
    have hrep := (reported_iff decay hkeep').mp (hlost organizationId hw)
    exact ⟨hrep.1, (hwatches organizationId keepId).mp hrep.2⟩
  · intro hcond
    refine ⟨?_, ?_⟩
    · intro organizationId hw
      have hboth := hcond organizationId hw
      exact (reported_iff decay hkeep').mpr ⟨hboth.1, (hwatches organizationId keepId).mpr hboth.2⟩
    · intro organizationId _ hnot
      apply unreported_of_not_watched
      intro hmem
      exact hnot ((hwatches organizationId keepId).mp
        ((mem_watchedSupplierIds_iff hkeep').mp hmem).2)

/-! ## A watcher that is lost -/

/-- `Siemens AG`, the survivor. -/
def siemens : Supplier := ⟨"p1", "Siemens AG", "siemens ag", none, none, true⟩

/-- `Siemens Aktiengesellschaft`, the duplicate. -/
def duplicate : Supplier :=
  ⟨"p2", "Siemens Aktiengesellschaft", "siemens aktiengesellschaft", none, none, true⟩

/-- The two suppliers, and the list of organization `1` with the given suppliers on it. -/
def watching (supplierIds : List ℕ) : Database :=
  { Database.empty with
    suppliers := (UniqueTable.empty.insertFree siemens (fun _ _ _ _ h => by cases h)).insertFree
      duplicate (by decide)
    watchlists := Table.empty.insert ⟨1⟩
    watchlistEntries := supplierIds.foldl (fun t i => t.insert ⟨1, i⟩) Table.empty }

/-- Organization `1` has the duplicate on its list. -/
theorem watches_watching_two : Watches (watching [2]) 1 2 :=
  ⟨⟨1, 2⟩, List.mem_singleton.mpr rfl, rfl, ⟨1⟩, rfl, rfl⟩

/-- The merge of the duplicate into `Siemens AG`. -/
def merged (supplierIds : List ℕ) : Database :=
  Suppliers.committed (watching supplierIds) (mergeSuppliers (watching supplierIds) 1 2)

theorem mergeSuppliers_watching (supplierIds : List ℕ) :
    mergeSuppliers (watching supplierIds) 1 2 = .ok (merged supplierIds) := rfl

/-- An organization with both suppliers on its list. -/
theorem mergeSuppliers_keepsWatchers_both :
    KeepsWatchers (fun _ => 1) (watching [1, 2]) (merged [1, 2]) 1 2 "p1" ↔
      ∀ organizationId, Watches (watching [1, 2]) organizationId 2 →
        siemens.isActive = true ∧ Watches (watching [1, 2]) organizationId 1 :=
  mergeSuppliers_keepsWatchers_iff (fun _ => 1) (mergeSuppliers_watching [1, 2])
    (show (watching [1, 2]).suppliers.find? 1 = some siemens from rfl)

/-- **A lost watcher.**  Organization `1` watches the duplicate only.  Before the merge its
watched ids are those of the duplicate; after it they are empty, and no reader shows it the
survivor. -/
theorem merge_loses_watcher :
    mergeSuppliers (watching [2]) 1 2 = .ok (merged [2]) ∧
      Watches (watching [2]) 1 2 ∧ watchedSupplierIds (watching [2]) 1 = ["p2"] ∧
      watchedSupplierIds (merged [2]) 1 = [] ∧
      ∀ decay, Unreported decay (merged [2]) 1 "p1" ∧
        ¬ KeepsWatchers decay (watching [2]) (merged [2]) 1 2 "p1" := by
  have hbefore : watchedSupplierIds (watching [2]) 1 = ["p2"] := by decide
  have hafter : watchedSupplierIds (merged [2]) 1 = [] := by decide
  have hnot : "p1" ∉ watchedSupplierIds (merged [2]) 1 := by
    rw [hafter]
    exact List.not_mem_nil
  refine ⟨rfl, watches_watching_two, hbefore, hafter, ?_⟩
  intro decay
  refine ⟨unreported_of_not_watched decay hnot, ?_⟩
  rintro ⟨hlost, -⟩
  exact hnot (hlost 1 watches_watching_two).watched

end ProcureSignal.Watchlists
