/-
# Supplier impact scores

`scoring/impact.py`: severity × recency × confidence, summed with diminishing returns,
and the band a supplier falls in.  The arithmetic is over the rationals; `decay` stands
for `0.5 ** x`, which takes irrational values, and no result depends on it.

An event of type `sanctions` puts a supplier in the top band whatever the arithmetic
says (`band_scoreSupplier_of_sanctions`), but only events published in the window are
scored, and a designation is published when the authority made it.  `topBand_iff` gives
the exact condition.
-/
import ProcureSignal.Library.Unicode
import ProcureSignal.Models

namespace ProcureSignal.Scoring

variable (decay : ℚ → ℚ)

/-! ## One supplier -/

/-- `str.lower` as far as the severity names go: no other character than the ASCII
letters lowers to a letter of them. -/
def lower (s : String) : String := String.ofList (s.toList.map Unicode.asciiLower)

/-- `SEVERITY_WEIGHTS`, and `UNKNOWN_SEVERITY_WEIGHT` for every other severity. -/
def severityWeight (severity : String) : ℚ :=
  if lower severity = "critical" then 1
  else if lower severity = "high" then 7 / 10
  else if lower severity = "medium" then 4 / 10
  else if lower severity = "low" then 2 / 10
  else 4 / 10

/-- `HALF_LIFE_DAYS`. -/
def halfLifeDays : ℚ := 14

/-- `CORROBORATION_DISCOUNT`. -/
def corroborationDiscount : ℚ := 35 / 100

/-- `_MAXIMUM_TOTAL`. -/
def maximumTotal : ℚ := 1 / (1 - corroborationDiscount)

/-- `SANCTIONS_RISK_TYPE`. -/
def sanctionsRiskType : String := "sanctions"

/-- `TOP_BAND`. -/
def topBand : String := "severe"

/-- `BANDS`, strongest first. -/
def bands : List (ℚ × String) := [(1 / 2, topBand), (1 / 4, "elevated"), (1 / 20, "low")]

/-- `NO_BAND`. -/
def noBand : String := "none"

/-- `Driver`: one event and what it contributed. -/
structure Driver where
  eventKey : String
  riskType : String
  severity : String
  confidence : ℚ
  publishedAt : Instant
  contribution : ℚ
  evidenceSnippet : String
  sourceName : String
  deriving DecidableEq, Repr

/-- `ImpactScore`. -/
structure ImpactScore where
  value : ℚ
  band : String
  drivers : List Driver
  deriving DecidableEq, Repr

/-- `SupplierImpact`. -/
structure SupplierImpact where
  supplierPublicId : String
  supplierName : String
  score : ImpactScore
  deriving DecidableEq, Repr

/-- `_recency`; an event in the future counts as one of now. -/
def recency (publishedAt now : Instant) : ℚ :=
  let ageDays := max 0 (((now - publishedAt : ℤ) : ℚ) / (days 1 : ℚ))
  decay (ageDays / halfLifeDays)

/-- `_contribution`. -/
def contribution (event : RiskEvent) (now : Instant) : ℚ :=
  severityWeight event.severity * recency decay event.publishedAt now *
    min 1 (max 0 event.confidence)

/-- `_band`. -/
def band (value : ℚ) (sanctioned : Bool) : String :=
  if sanctioned then topBand
  else
    match bands.find? (fun b => b.1 ≤ value) with
    | some (_, name) => name
    | none => noBand

/-- The `Driver` of an event. -/
def driver (now : Instant) (event : RiskEvent) : Driver where
  eventKey := event.eventKey
  riskType := event.riskType
  severity := event.severity
  confidence := event.confidence
  publishedAt := event.publishedAt
  contribution := contribution decay event now
  evidenceSnippet := event.evidenceSnippet
  sourceName := event.sourceName

/-- The order of the drivers: `(-contribution, event_key)`. -/
def driverLe (d d' : Driver) : Prop :=
  d'.contribution < d.contribution ∨ (d.contribution = d'.contribution ∧ d.eventKey ≤ d'.eventKey)

instance : DecidableRel driverLe := fun d d' =>
  inferInstanceAs (Decidable (d'.contribution < d.contribution ∨
    (d.contribution = d'.contribution ∧ d.eventKey ≤ d'.eventKey)))

/-- The discounted sum; `position` counts the drivers already added. -/
def discountedTotal : ℕ → List Driver → ℚ
  | _, [] => 0
  | position, d :: ds =>
      d.contribution * corroborationDiscount ^ position + discountedTotal (position + 1) ds

/-- `score_supplier`. -/
def scoreSupplier (events : List RiskEvent) (now : Instant) : ImpactScore :=
  if events = [] then ⟨0, noBand, []⟩
  else
    let drivers := (events.map (driver decay now)).insertionSort driverLe
    let value := min 1 (discountedTotal 0 drivers / maximumTotal)
    let sanctioned := drivers.any fun d => d.riskType = sanctionsRiskType
    ⟨value, band value sanctioned, drivers⟩

/-- **The sanctions override**: one sanctions event among the scored ones puts the
supplier in the top band. -/
theorem band_scoreSupplier_of_sanctions {events : List RiskEvent} {e : RiskEvent}
    (he : e ∈ events) (hs : e.riskType = sanctionsRiskType) (now : Instant) :
    (scoreSupplier decay events now).band = topBand := by
  unfold scoreSupplier
  rw [if_neg (List.ne_nil_of_mem he)]
  have hany : ((events.map (driver decay now)).insertionSort driverLe).any
      (fun d => d.riskType = sanctionsRiskType) = true := by
    rw [List.any_eq_true]
    refine ⟨driver decay now e, ?_, ?_⟩
    · rw [List.mem_insertionSort]
      exact List.mem_map_of_mem he
    · rw [decide_eq_true_eq]
      exact hs
  simp only [hany, band, if_true]

/-- Without an event a supplier has no band. -/
theorem band_scoreSupplier_nil (now : Instant) :
    (scoreSupplier decay [] now).band = noBand := by
  rw [scoreSupplier, if_pos rfl]

/-! ## Events by supplier -/

/-- `grouped.setdefault(public_id, []).append(event)`. -/
def appendEvent (grouped : List (String × List RiskEvent)) (publicId : String)
    (event : RiskEvent) : List (String × List RiskEvent) :=
  match grouped with
  | [] => [(publicId, [event])]
  | (key, events) :: rest =>
      if key = publicId then (key, events ++ [event]) :: rest
      else (key, events) :: appendEvent rest publicId event

/-- `grouped.get(public_id, [])`. -/
def eventsOf (grouped : List (String × List RiskEvent)) (publicId : String) : List RiskEvent :=
  ((grouped.find? fun group => group.1 = publicId).map (·.2)).getD []

/-- `_events_by_supplier`: the events published since the cutoff, grouped by the
suppliers they name. -/
def eventsBySupplier (db : Database) (cutoff : Instant) : List (String × List RiskEvent) :=
  (db.riskEvents.values.filter fun event => cutoff ≤ event.publishedAt).foldl
    (fun grouped event => event.affectedSupplierIds.foldl
      (fun grouped publicId => appendEvent grouped publicId event) grouped) []

/-- Appending an event extends the group of its supplier only. -/
theorem eventsOf_appendEvent (grouped : List (String × List RiskEvent)) (publicId key : String)
    (event : RiskEvent) :
    eventsOf (appendEvent grouped publicId event) key
      = if publicId = key then eventsOf grouped key ++ [event] else eventsOf grouped key := by
  induction grouped with
  | nil =>
      by_cases h : publicId = key
      · simp [appendEvent, eventsOf, h]
      · simp [appendEvent, eventsOf, h]
  | cons group rest ih =>
      obtain ⟨k, events⟩ := group
      unfold appendEvent
      by_cases hk : k = publicId
      · subst hk
        by_cases h : k = key
        · simp [eventsOf, h]
        · simp [eventsOf, h]
      · rw [if_neg hk]
        by_cases h : k = key
        · have hne : ¬ publicId = key := fun h' => hk (h.trans h'.symm)
          simp [eventsOf, h, hne]
        · unfold eventsOf at ih ⊢
          simp only [List.find?_cons, h, decide_false]
          exact ih

/-- The group of a supplier holds the events that name it. -/
theorem mem_eventsOf_foldl {key : String} {e : RiskEvent} (events : List RiskEvent)
    (grouped : List (String × List RiskEvent)) :
    e ∈ eventsOf (events.foldl (fun grouped event => event.affectedSupplierIds.foldl
        (fun grouped publicId => appendEvent grouped publicId event) grouped) grouped) key ↔
      e ∈ eventsOf grouped key ∨ (e ∈ events ∧ key ∈ e.affectedSupplierIds) := by
  have hone : ∀ (event : RiskEvent) (ids : List String) (grouped : List (String × List RiskEvent)),
      e ∈ eventsOf (ids.foldl (fun grouped publicId => appendEvent grouped publicId event) grouped)
        key ↔ e ∈ eventsOf grouped key ∨ (e = event ∧ key ∈ ids) := by
    intro event ids
    induction ids with
    | nil => simp
    | cons id ids ih =>
        intro grouped
        rw [List.foldl_cons, ih, eventsOf_appendEvent]
        by_cases h : id = key
        · simp only [h, if_true, List.mem_append, List.mem_cons, List.not_mem_nil, or_false]
          tauto
        · have hne : ¬ key = id := fun h' => h h'.symm
          simp only [h, if_false, List.mem_cons, hne, false_or]
  induction events generalizing grouped with
  | nil => simp
  | cons event events ih =>
      rw [List.foldl_cons]
      refine (ih _).trans ?_
      rw [hone, List.mem_cons]
      constructor
      · rintro ((h | ⟨rfl, h⟩) | ⟨h, hk⟩)
        · exact Or.inl h
        · exact Or.inr ⟨Or.inl rfl, h⟩
        · exact Or.inr ⟨Or.inr h, hk⟩
      · rintro (h | ⟨rfl | h, hk⟩)
        · exact Or.inl (Or.inl h)
        · exact Or.inl (Or.inr ⟨rfl, hk⟩)
        · exact Or.inr ⟨h, hk⟩

/-- **The events that reach the score** of a supplier: published since the cutoff, and
naming it. -/
theorem mem_eventsOf_eventsBySupplier {db : Database} {cutoff : Instant} {key : String}
    {e : RiskEvent} :
    e ∈ eventsOf (eventsBySupplier db cutoff) key ↔
      e ∈ db.riskEvents.values ∧ cutoff ≤ e.publishedAt ∧ key ∈ e.affectedSupplierIds := by
  unfold eventsBySupplier
  rw [mem_eventsOf_foldl, List.mem_filter, decide_eq_true_eq]
  simp [eventsOf, and_assoc]

/-! ## The two reports -/

/-- `RetentionPolicy().risk_event_days`. -/
def riskEventDays : ℤ := 14

/-- The impact of one supplier against grouped events. -/
def impactOf (grouped : List (String × List RiskEvent)) (now : Instant) (s : Supplier) :
    SupplierImpact :=
  ⟨s.publicId, s.canonicalName, scoreSupplier decay (eventsOf grouped s.publicId) now⟩

/-- `supplier_impact`. -/
def supplierImpact (db : Database) (supplierPublicId : String) (now : Instant)
    (window : ℤ := riskEventDays) : Option SupplierImpact :=
  (db.suppliers.values.find? fun s => s.publicId = supplierPublicId ∧ s.isActive = true).map
    (impactOf decay (eventsBySupplier db (now - days window)) now)

/-- The suppliers an organization watches: the join of entries, watchlists and active
suppliers, each supplier once. -/
def watchedSuppliers (db : Database) (organizationId : ℕ) : List (ℕ × Supplier) :=
  (db.watchlistEntries.values.filterMap fun entry =>
    match db.watchlists.find? entry.watchlistId, db.suppliers.find? entry.supplierId with
    | some w, some s =>
        if w.organizationId = organizationId ∧ s.isActive = true then some (entry.supplierId, s)
        else none
    | _, _ => none).dedup

/-- The order of the report: `(-score.value, supplier_name)`. -/
def impactLe (a b : SupplierImpact) : Prop :=
  b.score.value < a.score.value ∨
    (a.score.value = b.score.value ∧ a.supplierName ≤ b.supplierName)

instance : DecidableRel impactLe := fun a b =>
  inferInstanceAs (Decidable (b.score.value < a.score.value ∨
    (a.score.value = b.score.value ∧ a.supplierName ≤ b.supplierName)))

/-- `watched_impact`. -/
def watchedImpact (db : Database) (organizationId : ℕ) (now : Instant)
    (window : ℤ := riskEventDays) : List SupplierImpact :=
  let suppliers := watchedSuppliers db organizationId
  if suppliers = [] then []
  else
    ((suppliers.map (·.2)).map
      (impactOf decay (eventsBySupplier db (now - days window)) now)).insertionSort impactLe

/-- An organization has the supplier under this key on one of its watchlists. -/
def Watches (db : Database) (organizationId supplierId : ℕ) : Prop :=
  ∃ entry ∈ db.watchlistEntries.values, entry.supplierId = supplierId ∧
    ∃ w, db.watchlists.find? entry.watchlistId = some w ∧ w.organizationId = organizationId

/-- The impact of an active supplier is reported. -/
theorem supplierImpact_eq {db : Database} {i : ℕ} {s : Supplier}
    (hs : db.suppliers.find? i = some s) (hactive : s.isActive = true) (now : Instant)
    (window : ℤ) :
    supplierImpact decay db s.publicId now window
      = some (impactOf decay (eventsBySupplier db (now - days window)) now s) := by
  have hmem : s ∈ db.suppliers.values :=
    Table.mem_values.mpr ⟨i, Table.find?_eq_some_iff.mp hs⟩
  unfold supplierImpact
  cases hf : db.suppliers.values.find? (fun t => t.publicId = s.publicId ∧ t.isActive = true) with
  | none =>
      have hnone := List.find?_eq_none.mp hf s hmem
      simp [hactive] at hnone
  | some t =>
      have ht := List.find?_some hf
      rw [decide_eq_true_eq] at ht
      obtain ⟨j, hj⟩ := Table.mem_values.mp (List.mem_of_find?_eq_some hf)
      -- public ids are unique
      have heq : (j, t) = (i, s) := UniqueTable.eq_of_unique (t := db.suppliers)
        List.mem_cons_self hj (Table.find?_eq_some_iff.mp hs) rfl (by rw [ht.1])
      rw [(Prod.mk.inj heq).2]
      rfl

/-- A watched active supplier is in the report. -/
theorem impactOf_mem_watchedImpact {db : Database} {organizationId i : ℕ} {s : Supplier}
    (hs : db.suppliers.find? i = some s) (hactive : s.isActive = true)
    (hw : Watches db organizationId i) (now : Instant) (window : ℤ) :
    impactOf decay (eventsBySupplier db (now - days window)) now s
      ∈ watchedImpact decay db organizationId now window := by
  have hmem : (i, s) ∈ watchedSuppliers db organizationId := by
    obtain ⟨entry, hentry, rfl, w, hwl, horg⟩ := hw
    refine List.mem_dedup.mpr (List.mem_filterMap.mpr ⟨entry, hentry, ?_⟩)
    simp only [hwl, hs, horg, hactive, and_self, if_true]
  unfold watchedImpact
  simp only
  rw [if_neg (List.ne_nil_of_mem hmem), List.mem_insertionSort]
  exact List.mem_map_of_mem (List.mem_map_of_mem (f := (·.2)) hmem)

/-- The report lists each impact with the score of its supplier. -/
theorem exists_of_mem_watchedImpact {db : Database} {organizationId : ℕ} {now : Instant}
    {window : ℤ} {impact : SupplierImpact}
    (h : impact ∈ watchedImpact decay db organizationId now window) :
    ∃ s, impact = impactOf decay (eventsBySupplier db (now - days window)) now s := by
  unfold watchedImpact at h
  simp only at h
  split at h
  · cases h
  · rw [List.mem_insertionSort] at h
    obtain ⟨s, -, rfl⟩ := List.mem_map.mp h
    exact ⟨s, rfl⟩

/-! ## The sanctions override end to end -/

/-- Both reports put the supplier under this key in the top band: the one on the
supplier, and that of every organization that watches it. -/
def ReportedTop (db : Database) (now : Instant) (i : ℕ) (s : Supplier) : Prop :=
  (∃ impact, supplierImpact decay db s.publicId now = some impact ∧
    impact.score.band = topBand) ∧
  ∀ organizationId, Watches db organizationId i →
    (∃ impact ∈ watchedImpact decay db organizationId now, impact.supplierPublicId = s.publicId) ∧
    ∀ impact ∈ watchedImpact decay db organizationId now,
      impact.supplierPublicId = s.publicId → impact.score.band = topBand

/-- A sanctions event of the window reaches both reports. -/
theorem reportedTop_of_published {db : Database} {now : Instant} {i : ℕ} {s : Supplier}
    (hs : db.suppliers.find? i = some s) (hactive : s.isActive = true) {e : RiskEvent}
    (he : e ∈ db.riskEvents.values) (hrisk : e.riskType = sanctionsRiskType)
    (hnames : s.publicId ∈ e.affectedSupplierIds)
    (hpublished : now - days riskEventDays ≤ e.publishedAt) : ReportedTop decay db now i s := by
  have hscored : ∀ t : Supplier, t.publicId = s.publicId →
      (impactOf decay (eventsBySupplier db (now - days riskEventDays)) now t).score.band
        = topBand := by
    intro t ht
    apply band_scoreSupplier_of_sanctions decay _ hrisk
    rw [ht]
    exact mem_eventsOf_eventsBySupplier.mpr ⟨he, hpublished, hnames⟩
  refine ⟨⟨_, supplierImpact_eq decay hs hactive now riskEventDays, hscored s rfl⟩, ?_⟩
  intro organizationId hw
  refine ⟨⟨_, impactOf_mem_watchedImpact decay hs hactive hw now riskEventDays, rfl⟩, ?_⟩
  intro impact himpact hid
  obtain ⟨t, rfl⟩ := exists_of_mem_watchedImpact decay himpact
  exact hscored t hid

/-- The database with one supplier and one risk event. -/
def single (s : Supplier) (e : RiskEvent) : Database :=
  { Database.empty with
    suppliers := UniqueTable.empty.insertFree s (fun _ _ _ _ h => by cases h)
    riskEvents := Table.empty.insert e }

/-- An event published before the window reaches neither report. -/
theorem not_reportedTop_single {s : Supplier} (hactive : s.isActive = true) {e : RiskEvent}
    {now : Instant} (hold : e.publishedAt < now - days riskEventDays) :
    ¬ ReportedTop decay (single s e) now 1 s := by
  rintro ⟨⟨impact, himpact, hband⟩, -⟩
  have hs : (single s e).suppliers.find? 1 = some s := by
    show (Table.empty.insert s).find? 1 = some s
    rw [Table.find?_insert]
    rfl
  have hnone : eventsOf (eventsBySupplier (single s e) (now - days riskEventDays)) s.publicId
      = [] := by
    rw [List.eq_nil_iff_forall_not_mem]
    intro e' he'
    obtain ⟨hmem, hpublished, -⟩ := mem_eventsOf_eventsBySupplier.mp he'
    have hvalues : (single s e).riskEvents.values = [e] := rfl
    rw [hvalues, List.mem_singleton] at hmem
    rw [hmem] at hpublished
    exact absurd hpublished (not_le.mpr hold)
  rw [supplierImpact_eq decay hs hactive now riskEventDays, Option.some.injEq] at himpact
  rw [← himpact, impactOf, hnone, band_scoreSupplier_nil] at hband
  revert hband
  decide

/-- **When a designation forces the top band.**  A sanctions event that names an active
supplier puts it in the top band of both reports, whatever else is stored, exactly when
it was published at most `riskEventDays` ago. -/
theorem sanctions_topBand_iff {s : Supplier} (hactive : s.isActive = true) {e : RiskEvent}
    (hrisk : e.riskType = sanctionsRiskType) (hnames : s.publicId ∈ e.affectedSupplierIds)
    (now : Instant) :
    (∀ db i, db.suppliers.find? i = some s → e ∈ db.riskEvents.values →
        ReportedTop decay db now i s) ↔
      now - days riskEventDays ≤ e.publishedAt := by
  constructor
  · intro hall
    by_contra hold
    refine not_reportedTop_single decay hactive (not_le.mp hold) (hall (single s e) 1 ?_ ?_)
    · show (Table.empty.insert s).find? 1 = some s
      rw [Table.find?_insert]
      rfl
    · exact List.mem_singleton.mpr rfl
  · intro hpublished db i hs he
    exact reportedTop_of_published decay hs hactive he hrisk hnames hpublished

/-- `Acme`, an active supplier. -/
def acme : Supplier := ⟨"p1", "Acme", "acme", none, none, true⟩

/-- A designation of `Acme` published at the given time. -/
def designationOfAcme (publishedAt : Instant) : RiskEvent :=
  ⟨"e1", sanctionsRiskType, "critical", 1, ["Acme"], ["p1"], "Entity", "eu", publishedAt⟩

/-- A designation of three days ago. -/
theorem sanctions_topBand_recent :
    (∀ db i, db.suppliers.find? i = some acme →
        designationOfAcme (-days 3) ∈ db.riskEvents.values →
        ReportedTop (fun _ => 1) db 0 i acme) ↔
      0 - days riskEventDays ≤ (designationOfAcme (-days 3)).publishedAt :=
  sanctions_topBand_iff (fun _ => 1) rfl rfl List.mem_cons_self 0

/-- **An old designation does not.**  `Acme` was designated fifteen days ago; the event is
stored and names it, and both the score and the band of `Acme` are those of a supplier
without any event. -/
theorem old_designation_unbanded : ∃ db now i s e,
    db.suppliers.find? i = some s ∧ s.isActive = true ∧ e ∈ db.riskEvents.values ∧
      e.riskType = sanctionsRiskType ∧ s.publicId ∈ e.affectedSupplierIds ∧
      ∀ decay, supplierImpact decay db s.publicId now = some ⟨"p1", "Acme", ⟨0, noBand, []⟩⟩ ∧
        ¬ ReportedTop decay db now i s := by
  refine ⟨single acme (designationOfAcme (-days 15)), 0, 1, acme, designationOfAcme (-days 15),
    rfl, rfl, List.mem_singleton.mpr rfl, rfl, List.mem_cons_self, ?_⟩
  intro decay
  exact ⟨rfl, not_reportedTop_single decay rfl (by decide)⟩

end ProcureSignal.Scoring
