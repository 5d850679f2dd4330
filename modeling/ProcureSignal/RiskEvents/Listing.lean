/-
# Listing risk events

`api/routers/risk_events.py`: the list of the events of the last fourteen days, narrowed by the
parameters, ranked against the preferences of the caller and read by pages, and the status that a
reviewer sets.

* `lower` is the function of the database, which need not be that of the process.
* Scores are rational numbers.  The texts are translated afterwards.

* `confidence_le_rankScore`, `rankScore_le_one` : what a preference does to a score;
* `listRiskEvents_pages` : **the pages of a list show each of its events once, best first**;
* `listRiskEvents_delete` : the retention job takes nothing that is listed.
-/
import ProcureSignal.Library.Pages
import ProcureSignal.Personalization.Matcher
import ProcureSignal.RiskEvents.Persistence

namespace ProcureSignal.RiskEvents

open Personalization (Preference)
open Personalization.PreferenceMatcher (preferredCategories preferredRegions preferredSignals
  preferredSuppliers)
open Signals

/-! ## The list -/

/-- `RISK_EVENT_RETENTION_DAYS`. -/
def riskEventRetentionDays : ℤ := 14

/-- The parameters that narrow the list. -/
structure Filters where
  riskType : Option String
  severity : Option String
  statusFilter : Option String
  supplier : Option String
  location : Option String
  category : Option String
  deriving DecidableEq, Repr

/-- `RiskEventItem`. -/
structure RiskEventItem where
  id : ℕ
  processedArticleId : ℕ
  riskType : String
  severity : String
  confidence : ℚ
  affectedSuppliers : List String
  affectedLocations : List String
  affectedCategories : List String
  evidenceSnippet : String
  recommendation : String
  sourceName : String
  sourceUrl : String
  publishedAt : Instant
  status : String
  rankScore : ℚ
  deriving DecidableEq, Repr

/-- `RiskEventResponse`. -/
structure RiskEventResponse where
  userId : String
  events : List RiskEventItem
  totalCount : ℕ
  generatedAt : Instant
  deriving DecidableEq, Repr

/-- `_to_item`. -/
def toItem (id : ℕ) (event : RiskEvent) (rankScore : ℚ) : RiskEventItem where
  id := id
  processedArticleId := event.processedArticleId
  riskType := event.riskType
  severity := event.severity
  confidence := event.confidence
  affectedSuppliers := event.affectedSuppliers
  affectedLocations := event.affectedLocations
  affectedCategories := event.affectedCategories
  evidenceSnippet := event.evidenceSnippet
  recommendation := event.recommendation
  sourceName := event.sourceName
  sourceUrl := event.sourceUrl
  publishedAt := event.publishedAt
  status := event.status
  rankScore := rankScore

section Listing

variable (U : Unicode) (lower : String → String)

/-- `_json_contains`. -/
def jsonContains (column : List String) (expected : String) : Bool :=
  column.any fun element => lower element = normalizeSignalTerm U expected

/-- `_json_matches_any`. -/
def jsonMatchesAny (column values : List String) : Bool :=
  values.any (jsonContains U lower column)

/-- A parameter of `_apply_filters`. -/
def admits (expected : Option String) (value : String) : Bool :=
  expected.all fun e => e = "" || value = e

/-- A parameter of `_apply_json_filters`. -/
def admitsJson (expected : Option String) (column : List String) : Bool :=
  expected.all fun e => U.strip e = "" || jsonContains U lower column e

/-- `_apply_filters` and `_apply_json_filters`. -/
def Filters.pass (f : Filters) (event : RiskEvent) : Bool :=
  admits f.riskType event.riskType && admits f.severity event.severity &&
    admits f.statusFilter event.status &&
    admitsJson U lower f.supplier event.affectedSuppliers &&
    admitsJson U lower f.location event.affectedLocations &&
    admitsJson U lower f.category event.affectedCategories

/-- What the preferences add to the confidence of an event. -/
def preferenceBonus (preference : Preference) (event : RiskEvent) : ℚ :=
  (if jsonMatchesAny U lower event.affectedSuppliers (preferredSuppliers U preference) then
    15 / 100 else 0) +
  (if jsonMatchesAny U lower event.affectedLocations (preferredRegions U preference) then
    15 / 100 else 0) +
  (if jsonMatchesAny U lower event.affectedCategories (preferredCategories U preference) then
    10 / 100 else 0) +
  if event.riskType ∈ riskTermsFor U (preferredSignals U preference) then 10 / 100 else 0

/-- `_rank_score_expression`. -/
def rankScore : Option Preference → RiskEvent → ℚ
  | none, event => event.confidence
  | some preference, event =>
      let score := event.confidence + preferenceBonus U lower preference event
      if 1 < score then 1 else score

/-- `ORDER BY rank_score DESC, published_at DESC, id DESC`. -/
def RiskEventItem.Before (a b : RiskEventItem) : Prop :=
  toLex (b.rankScore, toLex (b.publishedAt, b.id)) ≤
    toLex (a.rankScore, toLex (a.publishedAt, a.id))

instance : DecidableRel RiskEventItem.Before := fun a b =>
  inferInstanceAs (Decidable (toLex (b.rankScore, toLex (b.publishedAt, b.id)) ≤
    toLex (a.rankScore, toLex (a.publishedAt, a.id))))

/-- The rows of the query. -/
def selectedEvents (now : Instant) (f : Filters) (events : EventTable) : List (ℕ × RiskEvent) :=
  events.rows.filter fun r =>
    f.pass U lower r.2 && decide (now - days riskEventRetentionDays ≤ r.2.publishedAt)

/-- The rows of the query in their order. -/
def rankedEvents (now : Instant) (preference : Option Preference) (f : Filters)
    (events : EventTable) : List RiskEventItem :=
  ((selectedEvents U lower now f events).map fun r =>
    toItem r.1 r.2 (rankScore U lower preference r.2)).insertionSort RiskEventItem.Before

/-- `list_risk_events`. -/
def listRiskEvents (userId : String) (preference : Option Preference) (f : Filters)
    (limit offset : ℕ) (now : Instant) (events : EventTable) : RiskEventResponse where
  userId := userId
  events := Pages.page (rankedEvents U lower now preference f events) offset limit
  totalCount := (selectedEvents U lower now f events).length
  generatedAt := now

/-- `get_risk_event`; `none` is a 404. -/
def getRiskEvent (id : ℕ) (events : EventTable) : Option RiskEventItem :=
  (events.find? id).map fun event => toItem id event event.confidence

end Listing

/-- `RiskEventStatus`. -/
inductive ReviewStatus
  | new
  | reviewed
  | dismissed
  deriving DecidableEq, Repr

def ReviewStatus.text : ReviewStatus → String
  | new => "new"
  | reviewed => "reviewed"
  | dismissed => "dismissed"

/-- `update_risk_event_status` on the table; a row that is not there stays so. -/
def setStatus (id : ℕ) (status : ReviewStatus) (events : EventTable) : EventTable :=
  events.update (fun i _ => i = id) ({ · with status := status.text }) fun k hk _ => by
    rw [List.mem_singleton.mp hk]

/-- `update_risk_event_status`; `none` is a 404. -/
def updateRiskEventStatus (id : ℕ) (status : ReviewStatus) (events : EventTable) :
    Option (RiskEventItem × EventTable) :=
  (getRiskEvent id (setStatus id status events)).map fun item => (item, setStatus id status events)

/-! ## Ranks -/

section Ranks

variable {U : Unicode} {lower : String → String} {preference : Option Preference}
  {event : RiskEvent}

theorem preferenceBonus_nonneg (preference : Preference) (event : RiskEvent) :
    0 ≤ preferenceBonus U lower preference event := by
  unfold preferenceBonus
  split_ifs <;> norm_num

/-- A preference never lowers an event. -/
theorem confidence_le_rankScore (h : event.confidence ≤ 1) :
    event.confidence ≤ rankScore U lower preference event := by
  cases preference with
  | none => exact le_rfl
  | some preference =>
      have hbonus : 0 ≤ preferenceBonus U lower preference event :=
        preferenceBonus_nonneg preference event
      unfold rankScore
      dsimp only
      split
      · exact h
      · linarith

theorem rankScore_le_one (h : event.confidence ≤ 1) : rankScore U lower preference event ≤ 1 := by
  cases preference with
  | none => exact h
  | some preference =>
      unfold rankScore
      dsimp only
      split
      · exact le_rfl
      · rename_i hle
        exact not_lt.mp hle

end Ranks

/-! ## Pages -/

instance : Std.Total RiskEventItem.Before := ⟨fun _ _ => le_total _ _⟩

instance : IsTrans RiskEventItem RiskEventItem.Before := ⟨fun _ _ _ hab hbc => le_trans hbc hab⟩

/-- `a` stands before `b`, and they are not tied. -/
def RiskEventItem.StrictlyBefore (a b : RiskEventItem) : Prop :=
  toLex (b.rankScore, toLex (b.publishedAt, b.id)) <
    toLex (a.rankScore, toLex (a.publishedAt, a.id))

/-- Two items with different keys are not tied. -/
theorem RiskEventItem.Before.strict {a b : RiskEventItem} (h : a.Before b) (hid : a.id ≠ b.id) :
    a.StrictlyBefore b := by
  refine lt_of_le_of_ne h fun heq => hid ?_
  have hinner := congrArg (fun x => (ofLex (ofLex x).2).2) heq
  exact hinner.symm

section Pages

variable {U : Unicode} {lower : String → String} {preference : Option Preference} {f : Filters}
  {now : Instant} {events : EventTable}

theorem length_rankedEvents : (rankedEvents U lower now preference f events).length =
    (selectedEvents U lower now f events).length := by
  rw [rankedEvents, List.length_insertionSort, List.length_map]

/-- The items of a list. -/
theorem mem_rankedEvents {item : RiskEventItem} :
    item ∈ rankedEvents U lower now preference f events ↔
      ∃ event, events.find? item.id = some event ∧ f.pass U lower event = true ∧
        now - days riskEventRetentionDays ≤ event.publishedAt ∧
        item = toItem item.id event (rankScore U lower preference event) := by
  rw [rankedEvents, List.mem_insertionSort, List.mem_map]
  constructor
  · rintro ⟨⟨i, event⟩, hr, rfl⟩
    obtain ⟨hrow, hselected⟩ := List.mem_filter.mp hr
    rw [Bool.and_eq_true, decide_eq_true_eq] at hselected
    exact ⟨event, Table.find?_eq_some_iff.mpr hrow, hselected.1, hselected.2, rfl⟩
  · rintro ⟨event, hevent, hpass, hrecent, hitem⟩
    refine ⟨(item.id, event), List.mem_filter.mpr ⟨Table.find?_eq_some_iff.mp hevent, ?_⟩,
      hitem.symm⟩
    rw [Bool.and_eq_true, decide_eq_true_eq]
    exact ⟨hpass, hrecent⟩

/-- No event is listed twice. -/
theorem nodup_rankedEvents :
    ((rankedEvents U lower now preference f events).map (·.id)).Nodup := by
  have hperm := (List.perm_insertionSort RiskEventItem.Before
    ((selectedEvents U lower now f events).map fun r =>
      toItem r.1 r.2 (rankScore U lower preference r.2))).map (·.id)
  refine hperm.nodup_iff.mpr ?_
  rw [List.map_map]
  exact events.nodup_keys.sublist (List.filter_sublist.map _)

/-- Best first, without ties. -/
theorem pairwise_rankedEvents :
    (rankedEvents U lower now preference f events).Pairwise RiskEventItem.StrictlyBefore := by
  have hsorted : (rankedEvents U lower now preference f events).Pairwise RiskEventItem.Before :=
    List.pairwise_insertionSort _ _
  have hids : (rankedEvents U lower now preference f events).Pairwise fun a b => a.id ≠ b.id :=
    List.pairwise_map.mp nodup_rankedEvents
  exact hsorted.imp₂ (fun _ _ hbefore hne => hbefore.strict hne) hids

/-- **Pages.**  A caller who reads a list page after page, while no event is added or expires, sees
each event of the last fourteen days that the parameters admit exactly once, the best ranked first
and the newest first among equals, and as many as each page says there are. -/
theorem listRiskEvents_pages (U : Unicode) (lower : String → String) (userId : String)
    (preference : Option Preference) (f : Filters) {limit : ℕ} (hlimit : 0 < limit) (now : Instant)
    (events : EventTable) :
    let page := fun offset => listRiskEvents U lower userId preference f limit offset now events
    let all := (List.range (((page 0).totalCount + limit - 1) / limit)).flatMap fun k =>
      (page (k * limit)).events
    (∀ offset, (page offset).totalCount = all.length ∧
      (page offset).events.length = min limit (all.length - offset)) ∧
    (all.map (·.id)).Nodup ∧ all.Pairwise RiskEventItem.StrictlyBefore ∧
    ∀ item, item ∈ all ↔ ∃ event, events.find? item.id = some event ∧
      f.pass U lower event = true ∧ now - days riskEventRetentionDays ≤ event.publishedAt ∧
      item = toItem item.id event (rankScore U lower preference event) := by
  intro page all
  have hall : all = rankedEvents U lower now preference f events :=
    Pages.flatMap_page (by
      rw [length_rankedEvents]
      exact Pages.length_le_pages _ hlimit)
  refine ⟨fun offset => ⟨?_, ?_⟩, ?_, ?_, fun item => ?_⟩
  · rw [hall, length_rankedEvents]
    rfl
  · rw [hall]
    show (Pages.page _ offset limit).length = _
    rw [Pages.page, List.length_take, List.length_drop]
  · rw [hall]
    exact nodup_rankedEvents
  · rw [hall]
    exact pairwise_rankedEvents
  · rw [hall]
    exact mem_rankedEvents

/-- A strike at a supplier, and one that names nobody and is surer. -/
def twoEvents : EventTable :=
  let strike : RiskEvent :=
    { eventKey := "a", processedArticleId := 1, riskType := "strike", severity := "medium",
      confidence := 75 / 100, affectedSuppliers := [], affectedSupplierIds := [],
      affectedLocations := [], affectedCategories := [], evidenceSnippet := "walkout",
      recommendation := "", sourceName := "wire", sourceUrl := "", publishedAt := 0,
      status := "new" }
  (UniqueTable.empty.insertNew strike).insertNew
    { strike with eventKey := "b", confidence := 70 / 100, affectedSuppliers := ["ACME"] }

/-- Who watches the supplier sees its event on the first page. -/
theorem listRiskEvents_pages_acme :
    let page := fun offset => listRiskEvents .ascii Unicode.ascii.lower "ada"
      (some ⟨⟨["Acme"], [], [], []⟩, [], [], [], [], [], [], []⟩)
      ⟨none, none, some "new", none, none, none⟩ 1 offset 0 twoEvents
    let all := (List.range (((page 0).totalCount + 1 - 1) / 1)).flatMap fun k =>
      (page (k * 1)).events
    all.map (·.id) = [2, 1] ∧ (page 0).totalCount = all.length ∧
      all.Pairwise RiskEventItem.StrictlyBefore := by
  intro page all
  obtain ⟨hcount, -, hsorted, -⟩ := listRiskEvents_pages .ascii Unicode.ascii.lower "ada"
    (some ⟨⟨["Acme"], [], [], []⟩, [], [], [], [], [], [], []⟩)
    ⟨none, none, some "new", none, none, none⟩ one_pos 0 twoEvents
  refine ⟨?_, (hcount 0).1, hsorted⟩
  -- no signals are preferred, which the kernel would find out through the fuel of the expansion
  have hsignals : preferredSignals .ascii ⟨⟨["Acme"], [], [], []⟩, [], [], [], [], [], [], []⟩ =
      [] :=
    expandSignalTerms_nil _
  simp only [all, page, listRiskEvents, rankedEvents, rankScore, preferenceBonus, hsignals]
  decide +kernel

/-- **Expired events.**  What the retention job takes is on no later list. -/
theorem listRiskEvents_delete {expired : ℕ → RiskEvent → Bool}
    (h : ∀ i event, expired i event = true →
      event.publishedAt < now - days riskEventRetentionDays)
    (userId : String) (limit offset : ℕ) :
    listRiskEvents U lower userId preference f limit offset now (events.delete expired) =
      listRiskEvents U lower userId preference f limit offset now events := by
  have hselected : selectedEvents U lower now f (events.delete expired) =
      selectedEvents U lower now f events := by
    unfold selectedEvents
    rw [UniqueTable.toTable_delete, Table.delete, List.filter_filter]
    refine List.filter_congr fun r _ => ?_
    rw [Bool.and_eq_left_iff_imp]
    intro hr
    rw [Bool.and_eq_true, decide_eq_true_eq] at hr
    rw [Bool.not_eq_true']
    exact Bool.eq_false_iff.mpr fun hexpired => absurd (h r.1 r.2 hexpired) (not_lt.mpr hr.2)
  rw [listRiskEvents, listRiskEvents, rankedEvents, rankedEvents, hselected]

end Pages

end ProcureSignal.RiskEvents
