/-
# Alert rules

`evaluate_rules` of `notifications/rules.py`: a batch of risk events against every
enabled rule, over the suppliers the rule's organization watches.
`mem_evaluateRules` says which matches come out; later modules use only that.
-/
import ProcureSignal.Watchlists.Service

namespace ProcureSignal.Notifications

open Watchlists (watchedSupplierIds)

/-! ## Severities -/

/-- `SEVERITY_ORDER`, weakest first. -/
def severityOrder : List String := ["low", "medium", "high", "critical"]

/-- `_RANK.get(severity, 0)`. -/
def rank (severity : String) : ℕ := (severityOrder.idxOf? severity).getD 0

/-- `meets_severity`. -/
def meetsSeverity (eventSeverity minimum : String) : Bool := rank minimum ≤ rank eventSeverity

/-! ## Evaluation -/

/-- `AlertRule`; an empty list of risk types stands for every type. -/
structure AlertRule where
  organizationId : ℕ
  minSeverity : String
  riskTypes : List String
  isEnabled : Bool
  deriving DecidableEq, Repr

/-- `RuleMatch`: a rule and an event, each under its key, and the watched suppliers the
event affects. -/
structure RuleMatch where
  rule : ℕ × AlertRule
  event : ℕ × RiskEvent
  supplierPublicIds : List String
  deriving DecidableEq, Repr

/-- An event passes the two filters of a rule. -/
def meetsRule (rule : AlertRule) (event : RiskEvent) : Bool :=
  (rule.riskTypes = [] || event.riskType ∈ rule.riskTypes) &&
    meetsSeverity event.severity rule.minSeverity

/-- The dictionary `watched`: the watched suppliers of each organization with a rule. -/
def watchedByOrganization (db : Database) (rules : List (ℕ × AlertRule)) :
    List (ℕ × List String) :=
  (rules.map (·.2.organizationId)).dedup.map fun organizationId =>
    (organizationId, watchedSupplierIds db organizationId)

/-- `sorted(affected & watched.get(organization_id, set()))`. -/
def hits (watched : List (ℕ × List String)) (rule : AlertRule) (event : RiskEvent) :
    List String :=
  (event.affectedSupplierIds.dedup.filter
    (· ∈ (watched.lookup rule.organizationId).getD [])).insertionSort (· ≤ ·)

/-- `evaluate_rules`. -/
def evaluateRules (db : Database) (alertRules : Table AlertRule)
    (events : List (ℕ × RiskEvent)) : List RuleMatch :=
  let rules := alertRules.rows.filter (·.2.isEnabled)
  if events = [] ∨ rules = [] then []
  else
    let watched := watchedByOrganization db rules
    events.flatMap fun event =>
      -- an event that names no supplier is skipped before any rule is looked at
      if event.2.affectedSupplierIds = [] then []
      else
        rules.filterMap fun rule =>
          if meetsRule rule.2 event.2 then
            if hits watched rule.2 event.2 = [] then none
            else some ⟨rule, event, hits watched rule.2 event.2⟩
          else none

/-- The dictionary has every organization it is asked for. -/
theorem lookup_watchedByOrganization (db : Database) {rules : List (ℕ × AlertRule)}
    {rule : ℕ × AlertRule} (h : rule ∈ rules) :
    (watchedByOrganization db rules).lookup rule.2.organizationId
      = some (watchedSupplierIds db rule.2.organizationId) := by
  have hmem : rule.2.organizationId ∈ (rules.map (·.2.organizationId)).dedup :=
    List.mem_dedup.mpr (List.mem_map_of_mem (f := (·.2.organizationId)) h)
  unfold watchedByOrganization
  revert hmem
  generalize (rules.map (·.2.organizationId)).dedup = keys
  intro hmem
  induction keys with
  | nil => cases hmem
  | cons key keys ih =>
    rw [List.map_cons, List.lookup_cons]
    by_cases hkey : rule.2.organizationId = key
    · rw [hkey, beq_self_eq_true]
    · have hne : (rule.2.organizationId == key) = false := by
        rw [beq_eq_false_iff_ne]
        exact hkey
      rw [hne]
      exact ih (List.mem_of_ne_of_mem hkey hmem)

/-- The suppliers a match names: affected by the event and watched by the organization. -/
theorem mem_hits {db : Database} {rules : List (ℕ × AlertRule)} {rule : ℕ × AlertRule}
    (h : rule ∈ rules) {event : RiskEvent} {publicId : String} :
    publicId ∈ hits (watchedByOrganization db rules) rule.2 event ↔
      publicId ∈ event.affectedSupplierIds ∧
        publicId ∈ watchedSupplierIds db rule.2.organizationId := by
  unfold hits
  rw [List.mem_insertionSort, List.mem_filter, List.mem_dedup, lookup_watchedByOrganization db h,
    decide_eq_true_eq]
  rfl

/-- **The matches of a batch**: an enabled rule, an event of the batch that passes its
filters, and all watched suppliers the event affects, of which there is at least one. -/
theorem mem_evaluateRules {db : Database} {alertRules : Table AlertRule}
    {events : List (ℕ × RiskEvent)} {m : RuleMatch} :
    m ∈ evaluateRules db alertRules events ↔
      m.rule ∈ alertRules.rows ∧ m.rule.2.isEnabled = true ∧ m.event ∈ events ∧
        meetsRule m.rule.2 m.event.2 = true ∧ m.supplierPublicIds ≠ [] ∧
        m.supplierPublicIds = hits
          (watchedByOrganization db (alertRules.rows.filter (·.2.isEnabled))) m.rule.2 m.event.2 := by
  unfold evaluateRules
  simp only
  split
  · rename_i hempty
    constructor
    · intro hm
      cases hm
    · rintro ⟨hrule, henabled, hevent, -⟩
      rcases hempty with hempty | hempty
      · rw [hempty] at hevent
        cases hevent
      · have hmem : m.rule ∈ alertRules.rows.filter (·.2.isEnabled) :=
          List.mem_filter.mpr ⟨hrule, henabled⟩
        rw [hempty] at hmem
        cases hmem
  · rw [List.mem_flatMap]
    constructor
    · rintro ⟨event, hevent, hm⟩
      split at hm
      · cases hm
      · obtain ⟨rule, hrule, hsome⟩ := List.mem_filterMap.mp hm
        obtain ⟨hrow, henabled⟩ := List.mem_filter.mp hrule
        split at hsome
        · rename_i hmeets
          split at hsome
          · cases hsome
          · rename_i hne
            obtain rfl := Option.some.inj hsome
            exact ⟨hrow, henabled, hevent, hmeets, hne, rfl⟩
        · cases hsome
    · rintro ⟨hrule, henabled, hevent, hmeets, hne, heq⟩
      refine ⟨m.event, hevent, ?_⟩
      have hfilter : m.rule ∈ alertRules.rows.filter (·.2.isEnabled) :=
        List.mem_filter.mpr ⟨hrule, henabled⟩
      have haffected : m.event.2.affectedSupplierIds ≠ [] := by
        obtain ⟨publicId, hid⟩ := List.exists_mem_of_ne_nil _ hne
        rw [heq, mem_hits hfilter] at hid
        exact List.ne_nil_of_mem hid.1
      rw [if_neg haffected, List.mem_filterMap]
      refine ⟨m.rule, hfilter, ?_⟩
      rw [if_pos hmeets, ← heq, if_neg hne]

end ProcureSignal.Notifications
