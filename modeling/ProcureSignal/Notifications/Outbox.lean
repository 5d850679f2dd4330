/-
# The notification outbox

`recipients_for` and `enqueue_matches` of `notifications/outbox.py`, and the evaluation that
feeds them.  One evaluation is one transaction: each missing notification is found by a query
that sees the rows added before.

The subject and the body of a notification are texts made of the rule and the event; they are
left out, as is its public id.
-/
import ProcureSignal.Auth.Service
import ProcureSignal.Notifications.Rules

namespace ProcureSignal.Notifications

open Auth (Membership UserTable)
open Watchlists (watchedSupplierIds)

/-! ## Rows -/

/-- `IN_APP`. -/
def inApp : String := "in_app"

/-- `Notification`. -/
structure Notification where
  organizationId : ℕ
  alertRuleId : ℕ
  riskEventId : ℕ
  recipientUserId : ℕ
  channel : String
  supplierPublicIds : List String
  status : String := "pending"
  attempts : ℕ := 0
  deriving DecidableEq, Repr

/-- The columns of `uq_notification_idempotency`. -/
def Notification.key (n : Notification) : ℕ × ℕ × ℕ × String :=
  (n.alertRuleId, n.riskEventId, n.recipientUserId, n.channel)

/-- `notifications`, unique in its idempotency key. -/
abbrev NotificationTable :=
  UniqueTable Notification (ℕ × ℕ × ℕ × String) [fun n => some n.key]

/-- The tables that alerting reads and writes. -/
structure Store where
  db : Database
  alertRules : Table AlertRule
  users : UserTable
  memberships : Table Membership
  notifications : NotificationTable

/-! ## The evaluation -/

/-- `recipients_for`: the join has a row for each membership. -/
def recipientsFor (s : Store) (organizationId : ℕ) : List ℕ :=
  (s.users.rows.filter (·.2.isActive)).flatMap fun user =>
    (s.memberships.values.filter fun m =>
      m.userId = user.1 && m.organizationId = organizationId).map fun _ => user.1

/-- The notification of a match for a recipient. -/
def RuleMatch.notification (m : RuleMatch) (userId : ℕ) : Notification where
  organizationId := m.rule.2.organizationId
  alertRuleId := m.rule.1
  riskEventId := m.event.1
  recipientUserId := userId
  channel := inApp
  supplierPublicIds := m.supplierPublicIds

/-- What the matches owe to their recipients, in the order of the loops. -/
def owed (s : Store) (ms : List RuleMatch) : List Notification :=
  ms.flatMap fun m => (recipientsFor s m.rule.2.organizationId).map m.notification

/-- `enqueue_matches`. -/
def enqueueMatches (s : Store) (ms : List RuleMatch) : Store :=
  { s with notifications := (owed s ms).foldl UniqueTable.insertNew s.notifications }

/-- The risk events under a list of keys. -/
def eventsOf (s : Store) (eventIds : List ℕ) : List (ℕ × RiskEvent) :=
  eventIds.filterMap fun id => (s.db.riskEvents.find? id).map (id, ·)

/-- The rules are evaluated on a batch of stored events and the matches enqueued. -/
def evaluateAlerts (s : Store) (eventIds : List ℕ) : Store :=
  enqueueMatches s (evaluateRules s.db s.alertRules (eventsOf s eventIds))

/-- A notification is new after the evaluation. -/
def Created (s : Store) (eventIds : List ℕ) (n : Notification) : Prop :=
  n ∈ (evaluateAlerts s eventIds).notifications.values ∧ n ∉ s.notifications.values

/-! ## What an evaluation creates -/

theorem mem_recipientsFor {s : Store} {organizationId userId : ℕ} :
    userId ∈ recipientsFor s organizationId ↔
      (∃ user, s.users.find? userId = some user ∧ user.isActive = true) ∧
        ∃ m ∈ s.memberships.values, m.userId = userId ∧ m.organizationId = organizationId := by
  simp only [recipientsFor, List.mem_flatMap, List.mem_filter, List.mem_map, Bool.and_eq_true,
    decide_eq_true_eq, Table.find?_eq_some_iff]
  constructor
  · rintro ⟨user, ⟨huser, hactive⟩, m, ⟨hm, hid, horg⟩, rfl⟩
    exact ⟨⟨user.2, huser, hactive⟩, m, hm, hid, horg⟩
  · rintro ⟨⟨user, huser, hactive⟩, m, hm, hid, horg⟩
    exact ⟨(userId, user), ⟨huser, hactive⟩, m, ⟨hm, hid, horg⟩, rfl⟩

theorem mem_eventsOf {s : Store} {eventIds : List ℕ} {event : ℕ × RiskEvent} :
    event ∈ eventsOf s eventIds ↔
      event.1 ∈ eventIds ∧ s.db.riskEvents.find? event.1 = some event.2 := by
  simp only [eventsOf, List.mem_filterMap, Option.map_eq_some_iff]
  constructor
  · rintro ⟨id, hid, e, he, rfl⟩
    exact ⟨hid, he⟩
  · rintro ⟨hid, he⟩
    exact ⟨event.1, hid, event.2, he, rfl⟩

/-- The watched suppliers that an event affects. -/
def watchedHits (s : Store) (organizationId : ℕ) (event : RiskEvent) : List String :=
  (event.affectedSupplierIds.dedup.filter
    (· ∈ watchedSupplierIds s.db organizationId)).insertionSort (· ≤ ·)

/-- The dictionary of watched suppliers has what the query for the organization returns. -/
theorem hits_eq {s : Store} {rules : List (ℕ × AlertRule)} {rule : ℕ × AlertRule}
    (h : rule ∈ rules) (event : RiskEvent) :
    hits (watchedByOrganization s.db rules) rule.2 event =
      watchedHits s rule.2.organizationId event := by
  rw [hits, lookup_watchedByOrganization s.db h, Option.getD_some, watchedHits]

/-- A rule owes a notification of an event to a user. -/
structure Owes (s : Store) (eventIds : List ℕ) (n : Notification) (rule : AlertRule)
    (event : RiskEvent) : Prop where
  findRule : s.alertRules.find? n.alertRuleId = some rule
  enabled : rule.isEnabled = true
  batch : n.riskEventId ∈ eventIds
  findEvent : s.db.riskEvents.find? n.riskEventId = some event
  meets : meetsRule rule event = true
  recipient : n.recipientUserId ∈ recipientsFor s rule.organizationId
  affects : watchedHits s rule.organizationId event ≠ []
  fields : n = ⟨rule.organizationId, n.alertRuleId, n.riskEventId, n.recipientUserId, inApp,
    watchedHits s rule.organizationId event, "pending", 0⟩

/-- **What is owed**: for each enabled rule and each event of the batch that it matches, one
notification to each active member of the rule's organization. -/
theorem mem_owed {s : Store} {eventIds : List ℕ} {n : Notification} :
    n ∈ owed s (evaluateRules s.db s.alertRules (eventsOf s eventIds)) ↔
      ∃ rule event, Owes s eventIds n rule event := by
  simp only [owed, List.mem_flatMap, List.mem_map, mem_evaluateRules]
  constructor
  · rintro ⟨⟨rule, event, ids⟩, ⟨hrule, henabled, hevent, hmeets, hne, hids⟩, userId, huser, rfl⟩
    have hfilter : rule ∈ s.alertRules.rows.filter (·.2.isEnabled) :=
      List.mem_filter.mpr ⟨hrule, henabled⟩
    rw [hits_eq hfilter] at hids
    obtain ⟨hbatch, hfind⟩ := mem_eventsOf.mp hevent
    refine ⟨rule.2, event.2, Table.find?_eq_some_iff.mpr hrule, henabled, hbatch, hfind, hmeets,
      huser, hids ▸ hne, ?_⟩
    rw [← hids]
    rfl
  · rintro ⟨rule, event, h⟩
    have hrule := Table.find?_eq_some_iff.mp h.findRule
    have hfilter : (n.alertRuleId, rule) ∈ s.alertRules.rows.filter (·.2.isEnabled) :=
      List.mem_filter.mpr ⟨hrule, h.enabled⟩
    refine ⟨⟨(n.alertRuleId, rule), (n.riskEventId, event),
      watchedHits s rule.organizationId event⟩, ⟨hrule, h.enabled, mem_eventsOf.mpr
        ⟨h.batch, h.findEvent⟩, h.meets, h.affects, (hits_eq hfilter event).symm⟩,
      n.recipientUserId, h.recipient, ?_⟩
    rw [h.fields]
    rfl

/-- A rule, an event and a user determine the notification. -/
theorem owed_inj {s : Store} {eventIds : List ℕ} {n n' : Notification}
    (h : n ∈ owed s (evaluateRules s.db s.alertRules (eventsOf s eventIds)))
    (h' : n' ∈ owed s (evaluateRules s.db s.alertRules (eventsOf s eventIds)))
    (hkey : n.key = n'.key) : n = n' := by
  obtain ⟨rule, event, ho⟩ := mem_owed.mp h
  obtain ⟨rule', event', ho'⟩ := mem_owed.mp h'
  simp only [Notification.key, Prod.mk.injEq] at hkey
  obtain ⟨hr, he, hu, -⟩ := hkey
  have hrule : rule = rule' := Option.some.inj (ho.findRule.symm.trans (hr ▸ ho'.findRule))
  have hevent : event = event' := Option.some.inj (ho.findEvent.symm.trans (he ▸ ho'.findEvent))
  rw [ho.fields, ho'.fields, hr, he, hu, hrule, hevent]

/-- **The rows after an evaluation**: the ones before, and what is owed and not there yet. -/
theorem mem_evaluateAlerts {s : Store} {eventIds : List ℕ} {n : Notification} :
    n ∈ (evaluateAlerts s eventIds).notifications.values ↔
      n ∈ s.notifications.values ∨
        (∃ rule event, Owes s eventIds n rule event) ∧
          n.key ∉ s.notifications.values.map Notification.key := by
  rw [evaluateAlerts, enqueueMatches, UniqueTable.mem_values_foldl_insertNew, mem_owed]
  intro a ha b hb
  exact owed_inj ha hb

/-- **What an evaluation creates.** -/
theorem created_iff {s : Store} {eventIds : List ℕ} {n : Notification} :
    Created s eventIds n ↔
      (∃ rule event, Owes s eventIds n rule event) ∧
        n.key ∉ s.notifications.values.map Notification.key := by
  rw [Created, mem_evaluateAlerts]
  constructor
  · rintro ⟨hold | hnew, hnot⟩
    · exact absurd hold hnot
    · exact hnew
  · intro h
    exact ⟨Or.inr h, fun hmem => h.2 (List.mem_map_of_mem hmem)⟩

end ProcureSignal.Notifications
