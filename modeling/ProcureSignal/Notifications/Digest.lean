/-
# Digests

`build_digest` of `notifications/digest.py`: the delivered notifications of a user in a period, by
the severity of their events.  Both ends of the period are compared inclusively.

* The order of rows that were delivered at one time is that of the database: `OrderBy`.
* `buildDigest` : the function;
* `Partition` : the digests of consecutive periods share out the delivered notifications;
* `count_appearances` : how often a notification is in them;
* `digests_partition_iff` : **when consecutive digests are a partition**.
-/
import ProcureSignal.Library.Collections
import ProcureSignal.Library.Periods
import ProcureSignal.Notifications.Outbox
import ProcureSignal.RiskEvents.Persistence

namespace ProcureSignal.Notifications.Digests

/-! ## Tables -/

/-- `Notification`, with its subject and the time of its delivery. -/
structure Alert extends Notifications.Notification where
  subject : String
  deliveredAt : Option Instant
  deriving DecidableEq, Repr

/-- `AlertRule`, with its name. -/
structure NamedRule extends AlertRule where
  name : String
  deriving DecidableEq, Repr

/-- `User`, the address. -/
structure User where
  email : String
  deriving DecidableEq, Repr

/-- `Organization`, the name. -/
structure Organization where
  name : String
  deriving DecidableEq, Repr

/-- The tables that are joined; the foreign keys of a notification refer to rows. -/
structure Store where
  notifications : Table Alert
  riskEvents : Table RiskEvents.RiskEvent
  alertRules : Table NamedRule
  users : Table User
  organizations : Table Organization
  riskEvent : ∀ n ∈ notifications.values, (riskEvents.find? n.riskEventId).isSome = true
  alertRule : ∀ n ∈ notifications.values, (alertRules.find? n.alertRuleId).isSome = true
  recipient : ∀ n ∈ notifications.values, (users.find? n.recipientUserId).isSome = true
  organization : ∀ n ∈ notifications.values,
    (organizations.find? n.organizationId).isSome = true

/-- A joined row. -/
structure Row where
  id : ℕ
  notification : Alert
  deliveredAt : Instant
  event : RiskEvents.RiskEvent
  rule : NamedRule
  user : User
  organization : Organization
  deriving DecidableEq, Repr

/-- The row of a notification, which is compared with a period only when it has a time. -/
def Store.row (st : Store) (r : ℕ × Alert) : Option Row := do
  let deliveredAt ← r.2.deliveredAt
  let event ← st.riskEvents.find? r.2.riskEventId
  let rule ← st.alertRules.find? r.2.alertRuleId
  let user ← st.users.find? r.2.recipientUserId
  let organization ← st.organizations.find? r.2.organizationId
  some ⟨r.1, r.2, deliveredAt, event, rule, user, organization⟩

/-- The rows that meet the conditions of the query. -/
def Store.selected (st : Store) (userId : ℕ) (since ends : Instant) : List Row :=
  (st.notifications.rows.filterMap st.row).filter fun row =>
    row.notification.recipientUserId = userId ∧ row.notification.status = "delivered" ∧
      since ≤ row.deliveredAt ∧ row.deliveredAt ≤ ends

/-- `ORDER BY delivered_at`. -/
structure OrderBy where
  sort : List Row → List Row
  perm : ∀ rows, (sort rows).Perm rows
  sorted : ∀ rows, (sort rows).Pairwise fun r s => r.deliveredAt ≤ s.deliveredAt

/-! ## Digests -/

/-- `DigestItem`. -/
structure DigestItem where
  subject : String
  riskType : String
  severity : String
  suppliers : List String
  recommendation : String
  sourceName : String
  sourceUrl : String
  ruleName : String
  deriving DecidableEq, Repr

/-- `DigestSection`. -/
structure DigestSection where
  severity : String
  items : List DigestItem
  deriving DecidableEq, Repr

/-- `Digest`. -/
structure Digest where
  recipientEmail : String
  organizationName : String
  since : Instant
  ends : Instant
  sections : List DigestSection
  deriving DecidableEq, Repr

/-- The item of a row. -/
def Row.item (row : Row) : DigestItem where
  subject := row.notification.subject
  riskType := row.event.riskType
  severity := row.event.severity
  suppliers := row.event.affectedSuppliers
  recommendation := row.event.recommendation
  sourceName := row.event.sourceName
  sourceUrl := row.event.sourceUrl
  ruleName := row.rule.name

/-- `SEVERITY_ORDER.index(severity) if severity in SEVERITY_ORDER else -1`. -/
def severityKey (severity : String) : ℤ :=
  if severity ∈ severityOrder then severityOrder.idxOf severity else -1

/-- `by_severity`, of the rows whose items it has. -/
def bySeverity (rows : List Row) : Dict String (List Row) :=
  Dict.groupBy (·.event.severity) rows

/-- `ordered`; a reversed sort is stable, too. -/
def orderedSeverities (rows : List Row) : List String :=
  (bySeverity rows).keys.insertionSort fun s t => severityKey t ≤ severityKey s

/-- The rows of the sections. -/
def sectionRows (rows : List Row) : List (String × List Row) :=
  (orderedSeverities rows).map fun severity =>
    (severity, ((bySeverity rows).get? severity).getD [])

/-- The section of rows. -/
def sectionOf (s : String × List Row) : DigestSection := ⟨s.1, s.2.map Row.item⟩

section Build

variable (O : OrderBy) (st : Store) (userId : ℕ)

/-- `build_digest`; without an end the period ends now. -/
def buildDigest (since : Instant) (ends : Option Instant) (now : Instant) : Option Digest :=
  let ends := ends.getD now
  match O.sort (st.selected userId since ends) with
  | [] => none
  | row :: rows =>
      some
        { recipientEmail := row.user.email
          organizationName := row.organization.name
          since := since
          ends := ends
          sections := (sectionRows (row :: rows)).map sectionOf }

/-- The rows of the sections of the digest for a period. -/
def digestRows (period : Instant × Instant) : List (String × List Row) :=
  sectionRows (O.sort (st.selected userId period.1 period.2))

/-- The notifications in the digests for consecutive periods, one for each item. -/
def appearances (instants : List Instant) : List ℕ :=
  (periods instants).flatMap fun period =>
    (digestRows O st userId period).flatMap fun s => s.2.map (·.id)

/-- A delivered notification of the user. -/
def Store.Delivered (r : ℕ × Alert) : Prop :=
  r ∈ st.notifications.rows ∧ r.2.recipientUserId = userId ∧ r.2.status = "delivered"

/-- The severity of a section is above that of a later one. -/
def Above (s t : String) : Prop :=
  s ≠ t ∧ (t ∈ severityOrder → s ∈ severityOrder ∧ severityOrder.idxOf t < severityOrder.idxOf s)

/-- **The digests of consecutive periods are a partition** of the delivered notifications of the
user: each is in one section of one digest.  The sections are ordered by severity, the unknown ones
last, and the items of a section by their delivery. -/
structure Partition (instants : List Instant) : Prop where
  built : ∀ period ∈ periods instants, ∀ now,
    ((buildDigest O st userId period.1 (some period.2) now).map (·.sections)).getD [] =
      (digestRows O st userId period).map sectionOf
  once : ∀ r, st.Delivered userId r → (appearances O st userId instants).count r.1 = 1
  only : ∀ i ∈ appearances O st userId instants, ∃ r, st.Delivered userId r ∧ r.1 = i
  sections : ∀ period ∈ periods instants,
    (digestRows O st userId period).Pairwise fun s t => Above s.1 t.1
  items : ∀ period ∈ periods instants, ∀ s ∈ digestRows O st userId period,
    (∀ row ∈ s.2, row.event.severity = s.1) ∧
      s.2.Pairwise fun row row' => row.deliveredAt ≤ row'.deliveredAt

end Build

/-! ## Sections -/

/-- The severities are those of the rows, each once. -/
theorem perm_orderedSeverities (rows : List Row) :
    (orderedSeverities rows).Perm (bySeverity rows).keys := List.perm_insertionSort _ _

theorem nodup_orderedSeverities (rows : List Row) : (orderedSeverities rows).Nodup :=
  (perm_orderedSeverities rows).nodup_iff.mpr (bySeverity rows).nodup

/-- The rows of a section are the rows of its severity, in their order. -/
theorem mem_sectionRows {rows : List Row} {s : String × List Row} (h : s ∈ sectionRows rows) :
    s.2 = rows.filter (·.event.severity = s.1) := by
  obtain ⟨severity, -, rfl⟩ := List.mem_map.mp h
  dsimp only
  rw [bySeverity, Dict.get?_groupBy]
  split
  · rename_i hnil
    rw [hnil]
    rfl
  · rfl

/-- **Every row is in one section.** -/
theorem perm_flatMap_sectionRows (rows : List Row) :
    ((sectionRows rows).flatMap (·.2)).Perm rows := by
  have hsections : (sectionRows rows).flatMap (·.2) =
      (orderedSeverities rows).flatMap fun severity =>
        rows.filter (·.event.severity = severity) := by
    rw [sectionRows, List.flatMap_map]
    refine List.flatMap_congr fun severity hmem => ?_
    exact mem_sectionRows (s := (severity, ((bySeverity rows).get? severity).getD []))
      (List.mem_map_of_mem hmem)
  rw [hsections]
  refine perm_flatMap_filter (nodup_orderedSeverities rows) fun row hrow => ?_
  rw [(perm_orderedSeverities rows).mem_iff, bySeverity, Dict.mem_keys_groupBy]
  exact ⟨row, hrow, rfl⟩

/-- A severity with a smaller key is below. -/
theorem above_of_severityKey_le {s t : String} (hne : s ≠ t)
    (h : severityKey t ≤ severityKey s) : Above s t := by
  refine ⟨hne, fun ht => ?_⟩
  rw [severityKey, severityKey, if_pos ht] at h
  by_cases hs : s ∈ severityOrder
  · rw [if_pos hs, Nat.cast_le] at h
    have hidx : severityOrder.idxOf t ≠ severityOrder.idxOf s := fun heq =>
      hne ((List.idxOf_inj ht).mp heq).symm
    exact ⟨hs, lt_of_le_of_ne h hidx⟩
  · rw [if_neg hs] at h
    omega

/-- The sections are ordered by severity. -/
theorem pairwise_sectionRows (rows : List Row) :
    (sectionRows rows).Pairwise fun s t => Above s.1 t.1 := by
  have htotal : Std.Total fun s t : String => severityKey t ≤ severityKey s :=
    ⟨fun _ _ => le_total _ _⟩
  have htrans : IsTrans String fun s t => severityKey t ≤ severityKey s :=
    ⟨fun _ _ _ hab hbc => le_trans hbc hab⟩
  have hsorted : (orderedSeverities rows).Pairwise fun s t => severityKey t ≤ severityKey s :=
    List.pairwise_insertionSort _ _
  rw [sectionRows, List.pairwise_map]
  exact (hsorted.and (nodup_orderedSeverities rows)).imp fun h => above_of_severityKey_le h.2 h.1

/-! ## Rows -/

section Rows

variable {O : OrderBy} {st : Store} {userId : ℕ}

/-- A joined row is the notification under its key, with its time. -/
theorem Store.row_eq_some {r : ℕ × Alert} {row : Row} (h : st.row r = some row) :
    row.id = r.1 ∧ row.notification = r.2 ∧ r.2.deliveredAt = some row.deliveredAt := by
  simp only [Store.row, Option.bind_eq_bind, Option.bind_eq_some_iff, Option.some.injEq] at h
  obtain ⟨t, ht, event, -, rule, -, user, -, organization, -, rfl⟩ := h
  exact ⟨rfl, rfl, ht⟩

/-- A notification with a time has a row: what it refers to is there. -/
theorem Store.exists_row {r : ℕ × Alert} (hr : r ∈ st.notifications.rows) {t : Instant}
    (ht : r.2.deliveredAt = some t) : ∃ row, st.row r = some row := by
  have hmem : r.2 ∈ st.notifications.values := List.mem_map_of_mem hr
  obtain ⟨event, hevent⟩ := Option.isSome_iff_exists.mp (st.riskEvent r.2 hmem)
  obtain ⟨rule, hrule⟩ := Option.isSome_iff_exists.mp (st.alertRule r.2 hmem)
  obtain ⟨user, huser⟩ := Option.isSome_iff_exists.mp (st.recipient r.2 hmem)
  obtain ⟨organization, horganization⟩ := Option.isSome_iff_exists.mp (st.organization r.2 hmem)
  exact ⟨⟨r.1, r.2, t, event, rule, user, organization⟩, by
    simp [Store.row, ht, hevent, hrule, huser, horganization]⟩

/-- What the query selects. -/
theorem Store.mem_selected {since ends : Instant} {row : Row}
    (h : row ∈ st.selected userId since ends) :
    st.Delivered userId (row.id, row.notification) ∧
      row.notification.deliveredAt = some row.deliveredAt ∧
      since ≤ row.deliveredAt ∧ row.deliveredAt ≤ ends := by
  obtain ⟨hjoined, hconditions⟩ := List.mem_filter.mp h
  obtain ⟨huser, hstatus, hperiod⟩ := of_decide_eq_true hconditions
  obtain ⟨r, hr, hrow⟩ := List.mem_filterMap.mp hjoined
  obtain ⟨hid, hnotification, htime⟩ := Store.row_eq_some hrow
  have heq : (row.id, row.notification) = r := Prod.ext hid hnotification
  rw [heq, hnotification]
  exact ⟨⟨hr, hnotification ▸ huser, hnotification ▸ hstatus⟩, htime, hperiod⟩

/-- The query selects no notification twice. -/
theorem Store.nodup_selected (st : Store) (userId : ℕ) (since ends : Instant) :
    ((st.selected userId since ends).map (·.id)).Nodup := by
  have hsublist : ∀ rows : List (ℕ × Alert),
      ((rows.filterMap st.row).map (·.id)).Sublist (rows.map (·.1)) := by
    intro rows
    induction rows with
    | nil => exact List.Sublist.refl _
    | cons r rows ih =>
        cases hrow : st.row r with
        | none =>
            rw [List.filterMap_cons_none hrow]
            exact ih.cons _
        | some row =>
            rw [List.filterMap_cons_some hrow, List.map_cons, List.map_cons,
              (Store.row_eq_some hrow).1]
            exact ih.cons_cons _
  exact (st.notifications.nodup_keys.sublist (hsublist _)).sublist (List.filter_sublist.map _)

/-- A delivered notification is selected once when its time is in the period. -/
theorem Store.count_selected {r : ℕ × Alert} (hr : st.Delivered userId r) {t : Instant}
    (ht : r.2.deliveredAt = some t) (since ends : Instant) :
    ((st.selected userId since ends).map (·.id)).count r.1 =
      if since ≤ t ∧ t ≤ ends then 1 else 0 := by
  split
  · rename_i hin
    refine List.count_eq_one_of_mem (st.nodup_selected userId since ends) ?_
    obtain ⟨row, hrow⟩ := st.exists_row hr.1 ht
    obtain ⟨hid, hnotification, htime⟩ := Store.row_eq_some hrow
    have hdelivered : row.deliveredAt = t := Option.some.inj (htime.symm.trans ht)
    refine List.mem_map.mpr ⟨row, List.mem_filter.mpr ⟨List.mem_filterMap.mpr ⟨r, hr.1, hrow⟩,
      decide_eq_true ?_⟩, hid⟩
    rw [hnotification, hdelivered]
    exact ⟨hr.2.1, hr.2.2, hin⟩
  · rename_i hout
    rw [List.count_eq_zero]
    intro hmem
    obtain ⟨row, hrow, hid⟩ := List.mem_map.mp hmem
    obtain ⟨hdelivered, htime, hin⟩ := Store.mem_selected hrow
    have hsame : row.notification = r.2 :=
      Table.eq_of_mem (hid ▸ hdelivered.1) hr.1
    rw [hsame, ht] at htime
    exact hout (Option.some.inj htime ▸ hin)

/-! ## Digests of consecutive periods -/

/-- The rows in the sections of a digest are the selected ones. -/
theorem perm_flatMap_digestRows (period : Instant × Instant) :
    ((digestRows O st userId period).flatMap fun s => s.2.map (·.id)).Perm
      ((st.selected userId period.1 period.2).map (·.id)) := by
  have hmap : ((digestRows O st userId period).flatMap fun s => s.2.map (·.id)) =
      ((digestRows O st userId period).flatMap (·.2)).map (·.id) := by
    rw [List.map_flatMap]
  rw [hmap]
  exact ((perm_flatMap_sectionRows _).trans (O.perm _)).map _

/-- **How often a delivered notification is in consecutive digests**: once, and once more where it
was delivered at an end between two periods. -/
theorem count_appearances {t₀ : Instant} {ts : List Instant} (hne : ts ≠ [])
    (hsorted : (t₀ :: ts).Pairwise (· < ·)) {r : ℕ × Alert} (hr : st.Delivered userId r)
    {t : Instant} (ht : r.2.deliveredAt = some t) (hfirst : t₀ ≤ t)
    (hlast : t ≤ ts.getLast hne) :
    (appearances O st userId (t₀ :: ts)).count r.1 = 1 + ts.dropLast.count t := by
  have hperiod : ∀ period : Instant × Instant,
      ((digestRows O st userId period).flatMap fun s => s.2.map (·.id)).count r.1 =
        if period.1 ≤ t ∧ t ≤ period.2 then 1 else 0 := fun period =>
    ((perm_flatMap_digestRows period).count_eq r.1).trans (Store.count_selected hr ht _ _)
  rw [appearances, List.count_flatMap, ← countP_periods hne hsorted hfirst hlast]
  induction periods (t₀ :: ts) with
  | nil => rfl
  | cons period rest ih =>
      rw [List.map_cons, List.sum_cons, ih, List.countP_cons, Function.comp_apply, hperiod,
        Nat.add_comm]
      simp only [decide_eq_true_eq]

/-- The sections of what is built. -/
theorem sections_buildDigest (period : Instant × Instant) (now : Instant) :
    ((buildDigest O st userId period.1 (some period.2) now).map (·.sections)).getD [] =
      (digestRows O st userId period).map sectionOf := by
  rw [buildDigest, digestRows, Option.getD_some]
  cases O.sort (st.selected userId period.1 period.2) with
  | nil => rfl
  | cons row rows => rfl

/-- **When consecutive digests are a partition**: no notification of the user was delivered at an
end between two periods. -/
theorem digests_partition_iff (O : OrderBy) (st : Store) (userId : ℕ) {t₀ : Instant}
    {ts : List Instant} (hne : ts ≠ []) (hsorted : (t₀ :: ts).Pairwise (· < ·))
    (hcover : ∀ r, st.Delivered userId r →
      ∃ t, r.2.deliveredAt = some t ∧ t₀ ≤ t ∧ t ≤ ts.getLast hne) :
    Partition O st userId (t₀ :: ts) ↔
      ∀ r, st.Delivered userId r → ∀ t ∈ ts.dropLast, r.2.deliveredAt ≠ some t := by
  have honce : ∀ r, st.Delivered userId r →
      ((appearances O st userId (t₀ :: ts)).count r.1 = 1 ↔
        ∀ t ∈ ts.dropLast, r.2.deliveredAt ≠ some t) := by
    intro r hr
    obtain ⟨t, ht, hfirst, hlast⟩ := hcover r hr
    rw [count_appearances hne hsorted hr ht hfirst hlast, ht, Nat.add_eq_left, List.count_eq_zero]
    constructor
    · rintro hnot t' ht' heq
      exact hnot (Option.some.inj heq ▸ ht')
    · exact fun h hmem => h t hmem rfl
  constructor
  · exact fun h r hr => (honce r hr).mp (h.once r hr)
  · intro h
    refine ⟨fun period _ now => sections_buildDigest period now,
      fun r hr => (honce r hr).mpr (h r hr), ?_, fun period _ => pairwise_sectionRows _, ?_⟩
    · intro i hi
      obtain ⟨period, -, hmem⟩ := List.mem_flatMap.mp hi
      rw [(perm_flatMap_digestRows period).mem_iff] at hmem
      obtain ⟨row, hrow, rfl⟩ := List.mem_map.mp hmem
      exact ⟨_, (Store.mem_selected hrow).1, rfl⟩
    · intro period _ s hs
      rw [mem_sectionRows hs]
      refine ⟨fun row hrow => of_decide_eq_true (List.mem_filter.mp hrow).2, ?_⟩
      exact (O.sorted _).sublist List.filter_sublist

end Rows

/-! ## A notification -/

/-- The rows in the order of their keys where they were delivered at one time. -/
private def orderByTime : OrderBy where
  sort := fun rows => rows.insertionSort fun r s => r.deliveredAt ≤ s.deliveredAt
  perm := fun _ => List.perm_insertionSort _ _
  sorted := fun rows => by
    have htotal : Std.Total fun r s : Row => r.deliveredAt ≤ s.deliveredAt :=
      ⟨fun _ _ => le_total _ _⟩
    have htrans : IsTrans Row fun r s => r.deliveredAt ≤ s.deliveredAt :=
      ⟨fun _ _ _ => le_trans⟩
    exact List.pairwise_insertionSort _ rows

/-- A notification, delivered at a time. -/
private def deliveredAlert (t : Instant) : Alert where
  organizationId := 1
  alertRuleId := 1
  riskEventId := 1
  recipientUserId := 1
  channel := "in_app"
  supplierPublicIds := []
  status := "delivered"
  subject := "Strike"
  deliveredAt := some t

/-- A store with one notification. -/
private def deliveredStore (t : Instant) : Store where
  notifications := Table.empty.insert (deliveredAlert t)
  riskEvents := Table.empty.insert
    { eventKey := "k1", processedArticleId := 1, riskType := "strike", severity := "high",
      confidence := 9 / 10, affectedSuppliers := [], affectedSupplierIds := [],
      affectedLocations := [], affectedCategories := [], evidenceSnippet := "Strike",
      recommendation := "Review exposure.", sourceName := "Wire",
      sourceUrl := "https://example.test/1", publishedAt := 0, status := "new" }
  alertRules := Table.empty.insert
    { organizationId := 1, minSeverity := "low", riskTypes := [], isEnabled := true,
      name := "Tier 1" }
  users := Table.empty.insert ⟨"buyer@acme.com"⟩
  organizations := Table.empty.insert ⟨"Acme"⟩
  riskEvent := fun n hn => by rw [List.mem_singleton.mp hn]; rfl
  alertRule := fun n hn => by rw [List.mem_singleton.mp hn]; rfl
  recipient := fun n hn => by rw [List.mem_singleton.mp hn]; rfl
  organization := fun n hn => by rw [List.mem_singleton.mp hn]; rfl

/-- The one notification of the store. -/
private theorem eq_of_mem_deliveredStore {t : Instant} {r : ℕ × Alert}
    (h : r ∈ (deliveredStore t).notifications.rows) : r.1 = 1 ∧ r.2.deliveredAt = some t := by
  obtain rfl := List.mem_singleton.mp h
  exact ⟨rfl, rfl⟩

/-- A notification that was delivered inside of a period. -/
theorem digests_partition_inside :
    Partition orderByTime (deliveredStore 5) 1 [0, 10, 20] := by
  refine (@digests_partition_iff orderByTime (deliveredStore 5) 1 0 [10, 20] (by decide)
    (by decide) fun r hr => ⟨5, (eq_of_mem_deliveredStore hr.1).2, by decide, by decide⟩).mpr ?_
  intro r hr t ht
  obtain rfl := List.mem_singleton.mp ht
  rw [(eq_of_mem_deliveredStore hr.1).2]
  decide

/-- A notification that was delivered at the end of one period and the start of the next is in both
digests. -/
theorem digests_announce_twice :
    ¬ Partition orderByTime (deliveredStore 10) 1 [0, 10, 20] := by
  intro h
  have hdelivered : (deliveredStore 10).Delivered 1 (1, deliveredAlert 10) :=
    ⟨List.mem_singleton_self _, rfl, rfl⟩
  have honce := h.once _ hdelivered
  have htwice := @count_appearances orderByTime (deliveredStore 10) 1 0 [10, 20] (by decide)
    (by decide) _ hdelivered 10 rfl (by decide) (by decide)
  rw [htwice] at honce
  exact absurd honce (by decide)

end ProcureSignal.Notifications.Digests
