/-
# Alerts of one organization

Rules, watchlists and memberships belong to organizations; suppliers, users and risk events
are shared.  An evaluation runs over the rules of all organizations at once.

* `SameTenant` : two stores that differ in the data of other organizations only;
* `alerts_isolated` : they give the organization the same notifications.
-/
import ProcureSignal.Notifications.Outbox

namespace ProcureSignal.Notifications

open Scoring (Watches)
open Watchlists (watchedSupplierIds mem_watchedSupplierIds)

/-- Two stores with the same data of an organization and the same shared data. -/
structure SameTenant (organizationId : ℕ) (s s' : Store) : Prop where
  suppliers : ∀ i, s.db.suppliers.find? i = s'.db.suppliers.find? i
  riskEvents : ∀ i, s.db.riskEvents.find? i = s'.db.riskEvents.find? i
  rules : ∀ i rule, rule.organizationId = organizationId →
    (s.alertRules.find? i = some rule ↔ s'.alertRules.find? i = some rule)
  watchlists : ∀ i w, w.organizationId = organizationId →
    (s.db.watchlists.find? i = some w ↔ s'.db.watchlists.find? i = some w)
  entries : ∀ i w, s.db.watchlists.find? i = some w → w.organizationId = organizationId →
    ∀ entry, entry.watchlistId = i →
      (entry ∈ s.db.watchlistEntries.values ↔ entry ∈ s'.db.watchlistEntries.values)
  memberships : ∀ m, m.organizationId = organizationId →
    (m ∈ s.memberships.values ↔ m ∈ s'.memberships.values)
  /-- the members' own accounts -/
  users : ∀ m ∈ s.memberships.values, m.organizationId = organizationId →
    s.users.find? m.userId = s'.users.find? m.userId
  /-- the notifications of the organization's rules -/
  notifications : ∀ n rule, s.alertRules.find? n.alertRuleId = some rule →
    rule.organizationId = organizationId →
    (n ∈ s.notifications.values ↔ n ∈ s'.notifications.values)

variable {organizationId : ℕ} {s s' : Store} {eventIds : List ℕ} {n : Notification}

theorem SameTenant.symm (h : SameTenant organizationId s s') :
    SameTenant organizationId s' s where
  suppliers i := (h.suppliers i).symm
  riskEvents i := (h.riskEvents i).symm
  rules i rule horg := (h.rules i rule horg).symm
  watchlists i w horg := (h.watchlists i w horg).symm
  entries i w hw horg entry hentry :=
    (h.entries i w ((h.watchlists i w horg).mpr hw) horg entry hentry).symm
  memberships m horg := (h.memberships m horg).symm
  users m hm horg := (h.users m ((h.memberships m horg).mpr hm) horg).symm
  notifications n rule hrule horg :=
    (h.notifications n rule ((h.rules _ rule horg).mpr hrule) horg).symm

/-- The organization watches what it watched. -/
theorem SameTenant.watches (h : SameTenant organizationId s s') {i : ℕ}
    (hw : Watches s.db organizationId i) : Watches s'.db organizationId i := by
  obtain ⟨entry, hentry, rfl, w, hlist, horg⟩ := hw
  exact ⟨entry, (h.entries _ w hlist horg entry rfl).mp hentry, rfl, w,
    (h.watchlists _ w horg).mp hlist, horg⟩

theorem SameTenant.mem_watched (h : SameTenant organizationId s s') {publicId : String}
    (hw : publicId ∈ watchedSupplierIds s.db organizationId) :
    publicId ∈ watchedSupplierIds s'.db organizationId := by
  rw [mem_watchedSupplierIds] at hw ⊢
  obtain ⟨i, supplier, hsupplier, hid, hactive, hwatches⟩ := hw
  exact ⟨i, supplier, h.suppliers i ▸ hsupplier, hid, hactive, h.watches hwatches⟩

/-- An event hits the same suppliers. -/
theorem SameTenant.watchedHits_eq (h : SameTenant organizationId s s') (event : RiskEvent) :
    watchedHits s organizationId event = watchedHits s' organizationId event := by
  have hfilter : event.affectedSupplierIds.dedup.filter
      (· ∈ watchedSupplierIds s.db organizationId) =
      event.affectedSupplierIds.dedup.filter (· ∈ watchedSupplierIds s'.db organizationId) := by
    apply List.filter_congr
    intro publicId _
    rw [decide_eq_decide]
    exact ⟨h.mem_watched, h.symm.mem_watched⟩
  rw [watchedHits, watchedHits, hfilter]

/-- The same users are told. -/
theorem SameTenant.mem_recipientsFor (h : SameTenant organizationId s s') {userId : ℕ}
    (hu : userId ∈ recipientsFor s organizationId) :
    userId ∈ recipientsFor s' organizationId := by
  rw [Notifications.mem_recipientsFor] at hu ⊢
  obtain ⟨⟨user, huser, hactive⟩, m, hm, rfl, horg⟩ := hu
  exact ⟨⟨user, h.users m hm horg ▸ huser, hactive⟩, m, (h.memberships m horg).mp hm, rfl, horg⟩

/-- A rule of the organization owes the same notifications. -/
theorem SameTenant.owes (h : SameTenant organizationId s s') {rule : AlertRule}
    {event : RiskEvent} (ho : Owes s eventIds n rule event)
    (horg : rule.organizationId = organizationId) : Owes s' eventIds n rule event where
  findRule := (h.rules _ rule horg).mp ho.findRule
  enabled := ho.enabled
  batch := ho.batch
  findEvent := h.riskEvents _ ▸ ho.findEvent
  meets := ho.meets
  recipient := by
    have hrecipient := ho.recipient
    rw [horg] at hrecipient ⊢
    exact h.mem_recipientsFor hrecipient
  affects := by
    have haffects := ho.affects
    rw [horg] at haffects ⊢
    exact h.watchedHits_eq event ▸ haffects
  fields := by
    have hfields := ho.fields
    rw [horg] at hfields ⊢
    rw [← h.watchedHits_eq event]
    exact hfields

/-- What is created for the organization in one store is created in the other. -/
theorem SameTenant.created (h : SameTenant organizationId s s')
    (horg : n.organizationId = organizationId) (hc : Created s eventIds n) :
    Created s' eventIds n := by
  rw [created_iff] at hc ⊢
  obtain ⟨⟨rule, event, ho⟩, hnew⟩ := hc
  have hrule : rule.organizationId = organizationId := by
    rw [← horg, ho.fields]
  refine ⟨⟨rule, event, h.owes ho hrule⟩, fun hold => hnew ?_⟩
  -- a notification with this key is one of the same rule
  obtain ⟨n', hn', hkey⟩ := List.mem_map.mp hold
  have hid : n'.alertRuleId = n.alertRuleId := congrArg Prod.fst hkey
  have hsame := h.notifications n' rule (hid ▸ ho.findRule) hrule
  exact List.mem_map.mpr ⟨n', hsame.mpr hn', hkey⟩

/-- What a new notification of the organization says. -/
theorem created_sound (hc : Created s eventIds n) :
    n.recipientUserId ∈ recipientsFor s n.organizationId ∧
      ∃ event, s.db.riskEvents.find? n.riskEventId = some event ∧
        ∀ publicId ∈ n.supplierPublicIds, publicId ∈ event.affectedSupplierIds ∧
          publicId ∈ watchedSupplierIds s.db n.organizationId := by
  obtain ⟨⟨rule, event, ho⟩, -⟩ := created_iff.mp hc
  have horg : n.organizationId = rule.organizationId := congrArg Notification.organizationId ho.fields
  have hids : n.supplierPublicIds = watchedHits s rule.organizationId event :=
    congrArg Notification.supplierPublicIds ho.fields
  rw [horg]
  refine ⟨ho.recipient, event, ho.findEvent, fun publicId hid => ?_⟩
  rw [hids, watchedHits, List.mem_insertionSort, List.mem_filter, List.mem_dedup,
    decide_eq_true_eq] at hid
  exact hid

/-- Evaluations one after the other; before each, other sessions have changed the other tables. -/
def evaluations (s : Store) (runs : List (Store × List ℕ)) : Store :=
  runs.foldl (fun s run => evaluateAlerts { run.1 with notifications := s.notifications } run.2) s

/-- **Alerts are isolated.**  Stores that differ in the data of other organizations only give
the organization the same new notifications; each goes to an active member and names suppliers
that the organization watches and the event affects; and however often rules are evaluated,
there is one notification for a rule, an event, a user and a channel. -/
theorem alerts_isolated (h : SameTenant organizationId s s') (eventIds : List ℕ)
    (runs : List (Store × List ℕ)) :
    (∀ n, n.organizationId = organizationId →
      (Created s eventIds n ↔ Created s' eventIds n)) ∧
    (∀ n, Created s eventIds n → n.organizationId = organizationId →
      ((∃ user, s.users.find? n.recipientUserId = some user ∧ user.isActive = true) ∧
        ∃ m ∈ s.memberships.values, m.userId = n.recipientUserId ∧
          m.organizationId = organizationId) ∧
      ∃ event, s.db.riskEvents.find? n.riskEventId = some event ∧
        ∀ publicId ∈ n.supplierPublicIds, publicId ∈ event.affectedSupplierIds ∧
          publicId ∈ watchedSupplierIds s.db organizationId) ∧
    ∀ key, (evaluations s runs).notifications.values.countP (·.key = key) ≤ 1 := by
  refine ⟨fun n horg => ⟨h.created horg, h.symm.created horg⟩, ?_, ?_⟩
  · rintro n hc rfl
    obtain ⟨hrecipient, hsuppliers⟩ := created_sound hc
    exact ⟨mem_recipientsFor.mp hrecipient, hsuppliers⟩
  · exact UniqueTable.countP_le_one (evaluations s runs).notifications

/-! ## Two organizations -/

/-- Organization 1 watches a supplier and has a rule and a member; one event hits it. -/
private def quiet : Store where
  db :=
    { Database.empty with
      suppliers := UniqueTable.empty.insertNew ⟨"sup-1", "Acme", "acme", none, none, true⟩
      riskEvents := Table.empty.insert
        ⟨"e1", "strike", "high", 1, ["Acme"], ["sup-1"], "", "wire", 0⟩
      watchlists := Table.empty.insert ⟨1⟩
      watchlistEntries := Table.empty.insert ⟨1, 1⟩ }
  alertRules := Table.empty.insert ⟨1, "low", [], true⟩
  users := UniqueTable.empty.insertNew ⟨"u-1", "buyer@example.com", none, true, 0, none⟩
  memberships := Table.empty.insert ⟨1, 1, .member⟩
  notifications := UniqueTable.empty

/-- The same with a second organization, its rule and its watchlist. -/
private def crowded : Store :=
  { quiet with
    db :=
      { quiet.db with
        watchlists := quiet.db.watchlists.insert ⟨2⟩
        watchlistEntries := quiet.db.watchlistEntries.insert ⟨2, 1⟩ }
    alertRules := quiet.alertRules.insert ⟨2, "low", [], true⟩
    users := quiet.users.insertNew ⟨"u-2", "other@example.com", none, true, 0, none⟩
    memberships := quiet.memberships.insert ⟨2, 2, .member⟩ }

private theorem sameTenant_quiet_crowded : SameTenant 1 quiet crowded where
  suppliers _ := rfl
  riskEvents _ := rfl
  rules i rule horg :=
    (Table.find?_insert_of_ne (by rintro rfl; exact absurd horg (by decide)) i).symm
  watchlists i w horg :=
    (Table.find?_insert_of_ne (by rintro rfl; exact absurd horg (by decide)) i).symm
  entries i w hw horg entry hentry := by
    apply (Table.mem_values_insert_of_ne _).symm
    rintro rfl
    -- the entry would be of list 2, which is not there
    have hnone : quiet.db.watchlists.find? 2 = none := rfl
    have hid : (2 : ℕ) = i := hentry
    have hsome : quiet.db.watchlists.find? 2 = some w := hid ▸ hw
    exact absurd (hnone.symm.trans hsome) (by simp)
  memberships m horg :=
    (Table.mem_values_insert_of_ne (by rintro rfl; exact absurd horg (by decide))).symm
  users := by decide
  notifications _ _ _ _ := Iff.rfl

/-- The event is told to the member of organization 1, whoever else uses the system. -/
theorem alerts_isolated_two_tenants :
    ∃ n, n.organizationId = 1 ∧ Created quiet [1] n ∧ Created crowded [1] n := by
  obtain ⟨hsame, -, -⟩ := alerts_isolated sameTenant_quiet_crowded [1] []
  have hcreated : Created quiet [1] ⟨1, 1, 1, 1, inApp, ["sup-1"], "pending", 0⟩ := by
    unfold Created
    decide +kernel
  exact ⟨_, rfl, hcreated, (hsame _ rfl).mp hcreated⟩

end ProcureSignal.Notifications
