/-
# Retention

`prune_expired_records` of `jobs/retention.py` deletes, table by table, the rows that are past
the window of the registry.  Foreign keys carry each deletion to other tables.

* `kept_prune` : the job takes the expired rows and, along the cascades, what depends on them;
* `prune_prune` : a second run at the same time does nothing;
* `ownWindow_iff` : **when a row goes for its own window only**.
-/
import ProcureSignal.Privacy.Inventory

namespace ProcureSignal.Privacy

open Relational TableName

/-! ## The job -/

/-- `_registry_days`. -/
def registryDays (table : TableName) : Option ℕ :=
  (inventory.find? fun entry => entry.table = table && entry.retentionDays.isSome).bind
    (·.retentionDays)

/-- `RetentionPolicy`; the defaults are the windows of the registry. -/
structure RetentionPolicy where
  rawDays : ℕ := (registryDays newsArticlesRaw).get (by decide)
  processedDays : ℕ := (registryDays newsArticlesProcessed).get (by decide)
  feedDays : ℕ := (registryDays userNewsFeed).get (by decide)
  riskEventDays : ℕ := (registryDays riskEvents).get (by decide)
  deriving DecidableEq, Repr

/-- `overrides.get(entry.table, entry.retention_days)`. -/
def RetentionPolicy.daysFor (policy : RetentionPolicy) (table : TableName) (registered : ℕ) : ℕ :=
  match table with
  | newsArticlesRaw => policy.rawDays
  | newsArticlesProcessed => policy.processedDays
  | userNewsFeed => policy.feedDays
  | riskEvents => policy.riskEventDays
  | _ => registered

/-- `column < reference_time - timedelta(days=n)`. -/
def olderThan (now : Instant) (n : ℕ) (v : Value) : Bool :=
  match v with
  | .time x => decide (x < now - days n)
  | _ => false

/-- The rows of one table that are past a window. -/
def expiring (now : Instant) (t : TableName) (c : String) (n : ℕ) (t' : TableName) (_ : ℕ)
    (r : Row) : Bool :=
  t' = t && olderThan now n (r c)

/-- `RetentionResult`. -/
structure RetentionResult where
  rawDeleted : ℕ
  processedDeleted : ℕ
  feedDeleted : ℕ
  riskEventsDeleted : ℕ
  byTable : List (TableName × ℕ)
  deriving DecidableEq, Repr

/-- One entry of the registry. -/
def pruneEntry (policy : RetentionPolicy) (now : Instant) (s : Store × List (TableName × ℕ))
    (entry : PersonalDataTable) : Store × List (TableName × ℕ) :=
  match entry.retentionDays with
  | none => s
  | some registered =>
      let p := expiring now entry.table entry.retentionColumn
        (policy.daysFor entry.table registered)
      (schema.delete s.1 p,
        s.2 ++ [(entry.table, (s.1 entry.table).rows.countP fun r => p entry.table r.1 r.2)])

/-- `by_table.get(table, 0)`. -/
def countOf (byTable : List (TableName × ℕ)) (t : TableName) : ℕ :=
  ((byTable.find? fun count => count.1 = t).map (·.2)).getD 0

/-- `prune_expired_records`. -/
def pruneExpiredRecords (policy : RetentionPolicy) (now : Instant) (db : Store) :
    Store × RetentionResult :=
  let s := inventory.foldl (pruneEntry policy now) (db, [])
  (s.1, ⟨countOf s.2 newsArticlesRaw, countOf s.2 newsArticlesProcessed,
    countOf s.2 userNewsFeed, countOf s.2 riskEvents, s.2⟩)

/-! ## What the job takes -/

/-- The row is past the window that the entry has for it. -/
def PastWindow (policy : RetentionPolicy) (now : Instant) (entry : PersonalDataTable)
    (t : TableName) (_ : ℕ) (r : Row) : Prop :=
  entry.table = t ∧ ∃ n, entry.retentionDays = some n ∧
    olderThan now (policy.daysFor t n) (r entry.retentionColumn) = true

/-- The row is past the window of its own table. -/
def Expired (policy : RetentionPolicy) (now : Instant) (t : TableName) (i : ℕ) (r : Row) : Prop :=
  ∃ entry ∈ inventory, PastWindow policy now entry t i r

variable {policy : RetentionPolicy} {now : Instant} {db db' : Store}

/-- No deletion sets the column that age is measured from to null. -/
theorem retention_columns : ∀ entry ∈ inventory,
    ¬Nullable foreignKeys entry.table entry.retentionColumn := by
  decide

/-- Age is read from a column that stays. -/
theorem stable_expiring {t : TableName} {c : String} (n : ℕ) (hc : ¬Nullable foreignKeys t c) :
    Stable schema fun t' i r => expiring now t c n t' i r = true := by
  intro t' i r r' hn
  simp only [expiring, Bool.and_eq_true, decide_eq_true_eq]
  refine and_congr_right ?_
  rintro rfl
  rw [hn.eq_of_not_nullable hc]

/-- The rows that an entry of the registry matches are those past its window. -/
theorem expiring_iff {entry : PersonalDataTable} {n : ℕ} (hn : entry.retentionDays = some n)
    (t : TableName) (i : ℕ) (r : Row) :
    expiring now entry.table entry.retentionColumn (policy.daysFor entry.table n) t i r = true ↔
      PastWindow policy now entry t i r := by
  simp only [expiring, Bool.and_eq_true, decide_eq_true_eq]
  constructor
  · rintro ⟨rfl, hold⟩
    exact ⟨rfl, n, hn, hold⟩
  · rintro ⟨rfl, m, hm, hold⟩
    rw [hn] at hm
    cases hm
    exact ⟨rfl, hold⟩

/-- An expired row is still one after other rows were deleted, and none becomes one. -/
theorem stable_expired : Stable schema (Expired policy now) := by
  intro t i r r' hn
  refine exists_congr fun entry => and_congr_right fun hentry => and_congr_right ?_
  rintro rfl
  rw [hn.eq_of_not_nullable (retention_columns entry hentry)]

/-- One entry takes what is past its window. -/
theorem kept_pruneEntry {P : TableName → ℕ → Row → Prop} {s : Store × List (TableName × ℕ)}
    (h : Kept schema db P s.1) {entry : PersonalDataTable} (hentry : entry ∈ inventory) :
    Kept schema db (fun t i r => P t i r ∨ PastWindow policy now entry t i r)
      (pruneEntry policy now s entry).1 := by
  unfold pruneEntry
  split
  · rename_i hnone
    refine h.congr fun t i r => ⟨Or.inl, fun hor => hor.resolve_right ?_⟩
    rintro ⟨-, n, hn, -⟩
    rw [hnone] at hn
    cases hn
  · rename_i n hn
    exact (h.delete (stable_expiring _ (retention_columns entry hentry))).congr fun t i r =>
      or_congr_right (expiring_iff hn t i r)

/-- **What the job takes**: the expired rows, and what cascades from these. -/
theorem kept_prune (policy : RetentionPolicy) (now : Instant) (db : Store) :
    Kept schema db (Expired policy now) (pruneExpiredRecords policy now db).1 := by
  refine (Kept.foldl Prod.fst (PastWindow policy now) inventory
    (fun entry hentry P s h => kept_pruneEntry h hentry) (s := (db, []))
    (Kept.refl schema db)).congr fun t i r => ?_
  rw [false_or]
  rfl

/-! ## The second run -/

/-- What the job does where nothing is expired. -/
theorem foldl_pruneEntry (h : ∀ t i r, (i, r) ∈ (db t).rows → ¬Expired policy now t i r)
    (entries : List PersonalDataTable) (hentries : ∀ entry ∈ entries, entry ∈ inventory)
    (counts : List (TableName × ℕ)) (hcounts : ∀ count ∈ counts, count.2 = 0) :
    ∃ counts', entries.foldl (pruneEntry policy now) (db, counts) = (db, counts') ∧
      ∀ count ∈ counts', count.2 = 0 := by
  induction entries generalizing counts with
  | nil => exact ⟨counts, rfl, hcounts⟩
  | cons entry entries ih =>
      have hentry := hentries entry List.mem_cons_self
      have hrest := fun e he => hentries e (List.mem_cons_of_mem entry he)
      rw [List.foldl_cons]
      cases hn : entry.retentionDays with
      | none =>
          rw [show pruneEntry policy now (db, counts) entry = (db, counts) by
            rw [pruneEntry, hn]]
          exact ih hrest counts hcounts
      | some n =>
          have hnone : ∀ t i r, (i, r) ∈ (db t).rows → expiring now entry.table
              entry.retentionColumn (policy.daysFor entry.table n) t i r = false := by
            intro t i r hr
            refine Bool.eq_false_of_not_eq_true fun hexp => ?_
            exact h t i r hr ⟨entry, hentry, (expiring_iff hn t i r).mp hexp⟩
          have hstep : pruneEntry policy now (db, counts) entry =
              (db, counts ++ [(entry.table, 0)]) := by
            have hcount : (db entry.table).rows.countP (fun r => expiring now entry.table
                entry.retentionColumn (policy.daysFor entry.table n) entry.table r.1 r.2) = 0 :=
              List.countP_eq_zero.mpr fun r hr => by rw [hnone _ _ _ hr]; exact Bool.false_ne_true
            simp only [pruneEntry, hn, Schema.delete_eq_self hnone, hcount]
          rw [hstep]
          refine ih hrest _ fun count hmem => ?_
          rcases List.mem_append.mp hmem with hmem | hmem
          · exact hcounts count hmem
          · rw [List.mem_singleton.mp hmem]

/-- Where every count is zero, each table's count is. -/
theorem countOf_eq_zero {counts : List (TableName × ℕ)} (h : ∀ count ∈ counts, count.2 = 0)
    (t : TableName) : countOf counts t = 0 := by
  rw [countOf]
  cases hfind : counts.find? fun count => count.1 = t with
  | none => rfl
  | some count => exact h count (List.mem_of_find?_eq_some hfind)

/-- Nothing is deleted. -/
def RetentionResult.DeletedNothing (result : RetentionResult) : Prop :=
  result.rawDeleted = 0 ∧ result.processedDeleted = 0 ∧ result.feedDeleted = 0 ∧
    result.riskEventsDeleted = 0 ∧ ∀ count ∈ result.byTable, count.2 = 0

/-- **A second run at the same time deletes nothing.** -/
theorem prune_prune (policy : RetentionPolicy) (now : Instant) (db : Store) :
    (pruneExpiredRecords policy now (pruneExpiredRecords policy now db).1).1 =
        (pruneExpiredRecords policy now db).1 ∧
      (pruneExpiredRecords policy now
        (pruneExpiredRecords policy now db).1).2.DeletedNothing := by
  have hkept := kept_prune policy now db
  have hnone : ∀ t i r, (i, r) ∈ ((pruneExpiredRecords policy now db).1 t).rows →
      ¬Expired policy now t i r := by
    intro t i r hr hexp
    obtain ⟨r₀, hr₀, hnot, hn⟩ := hkept.of_mem hr
    exact hnot (.matched hr₀ ((stable_expired t i r₀ r hn).mp hexp))
  obtain ⟨counts, hwalk, hzero⟩ := foldl_pruneEntry hnone inventory (fun _ => id) []
    (List.forall_mem_nil _)
  have hrun : pruneExpiredRecords policy now (pruneExpiredRecords policy now db).1 =
      ((pruneExpiredRecords policy now db).1, ⟨countOf counts newsArticlesRaw,
        countOf counts newsArticlesProcessed, countOf counts userNewsFeed,
        countOf counts riskEvents, counts⟩) := by
    conv_lhs => rw [pruneExpiredRecords, hwalk]
  rw [hrun]
  exact ⟨rfl, countOf_eq_zero hzero _, countOf_eq_zero hzero _, countOf_eq_zero hzero _,
    countOf_eq_zero hzero _, hzero⟩

/-! ## Each row for its own window -/

/-- The registry lets the row go: it is past the window of its table, or its entry declares a
parent table and the row of that table is past its window. -/
def MayGo (policy : RetentionPolicy) (now : Instant) (db : Store) (t : TableName) (i : ℕ)
    (r : Row) : Prop :=
  Expired policy now t i r ∨
    ∃ entry ∈ inventory, entry.table = t ∧ ∃ fk ∈ foreignKeys, fk.child = t ∧
      entry.cascadesFrom = some fk.parent ∧ ∃ j parent, r fk.column = .num j ∧
        (j, parent) ∈ (db fk.parent).rows ∧ Expired policy now fk.parent j parent

/-- Rows go only where the registry lets them, and all of them at once. -/
def OwnWindow (policy : RetentionPolicy) (now : Instant) (db : Store) : Prop :=
  (∀ t i r, (i, r) ∈ (db t).rows →
    (¬∃ r', (i, r') ∈ ((pruneExpiredRecords policy now db).1 t).rows) →
      MayGo policy now db t i r) ∧
    (pruneExpiredRecords policy now (pruneExpiredRecords policy now db).1).1 =
        (pruneExpiredRecords policy now db).1 ∧
      (pruneExpiredRecords policy now (pruneExpiredRecords policy now db).1).2.DeletedNothing

/-- Past the window that the entry of a table gives. -/
theorem expired_iff {t : TableName} (n : ℕ) (c : String)
    (hentry : ∀ entry ∈ inventory, entry.table = t →
      entry.retentionDays = some n ∧ entry.retentionColumn = c) (i : ℕ) (r : Row) :
    Expired policy now t i r ↔ olderThan now (policy.daysFor t n) (r c) = true := by
  constructor
  · rintro ⟨entry, hmem, htable, m, hm, hold⟩
    obtain ⟨hdays, hcolumn⟩ := hentry entry hmem htable
    rw [hdays] at hm
    cases hm
    rwa [hcolumn] at hold
  · intro hold
    obtain ⟨entry, hmem, htable⟩ := exists_entry t
    obtain ⟨hdays, hcolumn⟩ := hentry entry hmem htable
    refine ⟨entry, hmem, htable, n, hdays, ?_⟩
    rwa [hcolumn]

/-- Past the window of the notifications. -/
theorem expired_notification_iff (i : ℕ) (r : Row) :
    Expired policy now notifications i r ↔ olderThan now 180 (r "created_at") = true :=
  expired_iff 180 "created_at" (by decide) i r

/-- Past the window of the risk events. -/
theorem expired_riskEvent_iff (j : ℕ) (e : Row) : Expired policy now riskEvents j e ↔
    olderThan now policy.riskEventDays (e "published_at") = true :=
  expired_iff 14 "published_at" (by decide) j e

/-- The cascades out of the tables that have a window: the registry declares them, but for
one. -/
theorem declared_cascades : ∀ fk ∈ foreignKeys, fk.onDelete = .cascade →
    ∀ entry ∈ inventory, entry.table = fk.parent → entry.retentionDays.isSome →
      (∃ entry' ∈ inventory, entry'.table = fk.child ∧ entry'.cascadesFrom = some fk.parent) ∨
        fk = ⟨notifications, "risk_event_id", riskEvents, .cascade⟩ := by
  decide

/-- A table that rows cascade from is not reached by a declared cascade itself. -/
theorem declared_roots : ∀ fk ∈ foreignKeys, fk.onDelete = .cascade →
    ∀ entry ∈ inventory, entry.table = fk.parent → entry.cascadesFrom = none := by
  decide

/-- What the job takes may go, where every notification of an expired event is expired. -/
theorem mayGo_of_doomed
    (h : ∀ i r, (i, r) ∈ (db notifications).rows → ∀ j e, r "risk_event_id" = .num j →
      (j, e) ∈ (db riskEvents).rows → Expired policy now riskEvents j e →
        Expired policy now notifications i r)
    {t : TableName} {i : ℕ} (hd : schema.Doomed db (Expired policy now) t i) :
    ∀ r, (i, r) ∈ (db t).rows → MayGo policy now db t i r := by
  induction hd with
  | matched hrow hexp =>
      intro r hr
      rw [Table.eq_of_mem hr hrow]
      exact Or.inl hexp
  | @cascade fk i j r₀ hfk haction hrow href hparent ih =>
      intro r hr
      obtain rfl := Table.eq_of_mem hr hrow
      obtain ⟨parent, hparent⟩ := hparent.exists_row
      rcases ih parent hparent with hexp | ⟨entry, hentry, htable, fk', -, -, hfrom, -⟩
      · obtain ⟨entry, hentry, htable, n, hn, -⟩ := id hexp
        rcases declared_cascades fk hfk haction entry hentry htable (hn ▸ rfl) with
          ⟨entry', hentry', htable', hfrom⟩ | rfl
        · exact Or.inr ⟨entry', hentry', htable', fk, hfk, rfl, hfrom, j, parent, href, hparent,
            hexp⟩
        · exact Or.inl (h i r hr j parent href hparent hexp)
      · rw [declared_roots fk hfk haction entry hentry htable] at hfrom
        cases hfrom

/-- A notification may go only for its age: its entry declares no parent. -/
theorem mayGo_notification_iff (i : ℕ) (r : Row) :
    MayGo policy now db notifications i r ↔ olderThan now 180 (r "created_at") = true := by
  have hundeclared : ∀ entry ∈ inventory, entry.table = notifications →
      entry.cascadesFrom = none := by decide
  rw [← expired_notification_iff i r]
  constructor
  · rintro (hown | ⟨entry, hentry, htable, fk, -, -, hfrom, -⟩)
    · exact hown
    · rw [hundeclared entry hentry htable] at hfrom
      cases hfrom
  · exact Or.inl

/-- A notification goes with the event that it is about. -/
theorem notification_gone {i j : ℕ} {r e : Row} (hr : (i, r) ∈ (db notifications).rows)
    (href : r "risk_event_id" = .num j) (he : (j, e) ∈ (db riskEvents).rows)
    (hold : olderThan now policy.riskEventDays (e "published_at") = true) :
    ¬∃ r', (i, r') ∈ ((pruneExpiredRecords policy now db).1 notifications).rows := by
  rw [(kept_prune policy now db).exists_row_iff hr, not_not]
  have hfk : ⟨notifications, "risk_event_id", riskEvents, .cascade⟩ ∈ schema.foreignKeys := by
    decide
  exact .cascade hfk rfl hr href (.matched he ((expired_riskEvent_iff j e).mpr hold))

/-- **When a row goes for its own window only**: exactly when every notification of a risk
event that is past the event's window is past the window of the notifications. -/
theorem ownWindow_iff (policy : RetentionPolicy) (now : Instant) (db : Store) :
    OwnWindow policy now db ↔
      ∀ i r, (i, r) ∈ (db notifications).rows → ∀ j e, r "risk_event_id" = .num j →
        (j, e) ∈ (db riskEvents).rows →
          olderThan now policy.riskEventDays (e "published_at") = true →
            olderThan now 180 (r "created_at") = true := by
  constructor
  · rintro ⟨hgo, -⟩ i r hr j e href he hold
    have hgone := hgo notifications i r hr (notification_gone hr href he hold)
    exact (mayGo_notification_iff i r).mp hgone
  · intro h
    refine ⟨fun t i r hr hgone => ?_, prune_prune policy now db⟩
    have hd := not_not.mp (mt ((kept_prune policy now db).exists_row_iff hr).mpr hgone)
    refine mayGo_of_doomed (fun i r hr j e href he hexp => ?_) hd r hr
    rw [expired_riskEvent_iff] at hexp
    rw [expired_notification_iff]
    exact h i r hr j e href he hexp

/-! ### An alert about an old event -/

/-- Day `20`: an event that was published on day `1`, and an alert about it from day `19` that
is still to be delivered. -/
def alerted : Store
  | riskEvents => Table.empty.insert fun c =>
      if c = "published_at" then .time (days 1) else .null
  | notifications => Table.empty.insert fun c =>
      if c = "risk_event_id" then .num 1
      else if c = "created_at" then .time (days 19)
      else if c = "status" then .text "pending" else .null
  | _ => Table.empty

/-- The alert goes with the event. -/
theorem alert_lost : ¬OwnWindow {} (days 20) alerted := by
  rintro ⟨hgo, -⟩
  have hgone := hgo notifications 1 _ (List.mem_singleton_self _)
    (notification_gone (List.mem_singleton_self _) rfl (List.mem_singleton_self _) (by decide))
  have hyoung := (mayGo_notification_iff 1 _).mp hgone
  revert hyoung
  decide

end ProcureSignal.Privacy
