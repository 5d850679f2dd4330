/-
# The alert evaluation task

`evaluate_alert_rules_task` of `worker/tasks.py`.  A run of the task selects the risk events
of the last day in the order of their keys, takes at most a thousand of them and evaluates
the rules on these.  Between the runs events are inserted, updated and pruned, and every other
table may change.

* `State.window`, `State.batch` : what a run selects, and what it takes of it;
* `considered_iff` : an event is evaluated exactly when the last run that selects it selects
  fewer than a thousand events before it;
* `burst_starves` : of a burst of events the last is never evaluated.

A run that fails rolls back and leaves no trace.
-/
import ProcureSignal.Library.Execution
import ProcureSignal.Notifications.Outbox

namespace ProcureSignal.Worker.AlertTask

open Notifications (Notification NotificationTable Owes Store evaluateAlerts inApp
  mem_evaluateAlerts recipientsFor watchedHits)

/-! ## The system -/

/-- `LIMIT 1000`. -/
def eventLimit : ℕ := 1000

/-- The tables, the column `created_at` of the risk events by their keys, and the latest
reading of the clock. -/
structure State where
  clock : Instant
  store : Store
  createdAt : ℕ → Instant

/-- The keys of the risk events. -/
def State.ids (s : State) : List ℕ := s.store.db.riskEvents.rows.map (·.1)

/-- `created_at >= cutoff`, `ORDER BY id`. -/
def State.window (s : State) (now : Instant) : List ℕ :=
  s.ids.filter fun id => now - days 1 ≤ s.createdAt id

/-- The events that a run loads. -/
def State.batch (s : State) (now : Instant) : List ℕ := (s.window now).take eventLimit

/-- How many events a run selects before one. -/
def State.ahead (s : State) (now : Instant) (id : ℕ) : ℕ := (s.window now).countP (· < id)

/-- The tables with other risk events. -/
def State.setEvents (s : State) (riskEvents : Table RiskEvent) : State :=
  { s with store := { s.store with db := { s.store.db with riskEvents := riskEvents } } }

inductive Label
  /-- `generate_risk_events` inserts an event -/
  | insertEvent (createdAt : Instant) (event : RiskEvent)
  /-- `generate_risk_events` or the backfill updates events in place -/
  | updateEvents (f : ℕ → RiskEvent → RiskEvent)
  /-- `prune_expired_records`, which keeps fourteen days by `published_at` -/
  | pruneEvents (now : Instant)
  /-- other sessions change the other tables -/
  | otherTables (store : Store)
  /-- a run of the task -/
  | evaluate (now : Instant)

/-- One committed transaction. -/
def step (s : State) : Label → Option State
  | .insertEvent createdAt event =>
      some { s.setEvents (s.store.db.riskEvents.insert event) with
        createdAt := Function.update s.createdAt s.store.db.riskEvents.nextId createdAt }
  | .updateEvents f => some (s.setEvents (s.store.db.riskEvents.modify f))
  | .pruneEvents now =>
      if s.clock ≤ now then
        some { s.setEvents (s.store.db.riskEvents.delete fun _ event =>
          event.publishedAt < now - days 14) with clock := now }
      else none
  | .otherTables store =>
      some ({ s with store := store }.setEvents s.store.db.riskEvents)
  | .evaluate now =>
      if s.clock ≤ now then
        some { s with clock := now, store := evaluateAlerts s.store (s.batch now) }
      else none

variable {s t p q : State} {tr : List (State × Label)} {now now' : Instant} {id : ℕ}

/-! ## What a run takes -/

theorem pairwise_window (s : State) (now : Instant) : (s.window now).Pairwise (· < ·) := by
  apply List.Pairwise.filter
  rw [State.ids, List.pairwise_map]
  exact s.store.db.riskEvents.sorted

theorem mem_window :
    id ∈ s.window now ↔ id ∈ s.ids ∧ now - days 1 ≤ s.createdAt id := by
  rw [State.window, List.mem_filter, decide_eq_true_eq]

/-- **What a run takes**: the selected events before which it selects fewer than a
thousand. -/
theorem mem_batch : id ∈ s.batch now ↔ id ∈ s.window now ∧ s.ahead now id < eventLimit := by
  constructor
  · intro h
    have hwindow : id ∈ s.window now := List.mem_of_mem_take h
    exact ⟨hwindow, (mem_take_iff_countP_lt (pairwise_window s now) hwindow _).mp h⟩
  · rintro ⟨hwindow, hahead⟩
    exact (mem_take_iff_countP_lt (pairwise_window s now) hwindow _).mpr hahead

/-! ## Steps -/

/-- What steps cannot do to the events there were: give a key that is gone to another event,
or change a time of creation. -/
structure Later (s t : State) : Prop where
  clock : s.clock ≤ t.clock
  nextId : s.store.db.riskEvents.nextId ≤ t.store.db.riskEvents.nextId
  ids : ∀ id < s.store.db.riskEvents.nextId, id ∈ t.ids → id ∈ s.ids
  createdAt : ∀ id < s.store.db.riskEvents.nextId, t.createdAt id = s.createdAt id

theorem Later.refl (s : State) : Later s s :=
  ⟨le_rfl, le_rfl, fun _ _ h => h, fun _ _ => rfl⟩

theorem Later.trans (h : Later s t) (h' : Later t p) : Later s p where
  clock := h.clock.trans h'.clock
  nextId := h.nextId.trans h'.nextId
  ids id hid hmem := h.ids id hid (h'.ids id (hid.trans_le h.nextId) hmem)
  createdAt id hid := (h'.createdAt id (hid.trans_le h.nextId)).trans (h.createdAt id hid)

theorem Later.of_step {l : Label} (h : step s l = some t) : Later s t := by
  cases l with
  | insertEvent createdAt event =>
      obtain rfl := Option.some.inj h
      refine ⟨le_rfl, Nat.le_succ _, fun id hid hmem => ?_, fun id hid => ?_⟩
      · obtain ⟨r, hr, rfl⟩ := List.mem_map.mp hmem
        rcases Table.mem_rows_insert.mp hr with hr | rfl
        · exact List.mem_map_of_mem hr
        · exact absurd hid (lt_irrefl _)
      · exact Function.update_of_ne hid.ne _ _
  | updateEvents f =>
      obtain rfl := Option.some.inj h
      refine ⟨le_rfl, le_rfl, fun id _ hmem => ?_, fun _ _ => rfl⟩
      have hkeys : (s.setEvents (s.store.db.riskEvents.modify f)).ids = s.ids :=
        Table.keys_modify s.store.db.riskEvents f
      rwa [hkeys] at hmem
  | pruneEvents now =>
      simp only [step, Option.ite_none_right_eq_some, Option.some.injEq] at h
      obtain ⟨hclock, rfl⟩ := h
      refine ⟨hclock, le_rfl, fun id _ hmem => ?_, fun _ _ => rfl⟩
      obtain ⟨r, hr, rfl⟩ := List.mem_map.mp hmem
      exact List.mem_map_of_mem (Table.mem_rows_delete.mp hr).1
  | otherTables store =>
      obtain rfl := Option.some.inj h
      exact ⟨le_rfl, le_rfl, fun _ _ hmem => hmem, fun _ _ => rfl⟩
  | evaluate now =>
      simp only [step, Option.ite_none_right_eq_some, Option.some.injEq] at h
      obtain ⟨hclock, rfl⟩ := h
      exact ⟨hclock, le_rfl, fun _ _ hmem => hmem, fun _ _ => rfl⟩

theorem Later.of_execution (h : Execution step unguarded s tr t) : Later s t :=
  h.invariant (Later.refl s) fun _ _ _ hlater _ hstep => hlater.trans (Later.of_step hstep)

/-! ## The last run is the best -/

/-- An event selected at a later time was selected before. -/
theorem Later.mem_window (h : Later p q) (hnow : now ≤ now')
    (hid : id < p.store.db.riskEvents.nextId) (hmem : id ∈ q.window now') :
    id ∈ p.window now := by
  rw [AlertTask.mem_window] at hmem ⊢
  obtain ⟨hids, hcreated⟩ := hmem
  rw [h.createdAt id hid] at hcreated
  refine ⟨h.ids id hid hids, ?_⟩
  calc now - days 1 ≤ now' - days 1 := Int.sub_le_sub_right hnow _
    _ ≤ p.createdAt id := hcreated

/-- **Fewer events come before one as time passes**: events leave the window and the table,
and new ones come after. -/
theorem Later.ahead_le (h : Later p q) (hnow : now ≤ now') (hmem : id ∈ p.window now) :
    q.ahead now' id ≤ p.ahead now id := by
  have hid : id < p.store.db.riskEvents.nextId := by
    obtain ⟨r, hr, rfl⟩ := List.mem_map.mp (AlertTask.mem_window.mp hmem).1
    exact p.store.db.riskEvents.below r hr
  rw [State.ahead, State.ahead, List.countP_eq_length_filter, List.countP_eq_length_filter]
  have hnodup : ((q.window now').filter (· < id)).Nodup :=
    ((pairwise_window q now').imp fun hlt => hlt.ne).filter _
  apply (hnodup.subperm _).length_le
  intro i hi
  rw [List.mem_filter, decide_eq_true_eq] at hi ⊢
  exact ⟨h.mem_window hnow (hi.2.trans hid) hi.1, hi.2⟩

/-- A run after which no run selects the event. -/
theorem exists_last (h : ∃ x ∈ tr, ∃ now, x.2 = .evaluate now ∧ id ∈ x.1.window now) :
    ∃ tr₂ p now tr₁, tr = tr₂ ++ (p, .evaluate now) :: tr₁ ∧ id ∈ p.window now ∧
      ∀ x ∈ tr₂, ∀ now', x.2 = .evaluate now' → id ∉ x.1.window now' := by
  classical
  obtain ⟨x, hx, hselected⟩ := h
  set selects : State × Label → Bool := fun x =>
    decide (∃ now, x.2 = .evaluate now ∧ id ∈ x.1.window now)
  obtain ⟨y, hy⟩ : ∃ y, tr.find? selects = some y := by
    rw [← Option.isSome_iff_exists, List.find?_isSome]
    exact ⟨x, hx, decide_eq_true hselected⟩
  obtain ⟨hyselects, tr₂, tr₁, hsplit, hrest⟩ := List.find?_eq_some_iff_append.mp hy
  obtain ⟨p, l⟩ := y
  obtain ⟨now, rfl, hmem⟩ := of_decide_eq_true hyselects
  refine ⟨tr₂, p, now, tr₁, hsplit, hmem, fun z hz now' hlabel hz' => ?_⟩
  have hnot : selects z = false := by simpa using hrest z hz
  exact of_decide_eq_false hnot ⟨now', hlabel, hz'⟩

/-! ## Which events are evaluated -/

/-- After a run every notification that the rules owe for an event is in the outbox. -/
def Notified (s : State) (now : Instant) (id : ℕ) : Prop :=
  ∀ n rule event, Owes s.store [id] n rule event →
    ∃ n' ∈ (evaluateAlerts s.store (s.batch now)).notifications.values, n'.key = n.key

theorem notified_of_mem_batch (h : id ∈ s.batch now) : Notified s now id := by
  intro n rule event ho
  have hid : n.riskEventId = id := List.mem_singleton.mp ho.batch
  have howes : Owes s.store (s.batch now) n rule event := { ho with batch := hid ▸ h }
  by_cases hold : n.key ∈ s.store.notifications.values.map Notification.key
  · obtain ⟨n', hn', hkey⟩ := List.mem_map.mp hold
    exact ⟨n', mem_evaluateAlerts.mpr (Or.inl hn'), hkey⟩
  · exact ⟨n, mem_evaluateAlerts.mpr (Or.inr ⟨⟨rule, event, howes⟩, hold⟩), rfl⟩

theorem step_evaluate (h : s.clock ≤ now) :
    step s (.evaluate now) =
      some { s with clock := now, store := evaluateAlerts s.store (s.batch now) } :=
  if_pos h

theorem clock_of_evaluate (h : step s (.evaluate now) = some t) :
    s.clock ≤ now ∧ t.clock = now := by
  simp only [step, Option.ite_none_right_eq_some, Option.some.injEq] at h
  obtain ⟨hclock, rfl⟩ := h
  exact ⟨hclock, rfl⟩

/-- A run of the task and a later one. -/
theorem later_of_mem {tr₁ tr₂ : List (State × Label)}
    (h : Execution step unguarded s (tr₂ ++ (p, .evaluate now') :: tr₁) t)
    (hq : (q, .evaluate now) ∈ tr₁) : Later q p ∧ now ≤ now' := by
  obtain ⟨_, hbefore, -, hstep', -⟩ := h.of_append
  obtain ⟨_, _, q', -, -, -, hstep, hbetween⟩ := hbefore.exists_of_mem hq
  have hlater : Later q' p := Later.of_execution hbetween
  refine ⟨(Later.of_step hstep).trans hlater, ?_⟩
  have hclock := hlater.clock
  rw [(clock_of_evaluate hstep).2] at hclock
  exact hclock.trans (clock_of_evaluate hstep').1

/-- **When an event is evaluated.**  In every run of the system, an event is passed to the
rules, and what they owe for it is queued, exactly when the last run of the task that selects
it selects fewer than a thousand events before it. -/
theorem considered_iff (h : Execution step unguarded s tr t) (id : ℕ) :
    (∃ x ∈ tr, ∃ now, x.2 = .evaluate now ∧ id ∈ x.1.batch now ∧ Notified x.1 now id) ↔
      ∃ tr₂ p now tr₁, tr = tr₂ ++ (p, .evaluate now) :: tr₁ ∧ id ∈ p.window now ∧
        (∀ x ∈ tr₂, ∀ now', x.2 = .evaluate now' → id ∉ x.1.window now') ∧
        p.ahead now id < eventLimit := by
  constructor
  · rintro ⟨⟨q, _⟩, hq, now, rfl, hbatch, -⟩
    obtain ⟨hwindow, hahead⟩ := mem_batch.mp hbatch
    obtain ⟨tr₂, p, now', tr₁, rfl, hp, hlast⟩ := exists_last ⟨_, hq, now, rfl, hwindow⟩
    refine ⟨tr₂, p, now', tr₁, rfl, hp, hlast, ?_⟩
    rcases List.mem_append.mp hq with hafter | hbefore
    · exact absurd hwindow (hlast _ hafter now rfl)
    · rcases List.mem_cons.mp hbefore with heq | hbefore
      · obtain ⟨rfl, hlabel⟩ := Prod.mk.inj heq
        obtain rfl := Label.evaluate.inj hlabel
        exact hahead
      · obtain ⟨hlater, hnow⟩ := later_of_mem h hbefore
        exact (hlater.ahead_le hnow hwindow).trans_lt hahead
  · rintro ⟨tr₂, p, now, tr₁, rfl, hwindow, -, hahead⟩
    have hbatch : id ∈ p.batch now := mem_batch.mpr ⟨hwindow, hahead⟩
    exact ⟨(p, .evaluate now), by simp, now, rfl, hbatch, notified_of_mem_batch hbatch⟩

/-! ## A burst -/

/-- A strike at a supplier. -/
private def strike : RiskEvent := ⟨"e", "strike", "high", 1, ["Acme"], ["sup-1"], "", "wire", 0⟩

/-- An organization with one member that watches the supplier and asks for every event. -/
private def start : State where
  clock := 0
  createdAt _ := 0
  store :=
    { db :=
        { Database.empty with
          suppliers := UniqueTable.empty.insertNew ⟨"sup-1", "Acme", "acme", none, none, true⟩
          watchlists := Table.empty.insert ⟨1⟩
          watchlistEntries := Table.empty.insert ⟨1, 1⟩ }
      alertRules := Table.empty.insert ⟨1, "low", [], true⟩
      users := UniqueTable.empty.insertNew ⟨"u-1", "buyer@example.com", none, true, 0, none⟩
      memberships := Table.empty.insert ⟨1, 1, .member⟩
      notifications := UniqueTable.empty }

/-- `start` after a number of strikes at one time. -/
private def burst (n : ℕ) : State :=
  start.setEvents ((List.replicate n strike).foldl Table.insert Table.empty)

private theorem burst_succ (n : ℕ) :
    (burst (n + 1)).store.db.riskEvents = (burst n).store.db.riskEvents.insert strike := by
  show (List.replicate (n + 1) strike).foldl Table.insert Table.empty = _
  rw [List.replicate_succ', List.foldl_append]
  rfl

private theorem ids_burst (n : ℕ) :
    (burst n).ids = List.range' 1 n ∧ (burst n).store.db.riskEvents.nextId = n + 1 := by
  induction n with
  | zero => exact ⟨rfl, rfl⟩
  | succ n ih =>
      obtain ⟨hids, hnext⟩ := ih
      rw [State.ids] at hids ⊢
      rw [burst_succ, Table.nextId_insert, hnext]
      refine ⟨?_, rfl⟩
      show ((burst n).store.db.riskEvents.rows ++ [(_, strike)]).map _ = _
      rw [List.map_append, hids, hnext, List.range'_1_concat]
      simp [Nat.add_comm]

private theorem step_burst (n : ℕ) :
    step (burst n) (.insertEvent 0 strike) = some (burst (n + 1)) := by
  have hcreated : Function.update (burst n).createdAt (burst n).store.db.riskEvents.nextId 0 =
      (burst (n + 1)).createdAt := by
    funext id
    rw [Function.update_apply]
    split <;> rfl
  have htable : (burst n).setEvents ((burst n).store.db.riskEvents.insert strike) =
      burst (n + 1) := by
    rw [← burst_succ]
    rfl
  rw [step, hcreated, htable]

/-- One strike, and a run of the task a second later. -/
theorem considered_iff_strike :
    ∃ tr t, Execution step unguarded start tr t ∧
      ∃ x ∈ tr, ∃ now, x.2 = .evaluate now ∧ 1 ∈ x.1.batch now ∧ Notified x.1 now 1 := by
  have hinsert : Execution step unguarded start [(burst 0, .insertEvent 0 strike)] (burst 1) :=
    Execution.nil.snoc trivial (step_burst 0)
  have hclock : (burst 1).clock ≤ 1000000 := by decide
  have h := hinsert.snoc trivial (step_evaluate hclock)
  refine ⟨_, _, h, (considered_iff h 1).mpr ⟨[], burst 1, 1000000, _, rfl, ?_, ?_, ?_⟩⟩
  · decide +kernel
  · simp
  · decide +kernel

/-- `burst` after runs of the task. -/
private def told (n : ℕ) (clock : Instant) (notifications : NotificationTable) : State :=
  { burst n with
    clock := clock
    store := { (burst n).store with notifications := notifications } }

section Starved

variable {n : ℕ} {clock : Instant} {notifications : NotificationTable} (hlimit : eventLimit < n)

include hlimit

/-- The last strike of the burst is not taken. -/
private theorem notMem_batch (now : Instant) : n ∉ (told n clock notifications).batch now := by
  intro hmem
  obtain ⟨hwindow, hahead⟩ := mem_batch.mp hmem
  have hids : (told n clock notifications).ids = List.range' 1 n := (ids_burst n).1
  have hnow : now - days 1 ≤ 0 := (mem_window.mp hwindow).2
  -- the whole burst was created at once, so the window has all of it
  have hall : (told n clock notifications).window now = List.range' 1 n := by
    rw [State.window, hids, List.filter_eq_self]
    intro id _
    exact decide_eq_true hnow
  obtain ⟨m, rfl⟩ : ∃ m, n = m + 1 := ⟨n - 1, by omega⟩
  have hcount : (told (m + 1) clock notifications).ahead now (m + 1) = m := by
    have hbefore : (List.range' 1 m).countP (· < m + 1) = m := by
      rw [List.countP_eq_length.mpr, List.length_range']
      intro i hi
      rw [List.mem_range'_1] at hi
      exact decide_eq_true (by omega)
    rw [State.ahead, hall, List.range'_1_concat, List.countP_append, hbefore,
      List.countP_singleton]
    simp [Nat.add_comm]
  omega

/-- Nobody is told of the last strike. -/
private theorem silent_evaluate (now : Instant)
    (h : ∀ m ∈ notifications.values, m.riskEventId ≠ n) :
    ∃ notifications', (∀ m ∈ notifications'.values, m.riskEventId ≠ n) ∧
      (clock ≤ now → step (told n clock notifications) (.evaluate now) =
        some (told n now notifications')) := by
  refine ⟨(evaluateAlerts (told n clock notifications).store
    ((told n clock notifications).batch now)).notifications, fun m hm hid => ?_,
    fun hclock => step_evaluate hclock⟩
  rcases mem_evaluateAlerts.mp hm with hold | ⟨⟨rule, event, ho⟩, -⟩
  · exact h m hold hid
  · exact notMem_batch hlimit now (hid ▸ ho.batch)

/-- The task runs every hour. -/
private theorem hourly (k : ℕ) :
    ∃ tr clock notifications,
      Execution step unguarded start tr (told n clock notifications) ∧
      clock ≤ minutes (60 * k) ∧ (∀ m ∈ notifications.values, m.riskEventId ≠ n) ∧
      (∀ j : ℕ, j < k → ∃ p, (p, .evaluate (minutes (60 * j))) ∈ tr) ∧
      ∀ x ∈ tr, ∀ now, x.2 = .evaluate now → n ∉ x.1.batch now := by
  induction k with
  | zero =>
      have hburst : ∀ m, ∃ tr, Execution step unguarded start tr (burst m) ∧
          ∀ x ∈ tr, ∀ now, x.2 ≠ .evaluate now := by
        intro m
        induction m with
        | zero => exact ⟨[], Execution.nil, by simp⟩
        | succ m ih =>
            obtain ⟨tr, h, hlabels⟩ := ih
            refine ⟨_, h.snoc trivial (step_burst m), ?_⟩
            rw [List.forall_mem_cons]
            exact ⟨fun now => by simp, hlabels⟩
      obtain ⟨tr, h, hlabels⟩ := hburst n
      refine ⟨tr, 0, UniqueTable.empty, h, le_rfl, fun m hm => absurd hm List.not_mem_nil,
        by simp, ?_⟩
      exact fun x hx now hlabel => absurd hlabel (hlabels x hx now)
  | succ k ih =>
      obtain ⟨tr, clock, notifications, h, hclock, hsilent, hruns, hnever⟩ := ih
      obtain ⟨notifications', hsilent', hstep⟩ :=
        @silent_evaluate n clock notifications hlimit (minutes (60 * k)) hsilent
      refine ⟨_, _, _, h.snoc trivial (hstep hclock), ?_, hsilent', ?_, ?_⟩
      · have hlater : minutes (60 * k) ≤ minutes (60 * (k + 1 : ℕ)) := by
          unfold minutes
          omega
        exact hlater
      · intro j hj
        rcases Nat.lt_succ_iff_lt_or_eq.mp hj with hj | rfl
        · obtain ⟨p, hp⟩ := hruns j hj
          exact ⟨p, List.mem_cons_of_mem _ hp⟩
        · exact ⟨_, List.mem_cons_self⟩
      · rw [List.forall_mem_cons]
        refine ⟨fun now _ => notMem_batch hlimit now, hnever⟩

omit hlimit in
/-- The rule of the organization matches the last strike. -/
private theorem owes_last (m : ℕ) :
    Owes (told (m + 1) clock notifications).store [m + 1]
      ⟨1, 1, m + 1, 1, inApp, ["sup-1"], "pending", 0⟩ ⟨1, "low", [], true⟩ strike := by
  have hwatched : watchedHits start.store 1 strike = ["sup-1"] := by decide +kernel
  exact
    { findRule := rfl
      enabled := rfl
      batch := List.mem_singleton_self _
      findEvent := by
        have hnext := (ids_burst m).2
        rw [Table.find?_eq_some_iff]
        show _ ∈ (burst (m + 1)).store.db.riskEvents.rows
        rw [burst_succ m, Table.mem_rows_insert, hnext]
        exact Or.inr rfl
      meets := by decide +kernel
      recipient := by
        show 1 ∈ recipientsFor start.store 1
        decide +kernel
      affects := by
        show watchedHits start.store 1 strike ≠ []
        rw [hwatched]
        exact List.cons_ne_nil _ _
      fields := by
        show _ = (⟨_, _, _, _, _, watchedHits start.store 1 strike, _, _⟩ : Notification)
        rw [hwatched] }

end Starved

/-- After 1001 strikes at once, the task runs every hour for two days; a rule matches the
last strike, which is never evaluated, and nobody is told of it. -/
theorem burst_starves :
    ∃ tr t, Execution step unguarded start tr t ∧
      (∀ j : ℕ, j < 49 → ∃ p, (p, .evaluate (minutes (60 * j))) ∈ tr) ∧
      t.createdAt 1001 = 0 ∧
      (∀ x ∈ tr, ∀ now, x.2 = .evaluate now → 1001 ∉ x.1.batch now) ∧
      ∃ n rule event, Owes t.store [1001] n rule event ∧
        n.key ∉ t.store.notifications.values.map Notification.key := by
  have hlimit : eventLimit < 1001 := Nat.lt_succ_self _
  obtain ⟨tr, clock, notifications, h, -, hsilent, hruns, hnever⟩ := hourly hlimit 49
  refine ⟨tr, _, h, hruns, rfl, hnever, _, _, _, owes_last 1000, fun hmem => ?_⟩
  obtain ⟨n, hn, hkey⟩ := List.mem_map.mp hmem
  have hid : n.riskEventId = 1001 := congrArg (fun key => key.2.1) hkey
  exact hsilent n hn hid

end ProcureSignal.Worker.AlertTask
