/-
# Delivery from the outbox

`pending_notifications`, `mark_delivered` and `mark_failed` of `notifications/outbox.py`, and
`deliver_pending`, which runs a transport over a window of the queue: the oldest pending
notifications, at most `limit` of them.

* `rows_deliverPending` : what one run does to each row;
* `window_mono` : a notification of the window stays in it until it is settled;
* `length_pendingIds_le` : `maxDeliveryAttempts` runs settle a whole window;
* `delivery` : **the state machine of a notification, and that the queue drains**.
-/
import ProcureSignal.Notifications.Outbox
import ProcureSignal.Library.Execution

namespace ProcureSignal.Notifications

/-! ## One run -/

/-- `MAX_DELIVERY_ATTEMPTS`. -/
def maxDeliveryAttempts : ℕ := 5

/-- What the transport does in one run with each notification: it returns or it raises. -/
abbrev Transport := ℕ → Except String Unit

/-- `pending_notifications`: the window of a run. -/
def pendingNotifications (t : NotificationTable) (limit : ℕ := 500) : List (ℕ × Notification) :=
  (t.rows.filter fun r => r.2.status = "pending").take limit

/-- `mark_delivered`. -/
def markDelivered (n : Notification) : Notification := { n with status := "delivered" }

/-- `mark_failed`. -/
def markFailed (n : Notification) : Notification :=
  if maxDeliveryAttempts ≤ n.attempts + 1 then
    { n with attempts := n.attempts + 1, status := "failed" }
  else { n with attempts := n.attempts + 1 }

theorem key_markDelivered (n : Notification) : (markDelivered n).key = n.key := rfl

theorem key_markFailed (n : Notification) : (markFailed n).key = n.key := by
  unfold markFailed
  split
  · rfl
  · rfl

/-- The loop body: the table, and how many were delivered. -/
def deliverOne (transport : Transport) (s : NotificationTable × ℕ) (r : ℕ × Notification) :
    NotificationTable × ℕ :=
  match transport r.1 with
  | .error _ => (s.1.update (fun i _ => i = r.1) markFailed
      fun _ hk n => List.mem_singleton.mp hk ▸ congrArg some (key_markFailed n), s.2)
  | .ok _ => (s.1.update (fun i _ => i = r.1) markDelivered
      fun _ hk n => List.mem_singleton.mp hk ▸ congrArg some (key_markDelivered n), s.2 + 1)

/-- `deliver_pending`. -/
def deliverPending (transport : Transport) (limit : ℕ) (t : NotificationTable) :
    NotificationTable × ℕ :=
  (pendingNotifications t limit).foldl (deliverOne transport) (t, 0)

/-! ## What one run does to each row -/

/-- The notification after its transport call. -/
def attempted (transport : Transport) (i : ℕ) (n : Notification) : Notification :=
  match transport i with
  | .error _ => markFailed n
  | .ok _ => markDelivered n

/-- The keys of some rows. -/
def keysOf (w : List (ℕ × Notification)) : List ℕ := w.map (·.1)

@[simp] theorem keysOf_cons (r : ℕ × Notification) (w : List (ℕ × Notification)) :
    keysOf (r :: w) = r.1 :: keysOf w := rfl

variable {transport : Transport} {limit : ℕ} {t : NotificationTable}

/-- One pass of the loop rewrites one row. -/
theorem rows_deliverOne (s : NotificationTable × ℕ) (r : ℕ × Notification) :
    (deliverOne transport s r).1.rows =
      s.1.rows.map fun x => (x.1, if x.1 = r.1 then attempted transport x.1 x.2 else x.2) := by
  unfold deliverOne
  split
  · rename_i e he
    refine List.map_congr_left fun x _ => ?_
    by_cases hx : x.1 = r.1
    · simp [hx, attempted, he]
    · simp [hx]
  · rename_i e he
    refine List.map_congr_left fun x _ => ?_
    by_cases hx : x.1 = r.1
    · simp [hx, attempted, he]
    · simp [hx]

/-- The loop rewrites the rows of its list. -/
theorem rows_foldl_deliverOne (w : List (ℕ × Notification)) (hw : (keysOf w).Nodup)
    (s : NotificationTable × ℕ) :
    (w.foldl (deliverOne transport) s).1.rows =
      s.1.rows.map fun x =>
        (x.1, if x.1 ∈ keysOf w then attempted transport x.1 x.2 else x.2) := by
  induction w generalizing s with
  | nil => simp [keysOf]
  | cons r w ih =>
      obtain ⟨hr, hw⟩ := List.nodup_cons.mp hw
      rw [List.foldl_cons, ih hw, rows_deliverOne, List.map_map]
      refine List.map_congr_left fun x _ => ?_
      simp only [Function.comp_apply, keysOf_cons, List.mem_cons]
      by_cases hx : x.1 = r.1
      · have hout : x.1 ∉ keysOf w := hx ▸ hr
        rw [if_neg hout, if_pos hx, if_pos (Or.inl hx)]
      · simp only [hx, if_false, false_or]

/-- The keys of the window. -/
theorem nodup_window (t : NotificationTable) (limit : ℕ) :
    (keysOf (pendingNotifications t limit)).Nodup := by
  refine t.nodup_keys.sublist (List.Sublist.map _ ?_)
  exact (List.take_sublist _ _).trans List.filter_sublist

/-- **What one run does to each row.** -/
theorem rows_deliverPending (transport : Transport) (limit : ℕ) (t : NotificationTable) :
    (deliverPending transport limit t).1.rows =
      t.rows.map fun x => (x.1, if x.1 ∈ keysOf (pendingNotifications t limit)
        then attempted transport x.1 x.2 else x.2) :=
  rows_foldl_deliverOne _ (nodup_window t limit) (t, 0)

/-- A row of the window is a pending row. -/
theorem pending_of_mem_window {i : ℕ} {n : Notification} (hn : (i, n) ∈ t.rows)
    (hi : i ∈ keysOf (pendingNotifications t limit)) : n.status = "pending" := by
  obtain ⟨⟨j, m⟩, hm, rfl⟩ := List.mem_map.mp hi
  obtain ⟨hrow, hpending⟩ := List.mem_filter.mp (List.mem_of_mem_take hm)
  obtain rfl := t.eq_of_mem hn hrow
  exact of_decide_eq_true hpending

/-- A row of the window after the run. -/
theorem mem_deliverPending_of_window {i : ℕ} {n : Notification} (hn : (i, n) ∈ t.rows)
    (hi : i ∈ keysOf (pendingNotifications t limit)) :
    (i, attempted transport i n) ∈ (deliverPending transport limit t).1.rows := by
  rw [rows_deliverPending]
  refine List.mem_map.mpr ⟨(i, n), hn, ?_⟩
  rw [if_pos hi]

/-- A row after the run, from the one before. -/
theorem exists_of_mem_deliverPending {i : ℕ} {n' : Notification}
    (hn' : (i, n') ∈ (deliverPending transport limit t).1.rows) :
    ∃ n, (i, n) ∈ t.rows ∧ (n' = n ∧ i ∉ keysOf (pendingNotifications t limit) ∨
      n' = attempted transport i n ∧ i ∈ keysOf (pendingNotifications t limit)) := by
  rw [rows_deliverPending] at hn'
  obtain ⟨⟨j, n⟩, hn, heq⟩ := List.mem_map.mp hn'
  obtain ⟨rfl, rfl⟩ := Prod.mk.inj heq
  refine ⟨n, hn, ?_⟩
  dsimp only
  split_ifs with hi
  · exact Or.inr ⟨rfl, hi⟩
  · exact Or.inl ⟨rfl, hi⟩

/-! ## The state machine of a notification -/

/-- Attempts are bounded, and the last one fails the notification. -/
def Lawful (n : Notification) : Prop :=
  n.attempts ≤ maxDeliveryAttempts ∧ (n.status = "failed" ↔ n.attempts = maxDeliveryAttempts)

/-- A notification as it is enqueued. -/
theorem lawful_notification (m : RuleMatch) (userId : ℕ) : Lawful (m.notification userId) := by
  have hattempts : (m.notification userId).attempts = 0 := rfl
  have hstatus : (m.notification userId).status = "pending" := rfl
  rw [Lawful, hattempts, hstatus]
  decide

/-- A pending notification has attempts left. -/
theorem Lawful.attempts_lt {n : Notification} (h : Lawful n) (hpending : n.status = "pending") :
    n.attempts < maxDeliveryAttempts := by
  refine lt_of_le_of_ne h.1 fun heq => ?_
  have hfailed := h.2.mpr heq
  rw [hpending] at hfailed
  exact absurd hfailed (by decide)

/-- A transport call keeps the law. -/
theorem Lawful.attempted {n : Notification} (h : Lawful n) (hpending : n.status = "pending")
    (transport : Transport) (i : ℕ) : Lawful (attempted transport i n) := by
  have hlt := h.attempts_lt hpending
  unfold Notifications.attempted
  split
  · unfold markFailed
    split_ifs with hlast
    · exact ⟨by dsimp only; omega, iff_of_true rfl (by dsimp only; omega)⟩
    · refine ⟨by dsimp only; omega, iff_of_false ?_ (by dsimp only; omega)⟩
      dsimp only
      rw [hpending]
      decide
  · refine ⟨h.1, iff_of_false (by simp [markDelivered]) ?_⟩
    exact Nat.ne_of_lt hlt

/-- Where a transport call takes a notification. -/
theorem status_attempted {n : Notification} (hpending : n.status = "pending")
    (transport : Transport) (i : ℕ) :
    (attempted transport i n).status = "pending" ∨
      (attempted transport i n).status = "delivered" ∨
        (attempted transport i n).status = "failed" := by
  unfold attempted
  split
  · unfold markFailed
    split_ifs
    · exact Or.inr (Or.inr rfl)
    · exact Or.inl hpending
  · exact Or.inr (Or.inl rfl)

/-- A call that leaves the notification pending is an attempt more. -/
theorem attempts_attempted {n : Notification} {i : ℕ}
    (hstill : (attempted transport i n).status = "pending") :
    (attempted transport i n).attempts = n.attempts + 1 := by
  unfold attempted at hstill ⊢
  split at hstill
  · unfold markFailed
    split_ifs
    · rfl
    · rfl
  · have hstatus : (markDelivered n).status = "delivered" := rfl
    rw [hstatus] at hstill
    exact absurd hstill (by decide)

/-! ## The queue -/

/-- The queue: the keys of the pending notifications, oldest first. -/
def pendingIds (t : NotificationTable) : List ℕ :=
  keysOf (t.rows.filter fun r => r.2.status = "pending")

/-- The window is the head of the queue. -/
theorem keysOf_pendingNotifications (t : NotificationTable) (limit : ℕ) :
    keysOf (pendingNotifications t limit) = (pendingIds t).take limit :=
  List.map_take

theorem mem_pendingIds {i : ℕ} :
    i ∈ pendingIds t ↔ ∃ n, (i, n) ∈ t.rows ∧ n.status = "pending" := by
  simp [pendingIds, keysOf]

/-- The queue is in the order of the keys. -/
theorem pairwise_pendingIds (t : NotificationTable) :
    (pendingIds t).Pairwise fun i j => i < j := by
  rw [pendingIds, keysOf, List.pairwise_map]
  exact t.sorted.filter _

theorem nodup_pendingIds (t : NotificationTable) : (pendingIds t).Nodup :=
  (pairwise_pendingIds t).imp fun h => Nat.ne_of_lt h

/-- A run adds nothing to the queue. -/
theorem pendingIds_subset (transport : Transport) (limit : ℕ) (t : NotificationTable) :
    pendingIds (deliverPending transport limit t).1 ⊆ pendingIds t := by
  intro i hi
  obtain ⟨n', hn', hpending⟩ := mem_pendingIds.mp hi
  obtain ⟨n, hn, ⟨rfl, -⟩ | ⟨-, hwindow⟩⟩ := exists_of_mem_deliverPending hn'
  · exact mem_pendingIds.mpr ⟨n', hn, hpending⟩
  · exact mem_pendingIds.mpr ⟨n, hn, pending_of_mem_window hn hwindow⟩

/-- **The head of the queue stays the head**: what is in the window and is not settled is in
every later window. -/
theorem window_mono {t' : NotificationTable} (hsub : pendingIds t' ⊆ pendingIds t) {i : ℕ}
    (hi : i ∈ (pendingIds t).take limit) (hi' : i ∈ pendingIds t') :
    i ∈ (pendingIds t').take limit := by
  have hcount : (pendingIds t').countP (fun j => j < i) ≤ (pendingIds t).countP fun j => j < i :=
    (List.subperm_of_subset (nodup_pendingIds t') hsub).countP_le _
  rw [mem_take_iff_countP_lt (pairwise_pendingIds t) (hsub hi')] at hi
  rw [mem_take_iff_countP_lt (pairwise_pendingIds t') hi']
  exact lt_of_le_of_lt hcount hi

/-! ## Runs -/

/-- Runs of the drain, each with the transport of its time. -/
def drains (limit : ℕ) (t : NotificationTable) (transports : List Transport) :
    NotificationTable :=
  transports.foldl (fun t transport => (deliverPending transport limit t).1) t

/-- Every notification of the table keeps the law. -/
def AllLawful (t : NotificationTable) : Prop := ∀ i n, (i, n) ∈ t.rows → Lawful n

theorem allLawful_deliverPending (h : AllLawful t) (transport : Transport) (limit : ℕ) :
    AllLawful (deliverPending transport limit t).1 := by
  intro i n' hn'
  obtain ⟨n, hn, ⟨rfl, -⟩ | ⟨rfl, hwindow⟩⟩ := exists_of_mem_deliverPending hn'
  · exact h i n' hn
  · exact (h i n hn).attempted (pending_of_mem_window hn hwindow) transport i

theorem allLawful_drains (h : AllLawful t) (transports : List Transport) :
    AllLawful (drains limit t transports) := by
  induction transports generalizing t with
  | nil => exact h
  | cons transport transports ih => exact ih (allLawful_deliverPending h transport limit)

theorem pendingIds_drains_subset (transports : List Transport) (t : NotificationTable) :
    pendingIds (drains limit t transports) ⊆ pendingIds t := by
  induction transports generalizing t with
  | nil => exact fun _ => id
  | cons transport transports ih =>
      exact List.Subset.trans (ih _) (pendingIds_subset transport limit t)

/-- A notification of the window that is still pending has been tried in every run. -/
theorem attempts_drains (transports : List Transport) {i : ℕ} {n : Notification}
    (hn : (i, n) ∈ t.rows) (hwindow : i ∈ (pendingIds t).take limit) {n' : Notification}
    (hn' : (i, n') ∈ (drains limit t transports).rows) (hpending : n'.status = "pending") :
    n'.attempts = n.attempts + transports.length := by
  induction transports generalizing t n with
  | nil =>
      obtain rfl := t.eq_of_mem hn hn'
      rfl
  | cons transport transports ih =>
      have htried : (i, attempted transport i n) ∈ (deliverPending transport limit t).1.rows :=
        mem_deliverPending_of_window hn (keysOf_pendingNotifications t limit ▸ hwindow)
      have hi : i ∈ pendingIds (deliverPending transport limit t).1 :=
        pendingIds_drains_subset transports _ (mem_pendingIds.mpr ⟨n', hn', hpending⟩)
      have hstill : (attempted transport i n).status = "pending" := by
        obtain ⟨m, hm, hmp⟩ := mem_pendingIds.mp hi
        rwa [Table.eq_of_mem htried hm]
      have hlater := ih htried
        (window_mono (pendingIds_subset transport limit t) hwindow hi) hn'
      rw [hlater, attempts_attempted hstill, List.length_cons]
      omega

/-- The runs that use up the attempts settle the window. -/
theorem not_mem_pendingIds_drains (h : AllLawful t) {transports : List Transport}
    (hlen : transports.length = maxDeliveryAttempts) {i : ℕ}
    (hwindow : i ∈ (pendingIds t).take limit) : i ∉ pendingIds (drains limit t transports) := by
  intro hi
  obtain ⟨n', hn', hpending⟩ := mem_pendingIds.mp hi
  obtain ⟨n, hn, -⟩ := mem_pendingIds.mp (List.mem_of_mem_take hwindow)
  have hattempts := attempts_drains transports hn hwindow hn' hpending
  have hlt := (allLawful_drains h transports i n' hn').attempts_lt hpending
  omega

/-- **The queue is shorter by a window after as many runs as there are attempts.** -/
theorem length_pendingIds_le (h : AllLawful t) {transports : List Transport}
    (hlen : transports.length = maxDeliveryAttempts) :
    (pendingIds (drains limit t transports)).length ≤ (pendingIds t).length - limit := by
  have hsub : pendingIds (drains limit t transports) ⊆ (pendingIds t).drop limit := by
    intro i hi
    have hold := pendingIds_drains_subset transports t hi
    rw [← List.take_append_drop limit (pendingIds t)] at hold
    exact (List.mem_append.mp hold).resolve_left fun hwindow =>
      not_mem_pendingIds_drains h hlen hwindow hi
  have hle := (List.subperm_of_subset (nodup_pendingIds _) hsub).length_le
  rwa [List.length_drop] at hle

/-- **The queue drains**: a window for every `maxDeliveryAttempts` runs. -/
theorem pendingIds_drains_eq_nil (h : AllLawful t) (k : ℕ)
    (hk : (pendingIds t).length ≤ limit * k) {transports : List Transport}
    (hlen : maxDeliveryAttempts * k ≤ transports.length) :
    pendingIds (drains limit t transports) = [] := by
  induction k generalizing t transports with
  | zero =>
      have hnil : pendingIds t = [] := List.length_eq_zero_iff.mp (by omega)
      exact List.eq_nil_of_subset_nil (hnil ▸ pendingIds_drains_subset transports t)
  | succ k ih =>
      rw [← List.take_append_drop maxDeliveryAttempts transports, drains, List.foldl_append]
      have htake : (transports.take maxDeliveryAttempts).length = maxDeliveryAttempts := by
        rw [List.length_take]
        exact Nat.min_eq_left (le_trans (Nat.le_mul_of_pos_right _ (Nat.succ_pos k)) hlen)
      refine ih (allLawful_drains h _) ?_ ?_
      · have hle := @length_pendingIds_le limit t h _ htake
        rw [Nat.mul_succ] at hk
        omega
      · rw [List.length_drop]
        rw [Nat.mul_succ] at hlen
        omega

/-! ## The outbox over time -/

/-- What happens to the outbox. -/
inductive OutboxStep
  | drain (transport : Transport)
  | enqueue (m : RuleMatch) (userId : ℕ)

/-- One run of the drain, or a notification more. -/
def outboxStep (limit : ℕ) (t : NotificationTable) : OutboxStep → Option NotificationTable
  | .drain transport => some (deliverPending transport limit t).1
  | .enqueue m userId => some (t.insertNew (m.notification userId))

/-- The status of a notification moves out of `pending` and no further. -/
def Moves (n n' : Notification) : Prop :=
  n'.status = n.status ∨
    n.status = "pending" ∧ (n'.status = "delivered" ∨ n'.status = "failed")

/-- What a step does to a row. -/
theorem moves_of_outboxStep {t' : NotificationTable} {l : OutboxStep}
    (h : outboxStep limit t l = some t') {i : ℕ} {n : Notification} (hn : (i, n) ∈ t.rows) :
    ∃ n', (i, n') ∈ t'.rows ∧ Moves n n' := by
  cases l with
  | drain transport =>
      cases h
      by_cases hi : i ∈ keysOf (pendingNotifications t limit)
      · have hpending := pending_of_mem_window hn hi
        refine ⟨_, mem_deliverPending_of_window hn hi, ?_⟩
        rw [Moves, hpending]
        exact (status_attempted hpending transport i).imp_right fun hsettled => ⟨rfl, hsettled⟩
      · refine ⟨n, ?_, Or.inl rfl⟩
        rw [rows_deliverPending]
        exact List.mem_map.mpr ⟨(i, n), hn, by rw [if_neg hi]⟩
  | enqueue m userId =>
      cases h
      refine ⟨n, ?_, Or.inl rfl⟩
      rw [UniqueTable.insertNew]
      split
      · exact Table.mem_rows_insert.mpr (Or.inl hn)
      · exact hn

theorem allLawful_of_outboxStep {t' : NotificationTable} {l : OutboxStep} (hall : AllLawful t)
    (h : outboxStep limit t l = some t') : AllLawful t' := by
  cases l with
  | drain transport =>
      cases h
      exact allLawful_deliverPending hall transport limit
  | enqueue m userId =>
      cases h
      intro i n hn
      rw [UniqueTable.insertNew] at hn
      split at hn
      · rcases Table.mem_rows_insert.mp hn with hold | hnew
        · exact hall i n hold
        · cases hnew
          exact lawful_notification m userId
      · exact hall i n hn

/-- Without new notifications a run of the outbox is a series of drains. -/
theorem exists_drains {s : NotificationTable} {tr : List (NotificationTable × OutboxStep)}
    (h : Execution (outboxStep limit) unguarded s tr t)
    (hdrain : ∀ x ∈ tr, ∃ transport, x.2 = .drain transport) :
    ∃ transports, transports.length = tr.length ∧ t = drains limit s transports := by
  induction h with
  | nil => exact ⟨[], rfl, rfl⟩
  | @snoc tr t u l _ _ hstep ih =>
      obtain ⟨transports, hlen, rfl⟩ := ih fun x hx => hdrain x (List.mem_cons_of_mem _ hx)
      obtain ⟨transport, rfl⟩ := hdrain _ List.mem_cons_self
      cases hstep
      refine ⟨transports ++ [transport], by simp [hlen], ?_⟩
      rw [drains, drains, List.foldl_append]
      rfl

/-- A series of drains is a run of the outbox. -/
theorem execution_drains (limit : ℕ) (s : NotificationTable) (transports : List Transport) :
    ∃ tr, Execution (outboxStep limit) unguarded s tr (drains limit s transports) ∧
      tr.length = transports.length ∧ ∀ x ∈ tr, ∃ transport, x.2 = .drain transport := by
  induction transports using List.reverseRecOn with
  | nil => exact ⟨[], .nil, rfl, List.forall_mem_nil _⟩
  | append_singleton transports transport ih =>
      obtain ⟨tr, hrun, hlen, hdrain⟩ := ih
      rw [drains, List.foldl_append]
      exact ⟨_, hrun.snoc (l := .drain transport) trivial rfl, by simp [hlen],
        List.forall_mem_cons.mpr ⟨⟨transport, rfl⟩, hdrain⟩⟩

/-- **Delivery.**  Along every run of the outbox, whatever the transport does: statuses move
out of `pending` and no further; attempts are bounded and the last one fails the notification;
a call that succeeds delivers; and without new notifications the queue of `n` is empty after
`maxDeliveryAttempts * ⌈n / limit⌉` runs of the drain. -/
theorem delivery {s : NotificationTable} {tr : List (NotificationTable × OutboxStep)}
    (hlimit : 0 < limit) (h : Execution (outboxStep limit) unguarded s tr t)
    (hs : AllLawful s) :
    (∀ x ∈ tr, ∀ t', outboxStep limit x.1 x.2 = some t' → ∀ i n, (i, n) ∈ x.1.rows →
      ∃ n', (i, n') ∈ t'.rows ∧ Moves n n') ∧
    (∀ i n, (i, n) ∈ t.rows → n.attempts ≤ maxDeliveryAttempts ∧
      (n.status = "failed" ↔ n.attempts = maxDeliveryAttempts)) ∧
    (∀ x ∈ tr, ∀ transport, x.2 = .drain transport →
      ∀ r ∈ pendingNotifications x.1 limit, transport r.1 = .ok () →
        ∃ n, (r.1, n) ∈ (deliverPending transport limit x.1).1.rows ∧
          n.status = "delivered") ∧
    ((∀ x ∈ tr, ∃ transport, x.2 = .drain transport) →
      maxDeliveryAttempts * ((pendingIds s).length ⌈/⌉ limit) ≤ tr.length →
        ∀ i n, (i, n) ∈ t.rows → n.status ≠ "pending") := by
  refine ⟨fun x _ t' hstep i n hn => moves_of_outboxStep hstep hn, ?_, ?_, ?_⟩
  · exact h.invariant (I := AllLawful) hs fun p l q hall _ hstep =>
      allLawful_of_outboxStep hall hstep
  · rintro x - transport - r hr hok
    have hrow : (r.1, r.2) ∈ x.1.rows := (List.mem_filter.mp (List.mem_of_mem_take hr)).1
    refine ⟨_, mem_deliverPending_of_window hrow (List.mem_map_of_mem hr), ?_⟩
    rw [attempted, hok]
    rfl
  · intro hdrain hlen i n hn hpending
    obtain ⟨transports, htransports, rfl⟩ := exists_drains h hdrain
    have hempty := @pendingIds_drains_eq_nil limit s hs _ (le_smul_ceilDiv hlimit) _
      (htransports ▸ hlen)
    exact List.not_mem_nil (hempty ▸ mem_pendingIds.mpr ⟨n, hn, hpending⟩)

/-- A notification that is owed. -/
def oneQueued : NotificationTable :=
  UniqueTable.empty.insertNew ⟨1, 1, 1, 1, inApp, ["s"], "pending", 0⟩

/-- A transport that is down. -/
def downTransport : Transport := fun _ => .error "connection refused"

/-- Five runs give up on the notification. -/
theorem delivery_down : ∃ tr t, Execution (outboxStep 1) unguarded oneQueued tr t ∧
    tr.length = 5 ∧ ∀ i n, (i, n) ∈ t.rows → n.status ≠ "pending" := by
  have hlawful : AllLawful oneQueued := by
    intro i n hn
    obtain ⟨rfl, rfl⟩ := Prod.mk.inj (List.mem_singleton.mp hn)
    exact ⟨by decide, by decide⟩
  obtain ⟨tr, hrun, hlen, hdrain⟩ :=
    execution_drains 1 oneQueued (List.replicate 5 downTransport)
  have hcount : maxDeliveryAttempts * ((pendingIds oneQueued).length ⌈/⌉ 1) ≤ tr.length := by
    rw [hlen]
    decide
  exact ⟨tr, _, hrun, hlen, (delivery Nat.one_pos hrun hlawful).2.2.2 hdrain hcount⟩

end ProcureSignal.Notifications
