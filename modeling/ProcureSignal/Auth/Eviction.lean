/-
# The process-local throttle as a sliding window

`RateLimiter` prunes a deque when its key is touched, drops what has expired when a failure is
recorded, and drops the least recently active key when there are more than `max_keys`.

* `touched` : the dictionary of `record` before its size is looked at, `evicted` the key that
  is dropped then;
* `standing` : the failures of a key since it was last dropped, `standing_of_spares` that no
  others count;
* `tracked_run` : the invariant along every sequence of operations;
* `rateLimiter_slidingWindow` : **the throttle is a sliding window in bounded memory**.
-/
import ProcureSignal.Auth.Backends

namespace ProcureSignal.RateLimit

variable (L : Limits)

/-! ## What a failure drops -/

/-- The dictionary after the failure is appended and its deque is pruned. -/
def touched (attempts : Attempts) (key : String) (now : ℚ) : Attempts :=
  (prune L ((evictExpired L attempts now).set key
    (deque (evictExpired L attempts now) key ++ [now])) key now).1

/-- The least recently active key, where there are too many. -/
def evicted (attempts : Attempts) (key : String) (now : ℚ) : Option String :=
  if L.maxKeys < (touched L attempts key now).length then oldest (touched L attempts key now)
  else none

/-- The failures of a key with one that is recorded. -/
def withFailure (attempts : Attempts) (key : String) (now : ℚ) (k : String) : List ℚ :=
  deque attempts k ++ if k = key then [now] else []

/-- A failure drops the evicted key. -/
theorem record_eq (attempts : Attempts) (key : String) (now : ℚ) :
    record L attempts key now = match evicted L attempts key now with
      | some k => (touched L attempts key now).erase k
      | none => touched L attempts key now := by
  unfold record evicted touched deque
  dsimp only
  split_ifs <;> rfl

variable {L} {log : String → List ℚ} {t now : ℚ} {attempts : Attempts}

/-- A failure keeps track until a key is dropped for want of room. -/
theorem Tracked.touched (h : Tracked L log t attempts) (ht : t ≤ now) (key : String) :
    Tracked L (logged log key now) now (touched L attempts key now) :=
  ((h.evictExpired ht).append key).prune le_rfl key

/-- A key that is dropped has no failures. -/
theorem Tracked.erase (h : Tracked L log t attempts) (k : String) :
    Tracked L (Function.update log k []) t (attempts.erase k) := by
  have hdeque : ∀ k', deque (attempts.erase k) k' = if k' = k then [] else deque attempts k' := by
    intro k'
    rw [deque, Dict.get?_erase]
    split_ifs <;> rfl
  refine ⟨fun k' now' hnow => ?_, fun k' => ?_, fun k' s hs => ?_, fun k' times hget => ?_⟩
  · rw [hdeque, Function.update_apply]
    split_ifs
    · rfl
    · exact h.recent k' now' hnow
  · rw [hdeque]
    split_ifs
    · exact List.Pairwise.nil
    · exact h.sorted k'
  · rw [hdeque] at hs
    split_ifs at hs
    · exact absurd hs List.not_mem_nil
    · exact h.past k' s hs
  · rw [Dict.get?_erase] at hget
    split_ifs at hget with hk
    rw [Function.update_of_ne hk]
    exact h.keys k' times hget

/-- What was in the window of a key that is not held any longer. -/
theorem Tracked.expired (h : Tracked L log now attempts) {k : String}
    (hgone : attempts.get? k = none) {times : List ℚ}
    (htimes : live L times now = live L (log k) now) : ∀ s ∈ times, s ≤ cutoff L now := by
  have hnil : live L times now = [] := by
    rw [htimes, ← h.recent k now le_rfl, deque, hgone]
    rfl
  intro s hs
  by_contra hlt
  have hmem : s ∈ live L times now := (mem_live L).mpr ⟨hs, not_le.mp hlt⟩
  rw [hnil] at hmem
  exact absurd hmem List.not_mem_nil

/-- The failures of a key, with the one recorded, in the window. -/
theorem Tracked.live_withFailure (h : Tracked L log t attempts) (ht : t ≤ now)
    (key k : String) :
    live L (withFailure attempts key now k) now = live L (logged log key now k) now := by
  rw [withFailure, logged, Function.update_apply]
  split_ifs with hk
  · rw [live, live, List.filter_append, List.filter_append, ← hk]
    congr 1
    exact h.recent k now ht
  · rw [List.append_nil]
    exact h.recent k now ht

/-- The latest failure of a list in the order of time. -/
def latest (times : List ℚ) : ℚ := times.getLastD 0

/-- A key that a failure leaves keeps its latest failure. -/
theorem latest_touched (h : Tracked L log t attempts) (ht : t ≤ now) {key k : String}
    (hne : deque (touched L attempts key now) k ≠ []) :
    latest (deque (touched L attempts key now) k) = latest (withFailure attempts key now k) := by
  obtain ⟨-, hdeque⟩ := prune_eq ((h.evictExpired ht).append key) le_rfl key
  have htouched := hdeque k
  change deque (touched L attempts key now) k = _ at htouched
  rw [htouched] at hne ⊢
  by_cases hk : k = key
  · subst hk
    rw [if_pos rfl, ← h.live_withFailure ht] at hne ⊢
    rw [withFailure, if_pos rfl, live, List.filter_append] at hne ⊢
    by_cases hnow : cutoff L now < now
    · rw [List.filter_cons_of_pos (by simpa using hnow), List.filter_nil]
      simp [latest]
    · -- in an empty window nothing is left of the deque
      refine absurd ?_ hne
      rw [List.filter_cons_of_neg (by simpa using hnow), List.filter_nil, List.append_nil,
        List.filter_eq_nil_iff]
      intro s hs
      rw [decide_eq_true_eq, not_lt]
      exact ((h.past k s hs).trans ht).trans (not_lt.mp hnow)
  · rw [if_neg hk] at hne ⊢
    have hset : deque ((evictExpired L attempts now).set key
        (deque (evictExpired L attempts now) key ++ [now])) k =
          deque (evictExpired L attempts now) k := by
      rw [deque, Dict.get?_set, if_neg hk]
      rfl
    rw [hset] at hne ⊢
    rw [withFailure, if_neg hk, List.append_nil]
    rcases deque_evictExpired h k with heq | ⟨heq, -⟩
    · rw [heq]
    · exact absurd heq hne

/-- The evicted key is held, and no key was active less recently. -/
theorem evicted_eq_some {key k : String} (h : evicted L attempts key now = some k) :
    L.maxKeys < (touched L attempts key now).length ∧
      ∃ times, (touched L attempts key now).get? k = some times ∧
        ∀ k' times', (touched L attempts key now).get? k' = some times' →
          latest times ≤ latest times' := by
  unfold evicted at h
  split_ifs at h with hfull
  refine ⟨hfull, ?_⟩
  obtain ⟨e, he, rfl⟩ := Option.map_eq_some_iff.mp h
  refine ⟨e.2, Dict.get?_eq_some_iff.mpr (List.argmin_mem he), fun k' times' hget => ?_⟩
  have hle := List.le_of_mem_argmin (Dict.get?_eq_some_iff.mp hget) he
  exact hle

/-- There is a key to evict where there are too many. -/
theorem exists_evicted {key : String} (h : L.maxKeys < (touched L attempts key now).length) :
    ∃ k, evicted L attempts key now = some k := by
  rw [evicted, if_pos h, oldest]
  have hne : (touched L attempts key now).entries ≠ [] := by
    intro hnil
    rw [Dict.length, hnil] at h
    exact absurd h (Nat.not_lt_zero _)
  obtain ⟨e, he⟩ : ∃ e, (touched L attempts key now).entries.argmin (fun e => e.2.getLastD 0) =
      some e := by
    rw [← Option.ne_none_iff_exists', ne_eq, List.argmin_eq_none]
    exact hne
  rw [he]
  exact ⟨e.1, rfl⟩

/-! ## One operation -/

variable (L) in
/-- An operation. -/
def stepOp (attempts : Attempts) : Op → Attempts
  | .check key now => (check L attempts key now).1
  | .record key now => record L attempts key now

variable (L) in
/-- The key that an operation drops for want of room. -/
def evictedBy (attempts : Attempts) : Op → Option String
  | .check _ _ => none
  | .record key now => evicted L attempts key now

/-- The log of the failures since a key was last dropped. -/
def loggedOp (log : String → List ℚ) (dropped : Option String) (op : Op) : String → List ℚ :=
  fun k => if dropped = some k then [] else log k ++ failures [op] k

/-- A check only prunes. -/
theorem fst_check (attempts : Attempts) (key : String) (now : ℚ) :
    (check L attempts key now).1 = (prune L attempts key now).1 := by
  unfold check
  match prune L attempts key now with
  | (_, none) => rfl
  | (_, some []) => rfl
  | (_, some (earliest :: later)) =>
      dsimp only
      split_ifs <;> rfl

/-- **An operation keeps track** of the failures since a key was last dropped. -/
theorem Tracked.stepOp (h : Tracked L log t attempts) {op : Op} (ht : t ≤ op.time) :
    Tracked L (loggedOp log (evictedBy L attempts op) op) op.time (stepOp L attempts op) := by
  cases op with
  | check key now =>
      have hnow : t ≤ now := ht
      have hlog : loggedOp log (evictedBy L attempts (.check key now)) (.check key now) = log := by
        funext k
        simp [loggedOp, evictedBy, failures]
      rw [hlog, RateLimit.stepOp, fst_check]
      exact h.prune hnow key
  | record key now =>
      have hrecord : ∀ k, logged log key now k = log k ++ failures [.record key now] k := by
        intro k
        rw [logged, Function.update_apply]
        by_cases hk : k = key
        · simp [failures, hk]
        · simp [failures, hk, Ne.symm hk]
      have htouched := h.touched ht key
      change Tracked L (loggedOp log (evicted L attempts key now) _) now
        (RateLimit.record L attempts key now)
      rw [record_eq]
      cases hevicted : evicted L attempts key now with
      | none =>
          have hlog : loggedOp log none (.record key now) = logged log key now := by
            funext k
            rw [loggedOp, if_neg (Option.some_ne_none k).symm, hrecord]
          rw [hlog]
          exact htouched
      | some dropped =>
          have hlog : loggedOp log (some dropped) (.record key now) =
              Function.update (logged log key now) dropped [] := by
            funext k
            rw [loggedOp, Function.update_apply, hrecord]
            by_cases hk : k = dropped
            · rw [if_pos (by rw [hk]), if_pos hk]
            · rw [if_neg (fun heq => hk (Option.some.inj heq).symm), if_neg hk]
          rw [hlog]
          exact htouched.erase dropped

/-- A prune adds no key. -/
theorem length_prune_le (attempts : Attempts) (key : String) (now : ℚ) :
    (prune L attempts key now).1.length ≤ attempts.length := by
  unfold prune
  split
  · exact le_rfl
  · rename_i times hget
    dsimp only
    split_ifs
    · exact Dict.length_filter_le _ _
    · exact (Dict.length_set_of_get? hget _).le

/-- **An operation keeps the number of keys.** -/
theorem length_stepOp_le (h : attempts.length ≤ L.maxKeys) (op : Op) :
    (stepOp L attempts op).length ≤ L.maxKeys := by
  cases op with
  | check key now =>
      rw [stepOp, fst_check]
      exact (length_prune_le attempts key now).trans h
  | record key now =>
      have htouched : (touched L attempts key now).length ≤ L.maxKeys + 1 := by
        calc (touched L attempts key now).length
            ≤ _ := length_prune_le _ key now
          _ ≤ (evictExpired L attempts now).length + 1 := Dict.length_set_le _ _ _
          _ ≤ attempts.length + 1 := Nat.succ_le_succ (Dict.length_filter_le _ _)
          _ ≤ L.maxKeys + 1 := Nat.succ_le_succ h
      rw [stepOp, record_eq]
      by_cases hfull : L.maxKeys < (touched L attempts key now).length
      · obtain ⟨k, hk⟩ := exists_evicted hfull
        obtain ⟨-, times, htimes, -⟩ := evicted_eq_some hk
        rw [hk]
        have hlt := Dict.length_erase_lt htimes
        dsimp only
        omega
      · rw [evicted, if_neg hfull]
        exact not_lt.mp hfull

/-! ## Sequences of operations -/

section Run

variable (L)

/-- The throttle after a sequence, from a state of it. -/
def limiterFrom (attempts : Attempts) (ops : List Op) : Attempts := ops.foldl (stepOp L) attempts

/-- A new throttle after a sequence. -/
def limiter (ops : List Op) : Attempts := limiterFrom L Dict.empty ops

/-- No operation of the sequence drops the key for want of room. -/
def Spares (key : String) : Attempts → List Op → Prop
  | _, [] => True
  | attempts, op :: ops =>
      evictedBy L attempts op ≠ some key ∧ Spares key (stepOp L attempts op) ops

instance decidableSpares (key : String) : (attempts : Attempts) → (ops : List Op) →
    Decidable (Spares L key attempts ops)
  | _, [] => isTrue trivial
  | attempts, op :: ops =>
      @instDecidableAnd _ _ inferInstance (decidableSpares key (stepOp L attempts op) ops)

/-- The failures of each key since it was last dropped for want of room. -/
def standing (ops : List Op) : String → List ℚ :=
  (ops.foldl (fun s op => (stepOp L s.1 op, loggedOp s.2 (evictedBy L s.1 op) op))
    ((Dict.empty, fun _ => []) : Attempts × (String → List ℚ))).2

/-- The failures of a key in the window that ends at a time. -/
def failuresWithin (ops : List Op) (key : String) (t : ℚ) : List ℚ :=
  (failures ops key).filter fun s => t - L.window < s ∧ s ≤ t

theorem limiter_append (ops ops' : List Op) :
    limiter L (ops ++ ops') = limiterFrom L (limiter L ops) ops' :=
  List.foldl_append

theorem standing_concat (ops : List Op) (op : Op) :
    standing L (ops ++ [op]) =
      loggedOp (standing L ops) (evictedBy L (limiter L ops) op) op := by
  have hstate : ∀ (l : List Op) (s : Attempts × (String → List ℚ)),
      (l.foldl (fun s op => (stepOp L s.1 op, loggedOp s.2 (evictedBy L s.1 op) op)) s).1 =
        limiterFrom L s.1 l := by
    intro l
    induction l with
    | nil => exact fun _ => rfl
    | cons op l ih => exact fun s => ih _
  rw [standing, List.foldl_append, List.foldl_cons, List.foldl_nil, hstate]
  rfl

theorem spares_concat (key : String) (attempts : Attempts) (ops : List Op) (op : Op) :
    Spares L key attempts (ops ++ [op]) ↔
      Spares L key attempts ops ∧ evictedBy L (limiterFrom L attempts ops) op ≠ some key := by
  induction ops generalizing attempts with
  | nil => simp [Spares, limiterFrom]
  | cons op' ops ih => rw [List.cons_append, Spares, Spares, ih, and_assoc]; rfl

theorem failures_append (ops ops' : List Op) (key : String) :
    failures (ops ++ ops') key = failures ops key ++ failures ops' key :=
  List.filterMap_append

/-- What stands is recorded behind the last time the key was dropped. -/
theorem exists_standing (ops : List Op) (key : String) :
    ∃ before after, ops = before ++ after ∧ Spares L key (limiter L before) after ∧
      failures after key = standing L ops key := by
  induction ops using List.reverseRecOn with
  | nil => exact ⟨[], [], rfl, trivial, rfl⟩
  | append_singleton ops op ih =>
      by_cases hdropped : evictedBy L (limiter L ops) op = some key
      · refine ⟨ops ++ [op], [], (List.append_nil _).symm, trivial, ?_⟩
        rw [standing_concat, loggedOp, if_pos hdropped]
        rfl
      · obtain ⟨before, after, rfl, hspares, hstanding⟩ := ih
        refine ⟨before, after ++ [op], List.append_assoc _ _ _, ?_, ?_⟩
        · rw [spares_concat, ← limiter_append]
          exact ⟨hspares, hdropped⟩
        · rw [failures_append, hstanding, standing_concat, loggedOp, if_neg hdropped]

/-- What was recorded since a time from which on the key was not dropped stands. -/
theorem standing_of_spares {before after : List Op} {key : String}
    (h : Spares L key (limiter L before) after) :
    failures after key <:+ standing L (before ++ after) key := by
  induction after using List.reverseRecOn with
  | nil => exact List.nil_suffix
  | append_singleton after op ih =>
      rw [spares_concat, ← limiter_append] at h
      rw [failures_append, ← List.append_assoc, standing_concat, loggedOp, if_neg h.2]
      obtain ⟨front, hfront⟩ := ih h.1
      exact ⟨front, by rw [← hfront, List.append_assoc]⟩

end Run

/-- What is tracked at a time is tracked later. -/
theorem Tracked.mono (h : Tracked L log t attempts) (ht : t ≤ now) : Tracked L log now attempts :=
  ⟨fun k now' hnow => h.recent k now' (ht.trans hnow), h.sorted,
    fun k s hs => (h.past k s hs).trans ht, h.keys⟩

variable (L) in
/-- **Along every sequence** the throttle tracks what stands. -/
theorem tracked_run {ops : List Op} (h : (ops.map Op.time).Pairwise (· ≤ ·))
    (ht : ∀ op ∈ ops, op.time ≤ t) : Tracked L (standing L ops) t (limiter L ops) := by
  induction ops using List.reverseRecOn generalizing t with
  | nil => exact tracked_empty t
  | append_singleton ops op ih =>
      rw [List.map_append, List.pairwise_append] at h
      have hthen : ∀ op' ∈ ops, op'.time ≤ op.time := fun op' hop' =>
        h.2.2 op'.time (List.mem_map_of_mem hop') op.time (List.mem_singleton_self _)
      have hstep := (ih h.1 hthen).stepOp le_rfl
      rw [standing_concat, limiter_append]
      exact hstep.mono (ht op (List.mem_append_right _ (List.mem_singleton_self _)))

/-- The number of keys, along every sequence. -/
theorem length_limiter_le (ops : List Op) : (limiter L ops).length ≤ L.maxKeys := by
  induction ops using List.reverseRecOn with
  | nil => exact Nat.zero_le _
  | append_singleton ops op ih =>
      rw [limiter_append]
      exact length_stepOp_le ih op

/-! ## The sliding window -/

variable (L) in
/-- At least so many failures of the key were recorded in the window, none of them before the key
was last dropped for want of room. -/
def Crowded (ops : List Op) (m : ℕ) (key : String) (t : ℚ) : Prop :=
  ∃ before after, ops = before ++ after ∧ Spares L key (limiter L before) after ∧
    m ≤ (failuresWithin L after key t).length

variable (L) in
/-- The throttle after a sequence is a sliding window in bounded memory. -/
structure SlidingWindow (ops : List Op) : Prop where
  throttled : ∀ key t, (∀ op ∈ ops, op.time ≤ t) →
    ((check L (limiter L ops) key t).2.isSome = true ↔
      Crowded L ops (max 1 L.maxAttempts) key t)
  bounded : (limiter L ops).length ≤ L.maxKeys
  represented : ∀ key times, (limiter L ops).get? key = some times →
    times ≠ [] ∧ times.Pairwise (· ≤ ·)
  checked : ∀ key now, (∀ op ∈ ops, op.time ≤ now) →
    ∀ k times, (limiter L ops).get? k = some times →
      (check L (limiter L ops) key now).1.get? k = none → ∀ s ∈ times, s ≤ now - L.window
  recorded : ∀ key now, (∀ op ∈ ops, op.time ≤ now) →
    ∀ k, withFailure (limiter L ops) key now k ≠ [] →
      (record L (limiter L ops) key now).get? k = none →
        (∀ s ∈ withFailure (limiter L ops) key now k, s ≤ now - L.window) ∨
          evicted L (limiter L ops) key now = some k ∧
            ∀ k' times', (record L (limiter L ops) key now).get? k' = some times' →
              latest (withFailure (limiter L ops) key now k) ≤ latest times'

/-- A check throttles when there are enough failures in the window, and one at least. -/
theorem isSome_answer_iff (times : List ℚ) :
    (answer L now times).isSome = true ↔ max 1 L.maxAttempts ≤ times.length := by
  cases times with
  | nil => simp [answer]
  | cons earliest later =>
      have hpos : 1 ≤ (earliest :: later).length := Nat.succ_le_succ (Nat.zero_le _)
      rw [answer, max_le_iff, and_iff_right hpos]
      split_ifs with hfew
      · exact iff_of_false Bool.false_ne_true (not_le.mpr hfew)
      · exact iff_of_true rfl (not_lt.mp hfew)

/-- What stands in the window. -/
theorem crowded_iff {ops : List Op} (ht : ∀ op ∈ ops, op.time ≤ t) (m : ℕ) (key : String) :
    Crowded L ops m key t ↔ m ≤ (live L (standing L ops key) t).length := by
  have hwithin : ∀ after : List Op, (∀ op ∈ after, op.time ≤ t) →
      failuresWithin L after key t = live L (failures after key) t := by
    intro after hafter
    refine List.filter_congr fun s hs => ?_
    obtain ⟨op, hop, rfl, -⟩ := exists_of_mem_failures hs
    rw [cutoff, decide_eq_decide, and_iff_left (hafter op hop)]
  constructor
  · rintro ⟨before, after, rfl, hspares, hle⟩
    rw [hwithin after fun op hop => ht op (List.mem_append_right _ hop)] at hle
    exact hle.trans ((standing_of_spares L hspares).sublist.filter _).length_le
  · intro hle
    obtain ⟨before, after, rfl, hspares, hstanding⟩ := exists_standing L ops key
    refine ⟨before, after, rfl, hspares, ?_⟩
    rwa [hwithin after fun op hop => ht op (List.mem_append_right _ hop), hstanding]

/-- **The process-local throttle is a sliding window in bounded memory**, after every sequence of
checks and failures in the order of the clock. -/
theorem rateLimiter_slidingWindow {ops : List Op} (h : (ops.map Op.time).Pairwise (· ≤ ·)) :
    SlidingWindow L ops := by
  refine ⟨fun key t ht => ?_, length_limiter_le ops, fun key times hget => ?_,
    fun key now hnow k times hget hgone => ?_, fun key now hnow k hne hgone => ?_⟩
  · rw [(check_eq (tracked_run L h ht) le_rfl key).2, isSome_answer_iff, crowded_iff ht]
  · -- the times of a run have a last one
    obtain ⟨t, ht⟩ : ∃ t, ∀ op ∈ ops, op.time ≤ t := by
      obtain ⟨t, ht⟩ := (ops.map Op.time).toFinset.exists_le
      exact ⟨t, fun op hop => ht op.time (List.mem_toFinset.mpr (List.mem_map_of_mem hop))⟩
    have htracked := tracked_run L h ht
    have hsorted := htracked.sorted key
    rw [deque, hget] at hsorted
    exact ⟨(htracked.keys key times hget).1, hsorted⟩
  · have htracked := tracked_run L h hnow
    rw [fst_check] at hgone
    refine (htracked.prune le_rfl key).expired hgone ?_
    rw [← htracked.recent k now le_rfl, deque, hget]
    rfl
  · have htracked := tracked_run L h hnow
    have htouched := htracked.touched le_rfl key
    by_cases hheld : (touched L (limiter L ops) key now).get? k = none
    · exact Or.inl (htouched.expired hheld (htracked.live_withFailure le_rfl key k))
    · right
      rw [record_eq] at hgone ⊢
      cases hevicted : evicted L (limiter L ops) key now with
      | none =>
          rw [hevicted] at hgone
          exact absurd hgone hheld
      | some dropped =>
          rw [hevicted] at hgone
          dsimp only at hgone ⊢
          rw [Dict.get?_erase] at hgone
          split_ifs at hgone with hk
          · subst hk
            obtain ⟨-, times, htimes, hleast⟩ := evicted_eq_some hevicted
            have hdeque : deque (touched L (limiter L ops) key now) k = times := by
              rw [deque, htimes]
              rfl
            refine ⟨rfl, fun k' times' hget => ?_⟩
            rw [← latest_touched htracked le_rfl
              (by rw [hdeque]; exact (htouched.keys k times htimes).1), hdeque]
            rw [Dict.get?_erase] at hget
            split_ifs at hget
            exact hleast k' times' hget
          · exact absurd hgone hheld

/-- A throttle for one key, which a failure of a second one displaces. -/
def narrow : Limits := ⟨2, 10, 1⟩

/-- Two keys in turn. -/
def displacing : List Op := [.record "ann" 0, .record "ann" 1, .record "bob" 2]

/-- The failures of the first key are forgotten when the second has one. -/
theorem slidingWindow_displacing : SlidingWindow narrow displacing :=
  rateLimiter_slidingWindow (by decide)

/-- **A limit of no attempts throttles nobody who has not failed**: there is no failure in the
window to wait for. -/
theorem check_unlimited :
    ¬ ((check ⟨0, 10, 1⟩ (limiter ⟨0, 10, 1⟩ []) "ann" 0).2.isSome = true ↔
      Crowded ⟨0, 10, 1⟩ [] 0 "ann" 0) := by
  intro hiff
  have hthrottled := hiff.mpr ⟨[], [], rfl, trivial, Nat.zero_le _⟩
  exact Bool.false_ne_true hthrottled

end ProcureSignal.RateLimit
