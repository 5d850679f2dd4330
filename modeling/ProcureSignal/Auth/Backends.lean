/-
# The two throttle backends

A sequence of checks and recorded failures, given at the same times to `RateLimiter` and to
`RedisWindow`.

* `answer_eq_iff` : when the two answer alike, from the failures in the window;
* `answers_eq_iff` : the same along a sequence, from any state that tracks the failures so far;
* `agree_iff` : **when the two backends agree**.
-/
import ProcureSignal.Auth.RateLimit

namespace ProcureSignal.RateLimit

variable (L : Limits) (name : ℚ → String)

/-! ## Sequences of operations -/

/-- What is asked of a throttle, at a time. -/
inductive Op
  | check (key : String) (now : ℚ)
  | record (key : String) (now : ℚ)
  deriving DecidableEq, Repr

namespace Op

/-- The time that the clock reads. -/
def time : Op → ℚ
  | check _ now => now
  | record _ now => now

/-- The key that is asked for. -/
def key : Op → String
  | check key _ => key
  | record key _ => key

end Op

/-- The answers of `RateLimiter` to the checks of a sequence. -/
def limiterAnswers (attempts : Attempts) : List Op → List (Option ℤ)
  | [] => []
  | .check key now :: ops =>
      (check L attempts key now).2 :: limiterAnswers (check L attempts key now).1 ops
  | .record key now :: ops => limiterAnswers (record L attempts key now) ops

/-- The answers of `RedisWindow` to the checks of a sequence. -/
def redisAnswers (server : Server) : List Op → List (Option ℤ)
  | [] => []
  | .check key now :: ops =>
      (redisCheck L server key now).2 :: redisAnswers (redisCheck L server key now).1 ops
  | .record key now :: ops => redisAnswers (redisRecord L name server key now) ops

/-- The times of the failures that a sequence records for a key. -/
def failures (ops : List Op) (key : String) : List ℚ :=
  ops.filterMap fun op => match op with
    | .record k now => if k = key then some now else none
    | .check _ _ => none

/-- Clock readings do not go back and are not negative, no two of them have one text, and the
process-local throttle has room for the keys. -/
structure Clocked (ops : List Op) : Prop where
  nondecreasing : (ops.map Op.time).Pairwise (· ≤ ·)
  positive : ∀ op ∈ ops, 0 ≤ op.time
  named : ∀ op ∈ ops, ∀ op' ∈ ops, name op.time = name op'.time → op.time = op'.time
  room : (ops.map Op.key).dedup.length ≤ L.maxKeys

/-- The failures in a window reach the limit exactly when their different times do. -/
def Separated (live : List ℚ) : Prop :=
  live ≠ [] ∧ L.maxAttempts ≤ live.length ↔ L.maxAttempts ≤ live.dedup.length

instance (live : List ℚ) : Decidable (Separated L live) :=
  inferInstanceAs (Decidable (_ ↔ _))

/-! ## One check -/

/-- **When the two answer alike.** -/
theorem answer_eq_iff (now : ℚ) (live : List ℚ) :
    answer L now live = redisAnswer L now live ↔ Separated L live := by
  unfold Separated redisAnswer
  cases live with
  | nil =>
      rw [answer]
      by_cases hzero : ([] : List ℚ).dedup.length < L.maxAttempts
      · rw [if_pos hzero]
        exact iff_of_true rfl (iff_of_false (fun h => h.1 rfl) (not_le.mpr hzero))
      · rw [if_neg hzero]
        exact iff_of_false (Option.some_ne_none _).symm fun hiff =>
          (hiff.mpr (not_lt.mp hzero)).1 rfl
  | cons a rest =>
      simp only [answer, List.headD_cons, ne_eq, List.cons_ne_nil, not_false_eq_true, true_and]
      split_ifs with hall hdistinct hdistinct
      · exact iff_of_true rfl (iff_of_false (not_le.mpr hall) (not_le.mpr hdistinct))
      · refine iff_of_false not_false fun hiff => ?_
        exact not_le.mpr hall (hiff.mpr (not_lt.mp hdistinct))
      · refine iff_of_false not_false fun hiff => ?_
        exact not_le.mpr hdistinct (hiff.mp (not_lt.mp hall))
      · exact iff_of_true rfl (iff_of_true (not_lt.mp hall) (not_lt.mp hdistinct))

/-! ## A sequence -/

theorem failures_append_record (ops : List Op) (key : String) (now : ℚ) :
    failures (ops ++ [.record key now]) = logged (failures ops) key now := by
  funext k
  rw [failures, List.filterMap_append, logged, Function.update_apply]
  by_cases hk : k = key
  · subst hk
    simp [failures]
  · simp [failures, hk, Ne.symm hk]

theorem failures_append_check (ops : List Op) (key : String) (now : ℚ) :
    failures (ops ++ [.check key now]) = failures ops := by
  funext k
  simp [failures]

/-- A failure of the log is an operation of the sequence. -/
theorem exists_of_mem_failures {ops : List Op} {key : String} {s : ℚ}
    (h : s ∈ failures ops key) : ∃ op ∈ ops, op.time = s ∧ op.key = key := by
  obtain ⟨op, hop, hs⟩ := List.mem_filterMap.mp h
  refine ⟨op, hop, ?_⟩
  cases op with
  | check k now => cases hs
  | record k now =>
      simp only at hs
      split_ifs at hs with hk
      exact ⟨Option.some.inj hs, hk⟩

/-- The log of a key is in the order of the clock. -/
theorem pairwise_failures {ops : List Op} (h : (ops.map Op.time).Pairwise (· ≤ ·))
    (key : String) : (failures ops key).Pairwise (· ≤ ·) := by
  rw [List.pairwise_map] at h
  refine List.Pairwise.filterMap _ ?_ h
  intro op op' hle s hs s' hs'
  have htime : ∀ (op : Op) (s : ℚ), (match op with
      | .record k now => if k = key then some now else none
      | .check _ _ => none) = some s → op.time = s := by
    intro op s hs
    cases op with
    | check k now => cases hs
    | record k now =>
        simp only at hs
        split_ifs at hs
        exact Option.some.inj hs
  rw [← htime op s hs, ← htime op' s' hs']
  exact hle

/-- The checks of a sequence are its first operation and the checks behind it. -/
theorem forall_check_cons {P : List Op → String → ℚ → Prop} (op : Op) (ops : List Op) :
    (∀ l key now r, op :: ops = l ++ .check key now :: r → P l key now) ↔
      (∀ key now, op = .check key now → P [] key now) ∧
        ∀ l key now r, ops = l ++ .check key now :: r → P (op :: l) key now := by
  constructor
  · intro h
    refine ⟨fun key now hop => h [] key now ops (by rw [hop]; rfl), fun l key now r hops => ?_⟩
    exact h (op :: l) key now r (by rw [hops]; rfl)
  · rintro ⟨hfirst, hrest⟩ l key now r heq
    cases l with
    | nil =>
        obtain ⟨rfl, rfl⟩ := List.cons.inj heq
        exact hfirst key now rfl
    | cons op' l =>
        obtain ⟨rfl, rfl⟩ := List.cons.inj heq
        exact hrest l key now r rfl

/-- **Along a sequence**: the answers to what is left are alike when they are at every check. -/
theorem answers_eq_iff {ops before : List Op} (h : Clocked L name (before ++ ops)) {t : ℚ}
    (ht : ∀ op ∈ ops, t ≤ op.time) {attempts : Attempts} {server : Server}
    (hlimiter : Tracked L (failures before) t attempts)
    (hredis : Mirrored L name (failures before) t server) :
    limiterAnswers L attempts ops = redisAnswers L name server ops ↔
      ∀ l key now r, ops = l ++ .check key now :: r →
        Separated L (live L (failures (before ++ l) key) now) := by
  induction ops generalizing before t attempts server with
  | nil =>
      refine iff_of_true rfl fun l key now r heq => ?_
      exact absurd heq.symm (List.append_ne_nil_of_right_ne_nil _ (List.cons_ne_nil _ _))
  | cons op ops ih =>
      have happend : before ++ op :: ops = (before ++ [op]) ++ ops := by
        rw [List.append_assoc, List.singleton_append]
      have hop : op ∈ before ++ op :: ops := List.mem_append_right _ List.mem_cons_self
      have hbefore : ∀ b ∈ before, b ∈ before ++ op :: ops :=
        fun b hb => List.mem_append_left _ hb
      have htimes := h.nondecreasing
      rw [List.map_append, List.pairwise_append, List.map_cons, List.pairwise_cons] at htimes
      obtain ⟨hpast, hlater, hcross⟩ := htimes
      have hnext : ∀ op' ∈ ops, op.time ≤ op'.time :=
        fun op' hop' => hlater.1 op'.time (List.mem_map_of_mem hop')
      have hthen : ∀ op' ∈ before, op'.time ≤ op.time := fun op' hop' =>
        hcross op'.time (List.mem_map_of_mem hop') op.time List.mem_cons_self
      have htop := ht op List.mem_cons_self
      have hclocked : Clocked L name ((before ++ [op]) ++ ops) := by
        rw [← happend]
        exact h
      rw [forall_check_cons]
      cases op with
      | check key now =>
          have hnow : t ≤ now := htop
          have hnames : ∀ s ∈ failures before key, ∀ s' ∈ failures before key,
              name s = name s' → s = s' := by
            intro s hs s' hs'
            obtain ⟨b, hb, rfl, -⟩ := exists_of_mem_failures hs
            obtain ⟨b', hb', rfl, -⟩ := exists_of_mem_failures hs'
            exact h.named b (hbefore b hb) b' (hbefore b' hb')
          obtain ⟨hstate, hanswer⟩ := check_eq hlimiter hnow key
          obtain ⟨hserver, hreply⟩ :=
            redisCheck_eq hredis hnow key (pairwise_failures hpast key) hnames
          have hcons : limiterAnswers L attempts (.check key now :: ops) =
              redisAnswers L name server (.check key now :: ops) ↔
                (check L attempts key now).2 = (redisCheck L server key now).2 ∧
                  limiterAnswers L (check L attempts key now).1 ops =
                    redisAnswers L name (redisCheck L server key now).1 ops :=
            List.cons_eq_cons
          rw [hcons, hanswer, hreply, hstate, hserver, answer_eq_iff]
          have hrest := ih hclocked hnext
            (by rw [failures_append_check]; exact hlimiter.prune hnow key)
            (by rw [failures_append_check]; exact hredis.prune hnow key)
          simp only [List.append_assoc, List.singleton_append] at hrest
          refine and_congr ?_ hrest
          rw [List.append_nil]
          refine ⟨fun hsep k n heq => ?_, fun hall => hall key now rfl⟩
          obtain ⟨rfl, rfl⟩ := Op.check.inj heq
          exact hsep
      | record key now =>
          have hnow : t ≤ now := htop
          have hrest := ih hclocked hnext
            (by
              rw [failures_append_record]
              refine hlimiter.record hnow (fun k hk => ?_) h.room
              rw [← failures_append_record] at hk
              obtain ⟨s, hs⟩ := List.exists_mem_of_ne_nil _ hk
              obtain ⟨b, hb, -, rfl⟩ := exists_of_mem_failures hs
              rw [happend]
              exact List.mem_map_of_mem (List.mem_append_left _ hb))
            (by
              rw [failures_append_record]
              refine hredis.record hnow (h.positive _ hop) (fun s hs => ?_) (fun s hs => ?_)
              · obtain ⟨b, hb, rfl, -⟩ := exists_of_mem_failures hs
                exact hthen b hb
              · obtain ⟨b, hb, rfl, -⟩ := exists_of_mem_failures hs
                exact h.named b (hbefore b hb) _ hop)
          simp only [List.append_assoc, List.singleton_append] at hrest
          refine hrest.trans ?_
          exact (and_iff_right fun _ _ heq => nomatch heq).symm

/-- **When the two backends agree**: at every check, the failures of the key in the window reach
the limit exactly when their different timestamps do. -/
theorem agree_iff {ops : List Op} (h : Clocked L name ops) :
    limiterAnswers L Dict.empty ops = redisAnswers L name Server.empty ops ↔
      ∀ before key now after, ops = before ++ .check key now :: after →
        Separated L (live L (failures before key) now) :=
  @answers_eq_iff L name ops [] h 0 h.positive _ _ (tracked_empty 0) (mirrored_empty 0)

/-- Five failures at different times, and a check behind them. -/
def spread : List Op :=
  [.record "login:10.0.0.8:ann" 1, .record "login:10.0.0.8:ann" (5 / 2),
    .record "login:10.0.0.9:bob" (5 / 2), .record "login:10.0.0.8:ann" 3,
    .record "login:10.0.0.8:ann" 4, .record "login:10.0.0.8:ann" 5,
    .check "login:10.0.0.8:ann" 6]

/-- Failures at different times are throttled alike: at every check they are separated. -/
theorem separated_spread :
    limiterAnswers loginLimits Dict.empty spread =
        redisAnswers loginLimits toString Server.empty spread ∧
      ∀ before key now after, spread = before ++ .check key now :: after →
        Separated loginLimits (live loginLimits (failures before key) now) := by
  have hagree : limiterAnswers loginLimits Dict.empty spread =
      redisAnswers loginLimits toString Server.empty spread := by
    decide +kernel
  have hclocked : Clocked loginLimits toString spread :=
    ⟨by decide +kernel, by decide +kernel, by decide +kernel, by decide +kernel⟩
  exact ⟨hagree, (agree_iff loginLimits toString hclocked).mp hagree⟩

/-- Five failures in one tick of the clock, and a check. -/
def burst : List Op :=
  List.replicate 5 (.record "login:10.0.0.8:ann" 1) ++ [.check "login:10.0.0.8:ann" 1]

/-- **A burst is one failure to Redis**: the process-local throttle answers that 900 seconds are
to wait, the shared one lets the guess through. -/
theorem burst_collapses : Clocked loginLimits toString burst ∧
    limiterAnswers loginLimits Dict.empty burst = [some 900] ∧
      redisAnswers loginLimits toString Server.empty burst = [none] :=
  ⟨⟨by decide +kernel, by decide +kernel, by decide +kernel, by decide +kernel⟩,
    by decide +kernel, by decide +kernel⟩

end ProcureSignal.RateLimit
