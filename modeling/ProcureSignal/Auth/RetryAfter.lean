/-
# The wait that is announced

A check that throttles answers with the seconds until the oldest failure leaves the window,
truncated, and one at least.  That is enough when it is the failure that has to leave, and when
nothing is lost in the truncation.

* `LeavesInTime` : the last failure that has to leave does so within a second, or has the time of
  the oldest one, a whole number of seconds ago;
* `leavesInTime_iff` : exactly then the announced wait brings the count below the limit;
* `retryAfter_sufficient_iff` : **when the announced wait is enough**, for both backends.
-/
import ProcureSignal.Auth.Eviction

namespace ProcureSignal.RateLimit

variable (L : Limits) (name : ℚ → String)

/-! ## The failures that have to leave -/

/-- Of the failures in the window, the last that has to leave for fewer than `m` to stay leaves
within a second, or is as old as the oldest, a whole number of seconds. -/
def LeavesInTime (m : ℕ) (times : List ℚ) (t : ℚ) : Prop :=
  ∃ a, times[times.length - m]? = some a ∧
    (a + L.window ≤ t + 1 ∨ times.head? = some a ∧ ∃ n : ℤ, t - a = n)

variable {L name} {t : ℚ}

/-- What is gone after the announced wait. -/
theorem le_cutoff_retryAfter_iff {earliest a : ℚ} (hlive : cutoff L t < earliest)
    (hle : earliest ≤ a) :
    a ≤ cutoff L (t + retryAfter L earliest t) ↔
      a + L.window ≤ t + 1 ∨ earliest = a ∧ ∃ n : ℤ, t - a = n := by
  have hpos : 0 ≤ earliest + L.window - t := by
    rw [cutoff] at hlive
    linarith
  rw [cutoff, retryAfter, int, if_pos hpos, Int.cast_max, Int.cast_one]
  constructor
  · intro h
    rcases le_total (⌊earliest + L.window - t⌋ : ℚ) 1 with hone | hone
    · rw [max_eq_left hone] at h
      exact Or.inl (by linarith)
    · -- the truncated wait of the oldest failure is long enough for a later one
      rw [max_eq_right hone] at h
      have hfloor := Int.floor_le (earliest + L.window - t)
      obtain rfl : earliest = a := by linarith
      have hwhole : earliest + L.window - t = ⌊earliest + L.window - t⌋ := by linarith
      refine Or.inr ⟨rfl, L.window - ⌊earliest + L.window - t⌋, ?_⟩
      push_cast
      linarith
  · rintro (h | ⟨rfl, n, hn⟩)
    · have hmax := le_max_left (1 : ℚ) ⌊earliest + L.window - t⌋
      linarith
    · have hwhole : earliest + L.window - t = ((L.window - n : ℤ) : ℚ) := by
        push_cast
        linarith
      have hmax := le_max_right (1 : ℚ) ⌊earliest + L.window - t⌋
      rw [hwhole, Int.floor_intCast, ← hwhole] at hmax
      rw [hwhole, Int.floor_intCast, ← hwhole]
      linarith

/-- **The announced wait brings the count below the limit** exactly when the failures that have to
leave leave in time. -/
theorem leavesInTime_iff {times : List ℚ} (hsorted : times.Pairwise (· ≤ ·)) {m : ℕ}
    (hm : m ≤ times.length) (hlive : ∀ a ∈ times, cutoff L t < a) {earliest : ℚ}
    (hearliest : ∀ a, times.head? = some a → earliest = a) :
    (live L times (t + retryAfter L earliest t)).length < m ↔ LeavesInTime L m times t := by
  rw [live, length_filter_lt_lt_iff hsorted hm]
  refine exists_congr fun a => and_congr_right fun ha => ?_
  have hmem := List.mem_of_getElem? ha
  cases times with
  | nil => exact absurd hmem List.not_mem_nil
  | cons first rest =>
      obtain rfl := hearliest first rfl
      have hle : earliest ≤ a := by
        rcases List.mem_cons.mp hmem with rfl | hmem
        · exact le_rfl
        · exact List.rel_of_pairwise_cons hsorted hmem
      rw [le_cutoff_retryAfter_iff (hlive earliest List.mem_cons_self) hle, List.head?_cons,
        Option.some.injEq]

/-! ## `RateLimiter` -/

/-- What stands of a key behind operations that record no failure of it. -/
theorem standing_append_quiet (ops : List Op) {after : List Op} {key : String}
    (h : failures after key = []) :
    standing L (ops ++ after) key =
      if Spares L key (limiter L ops) after then standing L ops key else [] := by
  induction after using List.reverseRecOn with
  | nil => simp [Spares]
  | append_singleton after op ih =>
      rw [failures_append, List.append_eq_nil_iff] at h
      rw [← List.append_assoc, standing_concat, loggedOp, ih h.1, h.2, List.append_nil]
      simp only [spares_concat, ← limiter_append]
      by_cases hdropped : evictedBy L (limiter L (ops ++ after)) op = some key
      · rw [if_pos hdropped, if_neg fun hspares => hspares.2 hdropped]
      · rw [if_neg hdropped]
        exact if_congr (and_iff_left hdropped).symm rfl rfl

/-- A check again, after the wait that was announced. -/
theorem check_again {before between : List Op} {key : String} {s : ℤ}
    (hclock : ((before ++ Op.check key t :: (between ++ [Op.check key (t + s)])).map
      Op.time).Pairwise (· ≤ ·))
    (hquiet : failures between key = [])
    (h : (check L (limiter L before) key t).2 = some s) :
    (check L (limiter L (before ++ .check key t :: between)) key (t + s)).2 = none ↔
      ¬ Spares L key (limiter L before) (.check key t :: between) ∨
        LeavesInTime L (max 1 L.maxAttempts) (live L (deque (limiter L before) key) t) t := by
  rw [← List.cons_append, ← List.append_assoc, List.map_append, List.pairwise_append] at hclock
  obtain ⟨hfirst, -, hlast⟩ := hclock
  have hthen : ∀ op ∈ before ++ Op.check key t :: between, op.time ≤ t + s := fun op hop =>
    hlast op.time (List.mem_map_of_mem hop) (t + s) (List.mem_singleton_self _)
  have hnext : t ≤ t + s := hthen (.check key t) (List.mem_append_right _ List.mem_cons_self)
  rw [List.map_append, List.pairwise_append] at hfirst
  have hbefore : ∀ op ∈ before, op.time ≤ t := fun op hop =>
    hfirst.2.2 op.time (List.mem_map_of_mem hop) t List.mem_cons_self
  have htracked := tracked_run L hfirst.1 hbefore
  have hlater : Tracked L (standing L (before ++ .check key t :: between)) (t + s)
      (limiter L (before ++ .check key t :: between)) := by
    refine tracked_run L ?_ hthen
    rw [List.map_append, List.pairwise_append]
    exact hfirst
  -- the answers, from what stands in the window
  have hnow : live L (deque (limiter L before) key) t = live L (standing L before key) t :=
    htracked.recent key t le_rfl
  rw [(check_eq htracked le_rfl key).2, ← hnow] at h
  have hquiet' : failures (.check key t :: between) key = [] := hquiet
  rw [(check_eq hlater le_rfl key).2, ← Option.not_isSome_iff_eq_none, isSome_answer_iff, not_le,
    standing_append_quiet before hquiet']
  have henough : max 1 L.maxAttempts ≤ (live L (deque (limiter L before) key) t).length :=
    (isSome_answer_iff _).mp (by rw [h]; rfl)
  split_ifs with hspares
  · rw [or_iff_right (not_not_intro hspares), ← live_live L hnext, ← hnow]
    match htimes : live L (deque (limiter L before) key) t with
    | [] =>
        rw [htimes] at h
        exact nomatch h
    | earliest :: later =>
        rw [htimes] at h henough
        rw [answer] at h
        split_ifs at h
        rw [← Option.some.inj h]
        refine leavesInTime_iff ?_ henough ?_ ?_
        · rw [← htimes]
          exact (htracked.sorted key).filter _
        · intro a ha
          rw [← htimes] at ha
          exact ((mem_live L).mp ha).2
        · intro a ha
          exact Option.some.inj ha
  · refine iff_of_true ?_ (Or.inl hspares)
    exact lt_of_lt_of_le Nat.zero_lt_one (le_max_left _ _)

/-! ## `RedisWindow` -/

variable (L name) in
/-- What an operation leaves on the server. -/
def redisStep (server : Server) : Op → Server
  | .check key now => (redisCheck L server key now).1
  | .record key now => redisRecord L name server key now

variable (L name) in
/-- The server after a sequence. -/
def redisWindow (ops : List Op) : Server := ops.foldl (redisStep L name) Server.empty

variable (name) in
/-- No clock reading is negative, and no two of them have one text. -/
structure Stamped (ops : List Op) : Prop where
  positive : ∀ op ∈ ops, 0 ≤ op.time
  named : ∀ op ∈ ops, ∀ op' ∈ ops, name op.time = name op'.time → op.time = op'.time

/-- Operations of a sequence are stamped as it is. -/
theorem Stamped.of_subset {ops ops' : List Op} (h : Stamped name ops) (hsub : ops' ⊆ ops) :
    Stamped name ops' :=
  ⟨fun op hop => h.positive op (hsub hop),
    fun op hop op' hop' => h.named op (hsub hop) op' (hsub hop')⟩

/-- The failures of a key have different texts. -/
theorem Stamped.failures {ops : List Op} (h : Stamped name ops) (key : String) :
    ∀ s ∈ failures ops key, ∀ s' ∈ failures ops key, name s = name s' → s = s' := by
  intro s hs s' hs'
  obtain ⟨op, hop, rfl, -⟩ := exists_of_mem_failures hs
  obtain ⟨op', hop', rfl, -⟩ := exists_of_mem_failures hs'
  exact h.named op hop op' hop'

/-- What is mirrored at a time is mirrored later. -/
theorem Mirrored.mono {log : String → List ℚ} {now : ℚ} {server : Server}
    (h : Mirrored L name log t server) (ht : t ≤ now) : Mirrored L name log now server :=
  ⟨fun k now' hnow => h.members k now' (ht.trans hnow), h.positive⟩

variable (L) in
/-- **Along every sequence** the server mirrors the failures. -/
theorem mirrored_run {ops : List Op} (h : (ops.map Op.time).Pairwise (· ≤ ·))
    (hstamped : Stamped name ops) (ht : ∀ op ∈ ops, op.time ≤ t) :
    Mirrored L name (failures ops) t (redisWindow L name ops) := by
  induction ops using List.reverseRecOn generalizing t with
  | nil => exact mirrored_empty t
  | append_singleton ops op ih =>
      have hop : op ∈ ops ++ [op] := List.mem_append_right _ (List.mem_singleton_self _)
      have hpast := hstamped.of_subset (List.subset_append_left ops [op])
      rw [List.map_append, List.pairwise_append] at h
      have hthen : ∀ op' ∈ ops, op'.time ≤ op.time := fun op' hop' =>
        h.2.2 op'.time (List.mem_map_of_mem hop') op.time (List.mem_singleton_self _)
      have hmirrored := ih h.1 hpast hthen
      rw [redisWindow, List.foldl_append, List.foldl_cons, List.foldl_nil, ← redisWindow]
      refine Mirrored.mono ?_ (ht op hop)
      cases op with
      | check key now =>
          have hnow : now ≤ now := le_rfl
          rw [failures_append_check, redisStep,
            (redisCheck_eq hmirrored hnow key (pairwise_failures h.1 key)
              (hpast.failures key)).1]
          exact hmirrored.prune hnow key
      | record key now =>
          rw [failures_append_record]
          refine hmirrored.record le_rfl (hstamped.positive _ hop) (fun s hs => ?_)
            (fun s hs => ?_)
          · obtain ⟨op', hop', rfl, -⟩ := exists_of_mem_failures hs
            exact hthen op' hop'
          · obtain ⟨op', hop', rfl, -⟩ := exists_of_mem_failures hs
            exact hstamped.named op' (List.mem_append_left _ hop') _ hop

/-- Each time in the window counts once. -/
theorem length_dedup_live {times : List ℚ} {now : ℚ} :
    (live L times now).dedup.length = (live L times.dedup now).length := by
  have hnodup : (live L times.dedup now).Nodup := (List.nodup_dedup times).filter _
  refine List.Perm.length_eq ?_
  rw [List.perm_ext_iff_of_nodup (List.nodup_dedup _) hnodup]
  intro a
  rw [List.mem_dedup, mem_live, mem_live, List.mem_dedup]

/-- The first of a list in order is the first of its different elements. -/
theorem headD_of_head?_dedup {times : List ℚ} (hsorted : times.Pairwise (· ≤ ·)) {a : ℚ}
    (h : times.dedup.head? = some a) (now : ℚ) : times.headD now = a := by
  have ha : a ∈ times := List.mem_dedup.mp (List.mem_of_mem_head? h)
  cases times with
  | nil => exact absurd ha List.not_mem_nil
  | cons first rest =>
      have hdedup : (first :: rest).dedup.Pairwise (· ≤ ·) :=
        hsorted.sublist (List.dedup_sublist _)
      have hfirst : first ∈ (first :: rest).dedup := List.mem_dedup.mpr List.mem_cons_self
      refine le_antisymm ?_ ?_
      · rcases List.mem_cons.mp ha with rfl | ha
        · exact le_rfl
        · exact List.rel_of_pairwise_cons hsorted ha
      · obtain ⟨rest', heq⟩ := List.head?_eq_some_iff.mp h
        rw [heq] at hdedup hfirst
        rcases List.mem_cons.mp hfirst with rfl | hmem
        · exact le_rfl
        · exact List.rel_of_pairwise_cons hdedup hmem

/-- A check of the shared window again, after the wait that was announced. -/
theorem redisCheck_again {before between : List Op} {key : String} {s : ℤ}
    (hclock : ((before ++ Op.check key t :: (between ++ [Op.check key (t + s)])).map
      Op.time).Pairwise (· ≤ ·))
    (hstamped : Stamped name (before ++ Op.check key t :: between))
    (hquiet : failures between key = [])
    (h : (redisCheck L (redisWindow L name before) key t).2 = some s) :
    (redisCheck L (redisWindow L name (before ++ .check key t :: between)) key (t + s)).2 =
        none ↔
      LeavesInTime L L.maxAttempts (live L (failures before key) t).dedup t := by
  rw [← List.cons_append, ← List.append_assoc, List.map_append, List.pairwise_append] at hclock
  obtain ⟨hfirst, -, hlast⟩ := hclock
  have hthen : ∀ op ∈ before ++ Op.check key t :: between, op.time ≤ t + s := fun op hop =>
    hlast op.time (List.mem_map_of_mem hop) (t + s) (List.mem_singleton_self _)
  have hnext : t ≤ t + s := hthen (.check key t) (List.mem_append_right _ List.mem_cons_self)
  have hpast := hstamped.of_subset (List.subset_append_left before (.check key t :: between))
  have hlater := mirrored_run L hfirst hstamped hthen
  have hlog : failures (before ++ .check key t :: between) key = failures before key := by
    rw [failures_append]
    have hquiet' : failures (.check key t :: between) key = [] := hquiet
    rw [hquiet', List.append_nil]
  have hsorted := pairwise_failures hfirst key
  have hnames := hstamped.failures key
  rw [List.map_append, List.pairwise_append] at hfirst
  have hmirrored := mirrored_run L hfirst.1 hpast fun op hop =>
    hfirst.2.2 op.time (List.mem_map_of_mem hop) t List.mem_cons_self
  -- the answers, from the failures in the window
  have hsince : (live L (failures before key) t).Pairwise (· ≤ ·) :=
    (pairwise_failures hfirst.1 key).filter _
  rw [(redisCheck_eq hmirrored le_rfl key (pairwise_failures hfirst.1 key)
    (hpast.failures key)).2, redisAnswer] at h
  rw [(redisCheck_eq hlater le_rfl key hsorted hnames).2, redisAnswer, hlog,
    ← live_live L hnext, length_dedup_live]
  split_ifs at h with hfew
  rw [← Option.some.inj h]
  rw [← leavesInTime_iff (hsince.sublist (List.dedup_sublist _)) (not_lt.mp hfew)
    (fun a ha => ((mem_live L).mp (List.mem_dedup.mp ha)).2)
    (fun a ha => headD_of_head?_dedup hsince ha t)]
  split_ifs with hafter
  · exact iff_of_true rfl hafter
  · exact iff_of_false nofun hafter

/-! ## Both backends -/

/-- **When the announced wait is enough**: the failure that has to leave for the count to fall
below the limit does so in time, or the process-local throttle drops the key meanwhile. -/
theorem retryAfter_sufficient_iff {before between : List Op} {key : String} {s : ℤ}
    (hclock : ((before ++ Op.check key t :: (between ++ [Op.check key (t + s)])).map
      Op.time).Pairwise (· ≤ ·))
    (hquiet : failures between key = []) :
    ((check L (limiter L before) key t).2 = some s →
      ((check L (limiter L (before ++ .check key t :: between)) key (t + s)).2 = none ↔
        ¬ Spares L key (limiter L before) (.check key t :: between) ∨
          LeavesInTime L (max 1 L.maxAttempts) (live L (deque (limiter L before) key) t) t)) ∧
    (Stamped name (before ++ Op.check key t :: between) →
      (redisCheck L (redisWindow L name before) key t).2 = some s →
      ((redisCheck L (redisWindow L name (before ++ .check key t :: between)) key (t + s)).2 =
          none ↔
        LeavesInTime L L.maxAttempts (live L (failures before key) t).dedup t)) :=
  ⟨check_again hclock hquiet, fun hstamped => redisCheck_again hclock hstamped hquiet⟩

/-- Five failures, one each second. -/
def five : List Op := [0, 1, 2, 3, 4].map (.record "ann")

/-- After whole seconds the wait of the first of five failures is enough. -/
theorem retryAfter_whole :
    (check loginLimits (limiter loginLimits (five ++ .check "ann" 5 :: [])) "ann"
        (5 + (895 : ℤ))).2 = none ∧
      (redisCheck loginLimits (redisWindow loginLimits toString (five ++ .check "ann" 5 :: []))
        "ann" (5 + (895 : ℤ))).2 = none := by
  have hlimiter : (check loginLimits (limiter loginLimits five) "ann" 5).2 = some 895 := by
    decide +kernel
  have hredis : (redisCheck loginLimits (redisWindow loginLimits toString five) "ann" 5).2 =
      some 895 := by
    decide +kernel
  have hstamped : Stamped toString (five ++ Op.check "ann" 5 :: []) :=
    ⟨by decide +kernel, by decide +kernel⟩
  have hlive : live loginLimits (deque (limiter loginLimits five) "ann") 5 = [0, 1, 2, 3, 4] := by
    decide +kernel
  have hfailures : (live loginLimits (failures five "ann") 5).dedup = [0, 1, 2, 3, 4] := by
    decide +kernel
  have hleaves : LeavesInTime loginLimits 5 [0, 1, 2, 3, 4] 5 :=
    ⟨0, rfl, Or.inr ⟨rfl, 5, by norm_num⟩⟩
  have hboth := @retryAfter_sufficient_iff loginLimits toString 5 five [] "ann" 895
    (by decide +kernel) rfl
  refine ⟨(hboth.1 hlimiter).mpr (Or.inr ?_), (hboth.2 hstamped hredis).mpr ?_⟩
  · rw [hlive]
    exact hleaves
  · rw [hfailures]
    exact hleaves

/-- **Half a second later the announced wait is half a second short**: both backends throttle the
check behind it. -/
theorem retryAfter_short :
    ((check loginLimits (limiter loginLimits five) "ann" (9 / 2)).2 = some 895 ∧
      (check loginLimits (limiter loginLimits (five ++ [.check "ann" (9 / 2)])) "ann"
        (9 / 2 + (895 : ℤ))).2 = some 1) ∧
    ((redisCheck loginLimits (redisWindow loginLimits toString five) "ann" (9 / 2)).2 =
        some 895 ∧
      (redisCheck loginLimits (redisWindow loginLimits toString (five ++ [.check "ann" (9 / 2)]))
        "ann" (9 / 2 + (895 : ℤ))).2 = some 1) :=
  ⟨⟨by decide +kernel, by decide +kernel⟩, by decide +kernel, by decide +kernel⟩

end ProcureSignal.RateLimit
