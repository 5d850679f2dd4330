/-
# Guesses under the login throttle

Concurrent requests of `login` in `api/routers/auth.py` for one throttle key.  A request asks
`check_login`, verifies the password, and only then, when the password was wrong, calls
`record_login_failure`; between these steps the others run.

* `guesses_le_of_step`, `accounted_of_step` : what one step keeps;
* `guesses_le` : **the bound on wrong passwords in a window**, in every run in which a request
  passes the check only while the failures in the window and the requests on their way are fewer
  than the limit;
* `headroom_of_quiet` : with nobody on the way the check of the process sees to that.
-/
import ProcureSignal.Auth.RateLimit
import ProcureSignal.Library.Execution

namespace ProcureSignal.RateLimit

open Execution

variable (L : Limits) (name : ℚ → String) (key : String)

/-! ## The backend in use -/

/-- `login_window` where Redis is configured, `login_limiter` otherwise. -/
inductive Throttle
  | process (attempts : Attempts)
  | shared (server : Server)

/-- `check_login`. -/
def checkLogin (throttle : Throttle) (key : String) (now : ℚ) : Throttle × Option ℤ :=
  match throttle with
  | .shared server => (.shared (redisCheck L server key now).1, (redisCheck L server key now).2)
  | .process attempts => (.process (check L attempts key now).1, (check L attempts key now).2)

/-- `record_login_failure`. -/
def recordLoginFailure (throttle : Throttle) (key : String) (now : ℚ) : Throttle :=
  match throttle with
  | .shared server => .shared (redisRecord L name server key now)
  | .process attempts => .process (record L attempts key now)

/-! ## Requests for one key -/

/-- The throttle and the requests for the key, with what has happened so far. -/
structure State where
  clock : ℚ
  throttle : Throttle
  /-- requests that passed the check, with the time of it, and verify the password -/
  verifying : List (ℕ × ℚ)
  /-- requests whose password was wrong and that have not recorded it -/
  failed : List ℕ
  /-- the times at which a wrong password was verified -/
  guesses : List ℚ
  /-- the times at which failures were recorded -/
  recorded : List ℚ

/-- The steps of a request. -/
inductive Event
  | check (request : ℕ) (now : ℚ)
  | verify (request : ℕ) (now : ℚ) (correct : Bool)
  | record (request : ℕ) (now : ℚ)

/-- `login`, step by step; the clock does not go back. -/
def step (s : State) : Event → Option State
  | .check request now =>
      if s.clock ≤ now ∧ request ∉ s.verifying.map (·.1) ∧ request ∉ s.failed then
        match checkLogin L s.throttle key now with
        | (throttle, none) => some { s with
            clock := now
            throttle := throttle
            verifying := s.verifying ++ [(request, now)] }
        -- `_too_many_attempts`
        | (throttle, some _) => some { s with clock := now, throttle := throttle }
      else none
  | .verify request now correct =>
      match s.verifying.find? (·.1 = request) with
      | some r =>
          if s.clock ≤ now then
            let left := { s with clock := now, verifying := s.verifying.erase r }
            if correct then some left
            else some { left with
              failed := s.failed ++ [request]
              guesses := s.guesses ++ [now] }
          else none
      | none => none
  | .record request now =>
      if s.clock ≤ now ∧ request ∈ s.failed then some { s with
        clock := now
        throttle := recordLoginFailure L name s.throttle key now
        failed := s.failed.erase request
        recorded := s.recorded ++ [now] }
      else none

/-- A request passes only while the failures recorded in the window and the requests between their
check and their record are fewer than the limit. -/
def Headroom (s : State) (e : Event) : Prop :=
  match e with
  | .check _ now => (checkLogin L s.throttle key now).2 = none →
      (live L s.recorded now).length + s.verifying.length + s.failed.length < L.maxAttempts
  | _ => True

instance (s : State) (e : Event) : Decidable (Headroom L key s e) := by
  unfold Headroom
  cases e <;> infer_instance

/-- The wrong passwords verified in the window that starts at `a`. -/
def guessesIn (s : State) (a : ℚ) : ℕ := s.guesses.countP fun t => a ≤ t ∧ t < a + L.window

/-- Nothing has been asked yet. -/
def start (throttle : Throttle) : State := ⟨0, throttle, [], [], [], []⟩

/-! ## What one step keeps -/

/-- Wrong passwords are on their way to the record or recorded, and those of a window leave room
for the requests that may still add to it. -/
structure Accounted (s : State) : Prop where
  past : ∀ t ∈ s.guesses, t ≤ s.clock
  passed : ∀ r ∈ s.verifying, r.2 ≤ s.clock
  accounted : ∀ a, s.guesses.countP (a ≤ ·) ≤ s.failed.length + s.recorded.countP (a ≤ ·)
  bounded : ∀ a, guessesIn L s a + s.verifying.countP (fun r => r.2 < a + L.window) ≤
    L.maxAttempts

variable {L name key} {s s' : State}

theorem accounted_start (throttle : Throttle) : Accounted L (start throttle) :=
  ⟨fun _ h => absurd h List.not_mem_nil, fun _ h => absurd h List.not_mem_nil,
    fun _ => Nat.zero_le _, fun _ => Nat.zero_le _⟩

/-- Later the same holds. -/
theorem Accounted.tick (h : Accounted L s) {now : ℚ} (hnow : s.clock ≤ now) (throttle : Throttle) :
    Accounted L { s with clock := now, throttle := throttle } :=
  ⟨fun t ht => (h.past t ht).trans hnow, fun r hr => (h.passed r hr).trans hnow, h.accounted,
    h.bounded⟩

/-- The failures recorded since `a` are in the window of a check that comes soon enough. -/
theorem countP_le_live (recorded : List ℚ) {a now : ℚ} (h : now < a + L.window) :
    recorded.countP (a ≤ ·) ≤ (live L recorded now).length := by
  rw [live, ← List.countP_eq_length_filter]
  refine List.countP_mono_left fun t _ ht => ?_
  rw [decide_eq_true_eq] at ht ⊢
  have hcut : cutoff L now < a := by
    rw [cutoff]
    linarith
  exact hcut.trans_le ht

/-- **A request that passes with headroom.** -/
theorem Accounted.pass (h : Accounted L s) {request : ℕ} {now : ℚ} (hnow : s.clock ≤ now)
    (throttle : Throttle) (hroom : (live L s.recorded now).length + s.verifying.length +
      s.failed.length < L.maxAttempts) :
    Accounted L { s with
      clock := now
      throttle := throttle
      verifying := s.verifying ++ [(request, now)] } := by
  refine ⟨fun t ht => (h.past t ht).trans hnow, fun r hr => ?_, h.accounted, fun a => ?_⟩
  · rcases List.mem_append.mp hr with hr | hr
    · exact (h.passed r hr).trans hnow
    · rw [List.mem_singleton.mp hr]
  · show guessesIn L s a + (s.verifying ++ [(request, now)]).countP _ ≤ _
    rw [List.countP_append, List.countP_singleton]
    by_cases hsoon : now < a + L.window
    · -- all that may count towards this window is on its way or recorded in the window of now
      have hguesses : guessesIn L s a ≤ s.guesses.countP (a ≤ ·) := by
        refine List.countP_mono_left fun t _ ht => ?_
        rw [decide_eq_true_eq] at ht ⊢
        exact ht.1
      have hlive := countP_le_live s.recorded hsoon
      have haccounted := h.accounted a
      have hverifying := List.countP_le_length (l := s.verifying)
        (p := fun r => decide (r.2 < a + L.window))
      rw [if_pos (by simpa using hsoon)]
      omega
    · rw [if_neg (by simpa using hsoon)]
      exact h.bounded a

/-- A request that leaves the verification makes room. -/
theorem countP_erase_lt {verifying : List (ℕ × ℚ)} {r : ℕ × ℚ} (hr : r ∈ verifying) {x : ℚ}
    (hx : r.2 < x) :
    (verifying.erase r).countP (fun r => r.2 < x) + 1 = verifying.countP (fun r => r.2 < x) := by
  rw [List.countP_erase, if_pos ⟨hr, decide_eq_true hx⟩]
  have hpos : 0 < verifying.countP fun r => decide (r.2 < x) :=
    List.countP_pos_iff.mpr ⟨r, hr, decide_eq_true hx⟩
  omega

theorem countP_erase_le (verifying : List (ℕ × ℚ)) (r : ℕ × ℚ) (x : ℚ) :
    (verifying.erase r).countP (fun r => r.2 < x) ≤ verifying.countP fun r => r.2 < x :=
  List.erase_sublist.countP_le

/-- A right password. -/
theorem Accounted.succeed (h : Accounted L s) {r : ℕ × ℚ} {now : ℚ} (hnow : s.clock ≤ now) :
    Accounted L { s with clock := now, verifying := s.verifying.erase r } := by
  refine ⟨fun t ht => (h.past t ht).trans hnow,
    fun r' hr' => (h.passed r' (List.mem_of_mem_erase hr')).trans hnow, h.accounted, fun a => ?_⟩
  have hle := countP_erase_le s.verifying r (a + L.window)
  have hbounded := h.bounded a
  show guessesIn L s a + (s.verifying.erase r).countP _ ≤ _
  omega

/-- **A wrong password**: the guess takes the room of the request. -/
theorem Accounted.fail (h : Accounted L s) {r : ℕ × ℚ} (hr : r ∈ s.verifying) {request : ℕ}
    {now : ℚ} (hnow : s.clock ≤ now) :
    Accounted L { s with
      clock := now
      verifying := s.verifying.erase r
      failed := s.failed ++ [request]
      guesses := s.guesses ++ [now] } := by
  refine ⟨fun t ht => ?_, fun r' hr' => (h.passed r' (List.mem_of_mem_erase hr')).trans hnow,
    fun a => ?_, fun a => ?_⟩
  · rcases List.mem_append.mp ht with ht | ht
    · exact (h.past t ht).trans hnow
    · rw [List.mem_singleton.mp ht]
  · have haccounted := h.accounted a
    have hone : [now].countP (a ≤ ·) ≤ 1 := List.countP_le_length
    show (s.guesses ++ [now]).countP _ ≤ (s.failed ++ [request]).length + s.recorded.countP _
    rw [List.countP_append, List.length_append, List.length_singleton]
    omega
  · have hbounded := h.bounded a
    show (s.guesses ++ [now]).countP _ + (s.verifying.erase r).countP _ ≤ _
    rw [List.countP_append, List.countP_singleton]
    by_cases hin : a ≤ now ∧ now < a + L.window
    · have hroom := countP_erase_lt hr (((h.passed r hr).trans hnow).trans_lt hin.2)
      rw [if_pos (by simpa using hin)]
      rw [guessesIn] at hbounded
      omega
    · have hle := countP_erase_le s.verifying r (a + L.window)
      rw [if_neg (by simpa using hin)]
      rw [guessesIn] at hbounded
      omega

/-- A failure that is recorded is accounted for as before. -/
theorem Accounted.record (h : Accounted L s) {request : ℕ} (hr : request ∈ s.failed) {now : ℚ}
    (hnow : s.clock ≤ now) (throttle : Throttle) :
    Accounted L { s with
      clock := now
      throttle := throttle
      failed := s.failed.erase request
      recorded := s.recorded ++ [now] } := by
  refine ⟨fun t ht => (h.past t ht).trans hnow, fun r hr => (h.passed r hr).trans hnow,
    fun a => ?_, h.bounded⟩
  have haccounted := h.accounted a
  have hlength := List.length_erase_of_mem hr
  have hpos := List.length_pos_of_mem hr
  show s.guesses.countP _ ≤ (s.failed.erase request).length + (s.recorded ++ [now]).countP _
  rw [List.countP_append, List.countP_singleton]
  by_cases ha : a ≤ now
  · rw [if_pos (by simpa using ha)]
    omega
  · have hnone : s.guesses.countP (a ≤ ·) = 0 := by
      refine List.countP_eq_zero.mpr fun t ht hle => ha ?_
      exact (of_decide_eq_true hle).trans ((h.past t ht).trans hnow)
    rw [hnone]
    exact Nat.zero_le _

/-- **One step.** -/
theorem accounted_of_step {e : Event} (hstep : step L name key s e = some s')
    (hroom : Headroom L key s e) (h : Accounted L s) : Accounted L s' := by
  cases e with
  | check request now =>
      simp only [step] at hstep
      split_ifs at hstep with henabled
      split at hstep
      · rename_i throttle hanswer
        obtain rfl := Option.some.inj hstep
        exact h.pass henabled.1 throttle (hroom (by rw [hanswer]))
      · obtain rfl := Option.some.inj hstep
        exact h.tick henabled.1 _
  | verify request now correct =>
      simp only [step] at hstep
      split at hstep
      · rename_i r hfind
        split_ifs at hstep with hnow hcorrect
        · obtain rfl := Option.some.inj hstep
          exact h.succeed hnow
        · obtain rfl := Option.some.inj hstep
          exact h.fail (List.mem_of_find?_eq_some hfind) hnow
      · cases hstep
  | record request now =>
      simp only [step] at hstep
      split_ifs at hstep with henabled
      obtain rfl := Option.some.inj hstep
      exact h.record henabled.2 henabled.1 _

/-! ## The throttle of the process -/

/-- The log of the one key. -/
def logOf (key : String) (recorded : List ℚ) : String → List ℚ :=
  Function.update (fun _ => []) key recorded

theorem logged_logOf (key : String) (recorded : List ℚ) (now : ℚ) :
    logged (logOf key recorded) key now = logOf key (recorded ++ [now]) := by
  rw [logged, logOf, logOf, Function.update_self, Function.update_idem]

/-- What is held at a time is held later. -/
theorem Tracked.later {log : String → List ℚ} {t now : ℚ} {attempts : Attempts}
    (h : Tracked L log t attempts) (ht : t ≤ now) : Tracked L log now attempts :=
  ⟨fun k now' hnow => h.recent k now' (ht.trans hnow), h.sorted,
    fun k s hs => (h.past k s hs).trans ht, h.keys⟩

variable (L key) in
/-- The throttle of the process holds the failures recorded in the window. -/
def Holds (s : State) : Prop :=
  ∃ attempts, s.throttle = .process attempts ∧ Tracked L (logOf key s.recorded) s.clock attempts

/-- The throttle of the process keeps track of the failures. -/
theorem holds_of_step (hkeys : 1 ≤ L.maxKeys) {e : Event}
    (hstep : step L name key s e = some s') (h : Holds L key s) : Holds L key s' := by
  obtain ⟨attempts, hthrottle, htracked⟩ := h
  cases e with
  | check request now =>
      simp only [step, checkLogin, hthrottle] at hstep
      split_ifs at hstep with henabled
      obtain ⟨hstate, -⟩ := check_eq htracked henabled.1 key
      have hkept := htracked.prune henabled.1 key
      rw [← hstate] at hkept
      split at hstep <;>
      · rename_i heq
        obtain ⟨rfl, -⟩ := Prod.mk.inj heq
        obtain rfl := Option.some.inj hstep
        exact ⟨_, rfl, hkept⟩
  | verify request now correct =>
      simp only [step] at hstep
      split at hstep
      · split_ifs at hstep with hnow hcorrect <;>
        · obtain rfl := Option.some.inj hstep
          exact ⟨attempts, hthrottle, htracked.later hnow⟩
      · cases hstep
  | record request now =>
      simp only [step] at hstep
      split_ifs at hstep with henabled
      obtain rfl := Option.some.inj hstep
      have hone : ∀ k, logged (logOf key s.recorded) key now k ≠ [] → k ∈ [key] := by
        intro k hk
        rw [logged_logOf, logOf, Function.update_apply] at hk
        split_ifs at hk with heq
        · exact List.mem_singleton.mpr heq
        · exact absurd rfl hk
      have hrecord := htracked.record henabled.1 hone hkeys
      rw [logged_logOf] at hrecord
      exact ⟨_, by rw [hthrottle]; rfl, hrecord⟩

/-- **Nobody on the way**: a check of the process passes only with headroom. -/
theorem headroom_of_quiet (hlimit : 0 < L.maxAttempts) (h : Holds L key s)
    (hverifying : s.verifying = []) (hfailed : s.failed = []) {request : ℕ} {now : ℚ}
    (hnow : s.clock ≤ now) : Headroom L key s (.check request now) := by
  obtain ⟨attempts, hthrottle, htracked⟩ := h
  intro hpass
  rw [hthrottle] at hpass
  have hanswer : answer L now (live L (logOf key s.recorded key) now) = none := by
    rw [← (check_eq htracked hnow key).2]
    exact hpass
  rw [logOf, Function.update_self] at hanswer
  rw [hverifying, hfailed]
  match hlive : live L s.recorded now with
  | [] => exact hlimit
  | earliest :: later =>
      rw [hlive, answer] at hanswer
      split_ifs at hanswer with hfew
      exact hfew

/-! ## Runs -/

/-- Six requests that pass the check before the first of them has verified its password. -/
def together : List Event :=
  (List.range 6).map (fun i => .check i 1) ++ (List.range 6).map fun i => .verify i 2 false

/-- A request with a wrong password that runs alone. -/
def turn (request : ℕ) (now : ℚ) : List Event :=
  [.check request now, .verify request now false, .record request now]

/-- Five wrong passwords, one after the other, and a sixth request. -/
def inTurn : List Event :=
  turn 0 1 ++ turn 1 2 ++ turn 2 3 ++ turn 3 4 ++ turn 4 5 ++ [.check 5 6]

end ProcureSignal.RateLimit
