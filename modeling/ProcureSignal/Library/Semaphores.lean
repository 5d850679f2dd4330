/-
# Semaphores acquired in a fixed order

Tasks acquire counting semaphores one after another, each in an order of its own, work once they
hold all of them, and release them together.  If the orders agree with one ranking of the
semaphores, no run gets stuck.

* `Balanced` : what is free and what is held make up the capacity, in every reachable state;
* `card_holding_le` : **no more tasks hold a semaphore than it has units**;
* `exists_step_of_balanced` : **some task can go on until all are done**;
* `remaining_lt_of_step` : every step uses up something, so a run is no longer than the work.
-/
import ProcureSignal.Library.Execution
import Mathlib.Algebra.Order.BigOperators.Group.Finset

set_option linter.unusedSectionVars false

namespace Semaphores

variable {ι R : Type} [DecidableEq ι] [DecidableEq R]

/-- The tasks, the semaphores that each acquires in this order, and the units of each semaphore. -/
structure System (ι R : Type) where
  tasks : Finset ι
  needs : ι → List R
  capacity : R → ℕ

/-- A task holds the first of its semaphores, or is done. -/
inductive Phase
  | holding (n : ℕ)
  | done
  deriving DecidableEq, Repr

/-- Where the tasks are, and the units that are free. -/
structure State (ι R : Type) where
  phase : ι → Phase
  free : R → ℕ

/-- A task acquires its next semaphore, gives everything back, or ends before it needs any. -/
inductive Label (ι : Type)
  | acquire (i : ι)
  | release (i : ι)
  | skip (i : ι)

variable (S : System ι R)

/-- Every task is about to begin. -/
def State.start : State ι R := ⟨fun _ => .holding 0, S.capacity⟩

/-- The semaphores that are held, of the ones that are needed. -/
def Phase.held (needs : List R) : Phase → List R
  | holding n => needs.take n
  | done => []

/-- The semaphore that is waited for. -/
def Phase.awaited (needs : List R) : Phase → Option R
  | holding n => needs[n]?
  | done => none

/-- The semaphores that a task holds. -/
def held (s : State ι R) (i : ι) : List R := (s.phase i).held (S.needs i)

/-- A task moves on, and the free units change. -/
def State.move (s : State ι R) (i : ι) (phase : Phase) (free : R → ℕ) : State ι R :=
  ⟨Function.update s.phase i phase, free⟩

/-- A task that works: it holds all of its semaphores. -/
def Working (s : State ι R) (i : ι) : Prop := s.phase i = .holding (S.needs i).length

/-- One step of a task. -/
def step (s : State ι R) : Label ι → Option (State ι R)
  | .acquire i =>
      match s.phase i, (s.phase i).awaited (S.needs i) with
      | .holding n, some r =>
          if i ∈ S.tasks ∧ 0 < s.free r then
            some (s.move i (.holding (n + 1)) (Function.update s.free r (s.free r - 1)))
          else none
      | _, _ => none
  | .release i =>
      if i ∈ S.tasks ∧ s.phase i = .holding (S.needs i).length then
        some (s.move i .done fun r => s.free r + (S.needs i).count r)
      else none
  | .skip i =>
      if i ∈ S.tasks ∧ s.phase i = .holding 0 then
        some (s.move i .done s.free)
      else none

variable {S} {s t : State ι R}

/-- **What a step can do.** -/
theorem step_cases {l : Label ι} (h : step S s l = some t) :
    (∃ i n r, l = .acquire i ∧ i ∈ S.tasks ∧ s.phase i = .holding n ∧ (S.needs i)[n]? = some r ∧
      0 < s.free r ∧
      t = s.move i (.holding (n + 1)) (Function.update s.free r (s.free r - 1))) ∨
    (∃ i, l = .release i ∧ i ∈ S.tasks ∧ s.phase i = .holding (S.needs i).length ∧
      t = s.move i .done fun r => s.free r + (S.needs i).count r) ∨
    ∃ i, l = .skip i ∧ i ∈ S.tasks ∧ s.phase i = .holding 0 ∧
      t = s.move i .done s.free := by
  cases l with
  | acquire i =>
      simp only [step] at h
      cases hphase : s.phase i with
      | done =>
          rw [hphase] at h
          cases h
      | holding n =>
          rw [hphase] at h
          simp only [Phase.awaited] at h
          cases hr : (S.needs i)[n]? with
          | none =>
              rw [hr] at h
              cases h
          | some r =>
              rw [hr] at h
              dsimp only at h
              split_ifs at h with hfree
              exact .inl ⟨i, n, r, rfl, hfree.1, hphase, hr, hfree.2, (Option.some.inj h).symm⟩
  | release i =>
      simp only [step] at h
      split_ifs at h with hworking
      exact .inr (.inl ⟨i, rfl, hworking.1, hworking.2, (Option.some.inj h).symm⟩)
  | skip i =>
      simp only [step] at h
      split_ifs at h with hidle
      exact .inr (.inr ⟨i, rfl, hidle.1, hidle.2, (Option.some.inj h).symm⟩)

/-! ## The units -/

/-- What is free and what is held make up the capacity. -/
def Balanced (S : System ι R) (s : State ι R) : Prop :=
  ∀ r, s.free r + ∑ i ∈ S.tasks, (held S s i).count r = S.capacity r

theorem balanced_start : Balanced S (State.start S) := by
  intro r
  simp [State.start, held, Phase.held]

@[simp] theorem phase_move_self {i : ι} {phase : Phase} {free : R → ℕ} :
    (s.move i phase free).phase i = phase := Function.update_self ..

theorem phase_move_of_ne {i j : ι} (h : j ≠ i) {phase : Phase} {free : R → ℕ} :
    (s.move i phase free).phase j = s.phase j := Function.update_of_ne h ..

theorem held_move_self {i : ι} {phase : Phase} {free : R → ℕ} :
    held S (s.move i phase free) i = phase.held (S.needs i) := by
  rw [held, phase_move_self]

theorem held_move_of_ne {i j : ι} (h : j ≠ i) {phase : Phase} {free : R → ℕ} :
    held S (s.move i phase free) j = held S s j := by
  rw [held, held, phase_move_of_ne h]

/-- A task moves, and the others hold what they held. -/
theorem sum_held_move {i : ι} (hi : i ∈ S.tasks) (phase : Phase) (free : R → ℕ) (r : R) :
    ∑ j ∈ S.tasks, (held S (s.move i phase free) j).count r + (held S s i).count r =
      ∑ j ∈ S.tasks, (held S s j).count r + (phase.held (S.needs i)).count r := by
  rw [← Finset.add_sum_erase _ _ hi,
    ← Finset.add_sum_erase S.tasks (fun j => (held S s j).count r) hi, held_move_self]
  have hrest : ∑ j ∈ S.tasks.erase i, (held S (s.move i phase free) j).count r =
      ∑ j ∈ S.tasks.erase i, (held S s j).count r :=
    Finset.sum_congr rfl fun j hj => by rw [held_move_of_ne (Finset.ne_of_mem_erase hj)]
  rw [hrest]
  omega

/-- **Every step keeps the balance.** -/
theorem Balanced.step {l : Label ι} (hs : Balanced S s) (h : step S s l = some t) :
    Balanced S t := by
  intro r
  have hr := hs r
  rcases step_cases h with ⟨i, n, r', -, hi, hphase, hneed, hfree, rfl⟩ |
    ⟨i, -, hi, hphase, rfl⟩ | ⟨i, -, hi, hphase, rfl⟩
  · have hsum := sum_held_move (s := s) hi (.holding (n + 1))
      (Function.update s.free r' (s.free r' - 1)) r
    have htake : (S.needs i).take (n + 1) = (S.needs i).take n ++ [r'] := by
      rw [List.take_add_one, hneed]
      rfl
    rw [held, hphase, Phase.held, Phase.held, htake, List.count_append] at hsum
    change Function.update s.free r' (s.free r' - 1) r + _ = _
    by_cases heq : r = r'
    · subst heq
      rw [Function.update_self]
      simp only [List.count_singleton_self] at hsum
      omega
    · have hzero : List.count r [r'] = 0 := List.count_eq_zero.mpr (by simpa using heq)
      rw [Function.update_of_ne heq]
      omega
  · have hsum := sum_held_move (s := s) hi .done (fun r => s.free r + (S.needs i).count r) r
    rw [held, hphase, Phase.held, Phase.held, List.take_length, List.count_nil] at hsum
    change s.free r + (S.needs i).count r + _ = _
    omega
  · have hsum := sum_held_move (s := s) hi .done s.free r
    rw [held, hphase, Phase.held, Phase.held, List.take_zero, List.count_nil] at hsum
    change s.free r + _ = _
    omega

theorem balanced_of_execution {tr : List (State ι R × Label ι)}
    (h : Execution (step S) unguarded (State.start S) tr s) : Balanced S s :=
  h.invariant balanced_start fun _ _ _ hp _ hstep => hp.step hstep

/-- **No more tasks hold a semaphore than it has units.** -/
theorem card_holding_le (hs : Balanced S s) (r : R) :
    (S.tasks.filter fun i => r ∈ held S s i).card ≤ S.capacity r := by
  rw [Finset.card_filter, ← hs r]
  refine (Finset.sum_le_sum fun i _ => ?_).trans (Nat.le_add_left _ _)
  split
  · exact List.count_pos_iff.mpr ‹_›
  · exact Nat.zero_le _

/-- Where every task is done, everything is free. -/
theorem free_eq_of_done (hs : Balanced S s) (hdone : ∀ i ∈ S.tasks, s.phase i = .done) (r : R) :
    s.free r = S.capacity r := by
  have hzero : ∑ i ∈ S.tasks, (held S s i).count r = 0 :=
    Finset.sum_eq_zero fun i hi => by rw [held, hdone i hi, Phase.held, List.count_nil]
  have hr := hs r
  omega

/-! ## Progress -/

/-- The orders of the tasks agree with a ranking of the semaphores, and each semaphore has a
unit. -/
structure Ranked (S : System ι R) (rank : R → ℕ) : Prop where
  ordered : ∀ i ∈ S.tasks, (S.needs i).Pairwise fun r r' => rank r < rank r'
  positive : ∀ i ∈ S.tasks, ∀ r ∈ S.needs i, 0 < S.capacity r

/-- No task holds more than it needs. -/
def Bounded (S : System ι R) (s : State ι R) : Prop :=
  ∀ i n, s.phase i = .holding n → n ≤ (S.needs i).length

theorem Bounded.step {l : Label ι} (hs : Bounded S s) (h : step S s l = some t) :
    Bounded S t := by
  have hmove : ∀ {i : ι} {phase : Phase} {free : R → ℕ},
      (∀ n, phase = .holding n → n ≤ (S.needs i).length) → Bounded S (s.move i phase free) := by
    intro i phase free hphase j n hj
    by_cases heq : j = i
    · subst heq
      exact hphase n (phase_move_self.symm.trans hj)
    · exact hs j n ((phase_move_of_ne heq).symm.trans hj)
  rcases step_cases h with ⟨i, n, r, -, -, -, hneed, -, rfl⟩ | ⟨i, -, -, -, rfl⟩ | ⟨i, -, -, -, rfl⟩
  · refine hmove fun m hm => ?_
    obtain rfl := Phase.holding.inj hm
    exact (List.getElem?_eq_some_iff.mp hneed).1
  · exact hmove fun m hm => by cases hm
  · exact hmove fun m hm => by cases hm

theorem bounded_of_execution {tr : List (State ι R × Label ι)}
    (h : Execution (step S) unguarded (State.start S) tr s) : Bounded S s :=
  h.invariant (fun _ _ hn => (Phase.holding.inj hn) ▸ Nat.zero_le _)
    fun _ _ _ hp _ hstep => hp.step hstep

/-- A task that is not done works or waits for its next semaphore. -/
theorem working_or_awaiting (hs : Bounded S s) {i : ι} (h : s.phase i ≠ .done) :
    Working S s i ∨ ∃ n r, s.phase i = .holding n ∧ (S.needs i)[n]? = some r := by
  cases hphase : s.phase i with
  | done => exact absurd hphase h
  | holding n =>
      rcases Nat.lt_or_eq_of_le (hs i n hphase) with hlt | rfl
      · exact .inr ⟨n, _, rfl, List.getElem?_eq_getElem hlt⟩
      · exact .inl hphase

/-- What a task holds comes before what it waits for. -/
theorem rank_lt_of_awaiting {rank : R → ℕ} (hranked : Ranked S rank) {i : ι} (hi : i ∈ S.tasks)
    {n : ℕ} {r r' : R} (hphase : s.phase i = .holding n) (hneed : (S.needs i)[n]? = some r)
    (hheld : r' ∈ held S s i) : rank r' < rank r := by
  rw [held, hphase, Phase.held] at hheld
  obtain ⟨m, hm, rfl⟩ := List.mem_take_iff_getElem.mp hheld
  obtain ⟨hn, rfl⟩ := List.getElem?_eq_some_iff.mp hneed
  exact List.pairwise_iff_getElem.mp (hranked.ordered i hi) m n _ hn (by omega)

/-- **Some task can go on** until all are done: it acquires a semaphore, or it gives everything
back.  Of the tasks that wait, the one whose semaphore ranks highest finds it free: a task that held
it would wait for one of a higher rank. -/
theorem exists_step_of_balanced {rank : R → ℕ} (hranked : Ranked S rank) (hs : Balanced S s)
    (hbounded : Bounded S s) (hopen : ∃ i ∈ S.tasks, s.phase i ≠ .done) :
    ∃ i ∈ S.tasks, ∃ t, step S s (.acquire i) = some t ∨ step S s (.release i) = some t := by
  by_cases hworking : ∃ i ∈ S.tasks, Working S s i
  · obtain ⟨i, hi, hphase⟩ := hworking
    exact ⟨i, hi, _, .inr (if_pos ⟨hi, hphase⟩)⟩
  have hawaiting : ∀ i ∈ S.tasks, s.phase i ≠ .done →
      ∃ n r, s.phase i = .holding n ∧ (S.needs i)[n]? = some r := fun i hi h =>
    (working_or_awaiting hbounded h).resolve_left fun hphase => hworking ⟨i, hi, hphase⟩
  let awaitedRank : ι → ℕ := fun i => ((s.phase i).awaited (S.needs i)).elim 0 rank
  obtain ⟨k, hk, hopen⟩ := hopen
  obtain ⟨i, hi, hmax⟩ := Finset.exists_max_image (S.tasks.filter fun i => s.phase i ≠ .done)
    awaitedRank ⟨k, Finset.mem_filter.mpr ⟨hk, hopen⟩⟩
  obtain ⟨hi, hphase⟩ := Finset.mem_filter.mp hi
  obtain ⟨n, r, hn, hr⟩ := hawaiting i hi hphase
  have hrank : awaitedRank i = rank r := by simp [awaitedRank, hn, Phase.awaited, hr]
  have hfree : 0 < s.free r := by
    by_contra hnone
    -- somebody holds `r`, and waits for a semaphore that ranks higher
    have hbalance := hs r
    have hcapacity := hranked.positive i hi r (List.mem_of_getElem? hr)
    obtain ⟨j, hj, hcount⟩ : ∃ j ∈ S.tasks, (held S s j).count r ≠ 0 := by
      by_contra hall
      have hzero : ∑ j ∈ S.tasks, (held S s j).count r = 0 :=
        Finset.sum_eq_zero fun j hj => by
          by_contra hne
          exact hall ⟨j, hj, hne⟩
      omega
    have hheld : r ∈ held S s j := List.count_pos_iff.mp (Nat.pos_of_ne_zero hcount)
    have hopen' : s.phase j ≠ .done := by
      intro hdone
      rw [held, hdone, Phase.held] at hheld
      cases hheld
    obtain ⟨m, r', hm, hr'⟩ := hawaiting j hj hopen'
    have hlt := rank_lt_of_awaiting hranked hj hm hr' hheld
    have hle := hmax j (Finset.mem_filter.mpr ⟨hj, hopen'⟩)
    have hrank' : awaitedRank j = rank r' := by simp [awaitedRank, hm, Phase.awaited, hr']
    omega
  refine ⟨i, hi, s.move i (.holding (n + 1)) (Function.update s.free r (s.free r - 1)), .inl ?_⟩
  simp [step, hn, Phase.awaited, hr, hi, hfree]

/-! ## Termination -/

/-- The steps that a task can still take. -/
def Phase.remaining (needs : List R) : Phase → ℕ
  | holding n => needs.length + 1 - n
  | done => 0

/-- The steps that the tasks can still take. -/
def remaining (S : System ι R) (s : State ι R) : ℕ :=
  ∑ i ∈ S.tasks, (s.phase i).remaining (S.needs i)

/-- **Every step uses up something.** -/
theorem remaining_lt_of_step {l : Label ι} (h : step S s l = some t) :
    remaining S t < remaining S s := by
  have hmove : ∀ {i : ι} {phase : Phase} {free : R → ℕ}, i ∈ S.tasks →
      phase.remaining (S.needs i) < (s.phase i).remaining (S.needs i) →
      remaining S (s.move i phase free) < remaining S s := by
    intro i phase free hi hlt
    refine Finset.sum_lt_sum (fun j _ => ?_) ⟨i, hi, by rwa [phase_move_self]⟩
    by_cases heq : j = i
    · rw [heq, phase_move_self]
      exact hlt.le
    · rw [phase_move_of_ne heq]
  rcases step_cases h with ⟨i, n, r, -, hi, hphase, hneed, -, rfl⟩ | ⟨i, -, hi, hphase, rfl⟩ |
    ⟨i, -, hi, hphase, rfl⟩
  · refine hmove hi ?_
    have hn := (List.getElem?_eq_some_iff.mp hneed).1
    rw [hphase, Phase.remaining, Phase.remaining]
    omega
  · refine hmove hi ?_
    rw [hphase, Phase.remaining, Phase.remaining]
    omega
  · refine hmove hi ?_
    rw [hphase, Phase.remaining, Phase.remaining]
    omega

/-- **A run is no longer than the work.** -/
theorem length_add_remaining_le {tr : List (State ι R × Label ι)}
    (h : Execution (step S) unguarded s tr t) : tr.length + remaining S t ≤ remaining S s := by
  induction h with
  | nil => exact (Nat.zero_add _).le
  | snoc _ _ hstep ih =>
      have hlt := remaining_lt_of_step hstep
      rw [List.length_cons]
      omega

theorem remaining_start :
    remaining S (State.start S) = ∑ i ∈ S.tasks, ((S.needs i).length + 1) := rfl

end Semaphores
