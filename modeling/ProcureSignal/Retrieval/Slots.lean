/-
# The slots of an orchestrator

`_source` of `retrieval/orchestrator.py` fetches inside `async with self._global, host_semaphore`:
six units for all sources, then two for the host of the endpoint.  The attempts of all calls of
`run` on one orchestrator share them.

* `orchestratorSlots` : the semaphores and what each attempt acquires;
* `slots_safe` : **six sources are fetched at a time and two of a host, in every order of attempts,
  and no order gets stuck**.
-/
import ProcureSignal.Library.Semaphores
import ProcureSignal.Library.Urlsplit

namespace ProcureSignal.Retrieval

open Semaphores

/-- `self._global` and the semaphores of `self._hosts`. -/
inductive Slot
  | global
  | host (name : String)
  deriving DecidableEq, Repr

/-- `asyncio.Semaphore(6)` and `asyncio.Semaphore(2)`. -/
def Slot.units : Slot → ℕ
  | global => 6
  | host _ => 2

/-- The order of the `async with` statement. -/
def Slot.rank : Slot → ℕ
  | global => 0
  | host _ => 1

/-- `urlsplit(definition.endpoint_url).hostname or ""`; absent where `urlsplit` raises. -/
def endpointHost (U : Unicode) (ipLiteral : List Char → Bool) (endpointUrl : String) :
    Option String :=
  (Urllib.urlsplit U ipLiteral endpointUrl).map fun parts =>
    (Urllib.hostname U parts.netloc).getD ""

variable (U : Unicode) (ipLiteral : List Char → Bool) (attempts : Finset (ℕ × String))
  (endpointUrl : ℕ × String → String)

/-- What an attempt acquires; one whose endpoint cannot be split raises before. -/
def slotsOf (a : ℕ × String) : List Slot :=
  match endpointHost U ipLiteral (endpointUrl a) with
  | some name => [.global, .host name]
  | none => []

/-- The attempts of an orchestrator and its semaphores. -/
def orchestratorSlots : System (ℕ × String) Slot where
  tasks := attempts
  needs := slotsOf U ipLiteral endpointUrl
  capacity := Slot.units

/-- An attempt is inside of the `async with` statement. -/
def Fetching (s : Semaphores.State (ℕ × String) Slot) (a : ℕ × String) : Prop :=
  s.phase a = .holding 2

instance (s : Semaphores.State (ℕ × String) Slot) (a : ℕ × String) :
    Decidable (Fetching s a) :=
  inferInstanceAs (Decidable (_ = _))

variable {U ipLiteral attempts endpointUrl}

theorem ranked_orchestratorSlots :
    Ranked (orchestratorSlots U ipLiteral attempts endpointUrl) Slot.rank where
  ordered a _ := by
    change (slotsOf U ipLiteral endpointUrl a).Pairwise _
    unfold slotsOf
    split
    · exact List.pairwise_pair.mpr Nat.zero_lt_one
    · exact List.Pairwise.nil
  positive a _ slot _ := by
    change 0 < slot.units
    cases slot with
    | global => exact Nat.succ_pos 5
    | host name => exact Nat.succ_pos 1

/-- An attempt that fetches holds both of its slots. -/
theorem held_of_fetching {s : Semaphores.State (ℕ × String) Slot} {a : ℕ × String}
    (h : Fetching s a) {name : String} (hname : endpointHost U ipLiteral (endpointUrl a) = some name) :
    held (orchestratorSlots U ipLiteral attempts endpointUrl) s a = [.global, .host name] := by
  have hneeds : slotsOf U ipLiteral endpointUrl a = [.global, .host name] := by
    rw [slotsOf, hname]
  change (s.phase a).held (slotsOf U ipLiteral endpointUrl a) = _
  rw [hneeds, show s.phase a = .holding 2 from h]
  rfl

/-- An attempt that fetches has a host. -/
theorem exists_host_of_fetching {s : Semaphores.State (ℕ × String) Slot} {a : ℕ × String}
    (hs : Bounded (orchestratorSlots U ipLiteral attempts endpointUrl) s) (h : Fetching s a) :
    ∃ name, endpointHost U ipLiteral (endpointUrl a) = some name := by
  have hle : 2 ≤ (slotsOf U ipLiteral endpointUrl a).length := hs a 2 h
  unfold slotsOf at hle
  split at hle
  · rename_i name hname
    exact ⟨name, hname⟩
  · exact absurd hle (by decide)

/-- **The slots of an orchestrator.**  In every run of its attempts, six of them fetch at most, and
two at most from one host.  Until all have ended, some attempt acquires its next slot or leaves its
fetch, and so a run comes to an end, where every slot is free again. -/
theorem slots_safe
    {tr : List (Semaphores.State (ℕ × String) Slot × Semaphores.Label (ℕ × String))}
    {s : Semaphores.State (ℕ × String) Slot}
    (h : Execution (Semaphores.step (orchestratorSlots U ipLiteral attempts endpointUrl)) unguarded
      (Semaphores.State.start (orchestratorSlots U ipLiteral attempts endpointUrl)) tr s) :
    (attempts.filter fun a => Fetching s a).card ≤ 6 ∧
    (∀ name, (attempts.filter fun a =>
      Fetching s a ∧ endpointHost U ipLiteral (endpointUrl a) = some name).card ≤ 2) ∧
    ((∃ a ∈ attempts, s.phase a ≠ .done) → ∃ a ∈ attempts, ∃ t,
      Semaphores.step (orchestratorSlots U ipLiteral attempts endpointUrl) s (.acquire a) =
        some t ∨
      Semaphores.step (orchestratorSlots U ipLiteral attempts endpointUrl) s (.release a) =
        some t) ∧
    tr.length ≤ 3 * attempts.card ∧
    ((∀ a ∈ attempts, s.phase a = .done) → ∀ slot, s.free slot = slot.units) := by
  have hs := Semaphores.balanced_of_execution h
  have hbounded := bounded_of_execution h
  refine ⟨?_, fun name => ?_, fun hopen => exists_step_of_balanced ranked_orchestratorSlots hs
    hbounded hopen, ?_, fun hdone slot => free_eq_of_done hs hdone slot⟩
  · refine (Finset.card_le_card fun a ha => ?_).trans (card_holding_le hs .global)
    obtain ⟨ha, hfetching⟩ := Finset.mem_filter.mp ha
    obtain ⟨name, hname⟩ := exists_host_of_fetching hbounded hfetching
    refine Finset.mem_filter.mpr ⟨ha, ?_⟩
    rw [held_of_fetching hfetching hname]
    exact List.mem_cons_self
  · refine (Finset.card_le_card fun a ha => ?_).trans (card_holding_le hs (.host name))
    obtain ⟨ha, hfetching, hname⟩ := Finset.mem_filter.mp ha
    refine Finset.mem_filter.mpr ⟨ha, ?_⟩
    rw [held_of_fetching hfetching hname]
    exact List.mem_cons_of_mem _ List.mem_cons_self
  · have hlength := length_add_remaining_le h
    have hneeds : ∀ a ∈ attempts, (slotsOf U ipLiteral endpointUrl a).length + 1 ≤ 3 := by
      intro a _
      unfold slotsOf
      split <;> simp
    have hsum : ∑ a ∈ attempts, ((slotsOf U ipLiteral endpointUrl a).length + 1) ≤
        attempts.card * 3 := Finset.sum_le_card_nsmul attempts _ 3 hneeds
    rw [remaining_start] at hlength
    change tr.length + _ ≤
      ∑ a ∈ attempts, ((slotsOf U ipLiteral endpointUrl a).length + 1) at hlength
    omega

/-! ### Two attempts -/

/-- Two sources of one host. -/
def twoFeeds : System (ℕ × String) Slot :=
  orchestratorSlots .ascii (fun _ => false) {(0, "news"), (0, "markets")}
    fun a => "https://feeds.example.org/" ++ a.2

theorem twoFeeds_run : ∃ tr s, Execution (Semaphores.step twoFeeds) unguarded
      (Semaphores.State.start twoFeeds) tr s ∧
    Fetching s (0, "news") ∧ s.phase (0, "markets") = .holding 1 := by
  refine ⟨_, _, ((Execution.nil.snoc (l := .acquire (0, "news")) trivial rfl).snoc
    (l := .acquire (0, "markets")) trivial rfl).snoc (l := .acquire (0, "news")) trivial rfl, ?_⟩
  exact ⟨rfl, rfl⟩

/-- One of them fetches and the other waits, and one of them can go on. -/
theorem slots_safe_twoFeeds : ∃ s, Fetching s (0, "news") ∧ s.phase (0, "markets") = .holding 1 ∧
    (twoFeeds.tasks.filter fun a => Fetching s a).card ≤ 6 ∧
    ∃ a ∈ twoFeeds.tasks, ∃ t, Semaphores.step twoFeeds s (.acquire a) = some t ∨
      Semaphores.step twoFeeds s (.release a) = some t := by
  obtain ⟨tr, s, h, hfetching, hwaiting⟩ := twoFeeds_run
  obtain ⟨hsix, -, hopen, -⟩ := slots_safe h
  refine ⟨s, hfetching, hwaiting, hsix, hopen ⟨(0, "markets"), ?_, ?_⟩⟩
  · exact Finset.mem_insert_of_mem (Finset.mem_singleton_self _)
  · rw [hwaiting]
    exact fun hdone => by cases hdone

end ProcureSignal.Retrieval
