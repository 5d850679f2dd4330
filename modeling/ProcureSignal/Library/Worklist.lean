/-
# Worklists

A worklist takes elements out of a queue, in whatever order, and puts the successors of each new
one back.  Within a finite set closed under successors every run ends, and a run that has emptied
the queue has collected what can be reached from it.

* `Worklist.Step` : one step;
* `Worklist.Bounded`, `Worklist.acc` : **every run ends**;
* `Worklist.mem_of_run` : **what a complete run collects**;
* `Worklist.run_of_loop` : a loop with enough fuel is a complete run.
-/
import Mathlib

universe u

namespace Worklist

variable {α : Type u} [DecidableEq α] {next : α → List α}

/-! ## Steps -/

/-- What has been collected, and the queue. -/
abbrev State (α : Type u) := Finset α × Multiset α

/-- An element of the queue is taken out; a new one is collected and those of its successors that
are not collected are put into the queue. -/
inductive Step (next : α → List α) : State α → State α → Prop
  | seen {collected : Finset α} {queue : Multiset α} {a : α} :
      a ∈ collected → Step next (collected, a ::ₘ queue) (collected, queue)
  | new {collected : Finset α} {queue : Multiset α} {a : α} :
      a ∉ collected → Step next (collected, a ::ₘ queue)
        (insert a collected, ↑((next a).filter (· ∉ insert a collected)) + queue)

/-- `a` can be reached from `b`. -/
abbrev Reaches (next : α → List α) : α → α → Prop :=
  Relation.ReflTransGen fun a b => b ∈ next a

/-! ## Termination -/

/-- A finite set that successors stay in, with at most `m` successors for each element. -/
structure Bounded (next : α → List α) (W : Finset α) (m : ℕ) : Prop where
  mem : ∀ a ∈ W, ∀ b ∈ next a, b ∈ W
  length_le : ∀ a ∈ W, (next a).length ≤ m

/-- The queue, and what the elements that are not collected can still put into it. -/
def measure (W : Finset α) (m : ℕ) (s : State α) : ℕ := s.2.card + (W \ s.1).card * m

/-- A step within the bound stays within it and decreases the measure. -/
theorem Step.measure_lt {W : Finset α} {m : ℕ} (hW : Bounded next W m) {s t : State α}
    (h : Step next s t) (hs : ∀ a ∈ s.2, a ∈ W) :
    (∀ a ∈ t.2, a ∈ W) ∧ measure W m t < measure W m s := by
  cases h with
  | @seen collected queue a hseen =>
      refine ⟨fun b hb => hs b (Multiset.mem_cons_of_mem hb), ?_⟩
      simp only [measure, Multiset.card_cons]
      omega
  | @new collected queue a hnew =>
      have ha : a ∈ W := hs a (Multiset.mem_cons_self a queue)
      constructor
      · intro b hb
        rcases Multiset.mem_add.mp hb with hb | hb
        · exact hW.mem a ha b (List.mem_of_mem_filter (Multiset.mem_coe.mp hb))
        · exact hs b (Multiset.mem_cons_of_mem hb)
      · -- the element leaves room for its successors
        have hpushed := (List.length_filter_le (· ∉ insert a collected) (next a)).trans
          (hW.length_le a ha)
        have hroom : (W \ insert a collected).card + 1 = (W \ collected).card := by
          rw [Finset.sdiff_insert]
          exact Finset.card_erase_add_one (Finset.mem_sdiff.mpr ⟨ha, hnew⟩)
        simp only [measure, Multiset.card_cons, Multiset.card_add, Multiset.coe_card]
        rw [← hroom, Nat.add_mul, Nat.one_mul]
        omega

/-- **Every run ends.** -/
theorem acc {W : Finset α} {m : ℕ} (hW : Bounded next W m) (s : State α)
    (hs : ∀ a ∈ s.2, a ∈ W) : Acc (fun t s => Step next s t) s := by
  induction hn : measure W m s using Nat.strong_induction_on generalizing s with
  | _ n ih =>
      refine ⟨s, fun t ht => ?_⟩
      obtain ⟨hmem, hlt⟩ := ht.measure_lt hW hs
      exact ih _ (hn ▸ hlt) t hmem rfl

/-! ## Result -/

/-- What a run from the queue `start` keeps: what it has seen can be reached, and successors of what
is collected are collected or in the queue. -/
structure Sound (next : α → List α) (start : Multiset α) (s : State α) : Prop where
  reached : ∀ a, a ∈ s.1 ∨ a ∈ s.2 → ∃ b ∈ start, Reaches next b a
  start_mem : ∀ a ∈ start, a ∈ s.1 ∨ a ∈ s.2
  next_mem : ∀ a ∈ s.1, ∀ b ∈ next a, b ∈ s.1 ∨ b ∈ s.2

omit [DecidableEq α] in
theorem Sound.initial (next : α → List α) (start : Multiset α) : Sound next start (∅, start) where
  reached a ha := ⟨a, ha.resolve_left (Finset.notMem_empty a), .refl⟩
  start_mem _ ha := Or.inr ha
  next_mem a ha := absurd ha (Finset.notMem_empty a)

theorem Sound.step {start : Multiset α} {s t : State α} (hs : Sound next start s)
    (h : Step next s t) : Sound next start t := by
  cases h with
  | @seen collected queue a hseen =>
      have hback : ∀ b, b ∈ collected ∨ b ∈ a ::ₘ queue → b ∈ collected ∨ b ∈ queue := by
        intro b hb
        rcases hb with hb | hb
        · exact Or.inl hb
        · rcases Multiset.mem_cons.mp hb with rfl | hb
          · exact Or.inl hseen
          · exact Or.inr hb
      refine ⟨fun b hb => hs.reached b (hb.imp_right Multiset.mem_cons_of_mem),
        fun b hb => hback b (hs.start_mem b hb), fun b hb c hc => hback c (hs.next_mem b hb c hc)⟩
  | @new collected queue a hnew =>
      have hkept : ∀ b, b ∈ collected ∨ b ∈ a ::ₘ queue →
          b ∈ insert a collected ∨ b ∈ ↑((next a).filter (· ∉ insert a collected)) + queue := by
        intro b hb
        rcases hb with hb | hb
        · exact Or.inl (Finset.mem_insert_of_mem hb)
        · rcases Multiset.mem_cons.mp hb with rfl | hb
          · exact Or.inl (Finset.mem_insert_self b collected)
          · exact Or.inr (Multiset.mem_add.mpr (Or.inr hb))
      refine ⟨?_, fun b hb => hkept b (hs.start_mem b hb), ?_⟩
      · intro b hb
        obtain ⟨c, hc, hca⟩ := hs.reached a (Or.inr (Multiset.mem_cons_self a queue))
        rcases hb with hb | hb
        · rcases Finset.mem_insert.mp hb with rfl | hb
          · exact ⟨c, hc, hca⟩
          · exact hs.reached b (Or.inl hb)
        · rcases Multiset.mem_add.mp hb with hb | hb
          · exact ⟨c, hc, hca.tail (List.mem_of_mem_filter (Multiset.mem_coe.mp hb))⟩
          · exact hs.reached b (Or.inr (Multiset.mem_cons_of_mem hb))
      · intro b hb c hc
        rcases Finset.mem_insert.mp hb with rfl | hb
        · by_cases hin : c ∈ insert b collected
          · exact Or.inl hin
          · refine Or.inr (Multiset.mem_add.mpr (Or.inl (Multiset.mem_coe.mpr ?_)))
            exact List.mem_filter.mpr ⟨hc, decide_eq_true hin⟩
        · exact hkept c (hs.next_mem b hb c hc)

/-- **What a complete run collects.** -/
theorem mem_of_run {start : Multiset α} {collected : Finset α}
    (h : Relation.ReflTransGen (Step next) (∅, start) (collected, 0)) (a : α) :
    a ∈ collected ↔ ∃ b ∈ start, Reaches next b a := by
  have hrun : ∀ s, Relation.ReflTransGen (Step next) (∅, start) s → Sound next start s := by
    intro s hs
    induction hs with
    | refl => exact Sound.initial next start
    | tail _ hstep ih => exact ih.step hstep
  have hsound := hrun _ h
  have hdone : ∀ b, b ∈ collected ∨ b ∈ (0 : Multiset α) → b ∈ collected :=
    fun b hb => hb.resolve_right (Multiset.notMem_zero b)
  constructor
  · exact fun ha => hsound.reached a (Or.inl ha)
  · rintro ⟨b, hb, hreach⟩
    induction hreach with
    | refl => exact hdone b (hsound.start_mem b hb)
    | tail _ hnext ih => exact hdone _ (hsound.next_mem _ ih _ hnext)

/-! ## A loop -/

/-- A loop that works on the front of the queue. -/
def loop (next : α → List α) : ℕ → List α → List α → List α
  | 0, collected, _ => collected
  | _ + 1, collected, [] => collected
  | fuel + 1, collected, a :: queue =>
      if a ∈ collected then loop next fuel collected queue
      else
        let collected := collected ++ [a]
        loop next fuel collected ((next a).filter (· ∉ collected) ++ queue)

/-- **A loop with enough fuel is a complete run.** -/
theorem run_of_loop {W : Finset α} {m : ℕ} (hW : Bounded next W m) (fuel : ℕ)
    (collected queue : List α) (hqueue : ∀ a ∈ queue, a ∈ W)
    (hfuel : measure W m (collected.toFinset, ↑queue) < fuel) :
    Relation.ReflTransGen (Step next) (collected.toFinset, ↑queue)
      ((loop next fuel collected queue).toFinset, 0) := by
  induction fuel generalizing collected queue with
  | zero => omega
  | succ fuel ih =>
      cases queue with
      | nil => exact .refl
      | cons a queue =>
          by_cases hseen : a ∈ collected
          · have hstep : Step next (collected.toFinset, ↑(a :: queue))
                (collected.toFinset, ↑queue) := by
              rw [← Multiset.cons_coe]
              exact .seen (List.mem_toFinset.mpr hseen)
            obtain ⟨hmem, hlt⟩ := hstep.measure_lt hW fun b hb => hqueue b (Multiset.mem_coe.mp hb)
            rw [loop, if_pos hseen]
            exact .head hstep (ih collected queue (fun b hb => hmem b (Multiset.mem_coe.mpr hb))
              (by omega))
          · have hinsert : (collected ++ [a]).toFinset = insert a collected.toFinset := by
              rw [List.toFinset_append, Finset.union_comm]
              rfl
            have hfilter : (next a).filter (· ∉ collected ++ [a]) =
                (next a).filter (· ∉ insert a collected.toFinset) := by
              refine List.filter_congr fun b _ => ?_
              exact decide_eq_decide.mpr (by rw [← hinsert, List.mem_toFinset])
            have hstep : Step next (collected.toFinset, ↑(a :: queue))
                ((collected ++ [a]).toFinset,
                  ↑((next a).filter (· ∉ collected ++ [a]) ++ queue)) := by
              rw [hinsert, hfilter, ← Multiset.coe_add, ← Multiset.cons_coe]
              exact .new fun hmem => hseen (List.mem_toFinset.mp hmem)
            obtain ⟨hmem, hlt⟩ := hstep.measure_lt hW fun b hb => hqueue b (Multiset.mem_coe.mp hb)
            rw [loop, if_neg hseen]
            exact .head hstep (ih _ _ (fun b hb => hmem b (Multiset.mem_coe.mpr hb)) (by omega))

end Worklist
