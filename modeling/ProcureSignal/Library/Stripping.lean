/-
# Removing groups from the end of a list

A removal takes away the longest group of at most `m` last elements that is among the groups `P`,
and leaves at least one element.  Removals are repeated until there is no such group.

* `wellFounded_removal` : removals come to an end;
* `strip` : what is left, with as many removals as are asked for;
* `strip_normal`, `removals_strip` : **enough removals leave a list without such a group**;
* `Removals.exists_groups` : what was removed is a sequence of groups.
-/
import Mathlib

universe u

namespace Stripping

variable {α : Type u} (m : ℕ) (P : List α → Prop) [DecidablePred P]

/-- The length of the longest group at the end, if there is one. -/
def longest? (l : List α) : Option ℕ :=
  (List.range' 1 (min m (l.length - 1))).reverse.find? fun k => P (l.drop (l.length - k))

/-- As many removals as there is fuel and there are groups. -/
def strip : ℕ → List α → List α
  | 0, l => l
  | n + 1, l =>
      match longest? m P l with
      | some k => strip n (l.take (l.length - k))
      | none => l

/-- One removal. -/
def Removal (l l' : List α) : Prop := ∃ k, longest? m P l = some k ∧ l' = l.take (l.length - k)

/-- Removals one after the other. -/
abbrev Removals : List α → List α → Prop := Relation.ReflTransGen (Removal m P)

variable {m P} {l l' : List α} {k n : ℕ}

/-- The lengths that are tried. -/
theorem mem_lengths : k ∈ (List.range' 1 (min m (l.length - 1))).reverse ↔
    0 < k ∧ k ≤ m ∧ k < l.length := by
  rw [List.mem_reverse, List.mem_range'_1]
  omega

/-- A group that is found. -/
theorem of_longest?_eq_some (h : longest? m P l = some k) :
    (0 < k ∧ k ≤ m ∧ k < l.length) ∧ P (l.drop (l.length - k)) := by
  have hP := List.find?_some h
  exact ⟨mem_lengths.mp (List.mem_of_find?_eq_some h), of_decide_eq_true hP⟩

/-- **A list without a group** at its end that leaves an element. -/
theorem longest?_eq_none_iff : longest? m P l = none ↔
    ∀ front g, l = front ++ g → front ≠ [] → g ≠ [] → g.length ≤ m → ¬ P g := by
  rw [longest?, List.find?_eq_none]
  constructor
  · rintro h front g rfl hfront hg hle hP
    have hfront_pos := List.length_pos_of_ne_nil hfront
    have hg_pos := List.length_pos_of_ne_nil hg
    have hlength : (front ++ g).length = front.length + g.length := List.length_append
    refine h g.length (mem_lengths.mpr ⟨hg_pos, hle, by omega⟩) (decide_eq_true ?_)
    have hdrop : (front ++ g).drop ((front ++ g).length - g.length) = g := by
      rw [hlength, Nat.add_sub_cancel, List.drop_left]
    rwa [hdrop]
  · intro h k hk hP
    obtain ⟨hpos, hle, hlt⟩ := mem_lengths.mp hk
    have hlength : (l.drop (l.length - k)).length = k := by
      rw [List.length_drop]
      omega
    refine h (l.take (l.length - k)) (l.drop (l.length - k)) (List.take_append_drop ..).symm ?_ ?_
      (hlength.trans_le hle) (of_decide_eq_true hP)
    · refine List.ne_nil_of_length_pos ?_
      rw [List.length_take]
      omega
    · exact List.ne_nil_of_length_pos (hlength.symm ▸ hpos)

/-! ## One removal -/

/-- A removal takes a group away and leaves an element. -/
theorem Removal.exists_group (h : Removal m P l l') :
    l' ≠ [] ∧ ∃ g, l = l' ++ g ∧ 0 < g.length ∧ g.length ≤ m ∧ P g := by
  obtain ⟨k, hk, rfl⟩ := h
  obtain ⟨⟨hpos, hle, hlt⟩, hP⟩ := of_longest?_eq_some hk
  have hlength : (l.drop (l.length - k)).length = k := by
    rw [List.length_drop]
    omega
  refine ⟨List.ne_nil_of_length_pos ?_, l.drop (l.length - k), (List.take_append_drop ..).symm, ?_,
    ?_, hP⟩
  · rw [List.length_take]
    omega
  · rwa [hlength]
  · rwa [hlength]

theorem Removal.length_lt (h : Removal m P l l') : l'.length < l.length := by
  obtain ⟨-, g, rfl, hpos, -⟩ := h.exists_group
  rw [List.length_append]
  omega

/-- **Removals come to an end.** -/
theorem wellFounded_removal : WellFounded fun l' l => Removal m P l l' :=
  Subrelation.wf (fun h => h.length_lt) (measure List.length).wf

/-! ## Repeated removals -/

/-- What is removed is a sequence of groups, and an element is left. -/
theorem Removals.exists_groups (h : Removals m P l l') :
    (l ≠ [] → l' ≠ []) ∧ ∃ groups : List (List α), l = l' ++ groups.flatten ∧
      ∀ g ∈ groups, 0 < g.length ∧ g.length ≤ m ∧ P g := by
  induction h with
  | refl => exact ⟨id, [], by rw [List.flatten_nil, List.append_nil], by simp⟩
  | tail _ hstep ih =>
      obtain ⟨-, groups, hgroups, hall⟩ := ih
      obtain ⟨hne, g, rfl, hg⟩ := hstep.exists_group
      refine ⟨fun _ => hne, g :: groups, ?_, List.forall_mem_cons.mpr ⟨hg, hall⟩⟩
      rw [List.flatten_cons, ← List.append_assoc]
      exact hgroups

/-- What is left is reached by removals. -/
theorem removals_strip (n : ℕ) (l : List α) : Removals m P l (strip m P n l) := by
  induction n generalizing l with
  | zero => exact .refl
  | succ n ih =>
      rw [strip]
      split
      · rename_i k hk
        exact .head ⟨k, hk, rfl⟩ (ih _)
      · exact .refl

/-- **Enough removals** leave a list without a group. -/
theorem strip_normal (h : l.length ≤ n) : longest? m P (strip m P n l) = none := by
  induction n generalizing l with
  | zero =>
      obtain rfl : l = [] := List.eq_nil_of_length_eq_zero (Nat.le_zero.mp h)
      exact longest?_eq_none_iff.mpr fun front g hl hfront =>
        absurd (List.append_eq_nil_iff.mp hl.symm).1 hfront
  | succ n ih =>
      rw [strip]
      split
      · rename_i k hk
        have hlt := Removal.length_lt ⟨k, hk, rfl⟩
        exact ih (by omega)
      · rename_i hnone
        exact hnone

/-- A list without a group stays as it is. -/
theorem strip_of_normal (h : longest? m P l = none) (n : ℕ) : strip m P n l = l := by
  cases n with
  | zero => rfl
  | succ n => rw [strip, h]

end Stripping
