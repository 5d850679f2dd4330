/-
# First occurrences

A loop that appends the elements that are not in its result yet leaves the first occurrences of a
list, `List.eraseDups`, in their order.

* `appendNew_eq` : **the loop**;
* `nodup_eraseDups`, `eraseDups_eq_self` : no element is there twice, and a list without duplicates
  stays as it is;
* `idxOf_eraseDups_lt_iff` : **elements stand in the order of their first occurrences**.
-/
import Mathlib

universe u

namespace FirstOccurrences

variable {α : Type u} [DecidableEq α]

/-- Append the elements that are not there yet, one after the other. -/
def appendNew (acc : List α) : List α → List α
  | [] => acc
  | a :: l => appendNew (if a ∈ acc then acc else acc ++ [a]) l

/-! ## The loop -/

/-- **The loop** appends the first occurrences of what was not there. -/
theorem appendNew_eq (acc l : List α) :
    appendNew acc l = acc ++ (l.filter fun a => a ∉ acc).eraseDups := by
  induction l generalizing acc with
  | nil => exact (List.append_nil acc).symm
  | cons a l ih =>
      rw [appendNew, ih]
      by_cases ha : a ∈ acc
      · rw [if_pos ha, List.filter_cons_of_neg (by simpa using ha)]
      · rw [if_neg ha, List.filter_cons_of_pos (by simpa using ha), List.eraseDups_cons,
          List.filter_filter, List.append_assoc, List.singleton_append]
        refine congrArg (fun m => acc ++ a :: List.eraseDups m) (List.filter_congr fun b _ => ?_)
        by_cases hb : b = a
        · simp [hb]
        · simp [hb]

theorem appendNew_nil (l : List α) : appendNew [] l = l.eraseDups := by
  rw [appendNew_eq, List.nil_append]
  refine congrArg List.eraseDups (List.filter_eq_self.mpr fun a _ => ?_)
  exact decide_eq_true List.not_mem_nil

/-! ## Duplicates -/

/-- Induction on a list and on what is left of its tail without its head. -/
theorem eraseDups_induction {motive : List α → Prop} (nil : motive [])
    (cons : ∀ a l, motive (l.filter fun b => !b == a) → motive (a :: l)) (l : List α) :
    motive l := by
  induction hlength : l.length using Nat.strong_induction_on generalizing l with
  | _ n ih =>
      cases l with
      | nil => exact nil
      | cons a l =>
          subst hlength
          exact cons a l (ih _ (Nat.lt_succ_of_le (List.length_filter_le _ l)) _ rfl)

theorem nodup_eraseDups (l : List α) : l.eraseDups.Nodup := by
  induction l using eraseDups_induction with
  | nil => exact List.nodup_nil
  | cons a l ih =>
      rw [List.eraseDups_cons]
      refine List.nodup_cons.mpr ⟨fun ha => ?_, ih⟩
      have hfilter := List.mem_filter.mp (List.mem_eraseDups.mp ha)
      simp at hfilter

theorem eraseDups_sublist (l : List α) : l.eraseDups.Sublist l := by
  induction l using eraseDups_induction with
  | nil => exact .refl []
  | cons a l ih =>
      rw [List.eraseDups_cons]
      exact (ih.trans List.filter_sublist).cons_cons a

/-- A list without duplicates stays as it is. -/
theorem eraseDups_eq_self {l : List α} (h : l.Nodup) : l.eraseDups = l := by
  refine (eraseDups_sublist l).eq_of_length_le ?_
  exact (h.subperm fun _ ha => List.mem_eraseDups.mpr ha).length_le

/-! ## Order -/

/-- Which of two elements is first, behind a head. -/
theorem idxOf_cons_lt_iff {a b c : α} {l : List α} :
    (c :: l).idxOf a < (c :: l).idxOf b ↔ b ≠ c ∧ (a = c ∨ l.idxOf a < l.idxOf b) := by
  by_cases hb : c = b
  · subst hb
    rw [List.idxOf_cons_self]
    exact iff_of_false (Nat.not_lt_zero _) fun h => h.1 rfl
  · rw [List.idxOf_cons_ne l hb, and_iff_right (Ne.symm hb)]
    by_cases ha : c = a
    · subst ha
      rw [List.idxOf_cons_self]
      exact iff_of_true (Nat.succ_pos _) (Or.inl rfl)
    · rw [List.idxOf_cons_ne l ha, Nat.succ_lt_succ_iff, or_iff_right (Ne.symm ha)]

/-- Leaving other elements out keeps the order of first occurrences. -/
theorem idxOf_filter_lt_iff {p : α → Bool} {a b : α} (ha : p a = true) (hb : p b = true)
    (l : List α) : (l.filter p).idxOf a < (l.filter p).idxOf b ↔ l.idxOf a < l.idxOf b := by
  induction l with
  | nil => rfl
  | cons c l ih =>
      by_cases hc : p c = true
      · rw [List.filter_cons_of_pos hc, idxOf_cons_lt_iff, idxOf_cons_lt_iff, ih]
      · have hac : a ≠ c := fun heq => hc (heq ▸ ha)
        have hbc : b ≠ c := fun heq => hc (heq ▸ hb)
        rw [List.filter_cons_of_neg hc, ih, idxOf_cons_lt_iff, and_iff_right hbc,
          or_iff_right hac]

/-- **Elements stand in the order of their first occurrences.** -/
theorem idxOf_eraseDups_lt_iff (a b : α) (l : List α) :
    l.eraseDups.idxOf a < l.eraseDups.idxOf b ↔ l.idxOf a < l.idxOf b := by
  induction l using eraseDups_induction with
  | nil => rfl
  | cons c l ih =>
      rw [List.eraseDups_cons, idxOf_cons_lt_iff, idxOf_cons_lt_iff, ih]
      refine and_congr_right fun hb => or_congr_right' fun ha => ?_
      exact idxOf_filter_lt_iff (by simpa using ha) (by simpa using hb) l

end FirstOccurrences
