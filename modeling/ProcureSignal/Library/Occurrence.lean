/-
# Where a phrase occurs

A phrase is found in a text where the text splits into what is before it, the phrase, and what is
after it, with no character of the class on either side; and what a map of characters to texts makes
of a text splits where the text does, unless inside of the image of one character.

* `Regex.search_phrase_iff` : **a phrase is found at an occurrence**;
* `exists_split_flatMap` : where the image of a text splits.
-/
import ProcureSignal.Library.Regex

namespace Regex

/-! ## Literal texts -/

/-- A literal text ends after its characters. -/
theorem mem_ends_literal {cs : List Char} {c e : Cursor} :
    e ∈ (literal cs).ends c ↔ c.rest = cs ++ e.rest ∧ e.before = cs.getLast?.or c.before := by
  induction cs generalizing c with
  | nil =>
      obtain ⟨before, rest⟩ := c
      obtain ⟨before', rest'⟩ := e
      simp only [literal, List.foldr_nil, ends, if_true, List.mem_singleton, Cursor.mk.injEq,
        List.nil_append, List.getLast?_nil, Option.none_or]
      constructor
      · rintro ⟨rfl, rfl⟩
        exact ⟨rfl, rfl⟩
      · rintro ⟨rfl, rfl⟩
        exact ⟨rfl, rfl⟩
  | cons d cs ih =>
      obtain ⟨before, rest⟩ := c
      have hstep : (literal (d :: cs)).ends ⟨before, rest⟩ =
          ((Regex.char (· = d)).ends ⟨before, rest⟩).flatMap (literal cs).ends := rfl
      have hlast : (d :: cs).getLast?.or before = cs.getLast?.or (some d) := by
        cases cs with
        | nil => rfl
        | cons f cs =>
            rw [List.getLast?_cons_cons, List.getLast?_cons, Option.some_or, Option.some_or]
      rw [hstep, hlast]
      cases rest with
      | nil => simp [ends]
      | cons f rest =>
          by_cases heq : f = d
          · subst heq
            simp only [ends, decide_true, if_true, List.flatMap_cons, List.flatMap_nil,
              List.append_nil, ih, List.cons_append, List.cons.injEq, true_and]
          · simp [ends, heq]

/-- Where a phrase can start. -/
theorem ends_phrase_ne_nil {p : Char → Bool} {text : String} {c : Cursor} :
    ((phrase p text).ends c).isEmpty = false ↔
      c.before.any p = false ∧
        ∃ after, c.rest = text.toList ++ after ∧ after.head?.any p = false := by
  have hends : (phrase p text).ends c = ((Regex.look fun before _ => !before.any p).ends c).flatMap
      fun d => ((literal text.toList).ends d).flatMap
        (Regex.look fun _ after => !after.any p).ends := rfl
  rw [hends, List.isEmpty_eq_false_iff_exists_mem]
  constructor
  · rintro ⟨e, he⟩
    obtain ⟨d, hd, hlater⟩ := List.mem_flatMap.mp he
    obtain ⟨f, hf, hend⟩ := List.mem_flatMap.mp hlater
    simp only [ends] at hd hend
    split at hd
    · rename_i hbefore
      rw [List.mem_singleton] at hd
      subst hd
      split at hend
      · rename_i hafter
        exact ⟨by simpa using hbefore, f.rest, (mem_ends_literal.mp hf).1, by simpa using hafter⟩
      · exact absurd hend List.not_mem_nil
    · exact absurd hd List.not_mem_nil
  · rintro ⟨hbefore, after, hrest, hafter⟩
    refine ⟨⟨text.toList.getLast?.or c.before, after⟩, List.mem_flatMap.mpr ⟨c, ?_,
      List.mem_flatMap.mpr ⟨⟨text.toList.getLast?.or c.before, after⟩,
        mem_ends_literal.mpr ⟨hrest, rfl⟩, ?_⟩⟩⟩
    · simp [ends, hbefore]
    · simp [ends, hafter]

/-! ## Searching -/

theorem searchFrom_phrase_iff {p : Char → Bool} {text : String} (before : Option Char)
    (s : List Char) :
    (phrase p text).searchFrom before s = true ↔
      ∃ a c, s = a ++ text.toList ++ c ∧ (a.getLast?.or before).any p = false ∧
        c.head?.any p = false := by
  induction s generalizing before with
  | nil =>
      rw [searchFrom, Bool.not_eq_true', ends_phrase_ne_nil]
      constructor
      · rintro ⟨hbefore, after, hrest, hafter⟩
        exact ⟨[], after, hrest, hbefore, hafter⟩
      · rintro ⟨a, c, hsplit, hbefore, hafter⟩
        obtain ⟨hac, rfl⟩ := List.append_eq_nil_iff.mp hsplit.symm
        obtain ⟨rfl, htext⟩ := List.append_eq_nil_iff.mp hac
        exact ⟨hbefore, [], by rw [htext]; rfl, rfl⟩
  | cons d s ih =>
      rw [searchFrom, Bool.or_eq_true, Bool.not_eq_true', ends_phrase_ne_nil, ih]
      constructor
      · rintro (⟨hbefore, after, hrest, hafter⟩ | ⟨a, c, hsplit, hbefore, hafter⟩)
        · exact ⟨[], after, hrest, hbefore, hafter⟩
        · refine ⟨d :: a, c, by rw [hsplit]; rfl, ?_, hafter⟩
          rw [List.getLast?_cons, Option.some_or, ← hbefore]
          cases a.getLast? <;> rfl
      · rintro ⟨a, c, hsplit, hbefore, hafter⟩
        cases a with
        | nil => exact Or.inl ⟨hbefore, c, hsplit, hafter⟩
        | cons e a =>
            obtain ⟨rfl, hrest⟩ := List.cons.inj hsplit
            refine Or.inr ⟨a, c, hrest, ?_, hafter⟩
            rw [List.getLast?_cons, Option.some_or] at hbefore
            rw [← hbefore]
            cases a.getLast? <;> rfl

/-- **A phrase is found at an occurrence.** -/
theorem search_phrase_iff {p : Char → Bool} {text s : String} :
    (phrase p text).search s = true ↔
      ∃ a c, s.toList = a ++ text.toList ++ c ∧ a.getLast?.any p = false ∧
        c.head?.any p = false := by
  rw [search, searchFrom_phrase_iff]
  simp only [Option.or_none]

end Regex

/-! ## Images of texts -/

/-- The image of a text splits where the text does, or inside of the image of a character. -/
theorem exists_split_flatMap {α β : Type} {f : α → List β} (l : List α) {x y : List β}
    (h : l.flatMap f = x ++ y) :
    (∃ a b, l = a ++ b ∧ a.flatMap f = x ∧ b.flatMap f = y) ∨
      ∃ c u v u' v', f c = u ++ v ∧ u ≠ [] ∧ v ≠ [] ∧ x = u' ++ u ∧ y = v ++ v' := by
  induction l generalizing x with
  | nil =>
      obtain ⟨rfl, rfl⟩ := List.append_eq_nil_iff.mp h.symm
      exact Or.inl ⟨[], [], rfl, rfl, rfl⟩
  | cons c l ih =>
      rw [List.flatMap_cons] at h
      rcases List.append_eq_append_iff.mp h with ⟨x', rfl, hrest⟩ | ⟨v, hc, rfl⟩
      · rcases ih hrest with ⟨a, b, rfl, ha, hb⟩ | ⟨d, u, v, u', v', hd, hu, hv, rfl, rfl⟩
        · exact Or.inl ⟨c :: a, b, rfl, by rw [List.flatMap_cons, ha], hb⟩
        · exact Or.inr ⟨d, u, v, f c ++ u', v', hd, hu, hv, (List.append_assoc _ _ _).symm, rfl⟩
      · by_cases hv : v = []
        · subst hv
          rw [List.append_nil] at hc
          exact Or.inl ⟨[c], l, rfl, by rw [List.flatMap_cons, hc]; simp, rfl⟩
        · by_cases hx : x = []
          · subst hx
            exact Or.inl ⟨[], c :: l, rfl, rfl, by rw [List.flatMap_cons, hc]; rfl⟩
          · exact Or.inr ⟨c, x, v, [], l.flatMap f, hc, hx, hv, rfl, rfl⟩
