/-
# Texts joined by a delimiter

Two texts with a delimiter between them can be read in more than one way when the delimiter is
part of a text.

* `append_cons_eq_iff` : **the ways in which two joined lists are the same**;
* `joined_eq_iff` : the same for texts;
* `joined_inj_right` : read from the last delimiter, when the second text has none.
-/
import Mathlib

namespace Delimited

/-! ## Lists -/

section Lists

variable {α : Type*} {c : α} {l r l' r' : List α}

/-- **Two pairs joined at a delimiter** are the same, or one of the delimiters stands in a part of
the other. -/
theorem append_cons_eq_iff :
    l ++ c :: r = l' ++ c :: r' ↔ (l = l' ∧ r = r') ∨
      (∃ x, l' = l ++ c :: x ∧ r = x ++ c :: r') ∨ ∃ x, l = l' ++ c :: x ∧ r' = x ++ c :: r := by
  rw [List.append_eq_append_iff]
  constructor
  · rintro (⟨between, hl, hr⟩ | ⟨between, hl, hr⟩)
    · cases between with
      | nil =>
          rw [List.append_nil] at hl
          exact Or.inl ⟨hl.symm, (List.cons.inj hr).2⟩
      | cons d x =>
          rw [List.cons_append, List.cons.injEq] at hr
          obtain ⟨rfl, hr⟩ := hr
          exact Or.inr (Or.inl ⟨x, hl, hr⟩)
    · cases between with
      | nil =>
          rw [List.append_nil] at hl
          exact Or.inl ⟨hl, (List.cons.inj hr).2.symm⟩
      | cons d x =>
          rw [List.cons_append, List.cons.injEq] at hr
          obtain ⟨rfl, hr⟩ := hr
          exact Or.inr (Or.inr ⟨x, hl, hr⟩)
  · rintro (⟨rfl, rfl⟩ | ⟨x, rfl, rfl⟩ | ⟨x, rfl, rfl⟩)
    · exact Or.inl ⟨[], (List.append_nil l).symm, rfl⟩
    · exact Or.inl ⟨c :: x, rfl, rfl⟩
    · exact Or.inr ⟨c :: x, rfl, rfl⟩

end Lists

/-! ## Texts -/

section Texts

variable {c : Char} {s t s' t' : String}

/-- Two texts with a delimiter between them. -/
def joined (c : Char) (s t : String) : String := s ++ String.singleton c ++ t

@[simp] theorem toList_joined : (joined c s t).toList = s.toList ++ c :: t.toList := by
  simp [joined]

/-- **Two texts joined by a delimiter** in two ways. -/
theorem joined_eq_iff :
    joined c s t = joined c s' t' ↔ (s = s' ∧ t = t') ∨
      (∃ x, s' = joined c s x ∧ t = joined c x t') ∨
        ∃ x, s = joined c s' x ∧ t' = joined c x t := by
  have htext : ∀ {a b : String} {cs : List Char}, a.toList = b.toList ++ c :: cs ↔
      a = joined c b (String.ofList cs) := by
    intro a b cs
    rw [← String.toList_inj, toList_joined, String.toList_ofList]
  have htext' : ∀ {a b : String} {cs : List Char}, a.toList = cs ++ c :: b.toList ↔
      a = joined c (String.ofList cs) b := by
    intro a b cs
    rw [← String.toList_inj, toList_joined, String.toList_ofList]
  rw [← String.toList_inj, toList_joined, toList_joined, append_cons_eq_iff, String.toList_inj,
    String.toList_inj]
  simp only [htext, htext']
  have hsurjective : ∀ {P : String → Prop}, (∃ cs, P (String.ofList cs)) ↔ ∃ x, P x := fun {P} =>
    ⟨fun ⟨cs, h⟩ => ⟨_, h⟩, fun ⟨x, h⟩ => ⟨x.toList, by rwa [String.ofList_toList]⟩⟩
  rw [@hsurjective fun x => s' = joined c s x ∧ t = joined c x t',
    @hsurjective fun x => s = joined c s' x ∧ t' = joined c x t]

theorem mem_joined : c ∈ (joined c s t).toList := by simp

/-- A text without the delimiter is the first part of no joined text but in one way. -/
theorem joined_eq_iff_of_not_mem (ht : c ∉ t.toList) :
    joined c s t = joined c s' t' ↔
      (s = s' ∧ t = t') ∨ ∃ x, s = joined c s' x ∧ t' = joined c x t := by
  rw [joined_eq_iff]
  refine or_congr_right ⟨fun h => h.resolve_left ?_, Or.inr⟩
  rintro ⟨x, -, rfl⟩
  exact ht mem_joined

/-- **Joined texts are read from the last delimiter.** -/
theorem joined_inj_right (ht : c ∉ t.toList) (ht' : c ∉ t'.toList) :
    joined c s t = joined c s' t' ↔ s = s' ∧ t = t' := by
  rw [joined_eq_iff_of_not_mem ht]
  refine ⟨fun h => h.resolve_right ?_, Or.inl⟩
  rintro ⟨x, -, rfl⟩
  exact ht' mem_joined

/-- **Joined texts are read up to the first delimiter.** -/
theorem joined_inj_left (hs : c ∉ s.toList) (hs' : c ∉ s'.toList) :
    joined c s t = joined c s' t' ↔ s = s' ∧ t = t' := by
  rw [joined_eq_iff]
  refine ⟨fun h => ?_, Or.inl⟩
  rcases h with h | ⟨x, rfl, -⟩ | ⟨x, rfl, -⟩
  · exact h
  · exact absurd mem_joined hs'
  · exact absurd mem_joined hs

/-- The second text is what follows the first. -/
theorem joined_right_inj : joined c s t = joined c s t' ↔ t = t' :=
  ⟨fun h => (String.append_right_inj _).mp h, fun h => congrArg _ h⟩

/-- A joined text whose parts have no other delimiter. -/
theorem joined_eq_joined_iff_of_not_mem (hs : c ∉ s'.toList) (ht : c ∉ t'.toList) :
    joined c s t = joined c s' t' ↔ s = s' ∧ t = t' := by
  rw [joined_eq_iff]
  refine ⟨fun h => ?_, Or.inl⟩
  rcases h with h | ⟨x, rfl, -⟩ | ⟨x, -, rfl⟩
  · exact h
  · exact absurd mem_joined hs
  · exact absurd mem_joined ht

end Texts

end Delimited
