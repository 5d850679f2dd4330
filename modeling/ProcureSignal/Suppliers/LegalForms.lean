/-
# Stripping legal forms

`strip_legal_form` of `suppliers/normalization.py` as a normal form: removals of legal forms from
the end of the tokens come to an end, and what is left is a name without a trailing legal form.

* `stripLegalFormLoop_eq_strip` : the loop removes groups of tokens;
* `Stripped` : the tokens that are left, and the groups that were removed;
* `stripped_stripLegalForm` : **stripping leaves a normal form**;
* `stripLegalForm_normalForm` : it comes to an end, and stripping twice is stripping once.
-/
import ProcureSignal.Library.Stripping
import ProcureSignal.Suppliers.Tokens

namespace ProcureSignal.Suppliers

variable {U : Unicode}

/-! ## Groups of tokens -/

/-- Tokens that, joined, are a legal form. -/
def IsLegalForm (group : List String) : Prop := String.join group ∈ legalForms

instance : DecidablePred IsLegalForm := fun group =>
  inferInstanceAs (Decidable (String.join group ∈ legalForms))

/-- One round of the `while True` loop. -/
def Round (before after : List String) : Prop :=
  ∃ size, legalSuffix? before = some size ∧ after = before.take (before.length - size)

theorem legalSuffix?_eq_longest? (parts : List String) :
    legalSuffix? parts = Stripping.longest? maximumFormTokens IsLegalForm parts := rfl

/-- A round is a removal. -/
theorem round_eq_removal : Round = Stripping.Removal maximumFormTokens IsLegalForm := rfl

/-- **The loop** removes groups of tokens. -/
theorem stripLegalFormLoop_eq_strip (n : ℕ) (parts : List String) :
    stripLegalFormLoop n parts = Stripping.strip maximumFormTokens IsLegalForm n parts := by
  induction n generalizing parts with
  | zero => rfl
  | succ n ih =>
      rw [stripLegalFormLoop, Stripping.strip, legalSuffix?_eq_longest?]
      cases Stripping.longest? maximumFormTokens IsLegalForm parts with
      | none => rfl
      | some size => exact ih _

/-! ## Normal forms -/

/-- The tokens of a name that are left, and the groups that were removed behind them, each a legal
form of one to three tokens; no such group is left behind a token. -/
structure Stripped (tokens kept : List String) (groups : List (List String)) : Prop where
  tokens_eq : tokens = kept ++ groups.flatten
  group : ∀ g ∈ groups, 0 < g.length ∧ g.length ≤ maximumFormTokens ∧ IsLegalForm g
  ne_nil : tokens ≠ [] → kept ≠ []
  normal : ∀ front g, kept = front ++ g → front ≠ [] → g ≠ [] → g.length ≤ maximumFormTokens →
    ¬ IsLegalForm g

/-- What the rounds come to. -/
theorem Stripped.of_rounds {tokens kept : List String}
    (h : Relation.ReflTransGen Round tokens kept) (hnone : legalSuffix? kept = none) :
    ∃ groups, Stripped tokens kept groups := by
  rw [round_eq_removal] at h
  obtain ⟨hne, groups, heq, hgroups⟩ := Stripping.Removals.exists_groups h
  exact ⟨groups, heq, hgroups, hne, Stripping.longest?_eq_none_iff.mp hnone⟩

/-- The tokens that stripping leaves. -/
def keptTokens (U : Unicode) (normalized : String) : List String :=
  stripLegalFormLoop (U.split normalized).length (U.split normalized)

theorem rounds_keptTokens (normalized : String) :
    Relation.ReflTransGen Round (U.split normalized) (keptTokens U normalized) := by
  rw [keptTokens, stripLegalFormLoop_eq_strip, round_eq_removal]
  exact Stripping.removals_strip _ _

/-- The last round finds no legal form. -/
theorem legalSuffix?_keptTokens (normalized : String) :
    legalSuffix? (keptTokens U normalized) = none := by
  rw [keptTokens, stripLegalFormLoop_eq_strip, legalSuffix?_eq_longest?]
  exact Stripping.strip_normal le_rfl

/-- **Stripping leaves a normal form.** -/
theorem stripped_stripLegalForm (normalized : String) :
    ∃ groups, Stripped (U.split normalized) (keptTokens U normalized) groups :=
  Stripped.of_rounds (rounds_keptTokens normalized) (legalSuffix?_keptTokens normalized)

/-- The tokens of a stripped name. -/
theorem split_stripLegalForm (normalized : String) :
    U.split (stripLegalForm U normalized) = keptTokens U normalized := by
  obtain ⟨groups, h⟩ := @stripped_stripLegalForm U normalized
  refine Unicode.split_joined fun w hw => Unicode.solid_split normalized w ?_
  rw [h.tokens_eq]
  exact List.mem_append_left _ hw

/-- Stripping twice is stripping once. -/
theorem stripLegalForm_stripLegalForm (normalized : String) :
    stripLegalForm U (stripLegalForm U normalized) = stripLegalForm U normalized := by
  have hnone : Stripping.longest? maximumFormTokens IsLegalForm (keptTokens U normalized) = none :=
    legalSuffix?_keptTokens normalized
  rw [stripLegalForm, split_stripLegalForm, stripLegalFormLoop_eq_strip,
    Stripping.strip_of_normal hnone]
  rfl

/-- A normalized name that is not empty has tokens. -/
theorem split_normalize_ne_nil {name : String} (hne : normalize U name ≠ "") :
    U.split (normalize U name) ≠ [] := by
  intro hnil
  rw [split_normalize] at hnil
  refine hne ?_
  rw [normalize, U.split_subNonAlphanumeric, hnil]
  rfl

/-- **Stripping is a well-founded normal form.**  Rounds of the loop come to an end, wherever they
start.  From the tokens of a name they come to the tokens that are left, where the next round finds
no legal form: a prefix, followed by groups of one to three tokens that are legal forms each, not
empty when the name is not, with no such group behind a token.  The name that is returned has these
tokens, and stripping it changes nothing. -/
theorem stripLegalForm_normalForm (normalized : String) :
    WellFounded (fun after before => Round before after) ∧
    (∃ kept groups, Relation.ReflTransGen Round (U.split normalized) kept ∧
      legalSuffix? kept = none ∧ Stripped (U.split normalized) kept groups ∧
      stripLegalForm U normalized = " ".intercalate kept ∧
      U.split (stripLegalForm U normalized) = kept ∧ kept <+: U.split normalized) ∧
    (∀ name, normalized = normalize U name → normalized ≠ "" → stripLegalForm U normalized ≠ "") ∧
    stripLegalForm U (stripLegalForm U normalized) = stripLegalForm U normalized := by
  obtain ⟨groups, hstripped⟩ := @stripped_stripLegalForm U normalized
  refine ⟨round_eq_removal ▸ Stripping.wellFounded_removal, ⟨keptTokens U normalized, groups,
    rounds_keptTokens normalized, legalSuffix?_keptTokens normalized, hstripped, rfl,
    split_stripLegalForm normalized, ?_⟩, ?_, stripLegalForm_stripLegalForm normalized⟩
  · rw [hstripped.tokens_eq]
    exact List.prefix_append ..
  · rintro name rfl hne hempty
    refine hstripped.ne_nil (split_normalize_ne_nil hne) ?_
    rw [← split_stripLegalForm, hempty]
    exact U.split_eq_nil (by simp)

example : stripLegalForm Unicode.ascii "hon hai precision industry co ltd" =
    "hon hai precision industry" := by
  decide +kernel

end ProcureSignal.Suppliers
