/-
# Category sets

The categories of a preference are made canonical when they are written and again whenever they are
read, by `personalization/preference_manager.py`, the response of the preference routes and
`personalization/matcher.py`.

* `iterate_canonicalCategoryList` : any number of times is once;
* `preferredCategories_of_write` : **what is written is what every reader sees**;
* `meet_canonicalCategoryList_iff` : two sets meet in the values of one canonical form, when it is
  not empty;
* `categories_projection` : **canonicalization is a projection**.
-/
import ProcureSignal.Personalization.CanonicalForms
import ProcureSignal.Personalization.Exclusions
import ProcureSignal.Personalization.PreferenceManager

namespace ProcureSignal.Personalization

open PreferenceMatcher (articleCategories preferredCategories)
open PreferenceManager (Arguments createOrUpdatePreference PreferenceStore)
open ProcureSignal.Signals (TermLaws)

attribute [local irreducible] canonicalCategory canonicalCategoryList

variable {U : Unicode}

/-! ## Reading and writing -/

/-- **Any number of canonicalizations** is one. -/
theorem iterate_canonicalCategoryList (laws : TermLaws U) (values : List String) (n : ℕ) :
    (canonicalCategoryList U)^[n + 1] values = canonicalCategoryList U values := by
  induction n with
  | zero => rfl
  | succ n ih =>
      rw [Function.iterate_succ_apply', ih]
      exact canonicalCategoryList_canonicalCategoryList laws values

/-- **What is written** is canonical, and every reader sees the same. -/
theorem preferredCategories_of_write (laws : TermLaws U) {db : Database}
    {st st' : PreferenceStore} {userId : String} {a : Arguments} {values : List String}
    (h : createOrUpdatePreference U db st userId a = some st')
    (hvalues : a.preferredCategories = some values) :
    ∃ p, st'.getPreference userId = some p ∧
      (∀ n, (canonicalCategoryList U)^[n] p.preference.preferredCategories =
        canonicalCategoryList U values) ∧
      preferredCategories U p.preference = canonicalCategoryList U values := by
  have hsaved := (PreferenceManager.createOrUpdatePreference_eq_some h).1 userId
  rw [if_pos rfl] at hsaved
  have hcategories :
      (PreferenceManager.savedPreference U db st userId a).preference.preferredCategories =
        canonicalCategoryList U values := by
    unfold PreferenceManager.savedPreference PreferenceManager.resolveSupplierIds
    cases st.getPreference userId with
    | some p =>
        show ((a.preferredCategories.map (canonicalCategoryList U)).getD _) = _
        rw [hvalues]
        rfl
    | none =>
        show ((a.preferredCategories.map (canonicalCategoryList U)).getD _) = _
        rw [hvalues]
        rfl
  refine ⟨_, hsaved, fun n => ?_, ?_⟩
  · rw [hcategories]
    cases n with
    | zero => rfl
    | succ n =>
        rw [iterate_canonicalCategoryList laws]
        exact canonicalCategoryList_canonicalCategoryList laws values
  · rw [preferredCategories, hcategories]
    exact canonicalCategoryList_canonicalCategoryList laws values

/-! ## Matching -/

/-- **Two sets meet** in the values of one canonical form that is not empty. -/
theorem meet_canonicalCategoryList_iff (xs ys : List String) :
    meet (canonicalCategoryList U xs) (canonicalCategoryList U ys) = true ↔
      ∃ x ∈ xs, ∃ y ∈ ys, canonicalCategory U x = canonicalCategory U y ∧
        canonicalCategory U y ≠ "" := by
  rw [meet_eq_true]
  constructor
  · rintro ⟨category, hxs, hys⟩
    obtain ⟨hne, x, hx, rfl⟩ := mem_canonicalCategoryList.mp hxs
    obtain ⟨-, y, hy, heq⟩ := mem_canonicalCategoryList.mp hys
    exact ⟨x, hx, y, hy, heq.symm, heq.symm ▸ hne⟩
  · rintro ⟨x, hx, y, hy, heq, hne⟩
    exact ⟨canonicalCategory U y, mem_canonicalCategoryList.mpr ⟨hne, x, hx, heq⟩,
      mem_canonicalCategoryList.mpr ⟨hne, y, hy, rfl⟩⟩

/-- A set that is stored has no empty form. -/
theorem meet_stored_iff (laws : TermLaws U) (xs values : List String) :
    meet (canonicalCategoryList U xs)
        (canonicalCategoryList U (canonicalCategoryList U values)) = true ↔
      ∃ x ∈ xs, ∃ y ∈ canonicalCategoryList U values,
        canonicalCategory U x = canonicalCategory U y := by
  have hself : ∀ y ∈ canonicalCategoryList U values, canonicalCategory U y ≠ "" := by
    intro y hy
    obtain ⟨hne, value, -, rfl⟩ := mem_canonicalCategoryList.mp hy
    rwa [canonicalCategory_canonicalCategory laws]
  rw [meet_canonicalCategoryList_iff]
  constructor
  · rintro ⟨x, hx, y, hy, heq, -⟩
    exact ⟨x, hx, y, hy, heq⟩
  · rintro ⟨x, hx, y, hy, heq⟩
    exact ⟨x, hx, y, hy, heq, hself y hy⟩

/-- **Canonicalization is a projection.**  Of categories; of lists of them, without duplicates and
in the order of first occurrences; so two sets compare as they do after any number of
canonicalizations, and what is written is what every reader sees.  The categories of an article meet
those of a preference exactly when a form of the two is the same and not empty, which no form in a
stored set is. -/
theorem categories_projection (laws : TermLaws U) :
    (∀ value, canonicalCategory U (canonicalCategory U value) = canonicalCategory U value) ∧
    (∀ values, canonicalCategoryList U (canonicalCategoryList U values) =
        canonicalCategoryList U values ∧
      (canonicalCategoryList U values).Nodup ∧
      ∀ a ∈ canonicalCategoryList U values, ∀ b ∈ canonicalCategoryList U values,
        ((canonicalCategoryList U values).idxOf a < (canonicalCategoryList U values).idxOf b ↔
          (values.map (canonicalCategory U)).idxOf a <
            (values.map (canonicalCategory U)).idxOf b)) ∧
    (∀ values values' m n,
      (∀ c, c ∈ (canonicalCategoryList U)^[m + 1] values ↔
        c ∈ (canonicalCategoryList U)^[n + 1] values') ↔
      ∀ c, c ∈ canonicalCategoryList U values ↔ c ∈ canonicalCategoryList U values') ∧
    (∀ db st st' userId a values, createOrUpdatePreference U db st userId a = some st' →
      a.preferredCategories = some values →
      ∃ p, st'.getPreference userId = some p ∧
        (∀ n, (canonicalCategoryList U)^[n] p.preference.preferredCategories =
          canonicalCategoryList U values) ∧
        preferredCategories U p.preference = canonicalCategoryList U values) ∧
    (∀ article preference,
      meet (articleCategories U article) (preferredCategories U preference) = true ↔
        ∃ x ∈ article.topLevelCategory :: article.detectedCategories.getD [],
        ∃ y ∈ preference.preferredCategories,
          canonicalCategory U x = canonicalCategory U y ∧ canonicalCategory U y ≠ "") ∧
    ∀ article preference values,
      preference.preferredCategories = canonicalCategoryList U values →
      (meet (articleCategories U article) (preferredCategories U preference) = true ↔
        ∃ x ∈ article.topLevelCategory :: article.detectedCategories.getD [],
        ∃ y ∈ preference.preferredCategories,
          canonicalCategory U x = canonicalCategory U y) := by
  refine ⟨canonicalCategory_canonicalCategory laws, fun values =>
    ⟨canonicalCategoryList_canonicalCategoryList laws values, nodup_canonicalCategoryList values,
      fun a ha b hb => ?_⟩, fun values values' m n => ?_, fun db st st' userId a values h hvalues =>
    preferredCategories_of_write laws h hvalues, fun article preference =>
    meet_canonicalCategoryList_iff .., fun article preference values hstored => ?_⟩
  · exact idxOf_canonicalCategoryList_lt_iff (mem_canonicalCategoryList.mp ha).1
      (mem_canonicalCategoryList.mp hb).1
  · rw [iterate_canonicalCategoryList laws, iterate_canonicalCategoryList laws]
  · rw [preferredCategories, hstored]
    exact meet_stored_iff laws _ values

/-- A spelling, its form, and the form of the form. -/
theorem spelling_projected : canonicalCategory .ascii "Raw-Materials" = "raw_materials" ∧
    canonicalCategory .ascii (canonicalCategory .ascii "Raw-Materials") =
      canonicalCategory .ascii "Raw-Materials" :=
  ⟨by decide +kernel, (categories_projection Signals.ascii_termLaws).1 "Raw-Materials"⟩

/-- An article without a category. -/
def uncategorized : Article where
  normalizedTitle := "Port strike"
  summary := "Dock workers walk out."
  topLevelCategory := ""
  signalTags := none
  prioritySignal := none
  detectedRegions := none
  detectedSuppliers := none
  detectedCategories := none
  processedAt := 0

/-- **Blank values** have one form, the empty one, and meet in no set. -/
theorem blank_not_met :
    (∃ x ∈ uncategorized.topLevelCategory :: uncategorized.detectedCategories.getD [],
      ∃ y ∈ ({ Preference.default with preferredCategories := [""] }).preferredCategories,
        canonicalCategory .ascii x = canonicalCategory .ascii y) ∧
    meet (articleCategories .ascii uncategorized)
      (preferredCategories .ascii { Preference.default with preferredCategories := [""] }) =
        false :=
  ⟨⟨"", List.mem_cons_self, "", List.mem_cons_self, rfl⟩, by decide +kernel⟩

end ProcureSignal.Personalization
