/-
# Canonical forms of categories

`normalize_category_key`, `canonical_category` and `canonical_category_list` of
`personalization/categories.py`.  The canonical set, the aliases and the keywords all lead into the
canonical set, and a key that none of them knows is left as it was cleaned.

* `normalizeCategoryKey_normalizeCategoryKey` : a cleaned key is clean;
* `canonicalCategory_self` : a canonical category is its own category;
* `canonicalCategory_canonicalCategory` : **the map is a projection**;
* `canonicalCategoryList_eq` : the list is the first occurrences of the canonical forms;
* `canonicalCategoryList_canonicalCategoryList` : **so is the map of lists**.
-/
import ProcureSignal.Library.FirstOccurrences
import ProcureSignal.Library.Folding
import ProcureSignal.Personalization.Categories
import ProcureSignal.Signals.Terms

namespace ProcureSignal.Personalization

open FirstOccurrences
open ProcureSignal.Signals (TermLaws)

variable {U : Unicode}

/-! ## Joined words -/

/-- The characters of joined words. -/
theorem mem_joinWords {text : String} {c : Char} (h : c ∈ (joinWords U text).toList) :
    c = ' ' ∨ c ∈ text.toList := by
  rw [joinWords, String.toList_intercalate] at h
  rcases Unicode.mem_intercalate h with rfl | ⟨segment, hsegment, hc⟩
  · exact Or.inl rfl
  · obtain ⟨w, hw, rfl⟩ := List.mem_map.mp hsegment
    exact Or.inr ((Unicode.mem_split hw).2 c hc).1

/-- Joined words have no white space at the ends. -/
theorem ends_joined {ws : List String}
    (hws : ∀ w ∈ ws, w ≠ "" ∧ ∀ c ∈ w.toList, U.isSpace c = false) :
    (" ".intercalate ws).toList.head?.any U.isSpace = false ∧
      (" ".intercalate ws).toList.getLast?.any U.isSpace = false := by
  have hsolid : ∀ l : List Char, (∀ c ∈ l, U.isSpace c = false) →
      l.head?.any U.isSpace = false ∧ l.getLast?.any U.isSpace = false := by
    intro l hl
    constructor
    · cases hhead : l.head? with
      | none => rfl
      | some c => exact hl c (List.mem_of_head? hhead)
    · cases hlast : l.getLast? with
      | none => rfl
      | some c => exact hl c (List.mem_of_getLast? hlast)
  induction ws with
  | nil => exact ⟨rfl, rfl⟩
  | cons w ws ih =>
      obtain ⟨⟨hne, hw⟩, hrest⟩ := List.forall_mem_cons.mp hws
      cases ws with
      | nil =>
          rw [String.intercalate_singleton]
          exact hsolid _ hw
      | cons v ws =>
          obtain ⟨-, hlast⟩ := ih hrest
          have hnil : w.toList ≠ [] := fun h => hne (String.toList_eq_nil_iff.mp h)
          rw [String.intercalate_cons_cons, Unicode.toList_append_space,
            List.head?_append_of_ne_nil _ hnil]
          have hjoined : (" ".intercalate (v :: ws)).toList ≠ [] := by
            intro h
            have hsplit := Unicode.split_joined hrest
            rw [String.toList_eq_nil_iff.mp h, U.split_eq_nil (by simp)] at hsplit
            cases hsplit
          refine ⟨(hsolid _ hw).1, ?_⟩
          rwa [List.getLast?_append_of_ne_nil _ (List.cons_ne_nil _ _),
            List.getLast?_cons_of_ne_nil hjoined]

/-- Joined words are stripped. -/
theorem strip_joinWords (text : String) : U.strip (joinWords U text) = joinWords U text :=
  (Signals.strip_eq_self_iff _).mpr (ends_joined (Unicode.solid_split text))

/-- Joining joined words changes nothing. -/
theorem joinWords_joinWords (text : String) :
    joinWords U (joinWords U text) = joinWords U text := by
  rw [joinWords, joinWords, Unicode.split_joined (Unicode.solid_split text)]

/-! ## Keys -/

/-- Text without hyphens and underscores. -/
theorem separateWords_eq_self {text : String} (h : ∀ c ∈ text.toList, c ≠ '-' ∧ c ≠ '_') :
    separateWords text = text := by
  have hmap : text.toList.map (fun c => if c = '-' ∨ c = '_' then ' ' else c) =
      text.toList.map id :=
    List.map_congr_left fun c hc => if_neg (not_or.mpr (h c hc))
  rw [separateWords, hmap, List.map_id, String.ofList_toList]

theorem mem_separateWords {text : String} {c : Char} (h : c ∈ (separateWords text).toList) :
    (c ≠ '-' ∧ c ≠ '_') ∧ (c = ' ' ∨ c ∈ text.toList) := by
  rw [separateWords, String.toList_ofList] at h
  obtain ⟨d, hd, rfl⟩ := List.mem_map.mp h
  split_ifs with hsep
  · exact ⟨by decide, Or.inl rfl⟩
  · exact ⟨not_or.mp hsep, Or.inr hd⟩

/-- **A cleaned key is clean.** -/
theorem normalizeCategoryKey_normalizeCategoryKey (laws : TermLaws U) (value : String) :
    normalizeCategoryKey U (normalizeCategoryKey U value) = normalizeCategoryKey U value := by
  have hchars : ∀ c ∈ (normalizeCategoryKey U value).toList,
      (c ≠ '-' ∧ c ≠ '_') ∧ U.lower (String.singleton c) = String.singleton c := by
    intro c hc
    rcases mem_joinWords hc with rfl | hc
    · exact ⟨by decide, Signals.lower_separator laws (Or.inl rfl)⟩
    · obtain ⟨hsep, rfl | hc⟩ := mem_separateWords hc
      · exact ⟨hsep, Signals.lower_separator laws (Or.inl rfl)⟩
      · exact ⟨hsep, laws.mem_lower _ c hc⟩
  have hstrip : U.strip (normalizeCategoryKey U value) = normalizeCategoryKey U value :=
    strip_joinWords _
  have hlower : U.lower (normalizeCategoryKey U value) = normalizeCategoryKey U value :=
    laws.lower_eq_self _ fun c hc => (hchars c hc).2
  have hseparate : separateWords (normalizeCategoryKey U value) = normalizeCategoryKey U value :=
    separateWords_eq_self fun c hc => (hchars c hc).1
  conv_lhs => rw [normalizeCategoryKey, hstrip, hlower, hseparate]
  exact joinWords_joinWords _

/-! ## Canonical categories -/

theorem separateWords_ascii {s : String} (h : Unicode.IsAscii s) :
    Unicode.IsAscii (separateWords s) := by
  intro c hc
  rcases (mem_separateWords hc).2 with rfl | hc
  · decide
  · exact h c hc

theorem joinWords_ascii {s : String} (h : Unicode.IsAscii s) :
    Unicode.IsAscii (joinWords .ascii s) := by
  intro c hc
  rcases mem_joinWords hc with rfl | hc
  · decide
  · exact h c hc

/-- The category of an ASCII text is computed with the ASCII tables. -/
theorem canonicalCategory_ascii (laws : U.AsciiLaws) {value : String}
    (h : Unicode.IsAscii value) : canonicalCategory U value = canonicalCategory .ascii value := by
  have hstrip : Unicode.IsAscii (Unicode.ascii.strip value) := h.strip
  have hseparate := separateWords_ascii hstrip.lower
  have hkey : normalizeCategoryKey U value = normalizeCategoryKey .ascii value := by
    rw [normalizeCategoryKey, normalizeCategoryKey, Unicode.strip_ascii laws h,
      laws.lower _ hstrip, joinWords, joinWords, Unicode.split_ascii laws hseparate]
  have hkey_ascii : Unicode.IsAscii (normalizeCategoryKey .ascii value) :=
    joinWords_ascii hseparate
  have hscores : keywordScores U (normalizeCategoryKey .ascii value) =
      keywordScores .ascii (normalizeCategoryKey .ascii value) := by
    rw [keywordScores, keywordScores, Unicode.split_ascii laws hkey_ascii]
  rw [canonicalCategory, canonicalCategory, hkey, hscores]

/-- **A canonical category** is its own category. -/
theorem canonicalCategory_self (laws : U.AsciiLaws) {category : String}
    (h : category ∈ canonicalCategories) : canonicalCategory U category = category := by
  have hascii : ∀ category ∈ canonicalCategories, Unicode.IsAscii category := by decide +kernel
  have hself : ∀ category ∈ canonicalCategories, canonicalCategory .ascii category = category := by
    decide +kernel
  rw [canonicalCategory_ascii laws (hascii category h), hself category h]

/-- The first of the largest is the item it starts with, or one of the others. -/
theorem firstMax_mem (best : String × ℕ) (items : List (String × ℕ)) :
    firstMax best items = best ∨ firstMax best items ∈ items := by
  induction items generalizing best with
  | nil => exact Or.inl rfl
  | cons item items ih =>
      rw [firstMax]
      rcases ih (if best.2 < item.2 then item else best) with heq | hmem
      · rw [heq]
        split
        · exact Or.inr List.mem_cons_self
        · exact Or.inl rfl
      · exact Or.inr (List.mem_cons_of_mem item hmem)

/-- A category is a canonical one, or a key that is left as it was cleaned. -/
theorem canonicalCategory_cases (value : String) :
    canonicalCategory U value ∈ canonicalCategories ∨
      canonicalCategory U value = normalizeCategoryKey U value := by
  have haliases : ∀ p ∈ categoryAliases, p.2 ∈ canonicalCategories := by decide +kernel
  have hkeywords : ∀ p ∈ categoryKeywords, p.1 ∈ canonicalCategories := by decide +kernel
  by_cases hcanonical : normalizeCategoryKey U value ∈ canonicalCategories
  · refine Or.inr ?_
    rw [canonicalCategory, if_pos hcanonical]
  · rw [canonicalCategory, if_neg hcanonical]
    cases hlookup : categoryAliases.lookup (normalizeCategoryKey U value) with
    | some category =>
        obtain ⟨front, back, heq, -⟩ := List.lookup_eq_some_iff.mp hlookup
        exact Or.inl (haliases (_, category) (heq ▸ List.mem_append_right _ List.mem_cons_self))
    | none =>
        by_cases hpos : 0 < (firstMax ("", 0) (keywordScores U (normalizeCategoryKey U value))).2
        · refine Or.inl ?_
          rw [if_pos hpos]
          rcases firstMax_mem ("", 0) (keywordScores U (normalizeCategoryKey U value))
            with heq | hmem
          · rw [heq] at hpos
            exact absurd hpos (lt_irrefl 0)
          · obtain ⟨p, hp, heq⟩ := List.mem_map.mp hmem
            rw [← heq]
            exact hkeywords p hp
        · exact Or.inr (if_neg hpos)

/-- **The map is a projection.** -/
theorem canonicalCategory_canonicalCategory (laws : TermLaws U) (value : String) :
    canonicalCategory U (canonicalCategory U value) = canonicalCategory U value := by
  rcases canonicalCategory_cases (U := U) value with hmem | heq
  · exact canonicalCategory_self laws.toAsciiLaws hmem
  · have hkey := normalizeCategoryKey_normalizeCategoryKey laws value
    conv_lhs => rw [heq, canonicalCategory, hkey]
    rw [canonicalCategory]

/-! ## Lists -/

section Lists

attribute [local irreducible] canonicalCategory canonicalCategoryList

/-- The loop appends the canonical forms that are not there yet. -/
theorem canonicalCategoryListInto_eq (normalized values : List String) :
    canonicalCategoryListInto U normalized values =
      appendNew normalized ((values.map (canonicalCategory U)).filter (· ≠ "")) := by
  induction values generalizing normalized with
  | nil => rfl
  | cons value values ih =>
      rw [canonicalCategoryListInto_cons, ih, List.map_cons]
      generalize canonicalCategory U value = category
      by_cases hempty : category = ""
      · rw [if_neg fun h => h.1 hempty, List.filter_cons_of_neg (by simpa using hempty)]
      · rw [List.filter_cons_of_pos (by simpa using hempty), appendNew]
        by_cases hmem : category ∈ normalized
        · rw [if_pos hmem, if_neg fun h => h.2 hmem]
        · rw [if_neg hmem, if_pos ⟨hempty, hmem⟩]

attribute [local semireducible] canonicalCategoryList in
/-- **The list** is the first occurrences of the canonical forms that are not empty. -/
theorem canonicalCategoryList_eq (values : List String) :
    canonicalCategoryList U values =
      ((values.map (canonicalCategory U)).filter (· ≠ "")).eraseDups := by
  rw [canonicalCategoryList, canonicalCategoryListInto_eq, appendNew_nil]

theorem nodup_canonicalCategoryList (values : List String) :
    (canonicalCategoryList U values).Nodup := by
  rw [canonicalCategoryList_eq]
  exact nodup_eraseDups _

/-- **The map of lists is a projection.** -/
theorem canonicalCategoryList_canonicalCategoryList (laws : TermLaws U) (values : List String) :
    canonicalCategoryList U (canonicalCategoryList U values) = canonicalCategoryList U values := by
  have hmap : (canonicalCategoryList U values).map (canonicalCategory U) =
      canonicalCategoryList U values := by
    refine (List.map_congr_left fun category hmem => ?_).trans (List.map_id _)
    obtain ⟨-, value, -, rfl⟩ := mem_canonicalCategoryList.mp hmem
    exact canonicalCategory_canonicalCategory laws value
  have hfilter : (canonicalCategoryList U values).filter (· ≠ "") =
      canonicalCategoryList U values :=
    List.filter_eq_self.mpr fun category hmem =>
      decide_eq_true (mem_canonicalCategoryList.mp hmem).1
  conv_lhs => rw [canonicalCategoryList_eq, hmap, hfilter]
  exact eraseDups_eq_self (nodup_canonicalCategoryList values)

/-- **Categories stand in the order in which they occur first.** -/
theorem idxOf_canonicalCategoryList_lt_iff {values : List String} {a b : String} (ha : a ≠ "")
    (hb : b ≠ "") :
    (canonicalCategoryList U values).idxOf a < (canonicalCategoryList U values).idxOf b ↔
      (values.map (canonicalCategory U)).idxOf a < (values.map (canonicalCategory U)).idxOf b := by
  have hfilter := @idxOf_filter_lt_iff _ _ (fun category => decide (category ≠ "")) a b
    (decide_eq_true ha) (decide_eq_true hb) (values.map (canonicalCategory U))
  rw [canonicalCategoryList_eq, idxOf_eraseDups_lt_iff, hfilter]

end Lists

end ProcureSignal.Personalization
