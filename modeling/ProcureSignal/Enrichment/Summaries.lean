/-
# Deterministic enrichment under every policy

`DeterministicEnricher.analyze` for the policies that `EnrichmentPolicy` accepts.  The policy asks
for a positive limit on the summary, the analyzer for one of at least 10, and the output takes no
summary of more than 1000 characters.

* `shorten` : the text of a summary;
* `length_shorten` : it has between 10 characters and the limit;
* `succeeds_iff` : **for which policies and articles the analysis succeeds**;
* `terse_fails` : a limit of five characters.
-/
import ProcureSignal.Enrichment.Deterministic
import ProcureSignal.Library.Urlsplit

namespace ProcureSignal.Enrichment

open ProcureSignal.Enrichment.Pipeline (DeterministicAnalysis)
open ProcureSignal.Personalization (canonicalCategories joinWords)

variable (U : Unicode)

/-! ## What is asked for -/

/-- The analysis returns, with scores between 0 and 1 and a summary of at least 10 characters and at
most the limits of the policy and of the output. -/
def Succeeds (order : SupplierOrder) (p : ValidPolicy) (article : RawArticle) : Prop :=
  ∃ x, analyze U order article p.summaryMaxChars = .ok x ∧
    (0 ≤ x.relevance ∧ x.relevance ≤ 1) ∧ (0 ≤ x.confidence ∧ x.confidence ≤ 1) ∧
    10 ≤ x.output.summary.length ∧ (x.output.summary.length : ℤ) ≤ min p.summaryMaxChars 1000

/-! ## The summary -/

/-- The text that is summarized: the first of description, snippet and title with a word in it. -/
def sourceText (article : RawArticle) : String :=
  (([article.description.getD "", article.contentSnippet.getD "", article.title].map
    (joinWords U)).find? (· ≠ "")).getD "No summary"

/-- The first characters of a text, without white space behind them. -/
def cutAt (text : String) (maxChars : ℕ) : List Char :=
  (text.toList.take (maxChars - 1)).rdropWhile U.isSpace

/-- The words in front of the cut. -/
def wordsBefore (text : String) (maxChars : ℕ) : List Char :=
  if ' ' ∈ cutAt U text maxChars then ((cutAt U text maxChars).rdropWhile (· ≠ ' ')).dropLast
  else cutAt U text maxChars

/-- `_summary` of a text. -/
def shorten (text : String) (maxChars : ℕ) : String :=
  let padded := text.length < 10
  let normalized := if padded then text ++ " [summary unavailable]" else text
  let chars := normalized.toList
  if normalized.length ≤ maxChars then normalized
  else if padded then String.ofList (chars.take maxChars)
  else
    let stripped := (chars.take (maxChars - 1)).rdropWhile U.isSpace
    let words := if ' ' ∈ stripped then (stripped.rdropWhile (· ≠ ' ')).dropLast else stripped
    let cut := if words.length + 1 < 10 then chars.take (maxChars - 1) else words
    String.ofList cut ++ "…"

theorem summary_eq (article : RawArticle) (maxChars : ℕ) :
    summary U article maxChars = shorten U (sourceText U article) maxChars := rfl

section Lengths

variable {U} {text : String} {maxChars : ℕ}

/-- A short text is padded. -/
theorem shorten_of_short (h : text.length < 10) :
    shorten U text maxChars = if text.length + 22 ≤ maxChars then text ++ " [summary unavailable]"
      else String.ofList ((text ++ " [summary unavailable]").toList.take maxChars) := by
  have hlength : (text ++ " [summary unavailable]").length = text.length + 22 := by
    rw [String.length_append]
    rfl
  simp only [shorten, if_pos h, hlength]

/-- A text within the limit stays. -/
theorem shorten_of_le (h : 10 ≤ text.length) (hle : text.length ≤ maxChars) :
    shorten U text maxChars = text := by
  simp only [shorten, if_neg (not_lt.mpr h), if_pos hle]

/-- The characters of a longer text that are kept. -/
def kept (U : Unicode) (text : String) (maxChars : ℕ) : List Char :=
  if (wordsBefore U text maxChars).length + 1 < 10 then text.toList.take (maxChars - 1)
  else wordsBefore U text maxChars

theorem shorten_of_lt (h : 10 ≤ text.length) (hlt : maxChars < text.length) :
    shorten U text maxChars = String.ofList (kept U text maxChars) ++ "…" := by
  simp only [shorten, if_neg (not_lt.mpr h), if_neg (not_le.mpr hlt)]
  rfl

theorem length_take (hlt : maxChars < text.length) :
    (text.toList.take (maxChars - 1)).length = maxChars - 1 := by
  rw [List.length_take, String.length_toList]
  omega

theorem length_wordsBefore_le (hlt : maxChars < text.length) :
    (wordsBefore U text maxChars).length ≤ maxChars - 1 := by
  have hcut : (cutAt U text maxChars).length ≤ maxChars - 1 := by
    rw [← length_take hlt]
    exact (List.rdropWhile_prefix U.isSpace _).length_le
  unfold wordsBefore
  split_ifs
  · have hdrop := (List.rdropWhile_prefix (· ≠ ' ') (cutAt U text maxChars)).length_le
    rw [List.length_dropLast]
    omega
  · exact hcut

/-- **What is kept** of a longer text: nine characters at least, and room for the ellipsis. -/
theorem length_kept (hten : 10 ≤ maxChars) (hlt : maxChars < text.length) :
    9 ≤ (kept U text maxChars).length ∧ (kept U text maxChars).length ≤ maxChars - 1 := by
  unfold kept
  split_ifs with hfew
  · rw [length_take hlt]
    omega
  · exact ⟨by omega, length_wordsBefore_le hlt⟩

/-- **The length of a summary**, under a limit of at least 10. -/
theorem length_shorten (text : String) (hten : 10 ≤ maxChars) :
    10 ≤ (shorten U text maxChars).length ∧ (shorten U text maxChars).length ≤ maxChars := by
  by_cases hshort : text.length < 10
  · rw [shorten_of_short hshort]
    have hlength : (text ++ " [summary unavailable]").length = text.length + 22 := by
      rw [String.length_append]
      rfl
    split_ifs with hfits
    · omega
    · rw [String.length_ofList, List.length_take, String.length_toList, hlength]
      omega
  · rw [not_lt] at hshort
    by_cases hle : text.length ≤ maxChars
    · rw [shorten_of_le hshort hle]
      exact ⟨hshort, hle⟩
    · rw [not_le] at hle
      have hkept := @length_kept U text maxChars hten hle
      have hellipsis : "…".length = 1 := rfl
      rw [shorten_of_lt hshort hle, String.length_append, String.length_ofList, hellipsis]
      omega

end Lengths

/-! ## Summaries that the output takes -/

/-- The first characters of a text end with the words `front`, and the part of a word that may
follow has no space; or `front` is all there is in front of the cut, without a space. -/
def Breaks (text : String) (maxChars : ℕ) (front : List Char) : Prop :=
  (cutAt U text maxChars = front ∧ ' ' ∉ front) ∨
    ∃ back, cutAt U text maxChars = front ++ ' ' :: back ∧ ' ' ∉ back

/-- A text whose summary has 1000 characters at most: the limit or the text has, or the words in
front of the cut have between 9 and 999. -/
def Fits (text : String) (maxChars : ℕ) : Prop :=
  maxChars ≤ 1000 ∨ text.length ≤ 1000 ∨
    (maxChars < text.length ∧ ∃ front, Breaks U text maxChars front ∧ 9 ≤ front.length ∧
      front.length ≤ 999)

section Fits

variable {U} {text : String} {maxChars : ℕ}

theorem breaks_iff {front : List Char} :
    Breaks U text maxChars front ↔ wordsBefore U text maxChars = front := by
  have hlast : ∀ {front back : List Char}, ' ' ∉ back →
      ((front ++ ' ' :: back).rdropWhile (· ≠ ' ')).dropLast = front := by
    intro front back hback
    have hnil : back.rdropWhile (· ≠ ' ') = [] := List.rdropWhile_eq_nil_iff.mpr fun c hc => by
      rw [decide_eq_true_eq]
      rintro rfl
      exact hback hc
    rw [Urllib.rdropWhile_append_cons (by decide), hnil, List.dropLast_concat]
  unfold Breaks wordsBefore
  generalize cutAt U text maxChars = cut
  constructor
  · rintro (⟨rfl, hnot⟩ | ⟨back, rfl, hback⟩)
    · rw [if_neg hnot]
    · rw [if_pos (by simp), hlast hback]
  · intro hfront
    split_ifs at hfront with hspace
    · obtain ⟨before, behind, hreverse, hnot⟩ :=
        List.eq_append_cons_of_mem (List.mem_reverse.mpr hspace)
      have hcut : cut = behind.reverse ++ ' ' :: before.reverse := by
        rw [← List.reverse_reverse cut, hreverse]
        simp
      have hback : ' ' ∉ before.reverse := mt List.mem_reverse.mp hnot
      rw [hcut, hlast hback] at hfront
      exact Or.inr ⟨before.reverse, by rw [hcut, hfront], hback⟩
    · exact Or.inl ⟨hfront, hfront ▸ hspace⟩

/-- **The summaries of at most 1000 characters.** -/
theorem length_shorten_le_iff (hten : 10 ≤ maxChars) :
    (shorten U text maxChars).length ≤ 1000 ↔ Fits U text maxChars := by
  have hlengths := @length_shorten U maxChars text hten
  by_cases hlimit : maxChars ≤ 1000
  · exact iff_of_true (hlengths.2.trans hlimit) (Or.inl hlimit)
  by_cases hshort : text.length < 10
  · refine iff_of_true ?_ (Or.inr (Or.inl (by omega)))
    rw [shorten_of_short hshort, if_pos (by omega), String.length_append]
    have hpad : " [summary unavailable]".length = 22 := rfl
    omega
  rw [not_lt] at hshort
  rw [not_le] at hlimit
  unfold Fits
  by_cases hle : text.length ≤ maxChars
  · rw [shorten_of_le hshort hle]
    constructor
    · exact fun h => Or.inr (Or.inl h)
    · rintro (h | h | ⟨h, -⟩)
      · omega
      · exact h
      · omega
  · rw [not_le] at hle
    have hellipsis : "…".length = 1 := rfl
    rw [shorten_of_lt hshort hle, String.length_append, String.length_ofList, hellipsis]
    simp only [breaks_iff, exists_eq_left']
    unfold kept
    split_ifs with hfew
    · rw [length_take hle]
      omega
    · omega

end Fits

/-! ## The scores -/

theorem roundSix_mem {x : ℚ} (hlow : 0 ≤ x) (hhigh : x ≤ 1) :
    0 ≤ roundSix x ∧ roundSix x ≤ 1 := by
  have hbelow : 0 ≤ ⌊x * 1000000⌋ := Int.floor_nonneg.mpr (by positivity)
  have habove : ⌊x * 1000000⌋ ≤ 1000000 := by
    rw [← Int.floor_intCast (R := ℚ) 1000000]
    exact Int.floor_le_floor (by push_cast; linarith)
  -- at the upper end nothing is left to round up
  have hend : ⌊x * 1000000⌋ = 1000000 → x * 1000000 - ⌊x * 1000000⌋ < 1 / 2 := by
    intro heq
    rw [heq]
    push_cast
    linarith
  unfold roundSix
  dsimp only
  generalize ⌊x * 1000000⌋ = below at hbelow habove hend
  have hbelow' : (0 : ℚ) ≤ below := by exact_mod_cast hbelow
  split_ifs with hround
  · have habove' : (below : ℚ) ≤ 1000000 := by exact_mod_cast habove
    exact ⟨by positivity, by rw [div_le_one (by norm_num)]; exact habove'⟩
  · have hlt : below + 1 ≤ 1000000 := by
      by_contra hnot
      exact hround (Or.inl (hend (by omega)))
    have hlt' : (below : ℚ) + 1 ≤ 1000000 := by exact_mod_cast hlt
    push_cast
    exact ⟨by positivity, by rw [div_le_one (by norm_num)]; exact hlt'⟩

/-- A bounded score is between 0 and 1. -/
theorem bounded_mem (x : ℚ) : 0 ≤ bounded x ∧ bounded x ≤ 1 :=
  roundSix_mem (le_max_left _ _) (max_le zero_le_one (min_le_left _ _))

/-! ## The analysis -/

theorem validateCategory_mem (value : String) : validateCategory U value ∈ canonicalCategories := by
  unfold validateCategory
  dsimp only
  split_ifs with hcanonical
  · exact hcanonical
  · decide

theorem length_canonicalCategories : ∀ category ∈ canonicalCategories,
    3 ≤ category.length ∧ category.length ≤ 50 := by decide +kernel

theorem summary_validated (order : SupplierOrder) (article : RawArticle) (maxChars : ℕ) :
    ((outputFields U order article maxChars).validated U).summary =
      shorten U (sourceText U article) maxChars := by
  simp only [EnrichmentOutput.validated, outputFields, summary_eq]

theorem category_validated (order : SupplierOrder) (article : RawArticle) (maxChars : ℕ) :
    ((outputFields U order article maxChars).validated U).category =
      validateCategory U (inferCategory U article).1 := by
  simp only [EnrichmentOutput.validated, outputFields]

/-- The fields of an analysis are taken when their summary is. -/
theorem inBounds_outputFields (order : SupplierOrder) (article : RawArticle) (maxChars : ℕ) :
    ((outputFields U order article maxChars).validated U).inBounds = true ↔
      10 ≤ (shorten U (sourceText U article) maxChars).length ∧
        (shorten U (sourceText U article) maxChars).length ≤ 1000 := by
  have hvalidated := length_canonicalCategories _ (validateCategory_mem U (inferCategory U article).1)
  rw [EnrichmentOutput.inBounds, summary_validated, category_validated, Bool.and_eq_true, Bool.and_eq_true,
    Bool.and_eq_true, decide_eq_true_eq, decide_eq_true_eq, decide_eq_true_eq, decide_eq_true_eq]
  constructor
  · exact fun h => h.1.1
  · exact fun h => ⟨⟨h, hvalidated.1⟩, hvalidated.2⟩

/-- The scores of an analysis are bounded. -/
theorem exists_scores (order : SupplierOrder) (article : RawArticle) (n : ℤ) :
    ∃ relevance confidence : ℚ, analyze U order article n =
      if n < 10 then .error "summary_max_chars must be an integer of at least 10"
      else (EnrichmentOutput.create U (outputFields U order article n.toNat)).map fun output =>
        ⟨output, bounded relevance, bounded confidence⟩ := ⟨_, _, rfl⟩

/-- **Success.** The analysis of an article under a valid policy succeeds exactly when the limit of
the policy is at least 10 and the summary has at most 1000 characters. -/
theorem succeeds_iff (order : SupplierOrder) (p : ValidPolicy) (article : RawArticle) :
    Succeeds U order p article ↔
      10 ≤ p.summaryMaxChars ∧ Fits U (sourceText U article) p.summaryMaxChars.toNat := by
  obtain ⟨relevance, confidence, hanalyze⟩ :=
    exists_scores U order article p.summaryMaxChars
  have hbounds := inBounds_outputFields U order article p.summaryMaxChars.toNat
  have hsummary := summary_validated U order article p.summaryMaxChars.toNat
  by_cases hten : 10 ≤ p.summaryMaxChars
  swap
  · refine iff_of_false ?_ fun h => hten h.1
    rintro ⟨x, hx, -⟩
    rw [hanalyze, if_pos (not_le.mp hten)] at hx
    cases hx
  have hten' : 10 ≤ p.summaryMaxChars.toNat := by omega
  have hlengths := @length_shorten U p.summaryMaxChars.toNat (sourceText U article) hten'
  rw [← length_shorten_le_iff hten']
  constructor
  · rintro ⟨x, hx, -, -, -, hlength⟩
    rw [analyze_eq_ok U hx, hsummary] at hlength
    refine ⟨hten, ?_⟩
    have hmin := hlength.trans (min_le_right _ _)
    exact_mod_cast hmin
  · rintro ⟨-, hle⟩
    have hcreate : EnrichmentOutput.create U
        (outputFields U order article p.summaryMaxChars.toNat) =
        .ok ((outputFields U order article p.summaryMaxChars.toNat).validated U) :=
      if_pos (hbounds.mpr ⟨hlengths.1, hle⟩)
    rw [hcreate, if_neg (not_lt.mpr hten)] at hanalyze
    refine ⟨_, hanalyze, bounded_mem _, bounded_mem _, ?_⟩
    dsimp only
    rw [hsummary, le_min_iff]
    exact ⟨hlengths.1, by omega, by exact_mod_cast hle⟩

/-! ## Two policies -/

/-- A policy with summaries of five characters, which the validation accepts. -/
def tersePolicy : ValidPolicy where
  summaryMaxChars := 5
  valid := by decide +kernel

/-- An article with nothing but a title. -/
def titledArticle : RawArticle where
  provider := "rss"
  providerArticleId := none
  queryGroup := "logistics"
  title := "Port strike delays shipments"
  description := none
  contentSnippet := none
  articleUrl := "https://journal.example/strike"
  canonicalUrl := none
  sourceName := "Journal"
  sourceUrl := none
  publishedAt := 0
  language := "en"
  rawPayloadJson := none

/-- The analysis raises under an accepted policy. -/
theorem terse_fails :
    tersePolicy.postInit = .ok () ∧
      analyze .ascii .listed titledArticle tersePolicy.summaryMaxChars =
        .error "summary_max_chars must be an integer of at least 10" ∧
      ¬ Succeeds .ascii .listed tersePolicy titledArticle := by
  refine ⟨tersePolicy.valid, rfl, ?_⟩
  rintro ⟨x, hx, -⟩
  cases hx

end ProcureSignal.Enrichment
