/-
# Matching articles against preferences

`personalization/matcher.py`: which articles a preference excludes, which it includes, and the
score of an article.

* A set is a list, and its size is the length of the list without repetitions.
* The context in which signals are searched joins the regions of an article in the order in
  which a process iterates a set; that order is a parameter (`SetOrder`).
* Scores are rational numbers.
-/
import ProcureSignal.Enrichment.Entities
import ProcureSignal.Models
import ProcureSignal.Personalization.Categories
import ProcureSignal.Signals.Taxonomy
import ProcureSignal.Suppliers.Normalization

namespace ProcureSignal.Personalization

open Enrichment (canonicalRegionName extractRegionsFromText)
open Signals (expandSignalTerms isLowerAlnum textMatchesSignalTerms)
open Suppliers (minimumDerivedAliasLength)

/-! ## Rows -/

/-- `NewsArticleProcessed`: what the feed reads of it. -/
structure Article where
  normalizedTitle : String
  summary : String
  topLevelCategory : String
  signalTags : Option (List String)
  prioritySignal : Option String
  detectedRegions : Option (List String)
  detectedSuppliers : Option (List String)
  detectedCategories : Option (List String)
  processedAt : Instant
  deriving DecidableEq, Repr

/-- `UserNewsPreference` with all its lists.  An object that has not been stored has no
supplier ids, which reads as the empty list. -/
structure Preference extends UserNewsPreference where
  preferredCategories : List String
  preferredRegions : List String
  preferredSignals : List String
  excludedCategories : List String
  excludedRegions : List String
  excludedSignals : List String
  excludedTopics : List String
  deriving DecidableEq, Repr

/-- `MatchScore`. -/
structure MatchScore where
  overallScore : ℚ
  categoryMatch : ℚ
  supplierMatch : ℚ
  regionMatch : ℚ
  signalMatch : ℚ
  deriving DecidableEq, Repr

/-- How a process iterates a set of texts that were added in the order of a list. -/
def SetOrder : Type := { order : List String → List String // ∀ l, (order l).Perm l.dedup }

/-- The order in which the texts were added. -/
def SetOrder.listed : SetOrder := ⟨List.dedup, fun _ => List.Perm.refl _⟩

/-- Two sets have a common element. -/
def meet (xs ys : List String) : Bool := xs.any (· ∈ ys)

/-- The number of common elements of two sets. -/
def common (xs ys : List String) : ℕ := xs.dedup.countP (· ∈ ys)

namespace PreferenceMatcher

variable (U : Unicode) (O : SetOrder)

/-! ## Terms of a preference -/

/-- `_normalized`. -/
def normalized (values : List String) : List String :=
  (values.filter fun value => U.strip value ≠ "").map fun value => U.lower (U.strip value)

/-- `_region_tokens`. -/
def regionTokens (values : List String) : List String :=
  (values.filter fun value => U.strip (canonicalRegionName U value) ≠ "").map fun value =>
    U.lower (U.strip (canonicalRegionName U value))

/-- `_preferred_categories`. -/
def preferredCategories (preference : Preference) : List String :=
  canonicalCategoryList U preference.preferredCategories

/-- `_excluded_categories`. -/
def excludedCategories (preference : Preference) : List String :=
  canonicalCategoryList U
    (if preference.excludedCategories = [] then preference.excludedTopics
    else preference.excludedCategories)

/-- `_preferred_supplier_ids`. -/
def preferredSupplierIds (preference : Preference) : List String :=
  normalized U preference.preferredSupplierIds

/-- `_excluded_supplier_ids`. -/
def excludedSupplierIds (preference : Preference) : List String :=
  normalized U preference.excludedSupplierIds

/-- `_preferred_suppliers`. -/
def preferredSuppliers (preference : Preference) : List String :=
  normalized U preference.preferredSuppliers

/-- `_preferred_regions`. -/
def preferredRegions (preference : Preference) : List String :=
  regionTokens U preference.preferredRegions

/-- `_preferred_signals`. -/
def preferredSignals (preference : Preference) : List String :=
  expandSignalTerms U preference.preferredSignals

/-- `_excluded_signals`. -/
def excludedSignals (preference : Preference) : List String :=
  expandSignalTerms U preference.excludedSignals

/-! ## Terms of an article -/

/-- `_article_categories`. -/
def articleCategories (article : Article) : List String :=
  canonicalCategoryList U (article.topLevelCategory :: article.detectedCategories.getD [])

/-- `_article_suppliers`. -/
def articleSuppliers (article : Article) : List String :=
  normalized U (article.detectedSuppliers.getD [])

/-- `_article_text`. -/
def articleText (article : Article) : String :=
  " ".intercalate (normalized U [article.normalizedTitle, article.summary])

/-- `MINIMUM_TEXT_MATCH_LENGTH`. -/
def minimumTextMatchLength : ℕ := minimumDerivedAliasLength

/-- `text_mentions_supplier`. -/
def textMentionsSupplier (text supplier : String) : Bool :=
  let name := U.strip supplier
  minimumTextMatchLength ≤ name.length &&
    (Regex.phrase isLowerAlnum (U.lower name)).search (U.lower text)

/-- `_supplier_text_matches`. -/
def supplierTextMatches (article : Article) (suppliers : List String) : List String :=
  suppliers.filter (textMentionsSupplier U (articleText U article))

/-- `_article_regions`. -/
def articleRegions (article : Article) : List String :=
  regionTokens U (article.detectedRegions.getD [])

/-- `_text_regions`. -/
def textRegions (article : Article) : List String :=
  regionTokens U (extractRegionsFromText U (articleText U article))

/-- `_article_regions_for_matching`. -/
def articleRegionsForMatching (article : Article) : List String :=
  articleRegions U article ++ textRegions U article

/-- A signal as the taxonomy reads it: `str(None)` is a text. -/
def signalText (signal : Option String) : String := signal.getD "None"

/-- `_article_signals`. -/
def articleSignals (article : Article) : List String :=
  expandSignalTerms U (signalText article.prioritySignal :: article.signalTags.getD [])

/-- `_article_signal_context`. -/
def articleSignalContext (article : Article) : String :=
  " ".intercalate
    ((articleText U article :: O.1 (articleRegionsForMatching U article)).filter (· ≠ ""))

/-- `_signal_matches_article`. -/
def signalMatchesArticle (article : Article) (signals : List String) : Bool :=
  let signalTerms := expandSignalTerms U signals
  let articleTerms :=
    articleSignals U article ++ expandSignalTerms U (articleRegionsForMatching U article)
  signalTerms ≠ [] &&
    (meet articleTerms signalTerms ||
      textMatchesSignalTerms U (articleSignalContext U O article) signalTerms)

/-! ## Exclusion and inclusion -/

/-- The disjuncts of `has_excluded_match` other than the one about supplier ids. -/
def hasExcludedTerm (article : Article) (preference : Preference) : Bool :=
  meet (articleCategories U article) (excludedCategories U preference) ||
    meet (articleSuppliers U article) (normalized U preference.excludedSuppliers) ||
    meet (articleRegionsForMatching U article)
      (regionTokens U (normalized U preference.excludedRegions)) ||
    signalMatchesArticle U O article (excludedSignals U preference)

/-- `has_excluded_match`. -/
def hasExcludedMatch (article : Article) (preference : Preference)
    (articleSupplierIds : List String) : Bool :=
  meet articleSupplierIds (excludedSupplierIds U preference) ||
    hasExcludedTerm U O article preference

/-- `_supplier_matches`. -/
def supplierMatches (article : Article) (preference : Preference) (suppliers : List String)
    (articleSupplierIds : List String) : Bool :=
  if articleSupplierIds ≠ [] then
    meet articleSupplierIds (preferredSupplierIds U preference)
  else
    meet (articleSuppliers U article) suppliers || supplierTextMatches U article suppliers ≠ []

/-- `should_include_article`. -/
def shouldIncludeArticle (article : Article) (preference : Preference)
    (articleSupplierIds : List String) : Bool :=
  if hasExcludedMatch U O article preference articleSupplierIds then false
  else
    let categories := preferredCategories U preference
    let suppliers := preferredSuppliers U preference
    let regions := preferredRegions U preference
    let signals := preferredSignals U preference
    if categories ≠ [] ∨ suppliers ≠ [] then
      meet (articleCategories U article) categories ||
        supplierMatches U article preference suppliers articleSupplierIds
    else if regions ≠ [] then meet (articleRegionsForMatching U article) regions
    else if signals ≠ [] then signalMatchesArticle U O article signals
    else true

/-! ## Scores -/

/-- `min(1.0, 0.5 + (matches * 0.25))`, or `0.3` without a match. -/
def scoreOfMatches (n : ℕ) : ℚ := if 0 < n then min 1 (1 / 2 + n * (1 / 4)) else 3 / 10

/-- `calculate_category_match`. -/
def calculateCategoryMatch (articleCategory : String) (preference : Preference) : ℚ :=
  let category := canonicalCategory U articleCategory
  if category ∈ excludedCategories U preference then 0
  else if preferredCategories U preference = [] then 1 / 2
  else if category ∈ preferredCategories U preference then 1
  else 3 / 10

/-- `calculate_supplier_match`. -/
def calculateSupplierMatch (suppliers : List String) (preference : Preference)
    (articleSupplierIds : List String) : ℚ :=
  if meet articleSupplierIds (excludedSupplierIds U preference) then 0
  else if meet (normalized U suppliers) (normalized U preference.excludedSuppliers) then 0
  else if suppliers = [] ∨ preferredSuppliers U preference = [] then 1 / 2
  else
    scoreOfMatches (common (normalized U suppliers) (preferredSuppliers U preference) +
      common articleSupplierIds (preferredSupplierIds U preference))

/-- `calculate_region_match`. -/
def calculateRegionMatch (regions : List String) (preference : Preference) : ℚ :=
  if meet (regionTokens U regions) (regionTokens U preference.excludedRegions) then 0
  else if regions = [] ∨ preferredRegions U preference = [] then 1 / 2
  else scoreOfMatches (common (regionTokens U regions) (preferredRegions U preference))

/-- `calculate_signal_match`. -/
def calculateSignalMatch (signalTags : List String) (prioritySignal : Option String)
    (preference : Preference) (context : String) : ℚ :=
  let tags := expandSignalTerms U (signalTags ++ [signalText prioritySignal])
  let preferred := preferredSignals U preference
  if meet tags (excludedSignals U preference) ||
      textMatchesSignalTerms U context (excludedSignals U preference) then 0
  else if preferred = [] then 1 / 2
  else if prioritySignal.any fun signal =>
      signal ≠ "" && meet (expandSignalTerms U [signal]) preferred then 1
  else
    scoreOfMatches (common tags preferred +
      if textMatchesSignalTerms U context preferred then 1 else 0)

/-- `score_article`. -/
def scoreArticle (article : Article) (preference : Preference)
    (articleSupplierIds : List String) : MatchScore :=
  let category := calculateCategoryMatch U article.topLevelCategory preference
  let tokens := article.detectedSuppliers.getD [] ++
    supplierTextMatches U article (preferredSuppliers U preference)
  let supplier := calculateSupplierMatch U tokens preference articleSupplierIds
  let region := calculateRegionMatch U (articleRegionsForMatching U article) preference
  let signal := calculateSignalMatch U (article.signalTags.getD []) article.prioritySignal
    preference (articleSignalContext U O article)
  { overallScore := category * (3 / 10) + supplier * (3 / 10) + region * (1 / 5) +
      signal * (1 / 5)
    categoryMatch := category
    supplierMatch := supplier
    regionMatch := region
    signalMatch := signal }

end PreferenceMatcher

end ProcureSignal.Personalization
