/-
# What the fingerprint says about the analysis

A cache entry answers for every article with its fingerprint.  The fingerprint folds letter
case, white space and compatibility forms and covers the texts only; the analysis looks for
supplier names in the letter case of the source, for phrases with single spaces, and lets the
query group and the source name vote for the category.

* `Canonical` : texts that the fingerprint folds in letter case only;
* `analysis_of_fingerprint_eq` : what articles of one fingerprint have in common;
* `fingerprint_collides` : articles of one fingerprint with different analyses.
-/
import ProcureSignal.Enrichment.Deterministic

namespace ProcureSignal.Enrichment

open ProcureSignal.Enrichment.Pipeline (DeterministicAnalysis)
open ProcureSignal.Personalization (canonicalCategory joinWords normalizeCategoryKey)
open ProcureSignal.Signals (canonicalSignalTags)

variable {U : Unicode} {a b : RawArticle}

/-! ## Texts -/

/-- What `str.lower` does at a space: the final form of a sigma looks no further. -/
structure LowerJoins (U : Unicode) : Prop where
  lower_eq_empty : ∀ s, U.lower s = "" ↔ s = ""
  lower_append_space : ∀ s t, U.lower (s ++ " " ++ t) = U.lower s ++ " " ++ U.lower t

/-- A text in NFKC, trimmed and with single spaces. -/
structure Canonical (U : Unicode) (text : String) : Prop where
  nfkc : U.nfkc text = text
  strip : U.strip text = text
  words : joinWords U (U.lower text) = U.lower text

/-- The texts of the article are canonical. -/
def CanonicalArticle (U : Unicode) (article : RawArticle) : Prop :=
  ∀ part ∈ articleParts article, Canonical U part

/-- The fingerprint folds a canonical text to lower case. -/
theorem Canonical.normalizeContent {text : String} (h : Canonical U text) :
    normalizeContent U (some text) = U.lower text := by
  rw [Enrichment.normalizeContent, h.nfkc]
  exact h.words

/-- An absent text counts as an empty one. -/
theorem normalizeContent_getD (hlower : LowerJoins U) {text : Option String}
    (h : Canonical U (text.getD "")) : normalizeContent U text = U.lower (text.getD "") := by
  cases text with
  | none => exact ((hlower.lower_eq_empty "").mpr rfl).symm
  | some text => exact h.normalizeContent

/-- **Articles of one fingerprint** have the same texts up to letter case. -/
theorem lower_parts_eq (hlower : LowerJoins U) {digest : List String → String}
    (hdigest : Function.Injective digest) {policyVersion taxonomyVersion : String}
    (ha : CanonicalArticle U a) (hb : CanonicalArticle U b)
    (h : contentFingerprint U digest policyVersion taxonomyVersion a =
      contentFingerprint U digest policyVersion taxonomyVersion b) :
    U.lower a.title = U.lower b.title ∧
      (articleParts a).map U.lower = (articleParts b).map U.lower := by
  have hfields := hdigest h
  simp only [List.map_cons, List.map_nil, List.cons.injEq, and_true, true_and] at hfields
  obtain ⟨-, htitle, hdescription, hsnippet⟩ := hfields
  simp only [CanonicalArticle, articleParts, List.mem_cons, List.not_mem_nil, or_false,
    forall_eq_or_imp, forall_eq] at ha hb
  rw [ha.1.normalizeContent, hb.1.normalizeContent] at htitle
  rw [normalizeContent_getD hlower ha.2.1, normalizeContent_getD hlower hb.2.1] at hdescription
  rw [normalizeContent_getD hlower ha.2.2, normalizeContent_getD hlower hb.2.2] at hsnippet
  refine ⟨htitle, ?_⟩
  simp only [articleParts, List.map_cons, List.map_nil, htitle, hdescription, hsnippet]

/-- Lower case of the joined text. -/
theorem lower_intercalate (hlower : LowerJoins U) (part : String) (parts : List String) :
    U.lower (" ".intercalate (part :: parts)) = " ".intercalate ((part :: parts).map U.lower) := by
  induction parts generalizing part with
  | nil => rfl
  | cons next parts ih =>
      have hjoin : ∀ s t : String, ∀ l, " ".intercalate (s :: t :: l) =
          " ".intercalate ((s ++ " " ++ t) :: l) := fun _ _ _ => rfl
      rw [hjoin, ih, List.map_cons, hlower.lower_append_space, List.map_cons, List.map_cons, hjoin]

theorem lower_articleText (hlower : LowerJoins U) (article : RawArticle) :
    U.lower (articleText article) =
      " ".intercalate (((articleParts article).map U.lower).filter (· ≠ "")) := by
  have hfilter : ((articleParts article).map U.lower).filter (· ≠ "") =
      ((articleParts article).filter (· ≠ "")).map U.lower := by
    rw [List.filter_map]
    congr 1
    apply List.filter_congr
    intro part _
    simp [hlower.lower_eq_empty]
  rw [hfilter, articleText]
  cases (articleParts article).filter (· ≠ "") with
  | nil => exact (hlower.lower_eq_empty "").mpr rfl
  | cons part parts => exact lower_intercalate hlower part parts

/-! ## What the analysis reads -/

/-- The classifier reads lower case. -/
theorem classify_congr {text text' headline headline' : String}
    (htext : U.lower text = U.lower text') (hheadline : U.lower headline = U.lower headline') :
    classify U text headline = classify U text' headline' := by
  simp only [classify, checkBankruptcy, checkMAndA, checkTariff, checkStrike, checkRegulatory,
    checkSupplyDisruption, checkKeywords, htext, hheadline]

theorem extractRegionsFromText_congr {text text' : String} (h : U.lower text = U.lower text') :
    extractRegionsFromText U text = extractRegionsFromText U text' := by
  rw [extractRegionsFromText, extractRegionsFromText, h]

/-- The category of a canonical text is that of its lower case. -/
theorem canonicalCategory_congr {text text' : String} (h : Canonical U text)
    (h' : Canonical U text') (hlower : U.lower text = U.lower text') :
    canonicalCategory U text = canonicalCategory U text' := by
  have hkey : normalizeCategoryKey U text = normalizeCategoryKey U text' := by
    rw [normalizeCategoryKey, normalizeCategoryKey, h.strip, h'.strip, hlower]
  simp only [canonicalCategory, hkey]

/-- The votes for the category are cast by the categories of the fields. -/
theorem inferCategory_congr (ha : CanonicalArticle U a) (hb : CanonicalArticle U b)
    (hparts : (articleParts a).map U.lower = (articleParts b).map U.lower)
    (hgroup : canonicalCategory U a.queryGroup = canonicalCategory U b.queryGroup)
    (hsource : canonicalCategory U a.sourceName = canonicalCategory U b.sourceName) :
    inferCategory U a = inferCategory U b := by
  simp only [CanonicalArticle, articleParts, List.mem_cons, List.not_mem_nil, or_false,
    forall_eq_or_imp, forall_eq] at ha hb
  simp only [articleParts, List.map_cons, List.map_nil, List.cons.injEq, and_true] at hparts
  have htitle := canonicalCategory_congr ha.1 hb.1 hparts.1
  have hdescription := canonicalCategory_congr ha.2.1 hb.2.1 hparts.2.1
  have hsnippet := canonicalCategory_congr ha.2.2 hb.2.2 hparts.2.2
  simp only [inferCategory, List.foldl_cons, List.foldl_nil, vote, htitle, hdescription, hsnippet,
    hgroup, hsource]

/-! ## Transparency -/

/-- **What articles of one fingerprint have in common**, when their texts are canonical: the
signal tags and the regions; the category, when the query groups and the source names vote
alike; and the suppliers, when the texts agree in letter case. -/
theorem analysis_of_fingerprint_eq (hlower : LowerJoins U) {digest : List String → String}
    (hdigest : Function.Injective digest) {policyVersion taxonomyVersion : String}
    (ha : CanonicalArticle U a) (hb : CanonicalArticle U b)
    (h : contentFingerprint U digest policyVersion taxonomyVersion a =
      contentFingerprint U digest policyVersion taxonomyVersion b)
    {order : SupplierOrder} {n : ℤ} {x y : DeterministicAnalysis}
    (hx : analyze U order a n = .ok x) (hy : analyze U order b n = .ok y) :
    x.output.signalTags = y.output.signalTags ∧
      x.output.detectedRegions = y.output.detectedRegions ∧
      (canonicalCategory U a.queryGroup = canonicalCategory U b.queryGroup →
        canonicalCategory U a.sourceName = canonicalCategory U b.sourceName →
        x.output.category = y.output.category) ∧
      (articleParts a = articleParts b →
        x.output.detectedSuppliers = y.output.detectedSuppliers) := by
  obtain ⟨htitle, hparts⟩ := lower_parts_eq hlower hdigest ha hb h
  have htext : U.lower (articleText a) = U.lower (articleText b) := by
    rw [lower_articleText hlower, lower_articleText hlower, hparts]
  rw [analyze_eq_ok U hx, analyze_eq_ok U hy]
  simp only [EnrichmentOutput.validated, outputFields, signalTagsOf]
  refine ⟨?_, ?_, ?_, ?_⟩
  · rw [classify_congr htext htitle]
  · rw [extractRegionsFromText_congr htext]
  · intro hgroup hsource
    rw [inferCategory_congr ha hb hparts hgroup hsource]
  · intro hsame
    rw [articleText, articleText, hsame]

/-- An article of a query group with a title. -/
def titled (queryGroup title : String) : RawArticle :=
  ⟨"rss", none, queryGroup, title, none, none, "", none, "Wire", none, 0, "en", none⟩

/-- Articles that differ in the letter case of a supplier name, in their query group or in
their spacing have one fingerprint; their suppliers, categories and signal tags differ. -/
theorem fingerprint_collides :
    let fingerprint := contentFingerprint .ascii "|".intercalate "cost-v1" "signals-v1"
    let outcome := fun (read : EnrichmentOutput → List String) article =>
      (analyze .ascii .listed article 420).toOption.map (read ·.output)
    (fingerprint (titled "regional" "Bosch") = fingerprint (titled "regional" "BOSCH") ∧
      outcome (·.detectedSuppliers) (titled "regional" "Bosch") = some ["Bosch"] ∧
      outcome (·.detectedSuppliers) (titled "regional" "BOSCH") = some []) ∧
    (fingerprint (titled "regional" "Bosch") = fingerprint (titled "regulatory" "Bosch") ∧
      outcome (fun o => [o.category]) (titled "regional" "Bosch") = some ["general"] ∧
      outcome (fun o => [o.category]) (titled "regulatory" "Bosch") = some ["regulatory"]) ∧
    (fingerprint (titled "regional" "chapter 7") = fingerprint (titled "regional" "chapter  7") ∧
      outcome (·.signalTags) (titled "regional" "chapter 7") = some ["bankruptcy"] ∧
      outcome (·.signalTags) (titled "regional" "chapter  7") = some []) := by
  -- each outcome is evaluated on its own
  refine ⟨⟨?_, ?_, ?_⟩, ⟨?_, ?_, ?_⟩, ?_, ?_, ?_⟩
  all_goals decide +kernel

/-- A digest without collisions. -/
private def unaryDigest (fields : List String) : String :=
  String.ofList (List.replicate (Encodable.encode (fields.map fun s => s.toList.map Char.toNat))
    '|')

private theorem unaryDigest_injective : Function.Injective unaryDigest := by
  intro fields fields' h
  have hlength := congrArg String.length h
  simp only [unaryDigest, String.length_ofList, List.length_replicate] at hlength
  have hchars : Function.Injective fun s : String => s.toList.map Char.toNat := by
    intro s t hst
    exact String.toList_inj.mp (List.map_injective_iff.mpr (fun _ _ => Char.toNat_inj.mp) hst)
  exact List.map_injective_iff.mpr hchars (Encodable.encode_injective hlength)

/-- `str.lower` of ASCII text goes character by character. -/
theorem ascii_lowerJoins : LowerJoins .ascii where
  lower_eq_empty := by
    intro s
    simp [Unicode.ascii, String.ofList_eq_empty_iff]
  lower_append_space := by
    intro s t
    simp only [Unicode.ascii, String.toList_append, List.map_append, String.ofList_append]
    rfl

/-- Two articles that differ in letter case. -/
theorem analysis_of_fingerprint_eq_shouted :
    ∃ x y, analyze .ascii .listed (titled "regional" "deal") 420 = .ok x ∧
      analyze .ascii .listed (titled "regional" "DEAL") 420 = .ok y ∧
      x.output.signalTags = y.output.signalTags ∧ x.output.category = y.output.category := by
  have hparts : ∀ text ∈ ["deal", "DEAL", ""], Canonical .ascii text := by
    intro text htext
    fin_cases htext <;> exact ⟨rfl, by decide +kernel, by decide +kernel⟩
  have hcanonical : ∀ title ∈ ["deal", "DEAL"],
      CanonicalArticle .ascii (titled "regional" title) := by
    intro title htitle part hpart
    apply hparts
    fin_cases htitle <;> fin_cases hpart <;> simp [titled]
  have hok : ∀ title ∈ ["deal", "DEAL"],
      (analyze .ascii .listed (titled "regional" title) 420).isOk = true := by
    decide +kernel
  have hfingerprint : contentFingerprint .ascii unaryDigest "cost-v1" "signals-v1"
      (titled "regional" "deal") = contentFingerprint .ascii unaryDigest "cost-v1" "signals-v1"
        (titled "regional" "DEAL") := congrArg unaryDigest (by decide +kernel)
  cases hx : analyze .ascii .listed (titled "regional" "deal") 420 with
  | error e => simpa [hx, Except.isOk, Except.toBool] using hok "deal" (by simp)
  | ok x =>
      cases hy : analyze .ascii .listed (titled "regional" "DEAL") 420 with
      | error e => simpa [hy, Except.isOk, Except.toBool] using hok "DEAL" (by simp)
      | ok y =>
          obtain ⟨htags, -, hcategory, -⟩ := analysis_of_fingerprint_eq ascii_lowerJoins
            unaryDigest_injective (hcanonical _ (by simp)) (hcanonical _ (by simp)) hfingerprint
            hx hy
          exact ⟨x, y, rfl, rfl, htags, hcategory rfl rfl⟩

end ProcureSignal.Enrichment
