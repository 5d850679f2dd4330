/-
# Deterministic enrichment

`DeterministicEnricher.analyze` of `enrichment/deterministic.py`, with the checks of
`SignalClassifier` that it reads.  Scores are computed in exact arithmetic.
-/
import ProcureSignal.Enrichment.Entities
import ProcureSignal.Enrichment.Output
import ProcureSignal.Enrichment.Pipeline

namespace ProcureSignal.Enrichment

open ProcureSignal.Enrichment.Pipeline (DeterministicAnalysis)
open ProcureSignal.Personalization (canonicalCategories canonicalCategory firstMax joinWords)
open ProcureSignal.Signals (canonicalSignalTags prioritySignalTags)

/-! ## The classifier -/

/-- `Signal`: its type and the confidence of the check. -/
structure Signal where
  signalType : String
  confidence : ℚ
  deriving DecidableEq, Repr

/-- `needle in haystack`. -/
def occursIn (needle haystack : String) : Bool := needle.toList <:+: haystack.toList

section Classifier

variable (U : Unicode)

/-- One check of the classifier: a keyword occurs in the text or in the headline. -/
def checkKeywords (signalType : String) (confidence : ℚ) (keywords : List String)
    (text headline : String) : List Signal :=
  if keywords.any fun keyword =>
      occursIn keyword (U.lower text) || occursIn keyword (U.lower headline) then
    [⟨signalType, confidence⟩]
  else []

/-- `_check_bankruptcy`. -/
def checkBankruptcy : String → String → List Signal :=
  checkKeywords U "bankruptcy" (85 / 100)
    ["bankruptcy", "insolvency", "filed for bankruptcy", "chapter 11", "chapter 7",
     "debt restructuring", "going out of business", "liquidation", "receivership"]

/-- `_check_m_and_a`. -/
def checkMAndA : String → String → List Signal :=
  checkKeywords U "m_and_a" (80 / 100)
    ["acquired", "merger", "acquisition", "merged with", "combine", "consolidation", "buyout",
     "takeover", "purchase agreement", "deal"]

/-- `_check_tariff`. -/
def checkTariff : String → String → List Signal :=
  checkKeywords U "tariff" (78 / 100)
    ["tariff", "import duty", "export restriction", "trade war", "sanctions", "embargo",
     "trade agreement", "customs"]

/-- `_check_strike`. -/
def checkStrike : String → String → List Signal :=
  checkKeywords U "strike" (88 / 100)
    ["strike", "labor strike", "workers strike", "work stoppage", "union strike", "walkout",
     "industrial action", "streik", "arbeitskampf", "grève", "mouvement social"]

/-- `_check_regulatory`. -/
def checkRegulatory : String → String → List Signal :=
  checkKeywords U "regulatory" (75 / 100)
    ["regulation", "compliance", "mandate", "legislation", "law change", "executive order",
     "policy change", "requirement", "regulierung", "verordnung", "gesetz", "réglementation",
     "règlement", "obligation réglementaire"]

/-- `_check_supply_disruption`. -/
def checkSupplyDisruption : String → String → List Signal :=
  checkKeywords U "supply_disruption" (82 / 100)
    ["supply chain disruption", "logistics delay", "port closure", "transportation halt",
     "facility closure", "production halt", "shortage", "supply shortage"]

/-- `SignalClassifier.classify`. -/
def classify (text headline : String) : List Signal :=
  checkBankruptcy U text headline ++ checkMAndA U text headline ++ checkTariff U text headline ++
    checkStrike U text headline ++ checkRegulatory U text headline ++
    checkSupplyDisruption U text headline

/-! ## The category -/

/-- `scores[category] = scores.get(category, 0) + weight`. -/
def addScore (category : String) (weight : ℕ) : List (String × ℕ) → List (String × ℕ)
  | [] => [(category, weight)]
  | (c, n) :: scores =>
      if c = category then (c, n + weight) :: scores
      else (c, n) :: addScore category weight scores

/-- The vote of one field. -/
def vote (scores : List (String × ℕ)) (candidate : String × ℕ) : List (String × ℕ) :=
  let category := canonicalCategory U candidate.1
  if category ∈ canonicalCategories ∧ category ≠ "general" then
    addScore category candidate.2 scores
  else scores

/-- `_infer_category`. -/
def inferCategory (article : RawArticle) : String × ℚ :=
  let scores := [(article.title, 3), (article.description.getD "", 3),
    (article.contentSnippet.getD "", 2), (article.queryGroup, 1),
    (article.sourceName, 1)].foldl (vote U) []
  if scores = [] then ("general", 0) else ((firstMax ("general", 0) scores).1, 1)

/-! ## The summary -/

/-- `_summary`. -/
def summary (article : RawArticle) (maxChars : ℕ) : String :=
  let sources := [article.description.getD "", article.contentSnippet.getD "", article.title]
  let text := ((sources.map (joinWords U)).find? (· ≠ "")).getD "No summary"
  let padded := text.length < 10
  let normalized := if padded then text ++ " [summary unavailable]" else text
  let chars := normalized.toList
  if normalized.length ≤ maxChars then normalized
  else if padded then String.ofList (chars.take maxChars)
  else
    let stripped := (chars.take (maxChars - 1)).rdropWhile U.isSpace
    let words := if ' ' ∈ stripped then (stripped.rdropWhile (· ≠ ' ')).dropLast else stripped
    let cut := if words.length + 1 < 10 then chars.take (maxChars - 1) else words
    String.ofList cut ++ "…"

/-! ## The analysis -/

/-- `round(x, 6)`, halves to even. -/
def roundSix (x : ℚ) : ℚ :=
  let scaled := x * 1000000
  let below := ⌊scaled⌋
  let rest := scaled - below
  let rounded := if rest < 1 / 2 ∨ (rest = 1 / 2 ∧ below % 2 = 0) then below else below + 1
  rounded / 1000000

/-- `_bounded`. -/
def bounded (value : ℚ) : ℚ := roundSix (max 0 (min 1 value))

/-- The keys of `QUERY_GROUPS`. -/
def queryGroups : List String :=
  ["supplier_risk", "logistics_disruption", "tariff_changes", "commodity_prices", "regulatory",
   "regional", "europe_business"]

/-- The parts of an article that are read as its text. -/
def articleParts (article : RawArticle) : List String :=
  [article.title, article.description.getD "", article.contentSnippet.getD ""]

/-- `" ".join(part for part in parts if part)`. -/
def articleText (article : RawArticle) : String :=
  " ".intercalate ((articleParts article).filter (· ≠ ""))

/-- `1.0` or `0.0`. -/
def evidence (b : Bool) : ℚ := if b then 1 else 0

/-- The tags of the signals in an article. -/
def signalTagsOf (article : RawArticle) : List String :=
  canonicalSignalTags U ((classify U (articleText article) article.title).map (·.signalType))

/-- The fields of the output. -/
def outputFields (order : SupplierOrder) (article : RawArticle) (maxChars : ℕ) :
    EnrichmentOutput where
  summary := summary U article maxChars
  category := (inferCategory U article).1
  signalTags := signalTagsOf U article
  prioritySignal := (signalTagsOf U article).find? (· ∈ prioritySignalTags)
  detectedSuppliers := extractSuppliersFromText U order (articleText article)
  detectedRegions := extractRegionsFromText U (articleText article)
  detectedCategories := [(inferCategory U article).1]

/-- `DeterministicEnricher.analyze`. -/
def analyze (order : SupplierOrder) (article : RawArticle) (summaryMaxChars : ℤ) :
    Except String DeterministicAnalysis :=
  if summaryMaxChars < 10 then .error "summary_max_chars must be an integer of at least 10"
  else
    let fields := outputFields U order article summaryMaxChars.toNat
    let signals := classify U (articleText article) article.title
    let categoryEvidence := (inferCategory U article).2
    let entityEvidence : ℚ :=
      min 1 ((fields.detectedSuppliers.length + fields.detectedRegions.length : ℕ) / 2)
    let queryEvidence := evidence (article.queryGroup ∈ queryGroups)
    let signalEvidence := evidence (fields.signalTags ≠ [])
    let textCompleteness : ℚ := ((articleParts article).countP (U.strip · ≠ "") : ℕ) / 3
    let signalConfidence := (signals.map (·.confidence)).foldl max 0
    let relevance := bounded (45 / 100 * signalEvidence + 25 / 100 * queryEvidence +
      20 / 100 * entityEvidence + 10 / 100 * categoryEvidence)
    let confidence := bounded (45 / 100 * signalConfidence + 20 / 100 * entityEvidence +
      20 / 100 * categoryEvidence + 15 / 100 * textCompleteness)
    (EnrichmentOutput.create U fields).map fun output => ⟨output, relevance, confidence⟩

/-- The output of an analysis is made of the fields. -/
theorem analyze_eq_ok {order : SupplierOrder} {article : RawArticle} {n : ℤ}
    {x : DeterministicAnalysis} (h : analyze U order article n = .ok x) :
    x.output = (outputFields U order article n.toNat).validated U := by
  unfold analyze at h
  split at h
  · cases h
  · cases hcreate : EnrichmentOutput.create U (outputFields U order article n.toNat) with
    | error e =>
        simp only [hcreate] at h
        cases h
    | ok output =>
        simp only [hcreate] at h
        rw [← Except.ok.inj h]
        exact EnrichmentOutput.create_eq_ok U hcreate

end Classifier

end ProcureSignal.Enrichment
