/-
# The risk event detector

`risk_events/taxonomy.py` and `detect_risk_events` of `risk_events/detector.py`: the risk types with
their terms, what an article matches, and the candidates that are built from it.

* Sets are lists; the order in which a set is iterated shows in no result.
* A confidence is the rational number that the floats add up to in exact arithmetic.
* `riskTermsFor` : the terms of risk types;
* `textMatch` : a type is found in the text;
* `detectRiskEvents` : the detector;
* `mem_detectRiskEvents` : **what a candidate is**.
-/
import ProcureSignal.Enrichment.Entities
import ProcureSignal.Models
import ProcureSignal.Signals.Taxonomy

namespace ProcureSignal.RiskEvents

open Enrichment (canonicalRegionName extractRegionsFromText)
open Signals

/-! ## Taxonomy -/

/-- `RISK_TYPE_ORDER`. -/
def riskTypeOrder : List String :=
  ["geopolitical", "regional_conflict", "supply_disruption", "tariff", "sanctions", "regulatory",
   "bankruptcy", "strike", "quality", "m_and_a", "currency", "logistics", "cybersecurity",
   "commodity"]

/-- `RISK_ALIASES["regional_conflict"]`. -/
def regionalConflictAliases : List String :=
  ["middle east", "mideast", "red sea", "gulf", "hormuz", "strait of hormuz", "suez", "iran",
   "iraq", "israel", "qatar", "saudi arabia", "uae", "united arab emirates", "yemen"]

/-- `RISK_ALIASES`. -/
def riskAliases : List (String × List String) :=
  [("geopolitical",
    ["war", "attack", "conflict", "escalation", "geopolitical", "geopolitical risk",
     "hostilities", "military action", "missile", "shipping attack"]),
   ("regional_conflict", regionalConflictAliases),
   ("supply_disruption",
    ["supply chain", "supply disruption", "supply shortage", "shortage", "factory shutdown",
     "facility closure", "production halt", "component shortage"]),
   ("tariff", ["tariff", "tariffs", "customs", "duties", "import duty", "trade duty"]),
   ("sanctions", ["sanction", "sanctions", "embargo", "export control", "blacklist"]),
   ("regulatory", ["regulation", "regulatory", "compliance", "legislation", "mandate"]),
   ("bankruptcy", ["bankruptcy", "chapter 11", "insolvency", "liquidation"]),
   ("strike", ["strike", "port strike", "labor dispute", "labour dispute", "walkout"]),
   ("quality", ["quality", "quality issue", "recall", "defect"]),
   ("m_and_a", ["m&a", "m_and_a", "merger", "acquisition", "takeover", "deal"]),
   ("currency", ["currency", "foreign exchange", "fx", "euro", "exchange rate"]),
   ("logistics", ["logistics", "port delay", "shipping delay", "transport disruption"]),
   ("cybersecurity", ["cyberattack", "cyber attack", "ransomware", "data breach"]),
   ("commodity", ["commodity", "raw material", "critical minerals", "metals", "energy price"])]

/-- `SEVERITY_BY_RISK_TYPE[risk_type]`. -/
def severityByRiskType (riskType : String) : String :=
  if riskType = "bankruptcy" then "critical"
  else if riskType ∈ ["geopolitical", "regional_conflict", "sanctions", "supply_disruption",
    "cybersecurity"] then "high"
  else "medium"

/-- `RECOMMENDATIONS`. -/
def recommendations : List (String × String) :=
  [("bankruptcy",
    "Review supplier continuity and alternate sourcing options before placing new orders."),
   ("geopolitical",
    "Review supplier exposure in this region before placing large orders."),
   ("regional_conflict",
    "Review supplier exposure in this region before placing large orders."),
   ("sanctions", "Review compliance exposure before engaging affected suppliers."),
   ("supply_disruption", "Review alternate suppliers and inventory coverage."),
   ("tariff",
    "Check landed cost and tariff exposure before confirming new purchase orders."),
   ("strike", "Review logistics buffers and supplier delivery commitments."),
   ("quality", "Review quality exposure before approving new supplier shipments."),
   ("regulatory", "Review compliance requirements before changing supplier commitments."),
   ("m_and_a", "Review ownership changes and possible contract or continuity impact."),
   ("currency", "Compare timing with the EUR monitor before committing spend."),
   ("logistics", "Review transit routes, buffers, and alternate logistics options."),
   ("cybersecurity",
    "Review supplier operational and data exposure before sharing sensitive information."),
   ("commodity", "Review price exposure and inventory coverage for affected materials.")]

section Terms

variable (U : Unicode)

/-- `_ALIAS_TO_TYPE.get(normalized)`; of two types with the alias, the later one. -/
def aliasToType (normalized : String) : Option String :=
  ((riskAliases.filter fun p =>
    normalized ∈ (p.1 :: p.2).map (normalizeSignalTerm U)).getLast?).map (·.1)

/-- The values that `risk_terms_for` expands for one value. -/
def expandedValues (value : String) : List String :=
  let normalized := normalizeSignalTerm U value
  let riskType := (aliasToType U normalized).getD normalized
  let aliases := (riskAliases.lookup riskType).getD [normalized]
  riskType :: aliases ++
    if riskType = "geopolitical" then "regional_conflict" :: regionalConflictAliases else []

/-- `risk_terms_for`. -/
def riskTermsFor (values : List String) : List String :=
  values.flatMap fun value =>
    if U.strip value = "" then []
    else (expandSignalTerms U (expandedValues U value)).filter (· ≠ "")

/-! ## Terms in the text -/

/-- `_GEOPOLITICAL_TEXT_ALIASES`. -/
def geopoliticalTextAliases : List String :=
  ["war", "armed conflict", "regional conflict", "geopolitical risk", "hostilities",
   "military action", "missile attack", "shipping attack", "attack threatens", "attack disrupts",
   "escalation of hostilities"]

/-- `_CONSERVATIVE_TEXT_ALIASES`. -/
def conservativeTextAliases : List (String × List String) :=
  [("geopolitical", geopoliticalTextAliases),
   ("regional_conflict", geopoliticalTextAliases),
   ("tariff",
    ["tariff increase", "tariff hike", "new tariff", "customs change", "customs duty increase",
     "duty increase", "import duty", "trade duty"]),
   ("regulatory",
    ["new regulation", "regulatory mandate", "compliance requirement", "legislation passed",
     "legislative requirement"]),
   ("quality", ["quality issue", "recall", "defect"]),
   ("m_and_a", ["m&a", "m_and_a", "merger", "acquisition", "takeover"]),
   ("strike",
    ["port strike", "labor strike", "labour strike", "union strike", "worker strike",
     "workers strike", "factory strike", "strike disruption", "labor dispute", "labour dispute",
     "walkout"]),
   ("currency", ["foreign exchange", "fx", "exchange rate", "currency risk"]),
   ("logistics",
    ["logistics disruption", "port delay", "shipping delay", "transport disruption",
     "shipping disruption"]),
   ("commodity",
    ["commodity price", "raw material shortage", "critical minerals", "energy price"])]

/-- `_text_terms_for(risk_type, risk_terms_for([risk_type]))`. -/
def textTermsFor (riskType : String) : List String :=
  match conservativeTextAliases.lookup riskType with
  | none => riskTermsFor U [riskType]
  | some aliases =>
      aliases.flatMap fun name =>
        [normalizeSignalTerm U name, replaceChar '_' ' ' (normalizeSignalTerm U name)]

/-- A term is in a normalized text, not preceded or followed by `[a-z0-9]`. -/
def matchesTerm (normalizedText term : String) : Bool :=
  (Regex.phrase isLowerAlnum term).search normalizedText

/-- The terms that are looked for in the text as whole terms: the terms themselves for
`_text_matches_exact`, their expansion without the shortest terms for
`text_matches_signal_terms`. -/
def searchedTerms (riskType : String) : List String :=
  if (conservativeTextAliases.lookup riskType).isSome then
    (textTermsFor U riskType).map (normalizeSignalTerm U)
  else (expandSignalTerms U (textTermsFor U riskType)).filter fun term => 3 ≤ term.length

/-- The terms that match the text. -/
def matchedTerms (riskType text : String) : List String :=
  let normalized := normalizeSignalTerm U text
  if (conservativeTextAliases.lookup riskType).isNone && normalized = "" then []
  else (searchedTerms U riskType).filter (matchesTerm normalized)

/-- `text_match`. -/
def textMatch (riskType text : String) : Bool :=
  if (conservativeTextAliases.lookup riskType).isSome then
    (textTermsFor U riskType).any fun term =>
      matchesTerm (normalizeSignalTerm U text) (normalizeSignalTerm U term)
  else textMatchesSignalTerms U text (textTermsFor U riskType)

end Terms

/-! ## Articles and candidates -/

/-- `NewsArticleProcessed`, the columns that are read here. -/
structure NewsArticleProcessed where
  normalizedTitle : String
  summary : String
  topLevelCategory : String
  signalTags : Option (List String)
  prioritySignal : Option String
  detectedRegions : Option (List String)
  detectedSuppliers : Option (List String)
  detectedCategories : Option (List String)
  deriving DecidableEq, Repr

/-- `NewsArticleRaw`, the columns that are read here. -/
structure NewsArticleRaw where
  title : String
  description : Option String
  contentSnippet : Option String
  articleUrl : String
  sourceName : String
  publishedAt : Instant
  deriving DecidableEq, Repr

/-- `RiskEventCandidate`. -/
structure RiskEventCandidate where
  riskType : String
  severity : String
  confidence : ℚ
  affectedSuppliers : List String
  affectedLocations : List String
  affectedCategories : List String
  evidenceSnippet : String
  recommendation : String
  deriving DecidableEq, Repr

/-- `text.find(needle)`. -/
def findText (needle : List Char) : List Char → Option ℕ
  | [] => if needle = [] then some 0 else none
  | c :: cs => if needle.isPrefixOf (c :: cs) then some 0 else (findText needle cs).map (· + 1)

section Candidates

variable (U : Unicode)

/-- `_article_text`. -/
def articleText (processed : NewsArticleProcessed) (raw : Option NewsArticleRaw) : String :=
  let parts := [some processed.normalizedTitle, some processed.summary, raw.map (·.title),
    raw.bind (·.description), raw.bind (·.contentSnippet)].filterMap id
  " ".intercalate ((parts.map U.strip).filter (· ≠ ""))

/-- `_confidence`. -/
def confidenceOf (metadataMatch textMatch : Bool) (processed : NewsArticleProcessed) : ℚ :=
  min (1 / 2 + (if metadataMatch then 1 / 4 else 0) + (if textMatch then 1 / 4 else 0) +
    (if processed.prioritySignal.any (· ≠ "") then 5 / 100 else 0) +
    (if processed.detectedSuppliers.any (· ≠ []) then 3 / 100 else 0) +
    (if processed.detectedRegions.any (· ≠ []) then 2 / 100 else 0)) (95 / 100)

/-- `_severity`. -/
def severityOf (riskType text : String) : String :=
  let lowered := (U.lower text).toList
  if ["bankruptcy", "missile", "shutdown", "embargo"].any fun term =>
      (findText term.toList lowered).isSome then
    if riskType ∈ ["bankruptcy", "geopolitical", "sanctions"] then "critical" else "high"
  else severityByRiskType riskType

/-- The loop of `_dedupe`. -/
def dedupeInto (seen result : List String) : List String → List String
  | [] => result
  | value :: values =>
      let text := U.strip value
      let key := U.lower text
      if text ≠ "" ∧ key ∉ seen then dedupeInto (key :: seen) (result ++ [text]) values
      else dedupeInto seen result values

/-- `_dedupe`. -/
def dedupe (values : List String) : List String := dedupeInto U [] [] values

/-- `_locations`. -/
def locationsOf (processed : NewsArticleProcessed) (text : String) : List String :=
  dedupe U ((processed.detectedRegions.getD [] ++ extractRegionsFromText U text).map
    (canonicalRegionName U))

/-- `match_positions` : where the terms are first found in the lower-cased text. -/
def matchPositions (text : String) (terms : List String) : List ℕ :=
  (terms.filter (· ≠ "")).filterMap fun term => findText term.toList (U.lower text).toList

/-- `_evidence`. -/
def evidence (text : String) (terms : List String) : String :=
  match (matchPositions U text terms).min? with
  | none => U.strip (String.ofList (text.toList.take 260))
  | some center =>
      let start := center - 90
      let stop := min text.toList.length (center + 170)
      U.strip (String.ofList ((text.toList.take stop).drop start))

/-- `_GEOPOLITICAL_ACTION_TERMS`. -/
def geopoliticalActionTerms : List String := expandSignalTerms U geopoliticalTextAliases

/-- The iteration of `detect_risk_events` for a risk type. -/
def detectRiskType (processed : NewsArticleProcessed) (raw : Option NewsArticleRaw)
    (riskType : String) : Option RiskEventCandidate :=
  let text := articleText U processed raw
  let articleSignalTerms :=
    riskTermsFor U (processed.prioritySignal.toList ++ processed.signalTags.getD [])
  let terms := riskTermsFor U [riskType]
  let rawMetadataMatch := articleSignalTerms.any (· ∈ terms)
  let textMatch := textMatch U riskType text
  let metadataMatch :=
    if (conservativeTextAliases.lookup riskType).isSome then rawMetadataMatch && textMatch
    else rawMetadataMatch
  if riskType ∈ ["geopolitical", "regional_conflict"] &&
      !(articleSignalTerms.any (· ∈ geopoliticalActionTerms U) ||
        textMatchesSignalTerms U text (geopoliticalActionTerms U)) then none
  else if !metadataMatch && !textMatch then none
  else
    let confidence := confidenceOf metadataMatch textMatch processed
    if confidence < 55 / 100 then none
    else some
      { riskType := riskType
        severity := severityOf U riskType text
        confidence := confidence
        affectedSuppliers := dedupe U (processed.detectedSuppliers.getD [])
        affectedLocations := locationsOf U processed text
        affectedCategories :=
          dedupe U (processed.topLevelCategory :: processed.detectedCategories.getD [])
        evidenceSnippet := evidence U text (textTermsFor U riskType)
        recommendation := (recommendations.lookup riskType).getD "" }

/-- `by_type.get(risk_type)` after the first loop of `_dedupe_events`. -/
def byType (events : List RiskEventCandidate) (riskType : String) : Option RiskEventCandidate :=
  events.foldl
    (fun current event =>
      if event.riskType ≠ riskType then current
      else
        match current with
        | none => some event
        | some kept => if kept.confidence < event.confidence then some event else some kept)
    none

/-- `_dedupe_events`: of the geopolitical family the weaker event goes.  No two events have one
type, so that they are compared by value. -/
def dedupeEvents (events : List RiskEventCandidate) : List RiskEventCandidate :=
  let popped :=
    match byType events "geopolitical", byType events "regional_conflict" with
    | some geopolitical, some regional =>
        if geopolitical.confidence < regional.confidence then some "geopolitical"
        else some "regional_conflict"
    | _, _ => none
  events.filter fun event =>
    byType events event.riskType = some event && popped ≠ some event.riskType

/-- `detect_risk_events`. -/
def detectRiskEvents (processed : NewsArticleProcessed) (raw : Option NewsArticleRaw) :
    List RiskEventCandidate :=
  dedupeEvents (riskTypeOrder.filterMap (detectRiskType U processed raw))

end Candidates

/-! ## What a candidate is -/

section Members

variable {U : Unicode} {processed : NewsArticleProcessed} {raw : Option NewsArticleRaw}

theorem mem_dedupeEvents {events : List RiskEventCandidate} {event : RiskEventCandidate}
    (h : event ∈ dedupeEvents events) : event ∈ events := (List.mem_filter.mp h).1

/-- The type and the snippet of the candidate of a type. -/
theorem riskType_detectRiskType {riskType : String} {event : RiskEventCandidate}
    (h : detectRiskType U processed raw riskType = some event) :
    event.riskType = riskType ∧
      event.evidenceSnippet =
        evidence U (articleText U processed raw) (textTermsFor U riskType) := by
  simp only [detectRiskType, Option.ite_none_left_eq_some, Option.some.injEq] at h
  obtain ⟨-, -, -, rfl⟩ := h
  exact ⟨rfl, rfl⟩

/-- **What a candidate is**: the candidate of its risk type. -/
theorem mem_detectRiskEvents {event : RiskEventCandidate}
    (h : event ∈ detectRiskEvents U processed raw) :
    event.riskType ∈ riskTypeOrder ∧
      detectRiskType U processed raw event.riskType = some event := by
  obtain ⟨riskType, hmem, hevent⟩ := List.mem_filterMap.mp (mem_dedupeEvents h)
  obtain ⟨rfl, -⟩ := riskType_detectRiskType hevent
  exact ⟨hmem, hevent⟩

/-- No two candidates have one type. -/
theorem pairwise_riskType_filterMap (order : List String) (hnodup : order.Nodup) :
    (order.filterMap (detectRiskType U processed raw)).Pairwise
      fun a b => a.riskType ≠ b.riskType := by
  rw [List.pairwise_filterMap]
  refine hnodup.imp fun {r r'} hne a ha b hb => ?_
  rw [(riskType_detectRiskType ha).1, (riskType_detectRiskType hb).1]
  exact hne

theorem pairwise_riskType_detectRiskEvents :
    (detectRiskEvents U processed raw).Pairwise fun a b => a.riskType ≠ b.riskType :=
  (pairwise_riskType_filterMap riskTypeOrder (by decide)).filter _

/-- Of events of different types, each is the one of its type. -/
theorem byType_of_pairwise {events : List RiskEventCandidate} {event : RiskEventCandidate}
    (hpairwise : events.Pairwise fun a b => a.riskType ≠ b.riskType) (h : event ∈ events) :
    byType events event.riskType = some event := by
  have hskip : ∀ (rest : List RiskEventCandidate) (current : Option RiskEventCandidate),
      (∀ e ∈ rest, e.riskType ≠ event.riskType) →
      rest.foldl
        (fun current e =>
          if e.riskType ≠ event.riskType then current
          else
            match current with
            | none => some e
            | some kept => if kept.confidence < e.confidence then some e else some kept)
        current = current := by
    intro rest
    induction rest with
    | nil => exact fun _ _ => rfl
    | cons e rest ih =>
        intro current hne
        rw [List.foldl_cons, if_pos (hne e List.mem_cons_self)]
        exact ih current fun e' he' => hne e' (List.mem_cons_of_mem e he')
  obtain ⟨front, back, rfl⟩ := List.append_of_mem h
  rw [List.pairwise_append] at hpairwise
  obtain ⟨-, hback, hfront⟩ := hpairwise
  rw [byType, List.foldl_append, hskip front none fun e he =>
    hfront e he event List.mem_cons_self, List.foldl_cons, if_neg (not_not.mpr rfl)]
  exact hskip back _ fun e he => ((List.pairwise_cons.mp hback).1 e he).symm

/-- The candidate of a type outside of the geopolitical family is returned. -/
theorem mem_detectRiskEvents_of_detectRiskType {riskType : String} {event : RiskEventCandidate}
    (hmem : riskType ∈ riskTypeOrder)
    (hfamily : riskType ∉ ["geopolitical", "regional_conflict"])
    (h : detectRiskType U processed raw riskType = some event) :
    event ∈ detectRiskEvents U processed raw := by
  obtain ⟨rfl, -⟩ := riskType_detectRiskType h
  have hevent : event ∈ riskTypeOrder.filterMap (detectRiskType U processed raw) :=
    List.mem_filterMap.mpr ⟨event.riskType, hmem, h⟩
  refine List.mem_filter.mpr ⟨hevent, ?_⟩
  rw [Bool.and_eq_true, decide_eq_true_eq, decide_eq_true_eq]
  refine ⟨byType_of_pairwise (pairwise_riskType_filterMap riskTypeOrder (by decide)) hevent,
    fun hpopped => ?_⟩
  rw [List.mem_cons, List.mem_singleton, not_or] at hfamily
  split at hpopped
  · split at hpopped
    · exact hfamily.1 (Option.some.inj hpopped).symm
    · exact hfamily.2 (Option.some.inj hpopped).symm
  · cases hpopped

/-- A text match is enough for a candidate outside of the geopolitical family. -/
theorem exists_candidate_of_textMatch {riskType : String} (hmem : riskType ∈ riskTypeOrder)
    (hfamily : riskType ∉ ["geopolitical", "regional_conflict"])
    (htext : textMatch U riskType (articleText U processed raw) = true) :
    ∃ event ∈ detectRiskEvents U processed raw, event.riskType = riskType := by
  have hconfident : ∀ metadataMatch, ¬ confidenceOf metadataMatch true processed < 55 / 100 := by
    intro metadataMatch
    rw [not_lt, confidenceOf, le_min_iff]
    have hnonneg : ∀ (b : Bool) (x : ℚ), 0 ≤ x → 0 ≤ if b then x else 0 := by
      intro b x hx
      cases b
      · exact le_refl 0
      · exact hx
    have h₁ := hnonneg metadataMatch (1 / 4) (by norm_num)
    have h₂ := hnonneg (processed.prioritySignal.any (· ≠ "")) (5 / 100) (by norm_num)
    have h₃ := hnonneg (processed.detectedSuppliers.any (· ≠ [])) (3 / 100) (by norm_num)
    have h₄ := hnonneg (processed.detectedRegions.any (· ≠ [])) (2 / 100) (by norm_num)
    rw [if_pos rfl]
    constructor
    · linarith
    · norm_num
  have hfound : ∃ event, detectRiskType U processed raw riskType = some event := by
    simp only [detectRiskType, htext, hfamily, decide_false, Bool.false_and, Bool.not_true,
      Bool.and_false, Bool.false_eq_true, if_false]
    rw [if_neg (hconfident _)]
    exact ⟨_, rfl⟩
  obtain ⟨event, hevent⟩ := hfound
  exact ⟨event, mem_detectRiskEvents_of_detectRiskType hmem hfamily hevent,
    (riskType_detectRiskType hevent).1⟩

end Members

end ProcureSignal.RiskEvents
