/-
# Signal terms

`signals/taxonomy.py`: the vocabulary of signal tags, the aliases of a term, and the tags that
are stored.

* Sets are lists; the order in which a set is iterated shows in no result.
* The worklist of `expand_signal_terms` has fuel for every term and every alias
  (`expandFuel`).
-/
import ProcureSignal.Library.Regex
import ProcureSignal.Library.Unicode

namespace ProcureSignal.Signals

/-! ## Vocabulary -/

/-- `VALID_SIGNAL_TAGS`. -/
def validSignalTags : List String :=
  ["bankruptcy", "capacity_change", "executive_change", "expansion", "labor_dispute", "m_and_a",
   "natural_disaster", "port_strike", "price_change", "quality_issue", "regulatory", "sanctions",
   "strike", "supplier_risk", "supply_disruption", "tariff"]

/-- `CANONICAL_SIGNAL_TAG_ORDER`. -/
def canonicalSignalTagOrder : List String :=
  ["bankruptcy", "m_and_a", "tariff", "sanctions", "strike", "port_strike", "labor_dispute",
   "supply_disruption", "supplier_risk", "quality_issue", "regulatory", "natural_disaster",
   "price_change", "capacity_change", "executive_change", "expansion"]

/-- `PRIORITY_SIGNAL_TAGS`. -/
def prioritySignalTags : List String :=
  ["bankruptcy", "m_and_a", "port_strike", "quality_issue", "sanctions", "strike",
   "supply_disruption", "tariff"]

/-- `SIGNAL_ALIAS_GROUPS`. -/
def signalAliasGroups : List (List String) :=
  [["bankruptcy", "chapter 11", "insolvency", "liquidation", "receivership"],
   ["m&a", "m_and_a", "acquisition", "deal", "merger", "merger and acquisition", "takeover"],
   ["tariff", "tariffs", "customs", "duties", "export restriction", "import duty",
    "trade barrier", "trade war"],
   ["sanction", "sanctions", "embargo", "export control", "restricted party", "trade restriction"],
   ["strike", "labor_dispute", "labour dispute", "labor dispute", "industrial action",
    "port strike", "port_strike", "walkout", "work stoppage"],
   ["supply chain", "supply_chain", "supply disruption", "supply_disruption", "supply shortage",
    "component shortage", "facility closure", "logistics delay", "logistics delays",
    "logistics disruption", "port closure", "production halt", "shortage", "transport disruption"],
   ["war", "attack", "conflict", "escalation", "geopolitical", "geopolitical risk",
    "hostilities", "military action", "missile", "shipping attack"],
   ["middle east", "mideast", "bahrain", "gulf", "hormuz", "iran", "iraq", "israel", "jordan",
    "kuwait", "lebanon", "oman", "persian gulf", "qatar", "red sea", "saudi arabia",
    "strait of hormuz", "suez", "syria", "uae", "united arab emirates", "yemen"],
   ["regulation", "regulatory", "compliance", "legislation", "mandate", "policy change"],
   ["quality", "quality issue", "quality_issue", "recall", "defect"],
   ["natural disaster", "natural_disaster", "earthquake", "flood", "hurricane", "typhoon",
    "wildfire"],
   ["price change", "price_change", "price increase", "price cut", "pricing"],
   ["capacity change", "capacity_change", "expansion", "plant closure", "production capacity"]]

/-- `_SIGNAL_ALIAS_LOOKUP.get(term, frozenset())`: the last group that has the term. -/
def signalAliases (term : String) : List String :=
  ((signalAliasGroups.filter fun group => term ∈ group).getLast?).getD []

/-! ## Terms -/

variable (U : Unicode)

/-- Maximal runs of white space become one space. -/
def collapseSpace : List Char → List Char
  | [] => []
  | c :: cs =>
      if !U.isSpace c then c :: collapseSpace cs
      else if cs.head?.any U.isSpace then collapseSpace cs
      else ' ' :: collapseSpace cs

/-- No character is new but the space. -/
theorem collapseSpace_subset {U : Unicode} (cs : List Char) :
    ∀ c ∈ collapseSpace U cs, c = ' ' ∨ c ∈ cs := by
  fun_induction collapseSpace U cs with
  | case1 => exact fun c hc => absurd hc List.not_mem_nil
  | case2 d cs _ ih =>
      intro c hc
      rcases List.mem_cons.mp hc with rfl | hc
      · exact Or.inr List.mem_cons_self
      · exact (ih c hc).imp_right (List.mem_cons_of_mem d)
  | case3 d cs _ _ ih => exact fun c hc => (ih c hc).imp_right (List.mem_cons_of_mem d)
  | case4 d cs _ _ ih =>
      intro c hc
      rcases List.mem_cons.mp hc with rfl | hc
      · exact Or.inl rfl
      · exact (ih c hc).imp_right (List.mem_cons_of_mem d)

/-- `normalize_signal_term`. -/
def normalizeSignalTerm (value : String) : String :=
  String.ofList (collapseSpace U (U.lower (U.strip value)).toList)

/-- `term.replace(old, new)` of one character. -/
def replaceChar (old new : Char) (term : String) : String :=
  String.ofList (term.toList.map fun c => if c = old then new else c)

/-- `_signal_term_variants`. -/
def signalTermVariants (term : String) : List String :=
  if term = "" then []
  else [term, replaceChar ' ' '_' term, replaceChar '_' ' ' term].dedup

/-- The terms that an alias of the vocabulary can add. -/
def aliasVocabulary : List String :=
  (signalAliasGroups.flatten.flatMap signalTermVariants).dedup

/-- The worklist of `expand_signal_terms`. -/
def expandLoop : ℕ → List String → List String → List String
  | 0, expanded, _ => expanded
  | _ + 1, expanded, [] => expanded
  | fuel + 1, expanded, term :: queue =>
      if term ∈ expanded then expandLoop fuel expanded queue
      else
        let expanded := expanded ++ [term]
        let aliases := ((signalAliases term).flatMap signalTermVariants).filter (· ∉ expanded)
        expandLoop fuel expanded (aliases ++ queue)

/-- Every new term adds at most the vocabulary to the queue, and the new terms are terms of
the queue or of the vocabulary. -/
def expandFuel (queue : List String) : ℕ :=
  queue.length + (queue.length + aliasVocabulary.length) * aliasVocabulary.length + 1

/-- `expand_signal_terms`. -/
def expandSignalTerms (values : List String) : List String :=
  let queue := values.flatMap fun value => signalTermVariants (normalizeSignalTerm U value)
  expandLoop (expandFuel queue) [] queue

/-- Nothing expands to nothing. -/
theorem expandSignalTerms_nil : expandSignalTerms U [] = [] := by
  have hloop : ∀ fuel, expandLoop fuel [] [] = [] := by
    intro fuel
    cases fuel <;> rfl
  exact hloop _

/-- `canonical_signal_tag` of a text. -/
def canonicalSignalTag (value : String) : Option String :=
  let term := normalizeSignalTerm U value
  if term = "" then none
  else
    match (signalTermVariants term).find? (· ∈ validSignalTags) with
    | some variant => some variant
    | none => canonicalSignalTagOrder.find? (· ∈ expandSignalTerms U [term])

/-- The loop of `canonical_signal_tags`. -/
def canonicalSignalTagsInto (tags : List String) : List String → List String
  | [] => tags
  | value :: values =>
      match canonicalSignalTag U value with
      | some tag =>
          canonicalSignalTagsInto (if tag ∈ tags then tags else tags ++ [tag]) values
      | none => canonicalSignalTagsInto tags values

/-- `canonical_signal_tags`. -/
def canonicalSignalTags (values : List String) : List String :=
  canonicalSignalTagsInto U [] values

/-- `[a-z0-9]`. -/
def isLowerAlnum (c : Char) : Bool :=
  ('a' ≤ c && c ≤ 'z') || ('0' ≤ c && c ≤ '9')

/-- `text_matches_signal_terms`. -/
def textMatchesSignalTerms (text : String) (terms : List String) : Bool :=
  let normalized := normalizeSignalTerm U text
  normalized ≠ "" &&
    (expandSignalTerms U terms).any fun term =>
      3 ≤ term.length && (Regex.phrase isLowerAlnum term).search normalized

end ProcureSignal.Signals
