/-
# The EU sanctions adapter

`retrieval/providers/sanctions.py` on an export that was fetched and parsed: the
`sanctionEntity` elements in the order in which they end, the facts of each, and the
articles one run returns.  The run stops at the source's item limit and the next run
starts at the first element again.

* `sanctionEntities`, `recordOf` : `_records`, one element at a time;
* `fetchArticles` : one run; `fetchArticles_eq_some` says what it returns;
* `emitted_iff_lt_itemLimit` : which elements any run returns an article for.
-/
import ProcureSignal.Models
import ProcureSignal.Library.Folding

namespace ProcureSignal.Retrieval.Sanctions

variable (U : Unicode) (isDecimal : Char → Bool)

/-! ## Elements -/

/-- An element of a parsed XML file: its tag with the namespace in braces, attributes,
the text before the first child, and the children. -/
inductive Element
  | mk (tag : String) (attrib : List (String × String)) (text : Option String)
      (children : List Element)

namespace Element

def tag : Element → String
  | mk tag _ _ _ => tag

def text : Element → Option String
  | mk _ _ text _ => text

/-- `element.attrib.get(name)`. -/
def get : Element → String → Option String
  | mk _ attrib _ _, name => attrib.lookup name

/-- `_local(element.tag)`: the tag without its namespace. -/
def localTag (e : Element) : String :=
  String.ofList (e.tag.toList.rtakeWhile (· ≠ '}'))

/-- A `sanctionEntity` element. -/
def isEntity (e : Element) : Bool := e.localTag = "sanctionEntity"

mutual

/-- `element.iter()`: the element and its descendants in document order. -/
def iter : Element → List Element
  | mk tag attrib text children => mk tag attrib text children :: iterAll children

def iterAll : List Element → List Element
  | [] => []
  | e :: es => iter e ++ iterAll es

end

mutual

/-- The `end` events of `iterparse`: descendants before the element. -/
def ends : Element → List Element
  | mk tag attrib text children => endsAll children ++ [mk tag attrib text children]

def endsAll : List Element → List Element
  | [] => []
  | e :: es => ends e ++ endsAll es

end

mutual

/-- The element at its `end` event: `element.clear()` has emptied every `sanctionEntity`
that ended inside it. -/
def clearInner : Element → Element
  | mk tag attrib text children => mk tag attrib text (clearAll children)

def clearAll : List Element → List Element
  | [] => []
  | e :: es => (if e.isEntity then mk e.tag [] none [] else clearInner e) :: clearAll es

end

end Element

/-- The `sanctionEntity` elements of an export, in the order in which they end. -/
def sanctionEntities (root : Element) : List Element :=
  (root.ends.filter (·.isEntity)).map (·.clearInner)

/-! ## The facts of an element -/

/-- `_TEXT_LIMIT`. -/
def textLimit : ℕ := 2000

/-- `s[:limit]`. -/
def truncate (s : String) (limit : ℕ) : String := String.ofList (s.toList.take limit)

/-- `_clean`: every run of white space one space, none at the ends, then cut. -/
def clean (value : Option String) (limit : ℕ := textLimit) : String :=
  truncate (" ".intercalate (U.split (value.getD ""))) limit

/-- `a or b` on optional text: absent and empty text are false. -/
def orElseText (a b : Option String) : Option String := if a.getD "" = "" then b else a

/-- `_designation_identity`: the reference and the revision. -/
def designationIdentity (e : Element) : String × String :=
  (clean U (orElseText (e.get "euReferenceNumber") (e.get "logicalId")) 100,
    clean U (orElseText (orElseText (e.get "designationDate") (e.get "lastUpdated"))
      (e.get "logicalId")) 40)

/-- `_earliest_revisions`: the least revision of each reference. -/
def earliestRevisions (entities : List Element) : String → Option String :=
  entities.foldl (fun earliest e =>
    let (reference, revision) := designationIdentity U e
    Function.update earliest reference
      (some (min revision ((earliest reference).getD revision)))) fun _ => none

/-- What the loop over the children of a designation collects. -/
structure Facts where
  aliases : List String
  primary : String
  regulations : List String
  remarks : String
  entity : Bool
  deriving DecidableEq, Repr

/-- The name a `nameAlias` child gives. -/
def aliasName (child : Element) : String := clean U (orElseText (child.get "wholeName") child.text) 500

/-- `items.append(item)` when there is an item and it is not listed yet. -/
def appendNew (items : List String) (item : String) : List String :=
  if item ≠ "" ∧ item ∉ items then items ++ [item] else items

/-- The body of the loop over `element.iter()`. -/
def readChild (facts : Facts) (child : Element) : Facts :=
  if child.localTag = "nameAlias" then
    let name := aliasName U child
    { facts with
      aliases := appendNew facts.aliases name
      primary :=
        if name ≠ "" ∧ (facts.primary = "" ∨ U.lower ((child.get "strong").getD "") = "true")
        then name else facts.primary }
  else if child.localTag = "regulation" then
    { facts with
      regulations :=
        appendNew facts.regulations (clean U (orElseText (child.get "numberTitle") child.text) 500) }
  else if child.localTag = "remark" then { facts with remarks := clean U child.text }
  else if child.localTag = "subjectType" then
    let code := U.lower ((child.get "code").getD "" ++ (child.get "classificationCode").getD "")
    { facts with
      entity := code.toList.head? = some 'e' || "enterprise".toList <:+: code.toList ||
        "entity".toList <:+: code.toList }
  else facts

/-- The facts of an element. -/
def factsOf (e : Element) : Facts := e.iter.foldl (readChild U) ⟨[], "", [], "", false⟩

/-- At least one `nameAlias` of the element gives a name. -/
def HasName (e : Element) : Prop :=
  ∃ child ∈ e.iter, child.localTag = "nameAlias" ∧ aliasName U child ≠ ""

/-! ## Dates -/

/-- `re.fullmatch(r"\d{4}-\d{2}-\d{2}", s)`; `isDecimal` holds of the decimal digits of
any script. -/
def isDateShaped (s : String) : Bool :=
  match s.toList with
  | [y₁, y₂, y₃, y₄, '-', m₁, m₂, '-', d₁, d₂] =>
      [y₁, y₂, y₃, y₄, m₁, m₂, d₁, d₂].all isDecimal
  | _ => false

/-- The value of an ASCII digit. -/
def digit? (c : Char) : Option ℕ :=
  if 48 ≤ c.toNat ∧ c.toNat ≤ 57 then some (c.toNat - 48) else none

/-- The number a list of ASCII digits writes. -/
def number? (cs : List Char) : Option ℕ :=
  cs.foldlM (fun n c => (digit? c).map fun d => 10 * n + d) 0

def isLeap (year : ℕ) : Bool := year % 4 = 0 && (year % 100 ≠ 0 || year % 400 = 0)

def daysInMonth (year month : ℕ) : ℕ :=
  if month = 2 then if isLeap year then 29 else 28
  else if month ∈ [4, 6, 9, 11] then 30 else 31

/-- `date.toordinal`: the number of the day, the first of January of year `1` being `1`. -/
def toOrdinal (year month day : ℕ) : ℕ :=
  (year - 1) * 365 + (year - 1) / 4 - (year - 1) / 100 + (year - 1) / 400 +
    ((List.range' 1 (month - 1)).map (daysInMonth year)).sum + day

/-- `datetime.fromisoformat` of a date-shaped text; absent when it raises. -/
def fromIsoFormat (s : String) : Option Instant :=
  match number? (s.toList.take 4), number? ((s.toList.drop 5).take 2), number? (s.toList.drop 8) with
  | some year, some month, some day =>
      if 1 ≤ year ∧ 1 ≤ month ∧ month ≤ 12 ∧ 1 ≤ day ∧ day ≤ daysInMonth year month then
        some (days (toOrdinal year month day))
      else none
  | _, _, _ => none

/-- The publication date: a date-shaped revision has to be a date, any other gives the
time of reading. -/
def publishedOf (revision : String) (now : Instant) : Option Instant :=
  if isDateShaped isDecimal revision then fromIsoFormat revision else some now

/-- The revision of the element is not date-shaped, or a date. -/
def DateOk (e : Element) : Prop :=
  isDateShaped isDecimal (designationIdentity U e).2 = true →
    (fromIsoFormat (designationIdentity U e).2).isSome = true

instance (e : Element) : Decidable (DateOk U isDecimal e) :=
  inferInstanceAs (Decidable (_ → _))

/-! ## Records -/

/-- What `_records` yields for one element. -/
structure Record where
  identity : String
  primary : String
  isUpdate : Bool
  description : String
  published : Instant
  screeningNames : List String
  deriving DecidableEq, Repr

/-- `_records` at one element, `now` being the reading of the clock there; absent when
the date raises. -/
def recordOf (earliest : String → Option String) (now : Instant) (e : Element) : Option Record :=
  let (reference, revision) := designationIdentity U e
  let facts := factsOf U e
  let primary := if facts.primary ≠ "" then facts.primary else facts.aliases.headD reference
  let secondary := facts.aliases.filter (· ≠ primary)
  let lines :=
    [if facts.entity then "Entity" else "Person", "EU reference " ++ reference] ++
      (if secondary = [] then [] else ["aliases: " ++ ", ".intercalate secondary]) ++
      (if facts.regulations = [] then []
        else ["regulations: " ++ ", ".intercalate facts.regulations]) ++
      (if facts.remarks = "" then [] else ["remarks: " ++ facts.remarks])
  (publishedOf isDecimal revision now).map fun published =>
    { identity := "eu-sanctions:" ++ reference ++ ":" ++ revision
      primary := primary
      isUpdate := earliest reference ≠ some revision
      description := truncate ("; ".intercalate lines) textLimit
      published := published
      screeningNames := primary :: secondary }

/-! ## One run -/

/-- `AdapterType`. -/
inductive AdapterType
  | rss
  | structuredSanctions
  | newsapi
  | gdelt
  deriving DecidableEq, Repr

/-- `SourceClass`. -/
inductive SourceClass
  | official
  | establishedMedia
  | industry
  deriving DecidableEq, Repr

/-- `SourceDefinition`, with the bound of the registry on the item limit. -/
structure SourceDefinition where
  sourceId : String
  displayName : String
  homepageUrl : String
  endpointUrl : String
  adapter : AdapterType
  sourceClass : SourceClass
  itemLimit : ℕ
  itemLimit_bounds : 1 ≤ itemLimit ∧ itemLimit ≤ 100

/-- `EUSanctionsProvider`: it is built for an official structured source only. -/
structure EUSanctionsProvider where
  source : SourceDefinition
  structured : source.adapter = .structuredSanctions
  official : source.sourceClass = .official

/-- The article of a record. -/
def EUSanctionsProvider.article (p : EUSanctionsProvider) (record : Record) : RawArticle where
  provider := "eu_sanctions"
  providerArticleId := some record.identity
  queryGroup := "sanctions"
  title := "EU sanctions designation" ++ (if record.isUpdate then " update" else "") ++ ": " ++
    record.primary
  description := some record.description
  contentSnippet := some record.description
  articleUrl := p.source.endpointUrl
  canonicalUrl := some p.source.endpointUrl
  sourceName := p.source.displayName
  sourceUrl := some p.source.homepageUrl
  publishedAt := record.published
  language := "en"
  rawPayloadJson := some (.object (some record.screeningNames))

/-- The loop of `fetch_articles` from the `k`-th element on; the record of an element is
made before the limit is looked at. -/
def collect (p : EUSanctionsProvider) (earliest : String → Option String) (clock : ℕ → Instant) :
    ℕ → List Element → List RawArticle → Option (List RawArticle)
  | _, [], articles => some articles
  | k, e :: es, articles =>
      (recordOf U isDecimal earliest (clock k) e).bind fun record =>
        if p.source.itemLimit ≤ articles.length then some articles
        else collect p earliest clock (k + 1) es (articles ++ [p.article record])

/-- `fetch_articles` on a fetched export, `clock k` being the reading of the clock at the
`k`-th element; absent when the run raises. -/
def fetchArticles (p : EUSanctionsProvider) (root : Element) (clock : ℕ → Instant) :
    Option (List RawArticle) :=
  let entities := sanctionEntities root
  collect U isDecimal p (earliestRevisions U entities) clock 0 entities []

/-! ## What a run returns -/

/-- The identity of an element's record. -/
def identityOf (e : Element) : String :=
  "eu-sanctions:" ++ (designationIdentity U e).1 ++ ":" ++ (designationIdentity U e).2

/-- The record of an element is made exactly when its date does not raise. -/
theorem exists_recordOf_iff (earliest : String → Option String) (now : Instant) (e : Element) :
    (∃ record, recordOf U isDecimal earliest now e = some record) ↔ DateOk U isDecimal e := by
  unfold recordOf DateOk publishedOf
  simp only [Option.map_eq_some_iff]
  split
  · rename_i hshape
    constructor
    · rintro ⟨-, published, hp, -⟩ -
      rw [hp]
      rfl
    · intro h
      obtain ⟨published, hp⟩ := Option.isSome_iff_exists.mp (h hshape)
      exact ⟨_, published, hp, rfl⟩
  · rename_i hshape
    constructor
    · intro _ h
      exact absurd h hshape
    · intro _
      exact ⟨_, now, rfl, rfl⟩

/-- A record carries the identity of its element. -/
theorem identity_of_recordOf {earliest : String → Option String} {now : Instant} {e : Element}
    {record : Record} (h : recordOf U isDecimal earliest now e = some record) :
    record.identity = identityOf U e := by
  unfold recordOf at h
  obtain ⟨published, -, rfl⟩ := Option.map_eq_some_iff.mp h
  rfl

/-- One round of the loop. -/
theorem collect_cons (p : EUSanctionsProvider) (earliest : String → Option String)
    (clock : ℕ → Instant) (k : ℕ) {e : Element} (es : List Element) (articles : List RawArticle)
    {record : Record} (h : recordOf U isDecimal earliest (clock k) e = some record) :
    collect U isDecimal p earliest clock k (e :: es) articles =
      if p.source.itemLimit ≤ articles.length then some articles
      else collect U isDecimal p earliest clock (k + 1) es (articles ++ [p.article record]) := by
  rw [collect, h, Option.bind_some]

/-- **The loop**: with room for `m` more articles it takes the next `m` elements, provided
the dates of these and of one more do not raise. -/
theorem collect_spec (p : EUSanctionsProvider) (earliest : String → Option String)
    (clock : ℕ → Instant) (k : ℕ) (es : List Element) (articles : List RawArticle) (m : ℕ)
    (hm : articles.length + m = p.source.itemLimit)
    (hdates : ∀ e ∈ es.take (m + 1), DateOk U isDecimal e) :
    ∃ new, collect U isDecimal p earliest clock k es articles = some (articles ++ new) ∧
      new.length = min es.length m ∧
      ∀ j e, es[j]? = some e → j < m → ∃ record,
        recordOf U isDecimal earliest (clock (k + j)) e = some record ∧
          new[j]? = some (p.article record) := by
  induction es generalizing k articles m with
  | nil =>
    refine ⟨[], ?_, ?_, ?_⟩
    · rw [List.append_nil]
      rfl
    · simp
    · intro j e he
      cases he
  | cons e es ih =>
    rw [List.take_succ_cons] at hdates
    obtain ⟨record, hrecord⟩ :=
      (exists_recordOf_iff U isDecimal earliest (clock k) e).mpr (hdates e List.mem_cons_self)
    rw [collect_cons _ _ _ _ _ _ _ _ hrecord]
    cases m with
    | zero =>
      rw [if_pos (by omega : p.source.itemLimit ≤ articles.length)]
      refine ⟨[], by rw [List.append_nil], by rw [Nat.min_zero, List.length_nil], ?_⟩
      intro j e' _ hj
      omega
    | succ m =>
      rw [if_neg (by omega : ¬ p.source.itemLimit ≤ articles.length)]
      have hlength : (articles ++ [p.article record]).length + m = p.source.itemLimit := by
        rw [List.length_append, List.length_singleton]
        omega
      have hrest : ∀ e' ∈ es.take (m + 1), DateOk U isDecimal e' := fun e' he' =>
        hdates e' (List.mem_cons_of_mem _ he')
      obtain ⟨new, hnew, hcount, hplace⟩ := ih (k + 1) _ m hlength hrest
      refine ⟨p.article record :: new, ?_, ?_, ?_⟩
      · rw [hnew, List.append_assoc, List.singleton_append]
      · rw [List.length_cons, List.length_cons, hcount]
        omega
      · intro j e' he' hj
        cases j with
        | zero =>
          obtain rfl := Option.some.inj he'
          exact ⟨record, hrecord, rfl⟩
        | succ j =>
          obtain ⟨record', hrecord', hat⟩ := hplace j e' he' (by omega)
          refine ⟨record', ?_, hat⟩
          rw [show k + (j + 1) = k + 1 + j by omega]
          exact hrecord'

/-- Some run of the sequence returns, at the place of the `k`-th element, the article made
from it. -/
def Emitted (p : EUSanctionsProvider) (root : Element) (clocks : ℕ → ℕ → Instant) (k : ℕ) :
    Prop :=
  ∃ n articles e record, fetchArticles U isDecimal p root (clocks n) = some articles ∧
    (sanctionEntities root)[k]? = some e ∧
    recordOf U isDecimal (earliestRevisions U (sanctionEntities root)) (clocks n k) e = some record ∧
    articles[k]? = some (p.article record)

/-- Every run returns the articles of the first `itemLimit` elements, in their order, and
no other. -/
theorem fetchArticles_eq_some (p : EUSanctionsProvider) (root : Element)
    (hdates : ∀ e ∈ (sanctionEntities root).take (p.source.itemLimit + 1), DateOk U isDecimal e)
    (clock : ℕ → Instant) :
    ∃ articles, fetchArticles U isDecimal p root clock = some articles ∧
      articles.length = min (sanctionEntities root).length p.source.itemLimit ∧
      ∀ k e, (sanctionEntities root)[k]? = some e → k < p.source.itemLimit → ∃ record,
        recordOf U isDecimal (earliestRevisions U (sanctionEntities root)) (clock k) e
            = some record ∧
          articles[k]? = some (p.article record) := by
  obtain ⟨new, hnew, hlength, hplace⟩ := collect_spec U isDecimal p
    (earliestRevisions U (sanctionEntities root)) clock 0 (sanctionEntities root) []
    p.source.itemLimit (Nat.zero_add _) hdates
  refine ⟨new, hnew, hlength, ?_⟩
  intro k e he hk
  have h := hplace k e he hk
  rwa [Nat.zero_add] at h

/-- An element is reached by some run exactly when it is among the first `itemLimit`. -/
theorem emitted_iff_lt (p : EUSanctionsProvider) (root : Element)
    (hdates : ∀ e ∈ (sanctionEntities root).take (p.source.itemLimit + 1), DateOk U isDecimal e)
    (clocks : ℕ → ℕ → Instant) {k : ℕ} (hk : k < (sanctionEntities root).length) :
    Emitted U isDecimal p root clocks k ↔ k < p.source.itemLimit := by
  constructor
  · rintro ⟨n, articles, e, record, hfetch, -, -, hat⟩
    obtain ⟨articles', hfetch', hlength, -⟩ :=
      fetchArticles_eq_some U isDecimal p root hdates (clocks n)
    rw [hfetch, Option.some.injEq] at hfetch'
    obtain ⟨hlt, -⟩ := List.getElem?_eq_some_iff.mp hat
    rw [hfetch', hlength] at hlt
    omega
  · intro hlimit
    obtain ⟨articles, hfetch, -, hplace⟩ :=
      fetchArticles_eq_some U isDecimal p root hdates (clocks 0)
    have he := List.getElem?_eq_getElem hk
    obtain ⟨record, hrecord, hat⟩ := hplace k _ he hlimit
    exact ⟨0, articles, _, record, hfetch, he, hrecord, hat⟩

/-- **The reach of the adapter.**  On an export whose dates do not raise, left unchanged,
every run returns the articles of the first `itemLimit` elements and no other; so repeated
runs reach every element exactly when the export has at most `itemLimit` of them. -/
theorem fetchArticles_reach (p : EUSanctionsProvider) (root : Element)
    (hdates : ∀ e ∈ (sanctionEntities root).take (p.source.itemLimit + 1), DateOk U isDecimal e)
    (clocks : ℕ → ℕ → Instant) :
    (∀ n, ∃ articles, fetchArticles U isDecimal p root (clocks n) = some articles ∧
      articles.length = min (sanctionEntities root).length p.source.itemLimit) ∧
    (∀ k < (sanctionEntities root).length,
      (Emitted U isDecimal p root clocks k ↔ k < p.source.itemLimit)) ∧
    ((∀ k < (sanctionEntities root).length, Emitted U isDecimal p root clocks k) ↔
      (sanctionEntities root).length ≤ p.source.itemLimit) := by
  refine ⟨?_, fun k hk => emitted_iff_lt U isDecimal p root hdates clocks hk, ?_⟩
  · intro n
    obtain ⟨articles, hfetch, hlength, -⟩ :=
      fetchArticles_eq_some U isDecimal p root hdates (clocks n)
    exact ⟨articles, hfetch, hlength⟩
  · constructor
    · intro hall
      by_contra hlong
      have hlt : p.source.itemLimit < (sanctionEntities root).length := by omega
      exact absurd ((emitted_iff_lt U isDecimal p root hdates clocks hlt).mp (hall _ hlt))
        (lt_irrefl _)
    · intro hle k hk
      exact (emitted_iff_lt U isDecimal p root hdates clocks hk).mpr (lt_of_lt_of_le hk hle)

/-! ## A designation behind the limit -/

/-- `eu_financial_sanctions` of the catalog. -/
def euFinancialSanctions : EUSanctionsProvider where
  source :=
    { sourceId := "eu_financial_sanctions"
      displayName := "EU Consolidated Financial Sanctions List"
      homepageUrl := "https://webgate.ec.europa.eu/fsd/fsf/"
      endpointUrl :=
        "https://webgate.ec.europa.eu/fsd/fsf/public/files/xmlFullSanctionsList_1_1/content"
      adapter := .structuredSanctions
      sourceClass := .official
      itemLimit := 100
      itemLimit_bounds := by decide }
  structured := rfl
  official := rfl

/-- A designation with a reference, a date and one name. -/
def designation (reference name : String) : Element :=
  .mk "sanctionEntity" [("euReferenceNumber", reference), ("designationDate", "2024-01-02")] none
    [.mk "nameAlias" [("wholeName", name)] none []]

/-- An export of one more designation than the limit. -/
def longExport : Element :=
  .mk "export" [] none
    ((List.range 101).map fun i => designation ("EU." ++ toString i) ("Name " ++ toString i))

/-- Digits of the ASCII range. -/
def asciiDecimal (c : Char) : Bool := (digit? c).isSome

/-- A word within the limit is clean. -/
theorem clean_eq_self {s : String} {limit : ℕ} (hne : s ≠ "")
    (hspace : ∀ c ∈ s.toList, U.isSpace c = false) (hlimit : s.toList.length ≤ limit) :
    clean U (some s) limit = s := by
  have hsplit : U.split (" ".intercalate [s]) = [s] := Unicode.split_joined fun w hw => by
    rw [List.mem_singleton.mp hw]
    exact ⟨hne, hspace⟩
  rw [String.intercalate_singleton] at hsplit
  rw [clean, Option.getD_some, hsplit, String.intercalate_singleton, truncate,
    List.take_of_length_le hlimit, String.ofList_toList]

/-- An export that only lists designations: they are its entities. -/
theorem sanctionEntities_export {children : List Element}
    (h : ∀ e ∈ children, ∃ reference name, e = designation reference name) :
    sanctionEntities (.mk "export" [] none children) = children := by
  have hexport : (Element.mk "export" [] none children).isEntity = false := by
    change decide (String.ofList ("export".toList.rtakeWhile (· ≠ '}')) = "sanctionEntity") = false
    decide +kernel
  have halias : ∀ name, (Element.mk "nameAlias" [("wholeName", name)] none []).isEntity = false := by
    intro name
    change decide (String.ofList ("nameAlias".toList.rtakeWhile (· ≠ '}')) =
      "sanctionEntity") = false
    decide +kernel
  have hentity : ∀ reference name, (designation reference name).isEntity = true := by
    intro reference name
    change decide (String.ofList ("sanctionEntity".toList.rtakeWhile (· ≠ '}')) =
      "sanctionEntity") = true
    decide +kernel
  have hends : ∀ l : List Element, (∀ e ∈ l, ∃ reference name, e = designation reference name) →
      ((Element.endsAll l).filter (·.isEntity)).map (·.clearInner) = l := by
    intro l hl
    induction l with
    | nil => rfl
    | cons e l ih =>
        obtain ⟨reference, name, rfl⟩ := hl e List.mem_cons_self
        have hclear : (designation reference name).clearInner = designation reference name := by
          rw [designation, Element.clearInner, Element.clearAll, halias, if_neg Bool.false_ne_true]
          rfl
        have hboth : Element.ends (designation reference name) =
            [.mk "nameAlias" [("wholeName", name)] none [], designation reference name] := rfl
        rw [Element.endsAll, hboth, List.filter_append, List.map_append,
          ih fun e' he' => hl e' (List.mem_cons_of_mem _ he'),
          List.filter_cons_of_neg (by rw [halias]; exact Bool.false_ne_true),
          List.filter_cons_of_pos (hentity reference name), List.filter_nil, List.map_singleton,
          hclear, List.singleton_append]
  rw [sanctionEntities, Element.ends, List.filter_append,
    List.filter_cons_of_neg (by rw [hexport]; exact Bool.false_ne_true), List.filter_nil,
    List.append_nil]
  exact hends children h

/-- The entities of the long export. -/
theorem sanctionEntities_longExport : sanctionEntities longExport =
    (List.range 101).map fun i => designation ("EU." ++ toString i) ("Name " ++ toString i) := by
  refine sanctionEntities_export fun e he => ?_
  obtain ⟨i, -, rfl⟩ := List.mem_map.mp he
  exact ⟨_, _, rfl⟩

/-- A text that is there is preferred. -/
theorem orElseText_of_ne {a : String} (h : a ≠ "") (b : Option String) :
    orElseText (some a) b = some a := by
  rw [orElseText, Option.getD_some, if_neg h]

/-- The identity of a designation. -/
theorem designationIdentity_designation {reference : String} (hne : reference ≠ "")
    (hspace : ∀ c ∈ reference.toList, Unicode.asciiSpace c = false)
    (hshort : reference.toList.length ≤ 100) (name : String) :
    designationIdentity Unicode.ascii (designation reference name) =
      (reference, "2024-01-02") := by
  have hchars : "2024-01-02".toList = ['2', '0', '2', '4', '-', '0', '1', '-', '0', '2'] :=
    String.toList_ofList
  have hdate : clean Unicode.ascii (some "2024-01-02") 40 = "2024-01-02" := by
    refine clean_eq_self Unicode.ascii (by simp) ?_ ?_
    · rw [hchars]
      simp [Unicode.ascii, Unicode.asciiSpace]
    · rw [hchars]
      decide
  have hget : (designation reference name).get "euReferenceNumber" = some reference ∧
      (designation reference name).get "designationDate" = some "2024-01-02" := by
    simp [designation, Element.get, List.lookup]
  rw [designationIdentity, hget.1, hget.2, orElseText_of_ne hne,
    orElseText_of_ne (show "2024-01-02" ≠ "" by simp),
    orElseText_of_ne (show "2024-01-02" ≠ "" by simp), hdate,
    clean_eq_self Unicode.ascii hne hspace hshort]

/-- A numbered reference: `EU.` and digits. -/
theorem numbered_reference {i : ℕ} (hi : i < 101) :
    ("EU." ++ toString i) ≠ "" ∧ (∀ c ∈ ("EU." ++ toString i).toList, Unicode.asciiSpace c = false) ∧
      ("EU." ++ toString i).toList.length ≤ 100 := by
  have hchars : ("EU." ++ toString i).toList = 'E' :: 'U' :: '.' :: Nat.toDigits 10 i := by
    rw [String.toList_append, Nat.toString_eq_repr, Nat.toList_repr]
    rfl
  refine ⟨fun hnil => ?_, fun c hc => ?_, ?_⟩
  · rw [hnil] at hchars
    exact absurd hchars (List.cons_ne_nil _ _).symm
  · rw [hchars, List.mem_cons, List.mem_cons, List.mem_cons] at hc
    rcases hc with rfl | rfl | rfl | hc
    · decide
    · decide
    · decide
    · have hdigit := Nat.isDigit_of_mem_toDigits (by decide) (by decide) hc
      rw [Char.isDigit, Bool.and_eq_true, decide_eq_true_eq, decide_eq_true_eq] at hdigit
      simp only [Unicode.asciiSpace, Bool.or_eq_false_iff, Bool.and_eq_false_iff, decide_eq_false_iff_not]
      have hlow : 48 ≤ c.toNat := UInt32.le_iff_toNat_le.mp hdigit.1
      omega
  · have hdigits : (Nat.toDigits 10 i).length ≤ 3 :=
      (Nat.length_toDigits_le_iff (by decide) (by decide)).mpr (by omega)
    rw [hchars]
    simp only [List.length_cons]
    omega

/-- The entities of the long export, one at a time. -/
theorem exists_of_mem_longExport {e : Element} (he : e ∈ sanctionEntities longExport) :
    ∃ i < 101, e = designation ("EU." ++ toString i) ("Name " ++ toString i) ∧
      designationIdentity Unicode.ascii e = ("EU." ++ toString i, "2024-01-02") := by
  rw [sanctionEntities_longExport] at he
  obtain ⟨i, hi, rfl⟩ := List.mem_map.mp he
  have hlt := List.mem_range.mp hi
  obtain ⟨hne, hspace, hshort⟩ := numbered_reference hlt
  exact ⟨i, hlt, rfl, designationIdentity_designation hne hspace hshort _⟩

theorem dateOk_longExport : ∀ e ∈ (sanctionEntities longExport).take 101,
    DateOk Unicode.ascii asciiDecimal e := by
  intro e he
  obtain ⟨i, -, -, hidentity⟩ := exists_of_mem_longExport (List.mem_of_mem_take he)
  rw [DateOk, hidentity]
  intro _
  change (fromIsoFormat "2024-01-02").isSome = true
  decide +kernel

/-- The adapter on the long export. -/
theorem fetchArticles_reach_longExport :
    (∀ _ : ℕ, ∃ articles, fetchArticles Unicode.ascii asciiDecimal euFinancialSanctions longExport
        (fun _ => 0) = some articles ∧
      articles.length = min (sanctionEntities longExport).length 100) ∧
    (∀ k < (sanctionEntities longExport).length,
      (Emitted Unicode.ascii asciiDecimal euFinancialSanctions longExport (fun _ _ => 0) k ↔
        k < 100)) ∧
    ((∀ k < (sanctionEntities longExport).length,
      Emitted Unicode.ascii asciiDecimal euFinancialSanctions longExport (fun _ _ => 0) k) ↔
      (sanctionEntities longExport).length ≤ 100) :=
  fetchArticles_reach Unicode.ascii asciiDecimal euFinancialSanctions longExport dateOk_longExport
    fun _ _ => 0

/-- **An unreachable designation.**  Under the limit of the catalog, the last of 101
designations has a name, and no run of any sequence of runs returns an article with its
identity. -/
theorem designation_unreachable : ∃ e ∈ sanctionEntities longExport,
    HasName Unicode.ascii e ∧
      ∀ clock, ∃ articles,
        fetchArticles Unicode.ascii asciiDecimal euFinancialSanctions longExport clock
            = some articles ∧
          ∀ a ∈ articles, a.providerArticleId ≠ some (identityOf Unicode.ascii e) := by
  have hlast : (sanctionEntities longExport)[100]? = some (designation "EU.100" "Name 100") := by
    rw [sanctionEntities_longExport]
    rfl
  have hcount : (sanctionEntities longExport).length = 101 := by
    rw [sanctionEntities_longExport, List.length_map, List.length_range]
  have hname : HasName Unicode.ascii (designation "EU.100" "Name 100") :=
    ⟨.mk "nameAlias" [("wholeName", "Name 100")] none [], List.mem_cons_of_mem _ List.mem_cons_self,
      by decide +kernel, by decide +kernel⟩
  have hother : ∀ k < 100, ∀ e, (sanctionEntities longExport)[k]? = some e →
      identityOf Unicode.ascii e ≠ identityOf Unicode.ascii (designation "EU.100" "Name 100") := by
    intro k hlt e he heq
    have hat : e = designation ("EU." ++ toString k) ("Name " ++ toString k) := by
      rw [sanctionEntities_longExport, List.getElem?_map, List.getElem?_range (by omega),
        Option.map_some, Option.some.injEq] at he
      exact he.symm
    obtain ⟨hne, hspace, hshort⟩ := numbered_reference (Nat.lt_succ_of_lt hlt)
    obtain ⟨hne', hspace', hshort'⟩ := numbered_reference (i := 100) (by decide)
    have hthis := designationIdentity_designation hne hspace hshort ("Name " ++ toString k)
    have hthat : designationIdentity Unicode.ascii (designation "EU.100" "Name 100") =
        ("EU." ++ toString 100, "2024-01-02") :=
      designationIdentity_designation hne' hspace' hshort' "Name 100"
    rw [hat, identityOf, identityOf, hthis, hthat] at heq
    -- the identities differ in the digits
    have hchars := congrArg String.toList heq
    simp only [String.toList_append] at hchars
    rw [List.append_cancel_right_eq, List.append_cancel_right_eq, List.append_cancel_left_eq,
      List.append_cancel_left_eq, Nat.toString_eq_repr, Nat.toList_repr, Nat.toString_eq_repr,
      Nat.toList_repr] at hchars
    have hvalue := congrArg (Nat.ofDigitChars 10 · 0) hchars
    rw [Nat.ofDigitChars_ten_toDigits, Nat.ofDigitChars_ten_toDigits] at hvalue
    omega
  refine ⟨_, List.mem_of_getElem? hlast, hname, ?_⟩
  intro clock
  obtain ⟨articles, hfetch, hlength, hplace⟩ := fetchArticles_eq_some Unicode.ascii asciiDecimal
    euFinancialSanctions longExport dateOk_longExport clock
  refine ⟨articles, hfetch, ?_⟩
  intro a ha hid
  obtain ⟨k, hk, rfl⟩ := List.mem_iff_getElem.mp ha
  have hk100 : k < 100 := by
    rw [hlength, hcount] at hk
    exact lt_of_lt_of_le hk (Nat.min_le_right _ _)
  have hlt : k < (sanctionEntities longExport).length := by
    rw [hcount]
    omega
  obtain ⟨e, he⟩ : ∃ e, (sanctionEntities longExport)[k]? = some e :=
    ⟨_, List.getElem?_eq_getElem hlt⟩
  obtain ⟨record, hrecord, hat⟩ := hplace k e he hk100
  rw [List.getElem?_eq_getElem hk, Option.some.injEq] at hat
  rw [hat] at hid
  have heq := identity_of_recordOf Unicode.ascii asciiDecimal hrecord
  exact hother k hk100 e he (heq.symm.trans (Option.some.inj hid))

end ProcureSignal.Retrieval.Sanctions
