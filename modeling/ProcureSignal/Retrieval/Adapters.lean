/-
# The news adapters

What the RSS, NewsAPI and GDELT adapters of `retrieval/providers` make of one response body.

* A field that comes from JSON holds whatever value was there (`Json`).
* `feedparser`, the HTML tokenizer and the date parsers are parameters (`Parsers`).
* The adapters take the time of retrieval where a date is missing.
-/
import ProcureSignal.Retrieval.Sanctions
import ProcureSignal.Retrieval.Url

namespace ProcureSignal.Retrieval

open Sanctions (SourceDefinition SourceClass truncate orElseText)

/-! ## JSON -/

/-- A decoded JSON value; a number is what Python prints for it. -/
inductive Json
  | null
  | bool (b : Bool)
  | number (text : String)
  | string (s : String)
  | array (items : List Json)
  | object (fields : List (String × Json))

namespace Json

/-- The truth value. -/
def truthy : Json → Bool
  | null => false
  | bool b => b
  | number text => text ∉ ["0", "0.0", "-0.0"]
  | string s => s ≠ ""
  | array items => !items.isEmpty
  | object fields => !fields.isEmpty

/-- `value or None`. -/
def orNull (v : Json) : Json := if v.truthy then v else null

/-- Optional text. -/
def ofOption : Option String → Json
  | some s => string s
  | none => null

end Json

/-! ## Dates -/

/-- A `datetime`: the wall clock, and the offset from UTC when it has one. -/
structure Datetime where
  wall : Instant
  utcoffset : Option ℤ
  deriving DecidableEq, Repr

/-- What the adapters use of the standard library and of the process. -/
structure Parsers where
  /-- `email.utils.parsedate_to_datetime`: the inner value is absent for a `TypeError` or a
  `ValueError`, the outer one for any other exception -/
  parsedateToDatetime : String → Option (Option Datetime)
  /-- `datetime.fromisoformat` -/
  fromisoformat : String → Option Datetime
  /-- `datetime.strptime(·, "%Y%m%d%H%M%S")` -/
  strptime : String → Option Instant
  /-- a wall clock of the process's time zone as UTC -/
  utcOfLocal : Instant → Instant
  /-- `html.unescape` -/
  unescape : String → String
  /-- the events of `HTMLParser(convert_charrefs=True)`; absent for a marked section that it
  rejects with an `AssertionError` -/
  htmlEvents : String → Option (List (Sum (Bool × String) String))
  urls : UrlParsing
  unicode : Unicode

/-- `datetime.min` and `datetime.max`. -/
def datetimeMin : Instant := -62135596800 * 1000000

def datetimeMax : Instant := 253402300800 * 1000000 - 1

/-- `parsed.astimezone(timezone.utc).replace(tzinfo=None)`; UTC is taken where the offset is
missing, and leaving the range of dates raises. -/
def Datetime.utc (d : Datetime) : Option Instant :=
  let t := d.wall - d.utcoffset.getD 0
  if datetimeMin ≤ t ∧ t ≤ datetimeMax then some t else none

/-! ## Articles -/

/-- `RawArticle`, its text fields as the adapters fill them. -/
structure FetchedArticle where
  provider : String
  providerArticleId : Json
  queryGroup : String
  title : Json
  description : Json
  contentSnippet : Json
  articleUrl : Json
  canonicalUrl : Json
  sourceName : Json
  sourceUrl : Option String
  publishedAt : Instant
  language : Json
  rawPayloadJson : Json
  sourceId : Option String
  sourceClass : Option String
  sourceDomains : List String
  sourceCountries : List String
  registryVersion : Option String
  retrievedAt : Option Instant
  sourcePublishedAtRaw : Option String

/-! ## RSS and Atom -/

/-- `ProcurementDomain`, in its order. -/
inductive ProcurementDomain
  | sanctions
  | regulation
  | logistics
  | commodities
  | fx
  | supplierRisk
  | europeBusiness
  deriving DecidableEq, Repr

namespace ProcurementDomain

def all : List ProcurementDomain :=
  [sanctions, regulation, logistics, commodities, fx, supplierRisk, europeBusiness]

def value : ProcurementDomain → String
  | sanctions => "sanctions"
  | regulation => "regulation"
  | logistics => "logistics"
  | commodities => "commodities"
  | fx => "fx"
  | supplierRisk => "supplier_risk"
  | europeBusiness => "europe_business"

end ProcurementDomain

def sourceClassValue : SourceClass → String
  | .official => "official"
  | .establishedMedia => "established_media"
  | .industry => "industry"

/-- The text of an element (`_TextExtractor`): the pieces, and the number of open `script` and
`style` elements. -/
structure TextExtractor where
  parts : List String
  suppressed : ℕ

/-- An event: a tag (opening or not), or data. -/
def TextExtractor.handle (U : Unicode) (x : TextExtractor) : Sum (Bool × String) String →
    TextExtractor
  | .inl (opening, tag) =>
      if U.lower tag ∈ ["script", "style"] then
        { x with suppressed := if opening then x.suppressed + 1 else x.suppressed - 1 }
      else x
  | .inr data => if x.suppressed = 0 then { x with parts := x.parts ++ [data] } else x

/-- `re.sub(r"\s+([.,;:!?])", r"\1", ·)` where every run of white space is one space. -/
def tightenPunctuation : List Char → List Char
  | ' ' :: c :: cs =>
      if c ∈ ['.', ',', ';', ':', '!', '?'] then c :: tightenPunctuation cs
      else ' ' :: tightenPunctuation (c :: cs)
  | c :: cs => c :: tightenPunctuation cs
  | [] => []

section RSS

variable (P : Parsers)

/-- `_plain_text`; the outer value is absent when the HTML parser raises. -/
def plainText (value : Option String) (limit : ℕ) : Option (Option String) :=
  match value with
  | none => some none
  | some v =>
      (P.htmlEvents (P.unescape v)).map fun events =>
        let extracted := events.foldl (TextExtractor.handle P.unicode) ⟨[], 0⟩
        let text := " ".intercalate (P.unicode.split (" ".intercalate extracted.parts))
        let tight := truncate (String.ofList (tightenPunctuation text.toList)) limit
        if tight = "" then none else some tight

/-- What `feedparser` makes of an entry; `content` lists the values of its items. -/
structure Entry where
  link : Option String
  summary : Option String
  description : Option String
  content : Option (List (Option String))
  title : Option String
  published : Option String
  updated : Option String
  id : Option String
  guid : Option String
  language : Option String
  deriving DecidableEq, Repr

/-- What it makes of a feed. -/
structure Feed where
  language : Option String
  entries : List Entry
  deriving DecidableEq, Repr

/-- `entry.get("published") or entry.get("updated")`. -/
def Entry.rawDate (entry : Entry) : String :=
  (orElseText entry.published entry.updated).getD ""

/-- The date that the parsers find in an entry; the outer value is absent when one raises. -/
def Entry.parsedDate (entry : Entry) : Option (Option Datetime) :=
  if entry.rawDate = "" then some none
  else
    match P.parsedateToDatetime entry.rawDate with
    | some none => some (P.fromisoformat (entry.rawDate.replace "Z" "+00:00"))
    | parsed => parsed

/-- `_timestamp`: never later than `now`; the time of retrieval without a date.  `now` has no
offset, so it is read as a wall clock of the process's zone. -/
def Entry.timestamp (entry : Entry) (now : Instant) : Option (Instant × Option String) :=
  (entry.parsedDate P).bind fun parsed =>
    let utc := match parsed with
      | some d => d.utc
      | none => some (P.utcOfLocal now)
    utc.map fun t => (min t now, if entry.rawDate = "" then none else some entry.rawDate)

/-- `RSSProvider`; the registry requires a domain and a language. -/
structure RSSProvider where
  source : SourceDefinition
  domains : List ProcurementDomain
  countries : List String
  languages : List String
  registryVersion : String
  domains_ne : domains ≠ []
  languages_ne : languages ≠ []

/-- `_primary_domain`. -/
def RSSProvider.primaryDomain (p : RSSProvider) : String :=
  ((ProcurementDomain.all.find? (· ∈ p.domains)).map (·.value)).getD ""

/-- The link of an entry. -/
def RSSProvider.link (p : RSSProvider) (finalUrl : Option String) (entry : Entry) :
    Option String :=
  P.urls.urljoin ((orElseText finalUrl (some p.source.endpointUrl)).getD "")
    (entry.link.getD "")

/-- `summary or description or content[0].value`; a `content` without items raises. -/
def Entry.body (entry : Entry) : Option (Option String) :=
  let text := orElseText entry.summary entry.description
  if text.getD "" ≠ "" then some text
  else
    match entry.content with
    | none => some none
    | some values => values.head?

/-- The description of an entry; the outer value is absent when finding or reading it raises. -/
def Entry.description? (entry : Entry) : Option (Option String) :=
  entry.body.bind fun body => plainText P body 2000

/-- The article of an entry; the inner value is absent without a link, the outer one when the
entry raises. -/
def RSSProvider.article (p : RSSProvider) (finalUrl feedLanguage : Option String)
    (entry : Entry) (now : Instant) : Option (Option FetchedArticle) :=
  (p.link P finalUrl entry).bind fun link =>
    if link = "" then some none
    else
      (entry.description? P).bind fun text =>
      (entry.timestamp P now).bind fun (publishedAt, publishedRaw) =>
      (plainText P entry.title 500).bind fun headline =>
      (canonicalizeUrl P.unicode P.urls link).map fun canonicalUrl =>
        let description := Json.ofOption text
        let title := headline.getD ""
        let language := (orElseText (orElseText entry.language feedLanguage)
          (some (p.languages.head p.languages_ne))).getD ""
        some
          { provider := "rss"
            providerArticleId := .string ((orElseText (orElseText entry.id entry.guid)
              (some link)).getD "")
            queryGroup := p.primaryDomain
            title := .string title
            description := description
            contentSnippet := description
            articleUrl := .string link
            canonicalUrl := .string canonicalUrl
            sourceName := .string p.source.displayName
            sourceUrl := some p.source.homepageUrl
            publishedAt := publishedAt
            language := .string (P.unicode.lower language)
            rawPayloadJson := .object
              [("id", Json.ofOption entry.id), ("link", .string link), ("title", .string title)]
            sourceId := some p.source.sourceId
            sourceClass := some (sourceClassValue p.source.sourceClass)
            sourceDomains := (p.domains.map (·.value)).insertionSort (· ≤ ·)
            sourceCountries := p.countries
            registryVersion := some p.registryVersion
            retrievedAt := some now
            sourcePublishedAtRaw := publishedRaw }

/-- `RSSProvider.fetch_articles` on a feed; absent when an entry raises. -/
def RSSProvider.fetchArticles (p : RSSProvider) (finalUrl : Option String) (feed : Feed)
    (now : Instant) : Option (List FetchedArticle) :=
  ((feed.entries.take p.source.itemLimit).mapM
    (p.article P finalUrl feed.language · now)).map (·.reduceOption)

end RSS

/-! ## NewsAPI and GDELT -/

/-- The loop over the items of a body: an item that raises ends it, and the articles before
stay. -/
def collectItems (article : Json → Instant → Option FetchedArticle) (clock : ℕ → Instant) :
    ℕ → List Json → List FetchedArticle
  | _, [] => []
  | k, item :: items =>
      match article item (clock k) with
      | some a => a :: collectItems article clock (k + 1) items
      | none => []

/-- `result.get("articles", [])` as the loop sees it: the elements of an array, or nothing but
an item that raises. -/
def itemsOf (result : List (String × Json)) : List Json :=
  match result.lookup "articles" with
  | some (.array items) => items
  | _ => []

section JsonAdapters

variable (P : Parsers)

/-- `NewsAPIProvider._parse_datetime`: the date, its offset dropped. -/
def newsapiDate : Json → Option Instant
  | .string s =>
      if s = "" then none else (P.fromisoformat (s.replace "Z" "+00:00")).map (·.wall)
  | _ => none

/-- An article of `/everything`. -/
def newsapiArticle (query : String) : Json → Instant → Option FetchedArticle
  | .object item, now =>
      match (item.lookup "source").getD (.object []) with
      | .object source =>
          some
            { provider := "newsapi"
              providerArticleId := .null
              queryGroup := query
              title := (item.lookup "title").getD (.string "")
              description := (item.lookup "description").getD .null
              contentSnippet := (item.lookup "content").getD .null
              articleUrl := (item.lookup "url").getD (.string "")
              canonicalUrl := (item.lookup "url").getD .null
              sourceName := (source.lookup "name").getD (.string "Unknown")
              sourceUrl := none
              publishedAt := (newsapiDate P ((item.lookup "publishedAt").getD .null)).getD now
              language := .string "en"
              rawPayloadJson := .object item
              sourceId := none
              sourceClass := none
              sourceDomains := []
              sourceCountries := []
              registryVersion := none
              retrievedAt := none
              sourcePublishedAtRaw := none }
      | _ => none
  | _, _ => none

/-- `COUNTRY_LANGUAGES.get(country, "en")`. -/
def countryLanguage (country : String) : String :=
  (([("de", "de"), ("fr", "fr"), ("gb", "en"), ("it", "it"), ("nl", "nl")] :
    List (String × String)).lookup country).getD "en"

/-- An article of `/top-headlines`: as one of `/everything`, but for the identity, the query
group, the language and the payload. -/
def headlineArticle (country : String) : Json → Instant → Option FetchedArticle
  | .object item, now =>
      (newsapiArticle P "europe_business" (.object item) now).map fun a =>
        let url := ((item.lookup "url").getD .null).orNull
        { a with
          providerArticleId := url
          articleUrl := if url.truthy then url else .string ""
          canonicalUrl := url
          language := .string (countryLanguage country)
          rawPayloadJson := .object
            ((item.filter fun field => field.1 ≠ "newsapi_country") ++
              [("newsapi_country", .string country)]) }
  | _, _ => none

/-- `GDELTProvider._parse_datetime`; absent where `len` raises, which is outside the `try`. -/
def gdeltDate : Json → Option (Option Instant)
  | .string s => some (if s.length < 8 then none else P.strptime (truncate s 14))
  | .null | .array _ | .object _ | .bool false => some none
  | .bool true => none
  | .number text => if text ∈ ["0", "0.0", "-0.0"] then some none else none

/-- An article of GDELT. -/
def gdeltArticle (queryGroup : String) : Json → Instant → Option FetchedArticle
  | .object item, now =>
      (gdeltDate P ((item.lookup "sedate").getD .null)).map fun date =>
        { provider := "gdelt"
          providerArticleId := (item.lookup "id").getD .null
          queryGroup := queryGroup
          title := (item.lookup "title").getD (.string "")
          description := (item.lookup "body").getD .null
          contentSnippet := (item.lookup "snippet").getD .null
          articleUrl := (item.lookup "url").getD (.string "")
          canonicalUrl := (item.lookup "url").getD .null
          sourceName := (item.lookup "sourcecountry").getD (.string "Unknown")
          sourceUrl := none
          publishedAt := date.getD now
          language := (item.lookup "language").getD (.string "en")
          rawPayloadJson := .object item
          sourceId := none
          sourceClass := none
          sourceDomains := []
          sourceCountries := []
          registryVersion := none
          retrievedAt := none
          sourcePublishedAtRaw := none }
  | _, _ => none

end JsonAdapters

/-! ## Response bodies -/

/-- A response body with what it was asked for. -/
inductive Body
  /-- a feed, or none (a response without content) -/
  | rss (provider : RSSProvider) (finalUrl : Option String) (feed : Option Feed)
  /-- `/everything` of NewsAPI -/
  | newsapi (query : String) (result : Json)
  /-- `/top-headlines` of NewsAPI -/
  | headlines (country : String) (result : Json)
  | gdelt (queryGroup : String) (result : Json)

/-- `result.get("status") != "ok"` skips a body of NewsAPI; so does a body that is no object. -/
def newsapiItems : Json → List Json
  | .object result =>
      match result.lookup "status" with
      | some (.string "ok") => itemsOf result
      | _ => []
  | _ => []

def gdeltItems : Json → List Json
  | .object result => itemsOf result
  | _ => []

/-- The articles of a body; `clock k` is the reading at its `k`-th item.  Absent when an entry of
a feed raises. -/
def Body.fetch (P : Parsers) (clock : ℕ → Instant) : Body → Option (List FetchedArticle)
  | .rss _ _ none => some []
  | .rss provider finalUrl (some feed) => provider.fetchArticles P finalUrl feed (clock 0)
  | .newsapi query result =>
      some (collectItems (newsapiArticle P query) clock 0 (newsapiItems result))
  | .headlines country result =>
      some (collectItems (headlineArticle P country) clock 0 (newsapiItems result))
  | .gdelt queryGroup result =>
      some (collectItems (gdeltArticle P queryGroup) clock 0 (gdeltItems result))

end ProcureSignal.Retrieval
