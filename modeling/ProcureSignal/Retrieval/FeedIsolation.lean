/-
# One malformed entry of a feed

`RSSProvider.fetch_articles` reads the entries of a feed in one loop and catches nothing there: the
first entry that one of its five parsers rejects loses the articles of all others.

* `Malformed` : the entries that are rejected, and why;
* `raises_iff_malformed` : the loop raises at exactly these;
* `isolated_iff` : **when a feed keeps the articles of its valid entries**;
* `lost_entry` : a port out of range next to a valid entry.
-/
import ProcureSignal.Retrieval.Dedup
import ProcureSignal.Retrieval.NormalForm
import ProcureSignal.Retrieval.Reingest

namespace ProcureSignal.Retrieval

open Sanctions (orElseText SourceDefinition)

variable (P : Parsers)

/-! ## What is asked for -/

/-- The link of an entry, absolute or relative, is one over `http` or `https`, with a host and a
port that can be read. -/
def RSSProvider.ValidLink (p : RSSProvider) (finalUrl : Option String) (entry : Entry) : Prop :=
  ∃ link, p.link P finalUrl entry = some link ∧ link ≠ "" ∧
    ∃ parsed, P.urls.urlsplit (P.unicode.strip link) = some parsed ∧
      (parsed.scheme = "http" ∨ parsed.scheme = "https") ∧
      parsed.hostname.getD "" ≠ "" ∧ parsed.port.isSome = true

/-- A feed is read without raising, and every entry with a valid link has its article. -/
def RSSProvider.Isolated (p : RSSProvider) (finalUrl : Option String) (feed : Feed)
    (now : Instant) : Prop :=
  ∃ articles, p.fetchArticles P finalUrl feed now = some articles ∧
    ∀ entry ∈ feed.entries.take p.source.itemLimit, p.ValidLink P finalUrl entry →
      ∃ a ∈ articles, p.article P finalUrl feed.language entry now = some (some a)

/-! ## Entries that are rejected -/

/-- The entry has a link. -/
def RSSProvider.Linked (p : RSSProvider) (finalUrl : Option String) (entry : Entry) : Prop :=
  ∃ link, p.link P finalUrl entry = some link ∧ link ≠ ""

/-- A text that the HTML parser rejects. -/
def BadMarkup (text : Option String) : Prop :=
  ∃ s, text = some s ∧ P.htmlEvents (P.unescape s) = none

/-- An entry that one of the parsers rejects. -/
inductive RSSProvider.Malformed (p : RSSProvider) (finalUrl : Option String) (entry : Entry) : Prop
  /-- `urljoin` rejects the link -/
  | unjoinable (h : p.link P finalUrl entry = none)
  /-- no summary, no description, and an empty list of contents -/
  | noContent (hlink : p.Linked P finalUrl entry)
      (htext : (orElseText entry.summary entry.description).getD "" = "")
      (hcontent : entry.content = some [])
  /-- the body has markup that is rejected -/
  | body {text : Option String} (hlink : p.Linked P finalUrl entry)
      (htext : entry.body = some text) (hmarkup : BadMarkup P text)
  /-- the date overflows in `parsedate_to_datetime` -/
  | overflow (hlink : p.Linked P finalUrl entry) (hraw : entry.rawDate ≠ "")
      (hdate : P.parsedateToDatetime entry.rawDate = none)
  /-- the date is out of range in UTC -/
  | outOfRange {d : Datetime} (hlink : p.Linked P finalUrl entry)
      (hdate : entry.parsedDate P = some (some d))
      (hrange : ¬ (datetimeMin ≤ d.wall - d.utcoffset.getD 0 ∧
        d.wall - d.utcoffset.getD 0 ≤ datetimeMax))
  /-- the title has markup that is rejected -/
  | title (hlink : p.Linked P finalUrl entry) (hmarkup : BadMarkup P entry.title)
  /-- the link does not split -/
  | unsplittable {link : String} (hlink : p.link P finalUrl entry = some link) (hne : link ≠ "")
      (hsplit : P.urls.urlsplit (P.unicode.strip link) = none)
  /-- the port of the link is no port -/
  | badPort {link : String} {parsed : SplitUrl} (hlink : p.link P finalUrl entry = some link)
      (hne : link ≠ "") (hsplit : P.urls.urlsplit (P.unicode.strip link) = some parsed)
      (hport : parsed.port = none)

variable {P}

theorem plainText_eq_none_iff {value : Option String} {limit : ℕ} :
    plainText P value limit = none ↔ BadMarkup P value := by
  cases value with
  | none =>
      refine iff_of_false (by simp [plainText]) ?_
      rintro ⟨s, hs, -⟩
      exact Option.some_ne_none s hs.symm
  | some v =>
      rw [plainText, Option.map_eq_none_iff]
      constructor
      · exact fun h => ⟨v, rfl, h⟩
      · rintro ⟨s, hs, h⟩
        exact Option.some.inj hs ▸ h

theorem body_eq_none_iff {entry : Entry} :
    entry.body = none ↔ (orElseText entry.summary entry.description).getD "" = "" ∧
      entry.content = some [] := by
  by_cases htext : (orElseText entry.summary entry.description).getD "" = ""
  · simp only [Entry.body, htext, ne_eq, not_true_eq_false, if_false, true_and]
    cases entry.content with
    | none => simp
    | some values => simp
  · simp only [Entry.body, htext, ne_eq, not_false_eq_true, if_true, false_and, reduceCtorEq]

theorem description_eq_none_iff {entry : Entry} :
    entry.description? P = none ↔
      ((orElseText entry.summary entry.description).getD "" = "" ∧ entry.content = some []) ∨
        ∃ text, entry.body = some text ∧ BadMarkup P text := by
  rw [← body_eq_none_iff, Entry.description?]
  cases hbody : entry.body with
  | none => simp
  | some text => simp only [Option.bind_some, plainText_eq_none_iff, reduceCtorEq, false_or,
      Option.some.injEq, exists_eq_left']

theorem parsedDate_eq_none_iff {entry : Entry} :
    entry.parsedDate P = none ↔
      entry.rawDate ≠ "" ∧ P.parsedateToDatetime entry.rawDate = none := by
  by_cases hraw : entry.rawDate = ""
  · simp [Entry.parsedDate, hraw]
  · rw [Entry.parsedDate, if_neg hraw]
    rcases hparsed : P.parsedateToDatetime entry.rawDate with - | - | d
    · simp [hraw]
    · simp
    · simp

theorem utc_eq_none_iff {d : Datetime} :
    d.utc = none ↔ ¬ (datetimeMin ≤ d.wall - d.utcoffset.getD 0 ∧
      d.wall - d.utcoffset.getD 0 ≤ datetimeMax) := by
  simp [Datetime.utc]

theorem date_eq_none_iff {entry : Entry} :
    entry.date P = none ↔
      (entry.rawDate ≠ "" ∧ P.parsedateToDatetime entry.rawDate = none) ∨
        ∃ d, entry.parsedDate P = some (some d) ∧
          ¬ (datetimeMin ≤ d.wall - d.utcoffset.getD 0 ∧
            d.wall - d.utcoffset.getD 0 ≤ datetimeMax) := by
  rw [← parsedDate_eq_none_iff, Entry.date]
  rcases hparsed : entry.parsedDate P with - | - | d
  · simp
  · simp
  · rw [Option.bind_some, Option.map_eq_none_iff, utc_eq_none_iff]
    simp

theorem canonicalizeUrl_eq_none_iff {U : Unicode} {L : UrlParsing} {url : String} :
    canonicalizeUrl U L url = none ↔ L.urlsplit (U.strip url) = none ∨
      ∃ parsed, L.urlsplit (U.strip url) = some parsed ∧ parsed.port = none := by
  rw [canonicalizeUrl]
  cases L.urlsplit (U.strip url) with
  | none => simp
  | some parsed => simp only [Option.bind_some, Option.map_eq_none_iff, reduceCtorEq, false_or,
      Option.some.injEq, exists_eq_left']

section Isolation

variable {p : RSSProvider} {finalUrl : Option String}

/-- **The entries at which the loop raises** are the malformed ones. -/
theorem raises_iff_malformed {entry : Entry} :
    p.Raises P finalUrl entry ↔ p.Malformed P finalUrl entry := by
  cases hlink : p.link P finalUrl entry with
  | none => exact iff_of_true (by simp [RSSProvider.Raises, hlink]) (.unjoinable hlink)
  | some link =>
      have hraises : p.Raises P finalUrl entry ↔ link ≠ "" ∧
          (entry.description? P = none ∨ entry.date P = none ∨
            plainText P entry.title 500 = none ∨ canonicalizeUrl P.unicode P.urls link = none) := by
        rw [RSSProvider.Raises, hlink]
      have hne_of : p.Linked P finalUrl entry → link ≠ "" := by
        rintro ⟨link', hlink', hne⟩
        exact Option.some.inj (hlink.symm.trans hlink') ▸ hne
      rw [hraises, description_eq_none_iff, date_eq_none_iff, plainText_eq_none_iff,
        canonicalizeUrl_eq_none_iff]
      constructor
      · rintro ⟨hne, h⟩
        have hlinked : p.Linked P finalUrl entry := ⟨link, hlink, hne⟩
        rcases h with (⟨htext, hcontent⟩ | ⟨text, htext, hmarkup⟩) |
          (⟨hraw, hdate⟩ | ⟨d, hdate, hrange⟩) | hmarkup | hsplit | ⟨parsed, hsplit, hport⟩
        · exact .noContent hlinked htext hcontent
        · exact .body hlinked htext hmarkup
        · exact .overflow hlinked hraw hdate
        · exact .outOfRange hlinked hdate hrange
        · exact .title hlinked hmarkup
        · exact .unsplittable hlink hne hsplit
        · exact .badPort hlink hne hsplit hport
      · intro h
        cases h with
        | unjoinable h => exact absurd (hlink.symm.trans h) (Option.some_ne_none link)
        | noContent hlinked htext hcontent =>
            exact ⟨hne_of hlinked, Or.inl (Or.inl ⟨htext, hcontent⟩)⟩
        | body hlinked htext hmarkup => exact ⟨hne_of hlinked, Or.inl (Or.inr ⟨_, htext, hmarkup⟩)⟩
        | overflow hlinked hraw hdate =>
            exact ⟨hne_of hlinked, Or.inr (Or.inl (Or.inl ⟨hraw, hdate⟩))⟩
        | outOfRange hlinked hdate hrange =>
            exact ⟨hne_of hlinked, Or.inr (Or.inl (Or.inr ⟨_, hdate, hrange⟩))⟩
        | title hlinked hmarkup => exact ⟨hne_of hlinked, Or.inr (Or.inr (Or.inl hmarkup))⟩
        | unsplittable hlink' hne hsplit =>
            obtain rfl := Option.some.inj (hlink.symm.trans hlink')
            exact ⟨hne, Or.inr (Or.inr (Or.inr (Or.inl hsplit)))⟩
        | badPort hlink' hne hsplit hport =>
            obtain rfl := Option.some.inj (hlink.symm.trans hlink')
            exact ⟨hne, Or.inr (Or.inr (Or.inr (Or.inr ⟨_, hsplit, hport⟩)))⟩

/-! ## The loop -/

/-- A feed is read without raising exactly when no entry raises. -/
theorem fetchArticles_isSome_iff {feed : Feed} {now : Instant} :
    (∃ articles, p.fetchArticles P finalUrl feed now = some articles) ↔
      ∀ entry ∈ feed.entries.take p.source.itemLimit, ¬ p.Raises P finalUrl entry := by
  have htwice := @fetchEntries_twice P p finalUrl feed.language now (now + 1) (lt_add_one now)
    (feed.entries.take p.source.itemLimit)
  rw [RSSProvider.fetchArticles]
  rcases htwice with ⟨⟨entry, hentry, hraises⟩, hnone⟩ | ⟨hgood, l, -, h, -⟩
  · rw [hnone]
    refine iff_of_false ?_ fun hgood => hgood entry hentry hraises
    rintro ⟨articles, h⟩
    exact Option.some_ne_none articles h.symm
  · exact iff_of_true ⟨l.reduceOption, by rw [h, Option.map_some]⟩ hgood

/-- The article of an entry with a link is among those that are returned. -/
theorem exists_article_of_linked {feed : Feed} {now : Instant} {articles : List FetchedArticle}
    (h : p.fetchArticles P finalUrl feed now = some articles) {entry : Entry}
    (hentry : entry ∈ feed.entries.take p.source.itemLimit) (hgood : ¬ p.Raises P finalUrl entry)
    (hlink : p.link P finalUrl entry ≠ some "") :
    ∃ a ∈ articles, p.article P finalUrl feed.language entry now = some (some a) := by
  rcases article_cases P p finalUrl feed.language entry with
    ⟨hraises, -⟩ | ⟨-, ⟨hempty, -⟩ | ⟨-, date, base, -, harticle⟩⟩
  · exact absurd hraises hgood
  · exact absurd hempty hlink
  obtain ⟨results, hresults, rfl⟩ := Option.map_eq_some_iff.mp h
  have hmap := mapM_eq_some_iff.mp hresults
  have hmem : some (some { base with
      publishedAt := min (date.getD (P.utcOfLocal now)) now
      retrievedAt := some now }) ∈ results.map some := by
    rw [← hmap, ← harticle now]
    exact List.mem_map_of_mem hentry
  obtain ⟨result, hresult, heq⟩ := List.mem_map.mp hmem
  refine ⟨_, List.reduceOption_mem_iff.mpr ?_, harticle now⟩
  exact Option.some.inj heq ▸ hresult

/-- **Isolation.** A feed keeps the articles of its valid entries exactly when none of the entries
that are read is malformed. -/
theorem isolated_iff (P : Parsers) (p : RSSProvider) (finalUrl : Option String) (feed : Feed)
    (now : Instant) :
    p.Isolated P finalUrl feed now ↔
      ∀ entry ∈ feed.entries.take p.source.itemLimit, ¬ p.Malformed P finalUrl entry := by
  simp only [← raises_iff_malformed]
  constructor
  · rintro ⟨articles, h, -⟩
    exact fetchArticles_isSome_iff.mp ⟨articles, h⟩
  · intro hgood
    obtain ⟨articles, h⟩ := fetchArticles_isSome_iff.mpr hgood
    refine ⟨articles, h, fun entry hentry hvalid => ?_⟩
    obtain ⟨link, hlink, hne, -⟩ := hvalid
    refine exists_article_of_linked h hentry (hgood entry hentry) fun hempty => hne ?_
    exact Option.some.inj (hlink.symm.trans hempty)

end Isolation

/-! ## Two entries -/

/-- Texts without markup, no dates, and absolute links. -/
def textParsers : Parsers where
  parsedateToDatetime _ := some none
  fromisoformat _ := none
  strptime _ := none
  utcOfLocal := id
  unescape := id
  htmlEvents text := some [.inr text]
  urls := standardUrls .ascii loopback fun _ url => some url
  unicode := .ascii

/-- A feed of a trade journal. -/
def journal : RSSProvider where
  source :=
    { sourceId := "journal"
      displayName := "Journal"
      homepageUrl := "https://journal.example/"
      endpointUrl := "https://journal.example/feed"
      adapter := .rss
      sourceClass := .industry
      itemLimit := 50
      itemLimit_bounds := by decide }
  domains := [.logistics]
  countries := []
  languages := ["en"]
  registryVersion := "1"
  domains_ne := by decide
  languages_ne := by decide

/-- An entry with a link and a title. -/
def linkedEntry (link : String) : Entry where
  link := some link
  summary := none
  description := none
  content := none
  title := some "Port strike"
  published := none
  updated := none
  id := none
  guid := none
  language := none

/-- A port that is out of range loses the entry before it. -/
theorem lost_entry :
    journal.ValidLink textParsers none (linkedEntry "https://journal.example/strike") ∧
      ¬ journal.Isolated textParsers none
        ⟨none, [linkedEntry "https://journal.example/strike",
          linkedEntry "https://journal.example:99999/strike"]⟩ 0 := by
  refine ⟨⟨"https://journal.example/strike", rfl, by decide, ?_⟩, ?_⟩
  · refine ⟨⟨"https", none, none, some "journal.example", some none, "/strike", ""⟩, ?_⟩
    decide +kernel
  · rintro ⟨articles, h, -⟩
    have hnone : (journal.fetchArticles textParsers none
        ⟨none, [linkedEntry "https://journal.example/strike",
          linkedEntry "https://journal.example:99999/strike"]⟩ 0).isNone = true := by
      decide +kernel
    rw [h] at hnone
    exact Bool.false_ne_true hnone

end ProcureSignal.Retrieval
