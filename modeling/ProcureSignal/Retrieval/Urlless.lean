/-
# Articles without a URL

`article_fingerprint` of `retrieval/deduplication.py` on articles whose URLs are blank.  A missing
path becomes `/`, so no URL is canonicalized to the empty text, and the fingerprint is never taken
of what an article says.

* `canonicalizeUrl_ne_empty` : **the branch for articles without a URL is never taken**;
* `articleFingerprint_of_urlless` : what their fingerprint is;
* `neverMerged_iff` : which of them are told apart;
* `two_notices` : two articles that are merged.
-/
import ProcureSignal.Retrieval.Designations
import ProcureSignal.Retrieval.NormalForm

namespace ProcureSignal.Retrieval

open Urllib

/-! ## The canonical form of no URL -/

section Canonical

variable (U : Unicode) (ipLiteral : List Char → Bool) (urljoin : String → String → Option String)

/-- A URL that is written has its path. -/
theorem urlunsplit_ne_empty {path : String} (hpath : path ≠ "") (scheme netloc query : String) :
    Urllib.urlunsplit scheme netloc path query ≠ "" := by
  have happend : ∀ s t : String, t ≠ "" → s ++ t ≠ "" := fun s t ht h =>
    ht (String.append_eq_empty_iff.mp h).2
  have hfront : ∀ s t : String, s ≠ "" → s ++ t ≠ "" := fun s t hs h =>
    hs (String.append_eq_empty_iff.mp h).1
  unfold Urllib.urlunsplit
  apply hfront
  apply happend
  split_ifs
  · exact happend _ _ (happend _ _ hpath)
  · exact happend _ _ hpath
  · exact hpath

/-- **No URL is canonicalized to the empty text.** -/
theorem canonicalizeUrl_ne_empty (url : String) :
    canonicalizeUrl U (standardUrls U ipLiteral urljoin) url ≠ some "" := by
  intro h
  rw [canonicalizeUrl] at h
  obtain ⟨parsed, -, h⟩ := Option.bind_eq_some_iff.mp h
  obtain ⟨port, -, h⟩ := Option.map_eq_some_iff.mp h
  refine urlunsplit_ne_empty ?_ _ _ _ h
  split_ifs with hempty
  · decide
  · exact hempty

/-- The fingerprint of an article without a stable id is that of its URL. -/
theorem articleFingerprint_eq (S : Serializing) {a : FetchedArticle}
    (h : hasStableProviderId a.provider a.providerArticleId = false) :
    articleFingerprint S U (standardUrls U ipLiteral urljoin) a =
      (a.canonical U (standardUrls U ipLiteral urljoin)).map fun url =>
        S.sha256 ("url\x00" ++ url) := by
  rw [articleFingerprint, h, if_neg Bool.false_ne_true]
  cases hcanonical : a.canonical U (standardUrls U ipLiteral urljoin) with
  | none => rfl
  | some url =>
      have hne : url ≠ "" := by
        rintro rfl
        obtain ⟨text, -, htext⟩ := Option.bind_eq_some_iff.mp hcanonical
        exact canonicalizeUrl_ne_empty U ipLiteral urljoin text htext
      rw [Option.bind_some, if_pos hne, Option.map_some]

/-- Blank text is canonicalized to a path. -/
theorem canonicalizeUrl_blank (hlower : U.lower "" = "") {url : String} (h : U.strip url = "") :
    canonicalizeUrl U (standardUrls U ipLiteral urljoin) url = some "/" := by
  have hsplit : Urllib.urlsplit U ipLiteral "" = some ⟨"", [], [], [], []⟩ := by
    have hparts : Urllib.split U (clean "".toList) = ⟨U.lower "", [], [], [], []⟩ := rfl
    rw [Urllib.urlsplit, hparts, hlower]
    rfl
  have hport : (splitUrl U ⟨"", [], [], [], []⟩).port = some none := rfl
  have hscheme : (splitUrl U ⟨"", [], [], [], []⟩).scheme = "" := rfl
  have hhost : (splitUrl U ⟨"", [], [], [], []⟩).hostname.getD "" = "" := rfl
  have hpath : (splitUrl U ⟨"", [], [], [], []⟩).path = "" := rfl
  have hquery : parseQsl (splitUrl U ⟨"", [], [], [], []⟩).query = [] := rfl
  rw [canonicalizeUrl, h, standardUrls_urlsplit, hsplit, Option.map_some, Option.bind_some, hport,
    Option.map_some, hscheme, hhost, hpath, standardUrls_parseQsl, hquery, hlower]
  rfl

end Canonical

/-! ## Articles without a URL -/

/-- Blank text. -/
def Json.blank (U : Unicode) : Json → Bool
  | .string s => U.strip s = ""
  | _ => false

/-- No text, or blank text. -/
def Json.absent (U : Unicode) : Json → Bool
  | .null => true
  | v => v.blank U

/-- An article without a stable id whose URLs are blank, the canonical one if there is one. -/
def urlless (U : Unicode) (a : FetchedArticle) : Bool :=
  !hasStableProviderId a.provider a.providerArticleId &&
    a.canonicalUrl.absent U && a.articleUrl.blank U

/-- What an article says: title and description without letter case and white space around them,
and the time of publication; absent where they are no text. -/
def FetchedArticle.content (U : Unicode) (a : FetchedArticle) :
    Option (String × String × Instant) :=
  a.title.text.bind fun title =>
    (if a.description.truthy then a.description else .string "").text.map fun description =>
      (U.strip (U.casefold title), U.strip (U.casefold description), a.publishedAt)

/-- Two articles that say the same. -/
def SameContent (U : Unicode) (a b : FetchedArticle) : Prop :=
  ∃ content, a.content U = some content ∧ b.content U = some content

section Merging

variable (S : Serializing) (U : Unicode) (L : UrlParsing)

/-- Two articles are told apart unless they say the same. -/
structure NeverMerged (a b : FetchedArticle) : Prop where
  distinct : articleFingerprint S U L a = articleFingerprint S U L b → SameContent U a b
  kept : ¬ SameContent U a b → ∀ result, deduplicateWithinRun S U L [a, b] = some result →
    a ∈ result.articles ∧ b ∈ result.articles

variable {S U L}

/-- At most one of the articles that are kept has a given fingerprint. -/
theorem length_kept_le_one {p : FetchedArticle → Bool} {fingerprint : String}
    (hp : ∀ a, p a = true → articleFingerprint S U L a = some fingerprint)
    {articles : List FetchedArticle} {result : DeduplicationResult}
    (h : deduplicateWithinRun S U L articles = some result) :
    (result.articles.filter p).length ≤ 1 := by
  obtain ⟨items, hitems, rfl⟩ := Option.map_eq_some_iff.mp h
  have hkeyed : ∀ k ∈ retained items, articleFingerprint S U L k.article = some k.fingerprint := by
    intro k hk
    obtain ⟨i, hi, -⟩ := mem_retained_iff.mp hk
    have hmem : some k ∈ items.map some := List.mem_map_of_mem (List.mem_of_getElem? hi)
    rw [← mapM_eq_some_iff.mp hitems] at hmem
    obtain ⟨a, -, ha⟩ := List.mem_map.mp hmem
    obtain ⟨key, hkey, ha⟩ := Option.bind_eq_some_iff.mp ha
    obtain ⟨projection, -, ha⟩ := Option.bind_eq_some_iff.mp ha
    rw [← Option.some.inj ha]
    exact hkey
  show (((retained items).map (·.article)).filter p).length ≤ 1
  rw [List.filter_map, List.length_map]
  -- the fingerprints of these are all the same, and no two of them are
  have hsublist : List.Sublist (((retained items).filter (p ∘ (·.article))).map (·.fingerprint))
      ((retained items).map (·.fingerprint)) := List.filter_sublist.map _
  have hnodup := hsublist.nodup (nodup_fingerprint_retained items)
  have hsame : ((retained items).filter (p ∘ (·.article))).map (·.fingerprint) =
      List.replicate ((retained items).filter (p ∘ (·.article))).length fingerprint := by
    rw [List.eq_replicate_iff, List.length_map]
    refine ⟨rfl, fun key hkey => ?_⟩
    obtain ⟨k, hk, rfl⟩ := List.mem_map.mp hkey
    obtain ⟨hk, hpk⟩ := List.mem_filter.mp hk
    exact Option.some.inj ((hkeyed k hk).symm.trans (hp _ hpk))
  rw [hsame, List.nodup_replicate] at hnodup
  exact hnodup

/-- **The fingerprint of an article without a URL** does not depend on what it says. -/
theorem articleFingerprint_of_urlless {ipLiteral : List Char → Bool}
    {urljoin : String → String → Option String} (hlower : U.lower "" = "") {a : FetchedArticle}
    (h : urlless U a = true) :
    articleFingerprint S U (standardUrls U ipLiteral urljoin) a = some (S.sha256 "url\x00/") := by
  simp only [urlless, Bool.and_eq_true, Bool.not_eq_true'] at h
  obtain ⟨⟨hunstable, hcanonical⟩, harticle⟩ := h
  have hblank : ∀ v : Json, v.blank U = true → ∃ s, v = .string s ∧ U.strip s = "" := by
    intro v hv
    cases v <;> simp [Json.blank] at hv
    exact ⟨_, rfl, hv⟩
  have htext : ∃ s, (if a.canonicalUrl.truthy then a.canonicalUrl else a.articleUrl) = .string s ∧
      U.strip s = "" := by
    split_ifs with htruthy
    · generalize a.canonicalUrl = url at hcanonical htruthy ⊢
      cases url with
      | null => exact absurd htruthy Bool.false_ne_true
      | string s => exact hblank _ hcanonical
      | _ => exact absurd hcanonical Bool.false_ne_true
    · exact hblank _ harticle
  obtain ⟨s, hs, hstrip⟩ := htext
  have hmaterial : "url\x00" ++ "/" = "url\x00/" := by decide
  rw [articleFingerprint_eq U ipLiteral urljoin S hunstable, FetchedArticle.canonical, hs,
    Json.text, Option.bind_some, canonicalizeUrl_blank U ipLiteral urljoin hlower hstrip, Option.map_some,
    hmaterial]

/-- **Articles without a URL are told apart never**: only the pairs that say the same meet what is
asked of all, and of any number of such articles in a run one at most is kept. -/
theorem neverMerged_iff {ipLiteral : List Char → Bool}
    {urljoin : String → String → Option String} (hlower : U.lower "" = "") {a b : FetchedArticle}
    (ha : urlless U a = true) (hb : urlless U b = true) :
    (NeverMerged S U (standardUrls U ipLiteral urljoin) a b ↔ SameContent U a b) ∧
      ∀ articles result,
        deduplicateWithinRun S U (standardUrls U ipLiteral urljoin) articles = some result →
          (result.articles.filter (urlless U)).length ≤ 1 := by
  have hfingerprint : ∀ a, urlless U a = true →
      articleFingerprint S U (standardUrls U ipLiteral urljoin) a = some (S.sha256 "url\x00/") :=
    fun _ h => articleFingerprint_of_urlless hlower h
  refine ⟨⟨fun h => h.distinct ((hfingerprint a ha).trans (hfingerprint b hb).symm), fun h => ?_⟩,
    fun articles result hresult => length_kept_le_one hfingerprint hresult⟩
  exact ⟨fun _ => h, fun hnot => absurd h hnot⟩

end Merging

/-! ### Two notices -/

/-- An article without a URL. -/
def notice (title : String) : FetchedArticle where
  provider := "rss"
  providerArticleId := .null
  queryGroup := "europe_business"
  title := .string title
  description := .null
  contentSnippet := .null
  articleUrl := .string ""
  canonicalUrl := .null
  sourceName := .string "Gazette"
  sourceUrl := none
  publishedAt := 0
  language := .string "en"
  rawPayloadJson := .null
  sourceId := none
  sourceClass := none
  sourceDomains := []
  sourceCountries := []
  registryVersion := none
  retrievedAt := none
  sourcePublishedAtRaw := none

theorem neverMerged_iff_notice :
    (NeverMerged Sanctions.plainSerializing .ascii (standardUrls .ascii loopback fun _ _ => none)
        (notice "Strike") (notice "STRIKE") ↔
      SameContent .ascii (notice "Strike") (notice "STRIKE")) ∧
      ∀ articles result, deduplicateWithinRun Sanctions.plainSerializing .ascii
        (standardUrls .ascii loopback fun _ _ => none) articles = some result →
          (result.articles.filter (urlless .ascii)).length ≤ 1 :=
  neverMerged_iff (by decide) (by decide) (by decide)

/-- **Two notices** of different titles are merged. -/
theorem two_notices :
    urlless .ascii (notice "Strike") = true ∧ urlless .ascii (notice "New tariff") = true ∧
      ¬ SameContent .ascii (notice "Strike") (notice "New tariff") ∧
      articleFingerprint Sanctions.plainSerializing .ascii
          (standardUrls .ascii loopback fun _ _ => none) (notice "Strike") =
        articleFingerprint Sanctions.plainSerializing .ascii
          (standardUrls .ascii loopback fun _ _ => none) (notice "New tariff") ∧
      (deduplicateWithinRun Sanctions.plainSerializing .ascii
          (standardUrls .ascii loopback fun _ _ => none) [notice "Strike", notice "New tariff"]).map
        (fun result => (result.articles.map (·.title.text), result.duplicates)) =
        some ([some "New tariff"], 1) := by
  refine ⟨by decide, by decide, ?_, ?_, ?_⟩
  · rintro ⟨content, hfirst, hsecond⟩
    exact absurd (hfirst.trans hsecond.symm) (by decide)
  · have hlower : Unicode.ascii.lower "" = "" := by decide
    rw [articleFingerprint_of_urlless hlower (by decide),
      articleFingerprint_of_urlless hlower (by decide)]
  · decide +kernel

end ProcureSignal.Retrieval
