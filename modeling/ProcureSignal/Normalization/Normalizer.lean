/-
# Normalization and regional language tags

`ArticleNormalizer` of `normalization/normalizer.py`, with the quality gates and the language check
that it runs.  The language that an article declares is compared with the code that the detector
finds in its title, and only for an article with a text besides the title.

* `checkAll` : the quality gates;
* `normalize` : the whole pipeline;
* `declared_cases` : what the declared language is used for;
* `normalize_regional_iff` : **for which articles a regional tag is as good as its base**;
* `regional_lost` : an entry of a feed whose language is `en-US`.
-/
import ProcureSignal.Normalization.SourceTrust
import ProcureSignal.Retrieval.FeedIsolation

namespace ProcureSignal.Normalization

open Retrieval

/-! ## Quality gates -/

namespace QualityGates

inductive Severity
  | warning
  | error
  | critical
  deriving DecidableEq, Repr

/-- `QualityCheckResult`. -/
structure QualityCheckResult where
  passed : Bool
  reason : Option String
  severity : Severity
  deriving DecidableEq, Repr

/-- A check that passes. -/
def ok : QualityCheckResult := ⟨true, none, .warning⟩

/-- A check that fails. -/
def failure (reason : String) (severity : Severity) : QualityCheckResult :=
  ⟨false, some reason, severity⟩

/-- `SPAM_KEYWORDS`. -/
def spamKeywords : List String :=
  ["click here", "buy now", "limited offer", "subscribe", "watch video", "ad"]

section Checks

variable (U : Unicode)

/-- `check_title`; absent when the title is no text. -/
def checkTitle (title : Json) : Option QualityCheckResult :=
  if title.truthy = false then some (failure "Missing title" .critical)
  else
    title.text.map fun text =>
      let stripped := U.strip text
      if stripped.length < 10 then failure "Title too short" .error
      else if 500 < stripped.length then failure "Title too long" .error
      else
        match spamKeywords.find? fun word => word.toList <:+: (U.lower stripped).toList with
        | some word => failure ("Spam word detected: " ++ word) .warning
        | none => ok

/-- `value and len(value.strip()) >= least`; absent when the value is no text. -/
def longEnough (value : Json) (least : ℕ) : Option Bool :=
  if value.truthy = false then some false
  else value.text.map fun text => least ≤ (U.strip text).length

/-- `check_content`. -/
def checkContent (description contentSnippet : Json) : Option QualityCheckResult :=
  if description.truthy = false ∧ contentSnippet.truthy = false then
    some (failure "No description or content" .error)
  else
    (longEnough U description 20).bind fun
      | true => some ok
      | false => (longEnough U contentSnippet 30).map fun
        | true => ok
        | false => failure "Content too short or weak" .warning

/-- `check_url`. -/
def checkUrl (url : Json) : Option QualityCheckResult :=
  if url.truthy = false then some (failure "Missing URL" .critical)
  else
    url.text.map fun text =>
      let stripped := U.strip text
      if stripped = "" then failure "Missing URL" .critical
      else if ¬ ((U.lower stripped).startsWith "http://" ∨
          (U.lower stripped).startsWith "https://") then
        failure "Invalid URL scheme" .error
      else if 2000 < stripped.length then failure "URL too long" .error
      else ok

/-- `check_timestamp`. -/
def checkTimestamp (publishedAt now : Instant) : QualityCheckResult :=
  if now < publishedAt then failure "Article from future" .warning
  else if publishedAt < now - days 730 then failure "Article too old" .warning
  else ok

/-- The reason of a check that fails with one of the severities. -/
def failed (severities : List Severity) (result : QualityCheckResult) : Option String :=
  if result.passed = false ∧ result.severity ∈ severities then result.reason else none

/-- `check_all`: the reasons for which the article fails, none when it passes; absent when a check
raises. -/
def checkAll (now : Instant) (a : FetchedArticle) : Option (List String) :=
  (checkTitle U a.title).bind fun title =>
  (checkContent U a.description a.contentSnippet).bind fun content =>
  (checkUrl U a.articleUrl).map fun url =>
    [failed [.critical, .error] title, failed [.error] content, failed [.critical, .error] url,
      failed [.error] (checkTimestamp a.publishedAt now)].reduceOption

end Checks

end QualityGates

/-! ## Languages -/

namespace LanguageDetector

/-- `SUPPORTED_LANGUAGES`. -/
def supportedLanguages : List String :=
  ["en", "de", "fr", "es", "it", "nl", "pl", "pt", "ru", "ja", "zh", "ko"]

/-- `detect_language` over the detector; it finds nothing where that raises. -/
def detectLanguage (U : Unicode) (detect : String → Option String) (text : String) :
    Option String :=
  if (U.strip text).length < 10 then none
  else (detect text).filter fun lang => lang ∈ supportedLanguages

end LanguageDetector

open LanguageDetector (detectLanguage supportedLanguages)

/-- `LanguageValidator.validate`. -/
def validateLanguage (U : Unicode) (detect : String → Option String) (title : String)
    (declared : Json) : Bool × Option String :=
  match detectLanguage U detect title with
  | none => (false, none)
  | some lang => if declared.text ≠ some lang then (false, some lang) else (true, some lang)

/-- A declared language is valid when it is the one that is found. -/
theorem validateLanguage_string {U : Unicode} {detect : String → Option String}
    (title tag : String) : validateLanguage U detect title (.string tag) =
      (decide (detectLanguage U detect title = some tag), detectLanguage U detect title) := by
  unfold validateLanguage
  cases detectLanguage U detect title with
  | none => rfl
  | some lang =>
      by_cases hsame : tag = lang
      · subst hsame
        simp [Json.text]
      · simp [Json.text, hsame, Ne.symm hsame]

/-! ## The pipeline -/

namespace ArticleNormalizer

/-- `re.sub(r"\n+", "\n", ·)`. -/
def collapseNewlines : List Char → List Char
  | '\n' :: '\n' :: rest => collapseNewlines ('\n' :: rest)
  | c :: rest => c :: collapseNewlines rest
  | [] => []

/-- `SourceTrustFilter.is_blocked` on a field. -/
def blockedUrl (U : Unicode) (ipLiteral : List Char → Bool) (url : Json) : Option Bool :=
  if url.truthy = false then some false
  else url.text.bind (SourceTrustFilter.isBlocked U ipLiteral)

section Pipeline

variable (P : Parsers) (ipLiteral : List Char → Bool) (detect : String → Option String)

/-- `normalize_text`; the outer value is absent when the field is no text. -/
def normalizeText (text : Json) : Option (Option String) :=
  if text.truthy = false then some none
  else
    text.text.map fun s =>
      let unescaped := P.unescape
        (String.ofList (collapseNewlines (P.unicode.strip s).toList))
      if unescaped = "" then none else some unescaped

/-- The language check, on the article with its texts normalized. -/
def settleLanguage (title : String) (a : FetchedArticle) : Option FetchedArticle :=
  if a.description.truthy = true ∨ a.contentSnippet.truthy = true then
    let (valid, detected) := validateLanguage P.unicode detect title a.language
    let settled := match detected with
      | some lang => { a with language := .string lang }
      | none => a
    if valid = true then some settled else none
  else some a

/-- The article with its texts. -/
def withTexts (a : FetchedArticle) (title : String) (description contentSnippet : Option String) :
    FetchedArticle :=
  { a with
    title := .string title
    description := .ofOption description
    contentSnippet := .ofOption contentSnippet }

/-- `normalize`; the inner value is absent for an article that is rejected, the outer one when the
call raises. -/
def normalize (now : Instant) (a : FetchedArticle) : Option (Option FetchedArticle) :=
  (blockedUrl P.unicode ipLiteral a.articleUrl).bind fun blocked =>
    if blocked = true then some none
    else (QualityGates.checkAll P.unicode now a).bind fun failures =>
      if failures ≠ [] then some none
      else (normalizeText P a.title).bind fun
        | none => some none
        | some title =>
            (normalizeText P a.description).bind fun description =>
            (normalizeText P a.contentSnippet).map fun contentSnippet =>
              settleLanguage P detect title (withTexts a title description contentSnippet)

end Pipeline

/-! ## The declared language -/

/-- The article with another declared language. -/
def declared (a : FetchedArticle) (tag : String) : FetchedArticle :=
  { a with language := .string tag }

section Declared

variable (P : Parsers) (ipLiteral : List Char → Bool) (detect : String → Option String)

/-- The article is accepted when it declares the language `tag`. -/
structure Admitted (now : Instant) (a : FetchedArticle) (tag : String) : Prop where
  unblocked : blockedUrl P.unicode ipLiteral a.articleUrl = some false
  gates : QualityGates.checkAll P.unicode now a = some []
  texts : ∃ title description contentSnippet, normalizeText P a.title = some (some title) ∧
    normalizeText P a.description = some description ∧
    normalizeText P a.contentSnippet = some contentSnippet ∧
    (description ≠ none ∨ contentSnippet ≠ none →
      detectLanguage P.unicode detect title = some tag)

variable {P ipLiteral detect} {now : Instant} {a : FetchedArticle}

theorem truthy_ofOption {text : Json} {s : Option String} (h : normalizeText P text = some s) :
    (Json.ofOption s).truthy = true ↔ s ≠ none := by
  cases s with
  | none => exact iff_of_false Bool.false_ne_true fun hne => hne rfl
  | some s =>
      have hne : s ≠ "" := by
        unfold normalizeText at h
        split_ifs at h
        · exact absurd (Option.some.inj h) (by simp)
        · obtain ⟨t, -, ht⟩ := Option.map_eq_some_iff.mp h
          dsimp only at ht
          split_ifs at ht with hempty
          rw [← Option.some.inj ht]
          exact hempty
      exact iff_of_true (decide_eq_true hne) (Option.some_ne_none s)

/-- The language check lets a language through when there is no text to check, or it is the one
that is found; it stays as it is. -/
theorem settleLanguage_declared {title : String} {description contentSnippet : Option String}
    (hdescription : normalizeText P a.description = some description)
    (hsnippet : normalizeText P a.contentSnippet = some contentSnippet) (tag : String) :
    settleLanguage P detect title (withTexts (declared a tag) title description contentSnippet) =
      if (description ≠ none ∨ contentSnippet ≠ none →
          detectLanguage P.unicode detect title = some tag) then
        some (declared (withTexts a title description contentSnippet) tag)
      else none := by
  have hbody : ((withTexts (declared a tag) title description contentSnippet).description.truthy =
        true ∨ (withTexts (declared a tag) title description contentSnippet).contentSnippet.truthy =
        true) ↔ (description ≠ none ∨ contentSnippet ≠ none) :=
    or_congr (truthy_ofOption hdescription) (truthy_ofOption hsnippet)
  by_cases hchecked : description ≠ none ∨ contentSnippet ≠ none
  · have hvalid : validateLanguage P.unicode detect title
        (withTexts (declared a tag) title description contentSnippet).language =
        (decide (detectLanguage P.unicode detect title = some tag),
          detectLanguage P.unicode detect title) := validateLanguage_string title tag
    rw [settleLanguage, if_pos (hbody.mpr hchecked), hvalid]
    by_cases hdetect : detectLanguage P.unicode detect title = some tag
    · rw [if_pos fun _ => hdetect, hdetect, decide_eq_true rfl]
      rfl
    · rw [if_neg fun himp => hdetect (himp hchecked), decide_eq_false hdetect]
      exact if_neg Bool.false_ne_true
  · rw [settleLanguage, if_neg (mt hbody.mp hchecked), if_pos fun h => absurd h hchecked]
    rfl

/-- **What the declared language is used for**: an article raises or is rejected whatever it
declares, or its texts are normalized and the language check decides. -/
theorem declared_cases (P : Parsers) (ipLiteral : List Char → Bool)
    (detect : String → Option String) (now : Instant) (a : FetchedArticle) :
    (∃ o : Option (Option FetchedArticle), (∀ tag, ¬ Admitted P ipLiteral detect now a tag) ∧
      ∀ tag, normalize P ipLiteral detect now (declared a tag) = o) ∨
    ∃ title description contentSnippet,
      (∀ tag, Admitted P ipLiteral detect now a tag ↔
        (description ≠ none ∨ contentSnippet ≠ none →
          detectLanguage P.unicode detect title = some tag)) ∧
      ∀ tag, normalize P ipLiteral detect now (declared a tag) =
        some (if (description ≠ none ∨ contentSnippet ≠ none →
            detectLanguage P.unicode detect title = some tag) then
          some (declared (withTexts a title description contentSnippet) tag)
        else none) := by
  have hnormalize : ∀ tag, normalize P ipLiteral detect now (declared a tag) =
      (blockedUrl P.unicode ipLiteral a.articleUrl).bind fun blocked =>
        if blocked = true then some none
        else (QualityGates.checkAll P.unicode now a).bind fun failures =>
          if failures ≠ [] then some none
          else (normalizeText P a.title).bind fun
            | none => some none
            | some title =>
                (normalizeText P a.description).bind fun description =>
                (normalizeText P a.contentSnippet).map fun contentSnippet =>
                  settleLanguage P detect title
                    (withTexts (declared a tag) title description contentSnippet) := fun tag => rfl
  cases hblocked : blockedUrl P.unicode ipLiteral a.articleUrl with
  | none =>
      refine Or.inl ⟨none, fun tag h => ?_, fun tag => by rw [hnormalize, hblocked]; rfl⟩
      exact absurd (hblocked.symm.trans h.unblocked) (by simp)
  | some blocked =>
  cases blocked with
  | true =>
      refine Or.inl ⟨some none, fun tag h => ?_, fun tag => by rw [hnormalize, hblocked]; rfl⟩
      exact absurd (hblocked.symm.trans h.unblocked) (by simp)
  | false =>
  cases hgates : QualityGates.checkAll P.unicode now a with
  | none =>
      refine Or.inl ⟨none, fun tag h => ?_, fun tag => by rw [hnormalize, hblocked, hgates]; rfl⟩
      exact absurd (hgates.symm.trans h.gates) (by simp)
  | some failures =>
  cases failures with
  | cons reason failures =>
      refine Or.inl ⟨some none, fun tag h => ?_, fun tag => by
        rw [hnormalize, hblocked, hgates]; rfl⟩
      exact absurd (hgates.symm.trans h.gates) (by simp)
  | nil =>
  cases htitle : normalizeText P a.title with
  | none =>
      refine Or.inl ⟨none, fun tag h => ?_, fun tag => by
        rw [hnormalize, hblocked, hgates, htitle]; rfl⟩
      obtain ⟨title, -, -, htitle', -⟩ := h.texts
      exact absurd (htitle.symm.trans htitle') (by simp)
  | some title =>
  cases title with
  | none =>
      refine Or.inl ⟨some none, fun tag h => ?_, fun tag => by
        rw [hnormalize, hblocked, hgates, htitle]; rfl⟩
      obtain ⟨title, -, -, htitle', -⟩ := h.texts
      exact absurd (htitle.symm.trans htitle') (by simp)
  | some title =>
  cases hdescription : normalizeText P a.description with
  | none =>
      refine Or.inl ⟨none, fun tag h => ?_, fun tag => by
        rw [hnormalize, hblocked, hgates, htitle, hdescription]; rfl⟩
      obtain ⟨-, description, -, -, hdescription', -⟩ := h.texts
      exact absurd (hdescription.symm.trans hdescription') (by simp)
  | some description =>
  cases hsnippet : normalizeText P a.contentSnippet with
  | none =>
      refine Or.inl ⟨none, fun tag h => ?_, fun tag => by
        rw [hnormalize, hblocked, hgates, htitle, hdescription, hsnippet]; rfl⟩
      obtain ⟨-, -, contentSnippet, -, -, hsnippet', -⟩ := h.texts
      exact absurd (hsnippet.symm.trans hsnippet') (by simp)
  | some contentSnippet =>
      refine Or.inr ⟨title, description, contentSnippet, fun tag => ⟨fun h => ?_, fun himp => ?_⟩,
        fun tag => ?_⟩
      · obtain ⟨title', description', snippet', htitle', hdescription', hsnippet', himp⟩ := h.texts
        obtain rfl := Option.some.inj (Option.some.inj (htitle.symm.trans htitle'))
        obtain rfl := Option.some.inj (hdescription.symm.trans hdescription')
        obtain rfl := Option.some.inj (hsnippet.symm.trans hsnippet')
        exact himp
      · exact ⟨hblocked, hgates, title, description, contentSnippet, htitle, hdescription, hsnippet,
          himp⟩
      · rw [hnormalize, hblocked, hgates, htitle, hdescription, hsnippet]
        exact congrArg some (settleLanguage_declared hdescription hsnippet tag)

/-- No language that is found has a region. -/
theorem detectLanguage_ne_regional {U : Unicode} (title base region : String) :
    detectLanguage U detect title ≠ some (base ++ "-" ++ region) := by
  intro h
  unfold detectLanguage at h
  split_ifs at h
  obtain ⟨-, hsupported⟩ := Option.filter_eq_some_iff.mp h
  have hplain : ∀ lang ∈ supportedLanguages, '-' ∉ lang.toList := by decide +kernel
  exact hplain _ (of_decide_eq_true hsupported) (by simp)

/-- **Regional tags.** An article that declares `base-REGION` is normalized like the one that
declares `base` exactly when that one is not accepted. -/
theorem normalize_regional_iff (P : Parsers) (ipLiteral : List Char → Bool)
    (detect : String → Option String) (now : Instant) (a : FetchedArticle) (base region : String) :
    normalize P ipLiteral detect now (declared a (base ++ "-" ++ region)) =
        normalize P ipLiteral detect now (declared a base) ↔
      ¬ Admitted P ipLiteral detect now a base := by
  rcases declared_cases P ipLiteral detect now a with
    ⟨o, hnot, hnormalize⟩ | ⟨title, description, contentSnippet, hadmitted, hnormalize⟩
  · exact iff_of_true (by rw [hnormalize, hnormalize]) (hnot base)
  rw [hadmitted, hnormalize, hnormalize, Option.some.injEq]
  constructor
  · intro h hbase
    rw [if_pos hbase] at h
    split_ifs at h with hregional
    have hlanguage := congrArg FetchedArticle.language (Option.some.inj h)
    have hlength := congrArg String.length (Json.string.inj hlanguage)
    simp only [String.length_append] at hlength
    have hdash : "-".length = 1 := rfl
    omega
  · intro hbase
    have hregional : ¬ (description ≠ none ∨ contentSnippet ≠ none →
        detectLanguage P.unicode detect title = some (base ++ "-" ++ region)) := fun himp =>
      hbase fun hbody => absurd (himp hbody) (detectLanguage_ne_regional title base region)
    rw [if_neg hregional, if_neg hbase]

end Declared

/-! ## An entry of a feed -/

/-- An entry of a feed in American English. -/
def strikeEntry : Entry :=
  { linkedEntry "https://journal.example/strike" with
    summary := some "Dock workers walked out on Monday."
    title := some "Port strike delays shipments" }

/-- A detector that finds English. -/
def english (_ : String) : Option String := some "en"

/-- The tag of a feed loses its entries, which the base tag keeps. -/
theorem regional_lost : ∃ a, journal.article textParsers none (some "en-US") strikeEntry 0 =
      some (some a) ∧ a = declared a ("en" ++ "-" ++ "us") ∧
    normalize textParsers loopback english 0 a = some none ∧
    normalize textParsers loopback english 0 (declared a "en") ≠ some none := by
  have hrejected : ∀ {o : Option (Option FetchedArticle)}, o.map Option.isSome = some false →
      o = some none := by
    intro o h
    obtain ⟨b, rfl, hb⟩ := Option.map_eq_some_iff.mp h
    rw [Option.isSome_eq_false_iff, Option.isNone_iff_eq_none] at hb
    rw [hb]
  have hlower : Unicode.ascii.lower "en-US" = "en" ++ "-" ++ "us" := by decide +kernel
  refine ⟨_, rfl, ?_, hrejected (by decide +kernel), fun h => ?_⟩
  · unfold declared
    rw [← hlower]
    rfl
  · have haccepted := congrArg (Option.map Option.isSome) h
    revert haccepted
    decide +kernel

end ArticleNormalizer

end ProcureSignal.Normalization
