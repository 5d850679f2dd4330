/-
# Duplicates before normalization

`ArticleDeduplicator` of `normalization/deduplicator.py`.  Three hashes of an article (of its URL,
of its title, and of title, source and date) are compared with the one hash that `save_articles`
stores.

* `isDuplicate` : the check;
* `stored_ne_titleHash`, `stored_eq_urlHash_iff` : the first two hashes find next to nothing;
* `isDuplicate_eq_some_true_iff` : **what is found**;
* `isDuplicate_agrees_iff` : when the check finds what `save_articles` and its own levels call a
  duplicate;
* `restored_unseen` : an article that is stored and not found.
-/
import ProcureSignal.Library.Hosts
import ProcureSignal.Retrieval.Dedup
import ProcureSignal.Retrieval.IngestHash
import ProcureSignal.Signals.Terms

namespace ProcureSignal.Normalization

open Delimited Retrieval Urllib

/-! ## The three hashes -/

namespace ArticleDeduplicator

/-- `netloc.replace("www.", "")`. -/
def withoutWww : List Char → List Char
  | 'w' :: 'w' :: 'w' :: '.' :: rest => withoutWww rest
  | c :: rest => c :: withoutWww rest
  | [] => []

/-- `uses_params`. -/
def usesParams : List String :=
  ["", "ftp", "hdl", "prospero", "http", "imap", "https", "shttp", "rtsp", "rtsps", "rtspu", "sip",
    "sips", "mms", "sftp", "tel"]

/-- The path of `urlparse`: without the parameters of its last segment, for a scheme that has
them. -/
def pathWithoutParams (parts : Split) : List Char :=
  if parts.scheme ∈ usesParams then
    parts.path.rdropWhile (· ≠ '/') ++ (parts.path.rtakeWhile (· ≠ '/')).takeWhile (· ≠ ';')
  else parts.path

section Hashes

variable (H : Hashing) (U : Unicode) (ipLiteral : List Char → Bool)

/-- `canonical` of `create_url_hash`; absent when `urlparse` raises. -/
def canonical (url : String) : Option String :=
  (urlsplit U ipLiteral (U.lower url)).map fun parts =>
    String.ofList (withoutWww parts.netloc ++ pathWithoutParams parts)

/-- `create_url_hash`. -/
def createUrlHash (url : String) : Option String :=
  if url = "" then some "" else (canonical U ipLiteral url).map H.sha256

/-- `normalized` of `create_title_hash`. -/
def normalized (title : String) : String :=
  let kept := (U.lower title).toList.filter fun c => U.isAlnum c || c = '_' || U.isSpace c
  U.strip (String.ofList (Signals.collapseSpace U kept))

/-- `create_title_hash`. -/
def createTitleHash (title : String) : String :=
  if title = "" then "" else H.sha256 (normalized U title)

/-- `create_ingest_hash`. -/
def createIngestHash (title source : String) (publishedAt : Instant) : String :=
  if title = "" ∨ source = "" then ""
  else H.sha256 (U.strip title ++ "|" ++ U.strip source ++ "|" ++ H.isoformat publishedAt)

/-- `article.canonical_url or article.article_url`; empty where there is no text. -/
def candidateUrl (a : FetchedArticle) : String :=
  ((if a.canonicalUrl.truthy then a.canonicalUrl else a.articleUrl).text).getD ""

/-- `article.title`. -/
def titleOf (a : FetchedArticle) : String := a.title.text.getD ""

/-- `article.source_name`. -/
def sourceOf (a : FetchedArticle) : String := a.sourceName.text.getD ""

/-- `published_at - timedelta(hours=48)`; absent when it raises. -/
def dateWindow (publishedAt : Instant) : Option Instant :=
  if datetimeMin ≤ publishedAt - days 2 then some (publishedAt - days 2) else none

/-! ## The check -/

/-- `is_duplicate`; absent when it raises. -/
def isDuplicate (t : RawTable) (a : FetchedArticle) : Option Bool :=
  (createUrlHash H U ipLiteral (candidateUrl a)).bind fun urlHash =>
    if urlHash ≠ "" ∧ t.values.any (·.ingestHash = urlHash) then some true
    else
      let titleHash := createTitleHash H U (titleOf a)
      (if titleHash = "" then some false
        else (dateWindow a.publishedAt).map fun since =>
          t.values.any fun row => sourceOf row.article = sourceOf a &&
            since ≤ row.article.publishedAt && row.article.publishedAt ≤ a.publishedAt &&
            row.ingestHash = titleHash).map fun found =>
        found ||
          let ingestHash := createIngestHash H U (titleOf a) (sourceOf a) a.publishedAt
          ingestHash ≠ "" && t.values.any (·.ingestHash = ingestHash)

end Hashes

/-! ## What the hashes are taken of -/

/-- What is used of the digest, of the text of dates and of the tables of characters. -/
structure HashLaws (H : Hashing) (U : Unicode) : Prop where
  sha256 : Function.Injective H.sha256
  sha256_ne_empty : ∀ s, H.sha256 s ≠ ""
  isoformat : Function.Injective H.isoformat
  /-- a date has no bar and, between day and time, a capital letter -/
  bar_not_mem_isoformat : ∀ t, '|' ∉ (H.isoformat t).toList
  capital_mem_isoformat : ∀ t, 'T' ∈ (H.isoformat t).toList
  capital_not_mem_lower : ∀ s, 'T' ∉ (U.lower s).toList
  /-- a bar is neither a word character nor white space -/
  bar_isAlnum : U.isAlnum '|' = false
  bar_isSpace : U.isSpace '|' = false

section Texts

variable {H : Hashing} {U : Unicode} {ipLiteral : List Char → Bool}

theorem withoutWww_subset (cs : List Char) : withoutWww cs ⊆ cs := by
  fun_induction withoutWww cs with
  | case1 rest ih => exact fun c hc => by simp [ih hc]
  | case2 c rest _ ih => exact List.cons_subset_cons c ih
  | case3 => exact fun _ hc => hc

theorem pathWithoutParams_subset (parts : Split) : pathWithoutParams parts ⊆ parts.path := by
  unfold pathWithoutParams
  split_ifs
  · have hpath : parts.path.rdropWhile (· ≠ '/') ++ parts.path.rtakeWhile (· ≠ '/') = parts.path :=
      List.rdropWhile_append_rtakeWhile
    intro c hc
    rw [← hpath, List.mem_append]
    exact (List.mem_append.mp hc).imp_right fun hc => (List.takeWhile_prefix _).subset hc
  · exact fun _ hc => hc

/-- The network location and the path are parts of a URL. -/
theorem split_subset (url : List Char) :
    (split U url).netloc ⊆ url ∧ (split U url).path ⊆ url := by
  have hrest : (splitScheme url).2 ⊆ url := by
    unfold splitScheme
    dsimp only
    split_ifs
    · exact fun c hc => (List.dropWhile_suffix _).subset (List.mem_of_mem_drop hc)
    · exact fun _ hc => hc
  have hparts : ∀ rest : List Char, (splitNetloc rest).1 ⊆ rest ∧ (splitNetloc rest).2 ⊆ rest := by
    intro rest
    unfold splitNetloc
    split
    · rename_i r
      exact ⟨fun c hc => by simp [(List.takeWhile_prefix _).subset hc],
        fun c hc => by simp [(List.dropWhile_suffix _).subset hc]⟩
    · exact ⟨List.nil_subset _, fun _ hc => hc⟩
  refine ⟨fun c hc => hrest ((hparts _).1 hc), fun c hc => hrest ((hparts _).2 ?_)⟩
  exact (List.takeWhile_prefix _).subset ((List.takeWhile_prefix _).subset hc)

/-- A canonical URL has no characters but those of the URL in lower case. -/
theorem canonical_subset {url text : String} (h : canonical U ipLiteral url = some text) :
    text.toList ⊆ (U.lower url).toList := by
  obtain ⟨parts, hparts, rfl⟩ := Option.map_eq_some_iff.mp h
  rw [urlsplit] at hparts
  split_ifs at hparts
  obtain rfl := Option.some.inj hparts
  have hclean : clean (U.lower url).toList ⊆ (U.lower url).toList := fun c hc =>
    (List.dropWhile_suffix _).subset (List.mem_of_mem_filter hc)
  rw [String.toList_ofList]
  intro c hc
  refine hclean ?_
  rcases List.mem_append.mp hc with hc | hc
  · exact (split_subset _).1 (withoutWww_subset _ hc)
  · exact (split_subset _).2 (pathWithoutParams_subset _ hc)

/-- A normalized title has no bar. -/
theorem bar_not_mem_normalized (laws : HashLaws H U) (title : String) :
    '|' ∉ (normalized U title).toList := by
  intro h
  rw [normalized, Unicode.strip, String.toList_ofList, String.toList_ofList] at h
  have hmem := (List.dropWhile_suffix _).subset ((List.rdropWhile_prefix _ _).subset h)
  rcases Signals.collapseSpace_subset _ _ hmem with heq | hkept
  · exact absurd heq (by decide)
  · have hchar := (List.mem_filter.mp hkept).2
    rw [laws.bar_isAlnum, laws.bar_isSpace] at hchar
    exact absurd hchar (by decide)

end Texts

/-! ## What is found -/

section Found

variable (H : Hashing) (U : Unicode) (ipLiteral : List Char → Bool)

/-- The article with the title and the source of which the third hash is taken. -/
def stripped (a : FetchedArticle) : FetchedArticle :=
  { a with
    title := .string (U.strip (titleOf a))
    sourceName := .string (U.strip (sourceOf a))
    providerArticleId := .null }

/-- The first level: a record with a provider id, whose identity spells the URL. -/
def FoundByUrl (t : RawTable) (a : FetchedArticle) : Prop :=
  candidateUrl a ≠ "" ∧ ∃ text, canonical U ipLiteral (candidateUrl a) = some text ∧
    ∃ row ∈ t.values, row.article.stable = true ∧
      text = joined '|' "provider|eu_sanctions" (H.format row.article.providerArticleId)

/-- The third level: a row that is the article with title and source stripped, or collides with it.
It is reached when the URL can be split and the date window does not start before all dates. -/
def FoundByText (t : RawTable) (a : FetchedArticle) : Prop :=
  (candidateUrl a ≠ "" → (canonical U ipLiteral (candidateUrl a)).isSome = true) ∧
    datetimeMin ≤ a.publishedAt - days 2 ∧
    ∃ row ∈ t.values, SameRecord row.article (stripped U a) ∨ Collides H row.article (stripped U a)

end Found

section Levels

variable {H : Hashing} {U : Unicode} {ipLiteral : List Char → Bool} (laws : HashLaws H U)
  {t : RawTable} (h : Written H t)

include laws h

/-- **The second level finds nothing**: a stored hash is taken of a text with a bar. -/
theorem stored_ne_titleHash {row : IngestedArticle} (hrow : row ∈ t.values) (title : String) :
    row.ingestHash ≠ H.sha256 (normalized U title) := by
  have hbar := bar_not_mem_normalized laws title
  rw [(h row hrow).1]
  intro heq
  cases hstable : row.article.stable with
  | true =>
      rw [createIngestHash_of_stable hstable] at heq
      rw [← laws.sha256 heq] at hbar
      exact hbar mem_joined
  | false =>
      rw [createIngestHash_of_not_stable hstable] at heq
      rw [← laws.sha256 heq] at hbar
      exact hbar mem_joined

/-- **The first level finds only records with a provider id**: all other stored hashes are taken of
a text with a capital letter. -/
theorem stored_eq_urlHash_iff {row : IngestedArticle} (hrow : row ∈ t.values) {url text : String}
    (htext : canonical U ipLiteral url = some text) :
    row.ingestHash = H.sha256 text ↔ row.article.stable = true ∧
      text = joined '|' "provider|eu_sanctions" (H.format row.article.providerArticleId) := by
  rw [(h row hrow).1]
  cases hstable : row.article.stable with
  | true =>
      rw [createIngestHash_of_stable hstable, laws.sha256.eq_iff, eq_comm]
      simp
  | false =>
      rw [createIngestHash_of_not_stable hstable, laws.sha256.eq_iff]
      refine iff_of_false ?_ fun hfalse => absurd hfalse.1 Bool.false_ne_true
      rintro rfl
      refine laws.capital_not_mem_lower url (canonical_subset htext ?_)
      rw [toList_joined]
      exact List.mem_append_right _ (List.mem_cons_of_mem _ (laws.capital_mem_isoformat _))

/-- What is left of the check: the first hash and the third. -/
theorem isDuplicate_eq {a : FetchedArticle} (htitle : titleOf a ≠ "") (hsource : sourceOf a ≠ "") :
    isDuplicate H U ipLiteral t a =
      (createUrlHash H U ipLiteral (candidateUrl a)).bind fun urlHash =>
        if urlHash ≠ "" ∧ t.values.any (·.ingestHash = urlHash) then some true
        else (dateWindow a.publishedAt).map fun _ =>
          t.values.any (·.ingestHash = Retrieval.createIngestHash H (stripped U a)) := by
  have hhash : createTitleHash H U (titleOf a) = H.sha256 (normalized U (titleOf a)) :=
    if_neg htitle
  have hingest : createIngestHash H U (titleOf a) (sourceOf a) a.publishedAt =
      Retrieval.createIngestHash H (stripped U a) := by
    rw [createIngestHash, if_neg (not_or.mpr ⟨htitle, hsource⟩)]
    rfl
  have hthird : Retrieval.createIngestHash H (stripped U a) ≠ "" := by
    rw [← hingest, createIngestHash, if_neg (not_or.mpr ⟨htitle, hsource⟩)]
    exact laws.sha256_ne_empty _
  have hsecond : ∀ since : Instant, (t.values.any fun row =>
      sourceOf row.article = sourceOf a && since ≤ row.article.publishedAt &&
        row.article.publishedAt ≤ a.publishedAt &&
        row.ingestHash = H.sha256 (normalized U (titleOf a))) = false := by
    intro since
    rw [List.any_eq_false]
    intro row hrow
    rw [decide_eq_false (stored_ne_titleHash laws h hrow (titleOf a)), Bool.and_false]
    exact Bool.false_ne_true
  rw [isDuplicate]
  refine congrArg _ (funext fun urlHash => ?_)
  dsimp only
  rw [hhash, if_neg (laws.sha256_ne_empty _), hingest]
  simp only [hsecond, Option.map_map, Function.comp_def, Bool.false_or, ne_eq, hthird,
    not_false_eq_true, decide_true, Bool.true_and]

/-- **What is found**: by the first level a record with a provider id that spells the URL, by the
third an article with the title and source stripped. -/
theorem isDuplicate_eq_some_true_iff {a : FetchedArticle} (htitle : titleOf a ≠ "")
    (hsource : sourceOf a ≠ "") :
    isDuplicate H U ipLiteral t a = some true ↔
      FoundByUrl H U ipLiteral t a ∨ FoundByText H U ipLiteral t a := by
  have htyped : Typed (stripped U a) := ⟨⟨_, rfl⟩, ⟨_, rfl⟩, Or.inl rfl⟩
  have hthird : t.values.any (·.ingestHash = Retrieval.createIngestHash H (stripped U a)) = true ↔
      ∃ row ∈ t.values, SameRecord row.article (stripped U a) ∨
        Collides H row.article (stripped U a) := by
    rw [List.any_eq_true]
    refine exists_congr fun row => and_congr_right fun hrow => ?_
    rw [decide_eq_true_eq, (h row hrow).1]
    exact createIngestHash_eq_iff laws.sha256 laws.isoformat laws.bar_not_mem_isoformat
      (typed_of_storable (h row hrow).2) htyped
  have hlater : ((dateWindow a.publishedAt).map fun _ => t.values.any
      (·.ingestHash = Retrieval.createIngestHash H (stripped U a))) = some true ↔
        datetimeMin ≤ a.publishedAt - days 2 ∧ ∃ row ∈ t.values,
          SameRecord row.article (stripped U a) ∨ Collides H row.article (stripped U a) := by
    rw [← hthird, dateWindow]
    split_ifs with hwindow <;> simp [hwindow]
  rw [isDuplicate_eq laws h htitle hsource, createUrlHash, FoundByUrl, FoundByText]
  by_cases hempty : candidateUrl a = ""
  · rw [if_pos hempty, Option.bind_some, if_neg fun hand => hand.1 rfl, hlater]
    simp [hempty]
  · rw [if_neg hempty]
    cases htext : canonical U ipLiteral (candidateUrl a) with
    | none => simp [hempty]
    | some text =>
        have hfirst : t.values.any (·.ingestHash = H.sha256 text) = true ↔ ∃ row ∈ t.values,
            row.article.stable = true ∧
              text = joined '|' "provider|eu_sanctions"
                (H.format row.article.providerArticleId) := by
          rw [List.any_eq_true]
          refine exists_congr fun row => and_congr_right fun hrow => ?_
          rw [decide_eq_true_eq, stored_eq_urlHash_iff laws h hrow htext]
        rw [Option.map_some, Option.bind_some]
        simp only [ne_eq, laws.sha256_ne_empty, not_false_eq_true, true_and, hempty, hfirst,
          Option.some.injEq, exists_eq_left', Option.isSome_some, implies_true]
        split_ifs with hfound
        · simp [hfound]
        · simp only [hlater, hfound, false_or]

end Levels

/-! ## Agreement -/

section Agreement

variable (H : Hashing) (U : Unicode) (ipLiteral : List Char → Bool)

/-- The check finds what `save_articles` would count as a duplicate, and what its first two levels
are there for. -/
structure Agrees (clock : ℕ → Instant) (t : RawTable) (a : FetchedArticle) : Prop where
  stored : DroppedAsDuplicate H clock [] a t → isDuplicate H U ipLiteral t a = some true
  location : (∃ row ∈ t.values, ∃ urlHash ≠ "",
      createUrlHash H U ipLiteral (candidateUrl row.article) = some urlHash ∧
        createUrlHash H U ipLiteral (candidateUrl a) = some urlHash) →
    isDuplicate H U ipLiteral t a = some true
  headline : (∃ row ∈ t.values,
      createTitleHash H U (titleOf row.article) = createTitleHash H U (titleOf a) ∧
        sourceOf row.article = sourceOf a ∧ a.publishedAt - days 2 ≤ row.article.publishedAt ∧
        row.article.publishedAt ≤ a.publishedAt) →
    isDuplicate H U ipLiteral t a = some true

/-- A stored article is the same, or collides with it; or has the same canonical URL; or the same
normalized title and source, in the two days before. -/
def Repeats (t : RawTable) (a : FetchedArticle) : Prop :=
  (a.storable = true ∧ ∃ row ∈ t.values, SameRecord row.article a ∨ Collides H row.article a) ∨
    (candidateUrl a ≠ "" ∧ ∃ row ∈ t.values, candidateUrl row.article ≠ "" ∧
      ∃ text, canonical U ipLiteral (candidateUrl row.article) = some text ∧
        canonical U ipLiteral (candidateUrl a) = some text) ∨
    ∃ row ∈ t.values, titleOf row.article ≠ "" ∧
      normalized U (titleOf row.article) = normalized U (titleOf a) ∧
      sourceOf row.article = sourceOf a ∧ a.publishedAt - days 2 ≤ row.article.publishedAt ∧
      row.article.publishedAt ≤ a.publishedAt

variable {H U ipLiteral}

/-- What `save_articles` counts as a duplicate, in an empty call. -/
theorem dropped_iff (laws : HashLaws H U) {clock : ℕ → Instant} {t : RawTable} (h : Written H t)
    {a : FetchedArticle} : DroppedAsDuplicate H clock [] a t ↔ a.storable = true ∧
      ∃ row ∈ t.values, SameRecord row.article a ∨ Collides H row.article a := by
  rw [droppedAsDuplicate_iff]
  show (a.storable = true ∧ ∃ row ∈ t.values, row.ingestHash = Retrieval.createIngestHash H a) ↔ _
  refine and_congr_right fun hstorable => exists_congr fun row => and_congr_right fun hrow => ?_
  rw [(h row hrow).1]
  exact createIngestHash_eq_iff laws.sha256 laws.isoformat laws.bar_not_mem_isoformat
    (typed_of_storable (h row hrow).2) (typed_of_storable hstorable)

/-- Two URLs have one hash when they have one canonical form. -/
theorem urlHash_eq_iff (laws : HashLaws H U) {url url' : String} :
    (∃ urlHash ≠ "", createUrlHash H U ipLiteral url = some urlHash ∧
      createUrlHash H U ipLiteral url' = some urlHash) ↔
      url' ≠ "" ∧ url ≠ "" ∧ ∃ text, canonical U ipLiteral url = some text ∧
        canonical U ipLiteral url' = some text := by
  unfold createUrlHash
  by_cases hurl : url = ""
  · rw [if_pos hurl]
    refine iff_of_false ?_ fun hall => hall.2.1 hurl
    rintro ⟨urlHash, hne, heq, -⟩
    exact hne (Option.some.inj heq).symm
  · by_cases hurl' : url' = ""
    · rw [if_pos hurl']
      refine iff_of_false ?_ fun hall => hall.1 hurl'
      rintro ⟨urlHash, hne, -, heq⟩
      exact hne (Option.some.inj heq).symm
    · rw [if_neg hurl, if_neg hurl']
      constructor
      · rintro ⟨urlHash, -, hhash, hhash'⟩
        obtain ⟨text, htext, rfl⟩ := Option.map_eq_some_iff.mp hhash
        obtain ⟨text', htext', heq⟩ := Option.map_eq_some_iff.mp hhash'
        exact ⟨hurl', hurl, text, htext, by rw [← laws.sha256 heq, htext']⟩
      · rintro ⟨-, -, text, htext, htext'⟩
        refine ⟨H.sha256 text, laws.sha256_ne_empty text, ?_, ?_⟩
        · rw [htext, Option.map_some]
        · rw [htext', Option.map_some]

/-- Two titles have one hash when they have one normal form. -/
theorem titleHash_eq_iff (laws : HashLaws H U) {title title' : String} (hne : title' ≠ "") :
    createTitleHash H U title = createTitleHash H U title' ↔
      title ≠ "" ∧ normalized U title = normalized U title' := by
  unfold createTitleHash
  rw [if_neg hne]
  by_cases htitle : title = ""
  · rw [if_pos htitle]
    exact iff_of_false (fun heq => laws.sha256_ne_empty _ heq.symm) fun hall => hall.1 htitle
  · rw [if_neg htitle, laws.sha256.eq_iff]
    exact (and_iff_right htitle).symm

/-- **When the check agrees with storage and with its own levels**: when what repeats a stored
article is found by its URL or by its text. -/
theorem isDuplicate_agrees_iff (laws : HashLaws H U) {clock : ℕ → Instant} {t : RawTable}
    (h : Written H t) {a : FetchedArticle} (htitle : U.strip (titleOf a) ≠ "") (hsource : U.strip (sourceOf a) ≠ "") :
    Agrees H U ipLiteral clock t a ↔
      (Repeats H U ipLiteral t a →
        FoundByUrl H U ipLiteral t a ∨ FoundByText H U ipLiteral t a) := by
  have hempty : U.strip "" = "" := rfl
  have htitle : titleOf a ≠ "" := fun hnil => htitle (by rw [hnil, hempty])
  have hsource : sourceOf a ≠ "" := fun hnil => hsource (by rw [hnil, hempty])
  have hlocation : (∃ row ∈ t.values, ∃ urlHash ≠ "",
      createUrlHash H U ipLiteral (candidateUrl row.article) = some urlHash ∧
        createUrlHash H U ipLiteral (candidateUrl a) = some urlHash) ↔
      candidateUrl a ≠ "" ∧ ∃ row ∈ t.values, candidateUrl row.article ≠ "" ∧
        ∃ text, canonical U ipLiteral (candidateUrl row.article) = some text ∧
          canonical U ipLiteral (candidateUrl a) = some text := by
    simp only [urlHash_eq_iff laws]
    constructor
    · rintro ⟨row, hrow, hne, hrest⟩
      exact ⟨hne, row, hrow, hrest⟩
    · rintro ⟨hne, row, hrow, hrest⟩
      exact ⟨row, hrow, hne, hrest⟩
  have hfound := @isDuplicate_eq_some_true_iff H U ipLiteral laws t h a htitle hsource
  rw [← hfound, Repeats, ← @dropped_iff H U laws clock t h a, ← hlocation]
  constructor
  · rintro ⟨hstored, hlocated, hheadline⟩ (hrepeats | hrepeats | ⟨row, hrow, hne, heq, hrest⟩)
    · exact hstored hrepeats
    · exact hlocated hrepeats
    · exact hheadline ⟨row, hrow, (titleHash_eq_iff laws htitle).mpr ⟨hne, heq⟩, hrest⟩
  · intro hall
    refine ⟨fun hstored => hall (Or.inl hstored), fun hlocated => hall (Or.inr (Or.inl hlocated)),
      ?_⟩
    rintro ⟨row, hrow, hhash, hrest⟩
    obtain ⟨hne, heq⟩ := (titleHash_eq_iff laws htitle).mp hhash
    exact hall (Or.inr (Or.inr ⟨row, hrow, hne, heq, hrest⟩))

/-- **What is stored is found** when it has no stable id and neither title nor source has white
space around it. -/
theorem isDuplicate_of_dropped (laws : HashLaws H U) {clock : ℕ → Instant} {t : RawTable}
    (h : Written H t) {a : FetchedArticle} (hstable : a.stable = false)
    (htitle : titleOf a ≠ "" ∧ U.strip (titleOf a) = titleOf a)
    (hsource : sourceOf a ≠ "" ∧ U.strip (sourceOf a) = sourceOf a)
    (hurl : candidateUrl a ≠ "" → (canonical U ipLiteral (candidateUrl a)).isSome = true)
    (hdate : datetimeMin ≤ a.publishedAt - days 2) (hdropped : DroppedAsDuplicate H clock [] a t) :
    isDuplicate H U ipLiteral t a = some true := by
  rw [isDuplicate_eq_some_true_iff laws h htitle.1 hsource.1]
  obtain ⟨hstorable, row, hrow, hhash⟩ := droppedAsDuplicate_iff.mp hdropped
  refine Or.inr ⟨hurl, hdate, row, hrow, ?_⟩
  -- the third hash is the one that is stored
  have hsame : Retrieval.createIngestHash H (stripped U a) = Retrieval.createIngestHash H a := by
    obtain ⟨title, ht⟩ := (typed_of_storable hstorable).title
    obtain ⟨source, hs⟩ := (typed_of_storable hstorable).sourceName
    have htitleOf : titleOf a = title := by rw [titleOf, ht]; rfl
    have hsourceOf : sourceOf a = source := by rw [sourceOf, hs]; rfl
    have hunstable : (stripped U a).stable = false := rfl
    rw [createIngestHash_of_not_stable hstable, createIngestHash_of_not_stable hunstable, stripped,
      htitle.2, hsource.2, htitleOf, hsourceOf, ht, hs]
  rw [← createIngestHash_eq_iff laws.sha256 laws.isoformat laws.bar_not_mem_isoformat
    (typed_of_storable (h row hrow).2) ⟨⟨_, rfl⟩, ⟨_, rfl⟩, Or.inl rfl⟩, hsame, ← (h row hrow).1]
  exact hhash

end Agreement

/-! ### An article that is stored -/

/-- The date that is met, and one text for every other. -/
def stampedDate (t : Instant) : String :=
  if t = 0 then "1970-01-01T00:00:00" else "T" ++ writtenDate t

theorem stampedDate_injective : Function.Injective stampedDate := by
  have hhead : ∀ s : String, "1970-01-01T00:00:00" ≠ "T" ++ s := fun s heq => by
    have hfirst := congrArg (fun s => s.toList.head?) heq
    simp at hfirst
  intro t t' heq
  unfold stampedDate at heq
  split_ifs at heq with ht ht' ht'
  · rw [ht, ht']
  · exact absurd heq (hhead _)
  · exact absurd heq.symm (hhead _)
  · exact writtenDate_injective ((String.append_right_inj _).mp heq)

/-- A digest without collisions. -/
def stampedHashing : Hashing := ⟨fun s => "sha256 " ++ s, stampedDate, fun _ => "None"⟩

theorem stampedHashing_laws : HashLaws stampedHashing .ascii where
  sha256 := fun _ _ heq => (String.append_right_inj _).mp heq
  sha256_ne_empty s hempty := absurd (String.append_eq_empty_iff.mp hempty).1 (by decide)
  isoformat := stampedDate_injective
  bar_not_mem_isoformat t := by
    show '|' ∉ (stampedDate t).toList
    unfold stampedDate
    split_ifs
    · decide
    · have hdate : '|' ∉ (writtenDate t).toList := delimiter_not_mem_writtenDate t
      simp [hdate]
  capital_mem_isoformat t := by
    show 'T' ∈ (stampedDate t).toList
    unfold stampedDate
    split_ifs
    · decide
    · simp
  capital_not_mem_lower s := by
    show 'T' ∉ (String.ofList (s.toList.map Unicode.asciiLower)).toList
    rw [String.toList_ofList, List.mem_map]
    rintro ⟨c, -, hc⟩
    by_cases hupper : 65 ≤ c.toNat ∧ c.toNat ≤ 90
    · have hlower := Unicode.toNat_asciiLower hupper
      rw [hc] at hlower
      have hcapital : 'T'.toNat = 84 := rfl
      omega
    · rw [Unicode.asciiLower, if_neg hupper] at hc
      rw [hc] at hupper
      exact hupper (by decide)
  bar_isAlnum := by decide
  bar_isSpace := by decide

/-- The table in which one article is stored. -/
def stored (title : String) : RawTable :=
  afterCalls stampedHashing [(fun _ => 0, [wire title "Wire"])]

/-- No address may stand in brackets. -/
abbrev noLiteral : List Char → Bool := fun _ => false

theorem isDuplicate_agrees_iff_stored :
    Agrees stampedHashing .ascii noLiteral (fun _ => 0) (stored "Strike") (wire "Strike" "Wire") ↔
      (Repeats stampedHashing .ascii noLiteral (stored "Strike") (wire "Strike" "Wire") →
        FoundByUrl stampedHashing .ascii noLiteral (stored "Strike") (wire "Strike" "Wire") ∨
          FoundByText stampedHashing .ascii noLiteral (stored "Strike") (wire "Strike" "Wire")) :=
  isDuplicate_agrees_iff stampedHashing_laws (written_afterCalls _) (by decide) (by decide)

/-- **An article that is stored** under a title with a space at its end is not found; nor is another
at its URL, or one with a title of the same words from the same source. -/
theorem restored_unseen :
    DroppedAsDuplicate stampedHashing (fun _ => 0) [] (wire "Strike " "Wire") (stored "Strike ") ∧
      isDuplicate stampedHashing .ascii noLiteral (stored "Strike ") (wire "Strike " "Wire") =
        some false ∧
      createUrlHash stampedHashing .ascii noLiteral (candidateUrl (wire "Lockout" "Wire")) =
        createUrlHash stampedHashing .ascii noLiteral (candidateUrl (wire "Strike" "Wire")) ∧
      isDuplicate stampedHashing .ascii noLiteral (stored "Strike") (wire "Lockout" "Wire") =
        some false ∧
      createTitleHash stampedHashing .ascii "Strike!" =
        createTitleHash stampedHashing .ascii "Strike" ∧
      isDuplicate stampedHashing .ascii noLiteral (stored "Strike") (wire "Strike!" "Wire") =
        some false ∧
      ¬ Agrees stampedHashing .ascii noLiteral (fun _ => 0) (stored "Strike ")
        (wire "Strike " "Wire") := by
  have hdropped : DroppedAsDuplicate stampedHashing (fun _ => 0) [] (wire "Strike " "Wire")
      (stored "Strike ") := by
    unfold DroppedAsDuplicate
    decide +kernel
  have hunseen : isDuplicate stampedHashing .ascii noLiteral (stored "Strike ")
      (wire "Strike " "Wire") = some false := by decide +kernel
  refine ⟨hdropped, hunseen, by decide +kernel, by decide +kernel, by decide +kernel,
    by decide +kernel, fun hagrees => ?_⟩
  have hseen := hagrees.stored hdropped
  rw [hunseen] at hseen
  exact absurd (Option.some.inj hseen) Bool.false_ne_true

end ArticleDeduplicator

end ProcureSignal.Normalization
