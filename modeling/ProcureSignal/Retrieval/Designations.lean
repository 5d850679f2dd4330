/-
# Designation names across exports

Successive EU exports, each of them fetched, deduplicated and saved.  The identity of an
article is the reference with the revision, which is the first present of three attributes,
and an article whose identity is stored is dropped.

* `Ingestion`, `ingest`, `step` : one ingestion;
* `Kept` : every name of the export is in a stored article for its reference;
* `Delivers` : the condition on the export and the table under which one ingestion keeps them;
* `namesKept_iff` : the names are kept throughout a run exactly when every export delivers;
* `name_lost` : an alias added under an unchanged date.
-/
import ProcureSignal.Library.Execution
import ProcureSignal.Retrieval.Dedup

namespace ProcureSignal.Retrieval

/-! ## What screening reads -/

/-- `(payload or {}).get("designation_names") or []`. -/
def Json.designationNames : Json → List String
  | .object fields =>
      match fields.lookup "designation_names" with
      | some (.array items) => items.filterMap Json.text
      | _ => []
  | _ => []

/-- The article is one of the adapter's, saved for the reference, and its payload has the
name. -/
def FetchedArticle.Carries (a : FetchedArticle) (reference name : String) : Prop :=
  a.provider = "eu_sanctions" ∧
    (∃ revision, a.providerArticleId = .string ("eu-sanctions:" ++ reference ++ ":" ++ revision)) ∧
    name ∈ a.rawPayloadJson.designationNames

namespace Sanctions

/-! ## The names of an element -/

section Names

variable {U : Unicode}

/-- A `nameAlias` of the element gives the name. -/
def AliasOf (U : Unicode) (e : Element) (name : String) : Prop :=
  name ≠ "" ∧ ∃ child ∈ e.iter, child.localTag = "nameAlias" ∧ aliasName U child = name

theorem mem_appendNew {items : List String} {item name : String} :
    name ∈ appendNew items item ↔ name ∈ items ∨ name ≠ "" ∧ item = name := by
  unfold appendNew
  split
  · rename_i hnew
    rw [List.mem_append, List.mem_singleton]
    refine or_congr_right ⟨?_, fun h => h.2.symm⟩
    rintro rfl
    exact ⟨hnew.1, rfl⟩
  · rename_i hold
    refine (or_iff_left_of_imp ?_).symm
    rintro ⟨hne, rfl⟩
    by_contra hout
    exact hold ⟨hne, hout⟩

/-- A `nameAlias` child adds its name, which becomes the primary one if it is strong or the first. -/
theorem readChild_of_alias (facts : Facts) {child : Element} (h : child.localTag = "nameAlias") :
    (readChild U facts child).aliases = appendNew facts.aliases (aliasName U child) ∧
      (readChild U facts child).primary =
        if aliasName U child ≠ "" ∧
          (facts.primary = "" ∨ U.lower ((child.get "strong").getD "") = "true")
        then aliasName U child else facts.primary := by
  simp only [readChild, h, if_true, and_self]

/-- Another child leaves the names. -/
theorem readChild_of_ne (facts : Facts) {child : Element} (h : child.localTag ≠ "nameAlias") :
    (readChild U facts child).aliases = facts.aliases ∧
      (readChild U facts child).primary = facts.primary := by
  simp only [readChild, h, if_false]
  split_ifs <;> exact ⟨rfl, rfl⟩

/-- The names that the loop over the children keeps. -/
theorem mem_aliases_foldl_readChild (children : List Element) (facts : Facts) (name : String) :
    name ∈ (children.foldl (readChild U) facts).aliases ↔
      name ∈ facts.aliases ∨
        name ≠ "" ∧ ∃ child ∈ children, child.localTag = "nameAlias" ∧ aliasName U child = name := by
  induction children generalizing facts with
  | nil => simp
  | cons child children ih =>
      rw [List.foldl_cons, ih]
      by_cases halias : child.localTag = "nameAlias"
      · rw [(readChild_of_alias facts halias).1, mem_appendNew, or_assoc, ← and_or_left]
        refine or_congr_right (and_congr_right fun _ => ?_)
        simp [halias]
      · rw [(readChild_of_ne facts halias).1]
        simp [halias]

/-- The primary name is one of the names, and there is none only where there is no name. -/
def PrimaryListed (facts : Facts) : Prop :=
  (facts.primary = "" → facts.aliases = []) ∧
    (facts.primary ≠ "" → facts.primary ∈ facts.aliases)

theorem PrimaryListed.readChild {facts : Facts} (h : PrimaryListed facts) (child : Element) :
    PrimaryListed (readChild U facts child) := by
  unfold PrimaryListed
  by_cases halias : child.localTag = "nameAlias"
  · obtain ⟨haliases, hprimary⟩ := readChild_of_alias (U := U) facts halias
    rw [haliases, hprimary]
    generalize aliasName U child = name
    by_cases hnew : name ≠ "" ∧
        (facts.primary = "" ∨ U.lower ((child.get "strong").getD "") = "true")
    · rw [if_pos hnew]
      exact ⟨fun hempty => absurd hempty hnew.1, fun _ => mem_appendNew.mpr (Or.inr ⟨hnew.1, rfl⟩)⟩
    · rw [if_neg hnew]
      refine ⟨fun hempty => ?_, fun hne => mem_appendNew.mpr (Or.inl (h.2 hne))⟩
      have hname : name = "" := by
        by_contra hname
        exact hnew ⟨hname, Or.inl hempty⟩
      rw [appendNew, if_neg fun hadded => hadded.1 hname]
      exact h.1 hempty
  · obtain ⟨haliases, hprimary⟩ := readChild_of_ne (U := U) facts halias
    rw [haliases, hprimary]
    exact h

theorem PrimaryListed.foldl_readChild (children : List Element) {facts : Facts}
    (h : PrimaryListed facts) : PrimaryListed (children.foldl (Sanctions.readChild U) facts) := by
  induction children generalizing facts with
  | nil => exact h
  | cons child children ih =>
      rw [List.foldl_cons]
      exact ih (h.readChild child)

/-- The names collected are the names of the aliases. -/
theorem mem_aliases_iff {e : Element} {name : String} :
    name ∈ (factsOf U e).aliases ↔ AliasOf U e name := by
  have h := @mem_aliases_foldl_readChild U e.iter ⟨[], "", [], "", false⟩ name
  rwa [or_iff_right List.not_mem_nil] at h

/-- The primary name of an element is one of its names. -/
theorem primaryListed_factsOf (e : Element) : PrimaryListed (factsOf U e) :=
  PrimaryListed.foldl_readChild e.iter ⟨fun _ => rfl, fun hne => absurd rfl hne⟩

/-- The name under which an element is screened: one of its aliases, or its reference when it
has none. -/
def NameOf (U : Unicode) (e : Element) (name : String) : Prop :=
  AliasOf U e name ∨
    (∀ other, ¬ AliasOf U e other) ∧ name = (designationIdentity U e).1

/-- **The screening names** of a record are the names of its element. -/
theorem mem_screeningNames_iff {isDecimal : Char → Bool} {earliest : String → Option String}
    {now : Instant} {e : Element} {record : Record}
    (h : recordOf U isDecimal earliest now e = some record) {name : String} :
    name ∈ record.screeningNames ↔ NameOf U e name := by
  obtain ⟨hnone, hprimary⟩ := primaryListed_factsOf (U := U) e
  unfold recordOf at h
  obtain ⟨published, -, rfl⟩ := Option.map_eq_some_iff.mp h
  simp only [List.mem_cons, List.mem_filter, decide_eq_true_eq, NameOf, ← mem_aliases_iff]
  by_cases hempty : (factsOf U e).primary = ""
  · have haliases := hnone hempty
    simp only [hempty, haliases, ne_eq, not_true_eq_false, if_false, List.headD_nil,
      List.not_mem_nil, false_and, or_false, false_or, not_false_eq_true, implies_true, true_and]
    exact Iff.rfl
  · replace hprimary := hprimary hempty
    simp only [ne_eq, hempty, not_false_eq_true, if_true]
    have hsome : ¬ ∀ other, other ∉ (factsOf U e).aliases := fun hall => hall _ hprimary
    constructor
    · rintro (rfl | ⟨hname, -⟩)
      · exact Or.inl hprimary
      · exact Or.inl hname
    · rintro (hname | ⟨hall, -⟩)
      · by_cases heq : name = (factsOf U e).primary
        · exact Or.inl heq
        · exact Or.inr ⟨hname, heq⟩
      · exact absurd hall hsome

end Names

/-! ## One ingestion -/

/-- The provider with the rest of its source. -/
structure CataloguedProvider extends EUSanctionsProvider where
  domains : List ProcurementDomain
  countries : List String
  registryVersion : String

/-- One ingestion: the export, the time of the fetch, the readings of the clock at the elements
and at the inserts. -/
structure Ingestion where
  root : Element
  now : Instant
  clock : ℕ → Instant
  savedAt : ℕ → Instant

variable (S : Serializing) (U : Unicode) (L : UrlParsing) (isDecimal : Char → Bool)
  (p : CataloguedProvider)

/-- The article with all its fields. -/
def CataloguedProvider.complete (now : Instant) (a : RawArticle) : FetchedArticle where
  provider := a.provider
  providerArticleId := Json.ofOption a.providerArticleId
  queryGroup := a.queryGroup
  title := .string a.title
  description := Json.ofOption a.description
  contentSnippet := Json.ofOption a.contentSnippet
  articleUrl := .string a.articleUrl
  canonicalUrl := Json.ofOption a.canonicalUrl
  sourceName := .string a.sourceName
  sourceUrl := a.sourceUrl
  publishedAt := a.publishedAt
  language := .string a.language
  rawPayloadJson := .object
    [("designation_id", Json.ofOption a.providerArticleId),
      ("designation_names",
        .array ((RawPayload.designationNames a.rawPayloadJson).map Json.string))]
  sourceId := some p.source.sourceId
  sourceClass := some "official"
  sourceDomains := (p.domains.map (·.value)).insertionSort (· ≤ ·)
  sourceCountries := p.countries
  registryVersion := some p.registryVersion
  retrievedAt := some now
  sourcePublishedAtRaw := some (S.dateIsoformat a.publishedAt)

/-- `fetch_articles`. -/
def CataloguedProvider.fetch (l : Ingestion) : Option (List FetchedArticle) :=
  (fetchArticles U isDecimal p.toEUSanctionsProvider l.root l.clock).map fun articles =>
    articles.map (p.complete S l.now)

/-- The part of `_source` that fetches, deduplicates and saves. -/
def ingest (t : RawTable) (l : Ingestion) : RawTable :=
  saveFetched S.toHashing l.savedAt t
    (((p.fetch S U isDecimal l).bind (deduplicateWithinRun S U L)).map (·.articles))

/-- One ingestion of an export that the item limit covers. -/
def step (t : RawTable) (l : Ingestion) : Option RawTable :=
  if (sanctionEntities l.root).length ≤ p.source.itemLimit then
    some (ingest S U L isDecimal p t l)
  else none

/-! ## The names that reach screening -/

/-- A stored article carries the name for the reference. -/
def Stored (t : RawTable) (reference name : String) : Prop :=
  ∃ row ∈ t.values, row.article.Carries reference name

/-- **No name is lost**: every name of the export is stored for its reference. -/
def Kept (t : RawTable) (root : Element) : Prop :=
  ∀ e ∈ sanctionEntities root, ∀ name, AliasOf U e name →
    Stored t (designationIdentity U e).1 name

/-- Nothing raises: the revisions that look like dates are dates, and the URL of the source
canonicalizes. -/
def Readable (l : Ingestion) : Prop :=
  (∀ e ∈ sanctionEntities l.root, DateOk U isDecimal e) ∧
    (canonicalizeUrl U L p.source.endpointUrl).isSome = true

/-- The article of the element at a place of the export, with its keys. -/
def keyedAt (l : Ingestion) (i : ℕ) (e : Element) : Option KeyedArticle :=
  (recordOf U isDecimal (earliestRevisions U (sanctionEntities l.root)) (l.clock i) e).bind
    fun record => keyed S U L (p.complete S l.now (p.article record))

/-- An element of the export gives an article that carries the name for the reference, that is
new, that fits the columns, and that no article with its identity is preferred to. -/
def Supplies (t : RawTable) (l : Ingestion) (reference name : String) : Prop :=
  ∃ i e a, (sanctionEntities l.root)[i]? = some e ∧ keyedAt S U L isDecimal p l i e = some a ∧
    (∃ revision, identityOf U e = "eu-sanctions:" ++ reference ++ ":" ++ revision) ∧
    NameOf U e name ∧
    S.sha256 ("provider|eu_sanctions|" ++ identityOf U e) ∉ t.values.map (·.ingestHash) ∧
    a.article.storable = true ∧
    ∀ j e' b, (sanctionEntities l.root)[j]? = some e' → identityOf U e' = identityOf U e →
      keyedAt S U L isDecimal p l j e' = some b →
      a.preference < b.preference ∨ a.preference = b.preference ∧ i ≤ j

/-- Every name of the export is stored for its reference, or supplied by the export. -/
def Delivers (t : RawTable) (l : Ingestion) : Prop :=
  ∀ e ∈ sanctionEntities l.root, ∀ name, AliasOf U e name →
    Stored t (designationIdentity U e).1 name ∨
      Readable U L isDecimal p l ∧
        Supplies S U L isDecimal p t l (designationIdentity U e).1 name

/-! ## What one ingestion does -/

section Ingest

variable {S U L isDecimal p}

/-- The columns of a designation are those of its record. -/
theorem carries_complete_iff {e : Element} {earliest : String → Option String}
    {published now : Instant} {record : Record}
    (h : recordOf U isDecimal earliest published e = some record) {reference name : String} :
    (p.complete S now (p.article record)).Carries reference name ↔
      (∃ revision, identityOf U e = "eu-sanctions:" ++ reference ++ ":" ++ revision) ∧
        NameOf U e name := by
  have hid : (p.complete S now (p.article record)).providerArticleId =
      .string (identityOf U e) := by
    rw [← identity_of_recordOf U isDecimal h]
    rfl
  have hnames : (p.complete S now (p.article record)).rawPayloadJson.designationNames =
      record.screeningNames := by
    show (record.screeningNames.map Json.string).filterMap Json.text = record.screeningNames
    rw [List.filterMap_map]
    exact List.filterMap_some
  rw [FetchedArticle.Carries, hid, hnames, mem_screeningNames_iff h]
  simp only [Json.string.injEq]
  exact and_iff_right rfl

/-- The hash and the fingerprint of a designation are made from its identity. -/
theorem hash_complete {e : Element} {earliest : String → Option String} {published now : Instant}
    {record : Record} (h : recordOf U isDecimal earliest published e = some record) :
    createIngestHash S.toHashing (p.complete S now (p.article record)) =
        S.sha256 ("provider|eu_sanctions|" ++ identityOf U e) ∧
      articleFingerprint S U L (p.complete S now (p.article record)) =
        some (S.sha256 ("provider\x00eu_sanctions\x00" ++ identityOf U e)) := by
  rw [← identity_of_recordOf U isDecimal h]
  have hne : record.identity ≠ "" := by
    rw [identity_of_recordOf U isDecimal h, identityOf]
    intro hempty
    have := congrArg String.toList hempty
    simp at this
  have hstable : hasStableProviderId "eu_sanctions" (.string record.identity) = true := by
    simp [hasStableProviderId, Json.truthy, hne, stableIdProviders]
  have hid : (p.complete S now (p.article record)).providerArticleId =
      .string record.identity := rfl
  have hprovider : (p.complete S now (p.article record)).provider = "eu_sanctions" := rfl
  constructor
  · rw [createIngestHash, hid, hprovider, if_pos hstable]
    rfl
  · rw [articleFingerprint, hid, hprovider, if_pos hstable]
    rfl

/-- The keys of a designation are computed exactly when the URL of the source
canonicalizes. -/
theorem isSome_keyed_complete {e : Element} {earliest : String → Option String}
    {published now : Instant} {record : Record}
    (h : recordOf U isDecimal earliest published e = some record) :
    (keyed S U L (p.complete S now (p.article record))).isSome =
      (canonicalizeUrl U L p.source.endpointUrl).isSome := by
  have hcanonical : (p.complete S now (p.article record)).canonical U L =
      canonicalizeUrl U L p.source.endpointUrl := by
    have hboth : (p.complete S now (p.article record)).canonicalUrl =
          .string p.source.endpointUrl ∧
        (p.complete S now (p.article record)).articleUrl = .string p.source.endpointUrl :=
      ⟨rfl, rfl⟩
    rw [FetchedArticle.canonical, hboth.1, hboth.2, ite_self]
    rfl
  rw [keyed, (hash_complete h).2, Option.bind_eq_bind, Option.bind_some, articleProjection,
    hcanonical]
  cases canonicalizeUrl U L p.source.endpointUrl <;> rfl

/-- The run over the elements raises when one of them does and the limit is not met before. -/
theorem collect_eq_none {p : EUSanctionsProvider} {earliest : String → Option String}
    {clock : ℕ → Instant} {k : ℕ} {es : List Element} {articles : List RawArticle}
    (hroom : articles.length + es.length ≤ p.source.itemLimit)
    (hbad : ∃ e ∈ es, ¬ DateOk U isDecimal e) :
    collect U isDecimal p earliest clock k es articles = none := by
  induction es generalizing k articles with
  | nil =>
      obtain ⟨e, he, -⟩ := hbad
      exact absurd he List.not_mem_nil
  | cons e es ih =>
      rw [List.length_cons] at hroom
      by_cases hdate : DateOk U isDecimal e
      · obtain ⟨record, hrecord⟩ := (exists_recordOf_iff U isDecimal earliest (clock k) e).mpr hdate
        rw [collect_cons _ _ _ _ _ _ _ _ hrecord, if_neg (by omega)]
        refine ih ?_ ?_
        · rw [List.length_append, List.length_singleton]
          omega
        · obtain ⟨e', he', hbad⟩ := hbad
          rcases List.mem_cons.mp he' with rfl | he'
          · exact absurd hdate hbad
          · exact ⟨e', he', hbad⟩
      · have hnone : recordOf U isDecimal earliest (clock k) e = none := by
          rw [Option.eq_none_iff_forall_ne_some]
          intro record hrecord
          exact hdate ((exists_recordOf_iff U isDecimal earliest (clock k) e).mp ⟨record, hrecord⟩)
        rw [collect, hnone, Option.bind_none]

/-- **What is saved** by one ingestion: nothing when something raises, and otherwise the articles
that are kept, one element of the export each. -/
theorem ingest_cases (t : RawTable) {l : Ingestion}
    (hlimit : (sanctionEntities l.root).length ≤ p.source.itemLimit) :
    ¬ (Readable U L isDecimal p l ∧ sanctionEntities l.root ≠ []) ∧
        ingest S U L isDecimal p t l = t ∨
      Readable U L isDecimal p l ∧ ∃ items : List KeyedArticle,
        ingest S U L isDecimal p t l = (saveArticles S.toHashing l.savedAt 0
          ((retained items).map (·.article)) t).1 ∧
        ∀ (i : ℕ) a, items[i]? = some a ↔
          ∃ e, (sanctionEntities l.root)[i]? = some e ∧ keyedAt S U L isDecimal p l i e = some a := by
  by_cases hdates : ∀ e ∈ sanctionEntities l.root, DateOk U isDecimal e
  · obtain ⟨articles, hfetch, hlength, hplace⟩ := fetchArticles_eq_some U isDecimal
      p.toEUSanctionsProvider l.root (fun e he => hdates e (List.mem_of_mem_take he)) l.clock
    rw [Nat.min_eq_left hlimit] at hlength
    have hmap : p.fetch S U isDecimal l = some (articles.map (p.complete S l.now)) := by
      rw [CataloguedProvider.fetch, hfetch, Option.map_some]
    -- the keys of the article at a place are those of the element there
    have hkeys : ∀ i : ℕ, (articles[i]?).map (keyed S U L ∘ p.complete S l.now) =
        ((sanctionEntities l.root)[i]?).map (keyedAt S U L isDecimal p l i) := by
      intro i
      cases he : (sanctionEntities l.root)[i]? with
      | none =>
          rw [List.getElem?_eq_none_iff] at he
          rw [List.getElem?_eq_none (by omega)]
          rfl
      | some e =>
          have hi := (List.getElem?_eq_some_iff.mp he).1
          obtain ⟨record, hrecord, hat⟩ := hplace i e he (by omega)
          rw [hat, Option.map_some, Option.map_some, keyedAt, hrecord, Option.bind_some]
          rfl
    by_cases hempty : sanctionEntities l.root = []
    · refine Or.inl ⟨fun h => h.2 hempty, ?_⟩
      rw [hempty, List.length_nil] at hlength
      rw [List.eq_nil_of_length_eq_zero hlength] at hmap
      rw [ingest, hmap]
      rfl
    by_cases hurl : (canonicalizeUrl U L p.source.endpointUrl).isSome = true
    · refine Or.inr ⟨⟨hdates, hurl⟩, ?_⟩
      have hsome : ∀ a ∈ articles.map (p.complete S l.now),
          (keyed S U L a).isSome = true := by
        intro a ha
        obtain ⟨fetched, hfetched, rfl⟩ := List.mem_map.mp ha
        obtain ⟨i, hi, rfl⟩ := List.mem_iff_getElem.mp hfetched
        obtain ⟨record, hrecord, hat⟩ := hplace i _
          (List.getElem?_eq_getElem (hlength ▸ hi)) (by omega)
        rw [List.getElem?_eq_getElem hi, Option.some.injEq] at hat
        rw [hat, isSome_keyed_complete hrecord, hurl]
      obtain ⟨items, hmapM⟩ := exists_mapM hsome
      have hitems := mapM_eq_some_iff.mp hmapM
      rw [List.map_map] at hitems
      refine ⟨items, ?_, fun i a => ?_⟩
      · rw [ingest, hmap, Option.bind_some, deduplicateWithinRun, hmapM]
        rfl
      · have hat := congrArg (fun r : List (Option KeyedArticle) => r[i]?) hitems
        simp only [List.getElem?_map, hkeys] at hat
        cases hi : items[i]? with
        | none =>
            rw [hi, Option.map_none, Option.map_eq_none_iff] at hat
            simp [hat]
        | some b =>
            rw [hi, Option.map_some, Option.map_eq_some_iff] at hat
            obtain ⟨e, he, hb⟩ := hat
            constructor
            · rintro ⟨rfl⟩
              exact ⟨e, he, hb⟩
            · rintro ⟨e', he', ha⟩
              obtain rfl := Option.some.inj (he.symm.trans he')
              exact hb.symm.trans ha
    · refine Or.inl ⟨fun h => hurl h.1.2, ?_⟩
      obtain ⟨e, es, hes⟩ := List.exists_cons_of_ne_nil hempty
      have hhead : (sanctionEntities l.root)[0]? = some e := by rw [hes]; rfl
      obtain ⟨record, hrecord, hat⟩ := hplace 0 e hhead (by
        have := congrArg List.length hes
        rw [List.length_cons] at this
        omega)
      have hnone : keyed S U L (p.complete S l.now (p.article record)) = none := by
        rw [← Option.not_isSome_iff_eq_none, isSome_keyed_complete hrecord]
        exact hurl
      obtain ⟨rest, hrest⟩ : ∃ rest, articles = p.article record :: rest := by
        cases articles with
        | nil => exact absurd hat (by simp)
        | cons a rest => exact ⟨rest, by rw [List.getElem?_cons_zero] at hat; rw [Option.some.inj hat]⟩
      rw [ingest, hmap, hrest, List.map_cons, Option.bind_some, deduplicateWithinRun,
        List.mapM_cons, hnone]
      rfl
  · refine Or.inl ⟨fun h => hdates h.1.1, ?_⟩
    have hnone : fetchArticles U isDecimal p.toEUSanctionsProvider l.root l.clock = none := by
      refine collect_eq_none (by simpa using hlimit) ?_
      simpa using hdates
    rw [ingest, CataloguedProvider.fetch, hnone]
    rfl

/-- An article made from an element. -/
theorem exists_record_of_keyedAt {l : Ingestion} {i : ℕ} {e : Element} {a : KeyedArticle}
    (h : keyedAt S U L isDecimal p l i e = some a) : ∃ record,
      recordOf U isDecimal (earliestRevisions U (sanctionEntities l.root)) (l.clock i) e
        = some record ∧
      a.article = p.complete S l.now (p.article record) ∧
      a.fingerprint = S.sha256 ("provider\x00eu_sanctions\x00" ++ identityOf U e) := by
  obtain ⟨record, hrecord, ha⟩ := Option.bind_eq_some_iff.mp h
  refine ⟨record, hrecord, ?_⟩
  rw [keyed, (hash_complete hrecord).2, Option.bind_eq_bind, Option.bind_some] at ha
  obtain ⟨projection, -, ha⟩ := Option.bind_eq_some_iff.mp ha
  rw [← Option.some.inj ha]
  exact ⟨rfl, rfl⟩

/-- **The names after one ingestion** are those stored before and those that the export
supplies. -/
theorem stored_ingest_iff (hsha : Function.Injective S.sha256) {t : RawTable} {l : Ingestion}
    (hlimit : (sanctionEntities l.root).length ≤ p.source.itemLimit) {reference name : String} :
    Stored (ingest S U L isDecimal p t l) reference name ↔
      Stored t reference name ∨
        Readable U L isDecimal p l ∧ Supplies S U L isDecimal p t l reference name := by
  have hidentity : ∀ (separator : String) {e e' : Element},
      S.sha256 (separator ++ identityOf U e) = S.sha256 (separator ++ identityOf U e') ↔
        identityOf U e = identityOf U e' := by
    intro separator e e'
    rw [hsha.eq_iff, String.append_right_inj]
  rcases ingest_cases t hlimit with ⟨hraises, hsame⟩ | ⟨hreadable, items, hsaved, hitems⟩
  · rw [hsame]
    refine (or_iff_left ?_).symm
    rintro ⟨hreadable, i, e, a, he, -⟩
    exact hraises ⟨hreadable, List.ne_nil_of_mem (List.mem_of_getElem? he)⟩
  · have helement : ∀ a ∈ items, ∃ i e, (sanctionEntities l.root)[i]? = some e ∧
        keyedAt S U L isDecimal p l i e = some a := by
      intro a ha
      obtain ⟨i, hi⟩ := List.getElem?_of_mem ha
      obtain ⟨e, he, hkeyed⟩ := (hitems i a).mp hi
      exact ⟨i, e, he, hkeyed⟩
    have hkept : ∀ a ∈ retained items, a ∈ items := by
      intro a ha
      obtain ⟨i, hi, -⟩ := mem_retained_iff.mp ha
      exact List.mem_of_getElem? hi
    -- articles with different fingerprints have different hashes
    have hdistinct : (((retained items).map (·.article)).map
        (createIngestHash S.toHashing)).Nodup := by
      rw [List.map_map]
      refine List.Nodup.map_on ?_ (nodup_fingerprint_retained items).of_map
      intro a ha b hb hhash
      obtain ⟨i, e, -, hkeyed⟩ := helement a (hkept a ha)
      obtain ⟨j, e', -, hkeyed'⟩ := helement b (hkept b hb)
      obtain ⟨record, hrecord, harticle, hfingerprint⟩ := exists_record_of_keyedAt hkeyed
      obtain ⟨record', hrecord', harticle', hfingerprint'⟩ := exists_record_of_keyedAt hkeyed'
      simp only [Function.comp_apply, harticle, harticle', (hash_complete (L := L) hrecord).1,
        (hash_complete (L := L) hrecord').1, hidentity] at hhash
      refine List.inj_on_of_nodup_map (nodup_fingerprint_retained items) ha hb ?_
      rw [hfingerprint, hfingerprint', hhash]
    rw [hsaved]
    refine (exists_saved_iff (Q := fun a => a.Carries reference name) 0 hdistinct).trans
      (or_congr_right ⟨?_, ?_⟩)
    · rintro ⟨article, harticle, hfits, hnew, hcarries⟩
      obtain ⟨a, ha, rfl⟩ := List.mem_map.mp harticle
      obtain ⟨i, hi, hleast⟩ := mem_retained_iff.mp ha
      obtain ⟨e, he, hkeyed⟩ := (hitems i a).mp hi
      obtain ⟨record, hrecord, harticle, hfingerprint⟩ := exists_record_of_keyedAt hkeyed
      rw [harticle, carries_complete_iff hrecord] at hcarries
      rw [harticle, (hash_complete (L := L) hrecord).1] at hnew
      refine ⟨hreadable, i, e, a, he, hkeyed, hcarries.1, hcarries.2, hnew, hfits, ?_⟩
      intro j e' b he' hsame hb
      obtain ⟨record', hrecord', -, hfingerprint'⟩ := exists_record_of_keyedAt hb
      refine hleast j b ((hitems j b).mpr ⟨e', he', hb⟩) ?_
      rw [hfingerprint, hfingerprint', hsame]
    · rintro ⟨-, i, e, a, he, hkeyed, hrefers, hname, hnew, hfits, hleast⟩
      obtain ⟨record, hrecord, harticle, hfingerprint⟩ := exists_record_of_keyedAt hkeyed
      refine ⟨a.article, List.mem_map.mpr ⟨a, mem_retained_iff.mpr ⟨i,
        (hitems i a).mpr ⟨e, he, hkeyed⟩, ?_⟩, rfl⟩, hfits, ?_, ?_⟩
      · intro j b hb hsame
        obtain ⟨e', he', hkeyed'⟩ := (hitems j b).mp hb
        obtain ⟨record', hrecord', -, hfingerprint'⟩ := exists_record_of_keyedAt hkeyed'
        rw [hfingerprint, hfingerprint', hidentity] at hsame
        exact hleast j e' b he' hsame hkeyed'
      · rw [harticle, (hash_complete (L := L) hrecord).1]
        exact hnew
      · rw [harticle, carries_complete_iff hrecord]
        exact ⟨hrefers, hname⟩

/-- One ingestion keeps the names exactly when the export delivers them. -/
theorem kept_step_iff (hsha : Function.Injective S.sha256) {t t' : RawTable} {l : Ingestion}
    (h : step S U L isDecimal p t l = some t') :
    Kept U t' l.root ↔ Delivers S U L isDecimal p t l := by
  unfold step at h
  split at h
  · rename_i hlimit
    rw [← Option.some.inj h]
    simp only [Kept, Delivers, stored_ingest_iff hsha hlimit]
  · cases h

/-- After the latest ingestion, every name of its export is stored for its reference. -/
def KeptLast (U : Unicode) : List (RawTable × Ingestion) → RawTable → Prop
  | [], _ => True
  | (_, l) :: _, t => Kept U t l.root

/-- **Names across exports.**  In every sequence of ingestions, every name of each export is
stored for its reference after the ingestion exactly when every export delivers its names to the
table it meets: a name is stored already, or an element of the export that has it gives an
article that is new. -/
theorem namesKept_iff (hsha : Function.Injective S.sha256) {t₀ t : RawTable}
    {tr : List (RawTable × Ingestion)}
    (h : Execution (step S U L isDecimal p) unguarded t₀ tr t) :
    Execution.Throughout (KeptLast U) tr t ↔
      ∀ x ∈ tr, Delivers S U L isDecimal p x.1 x.2 :=
  h.throughout_iff trivial fun _ _ _ _ _ _ hstep => kept_step_iff hsha hstep

end Ingest

/-! ## An alias under an unchanged date -/

mutual

/-- `json.dumps` of values whose texts need no escapes. -/
def dumps : Json → String
  | .null => "null"
  | .bool b => if b then "true" else "false"
  | .number text => text
  | .string s => "\"" ++ s ++ "\""
  | .array items => "[" ++ ",".intercalate (dumpsItems items) ++ "]"
  | .object fields => "\x7b" ++ ",".intercalate (dumpsFields fields) ++ "\x7d"

def dumpsItems : List Json → List String
  | [] => []
  | item :: items => dumps item :: dumpsItems items

def dumpsFields : List (String × Json) → List String
  | [] => []
  | (key, item) :: fields => ("\"" ++ key ++ "\":" ++ dumps item) :: dumpsFields fields

end

/-- A digest without collisions; the one day that is met is written out. -/
def plainSerializing : Serializing where
  sha256 s := "sha256 " ++ s
  isoformat t := if t = days (toOrdinal 2024 1 2) then "2024-01-02T00:00:00" else ""
  str _ := "None"
  dumps := dumps
  dateIsoformat t := if t = days (toOrdinal 2024 1 2) then "2024-01-02" else ""

theorem plainSerializing_injective : Function.Injective plainSerializing.sha256 :=
  fun _ _ h => (String.append_right_inj _).mp h

/-- `urllib.parse` on URLs of a host and a path. -/
def plainUrls : UrlParsing where
  urlsplit url :=
    let rest := url.toList.drop 8
    some ⟨"https", none, none, some (String.ofList (rest.takeWhile (· ≠ '/'))), some none,
      String.ofList (rest.dropWhile (· ≠ '/')), ""⟩
  urljoin _ _ := none
  parseQsl _ := []
  urlencode _ := ""
  urlunsplit scheme netloc path _ := scheme ++ "://" ++ netloc ++ path

/-- The source of the catalog. -/
def cataloguedSanctions : CataloguedProvider where
  toEUSanctionsProvider := euFinancialSanctions
  domains := [.sanctions, .supplierRisk]
  countries := ["eu"]
  registryVersion := "sources-v1"

/-- An export of one designation, dated the second of January, with the names given. -/
def exportOf (names : List String) : Ingestion where
  root := .mk "export" [] none
    [.mk "sanctionEntity" [("euReferenceNumber", "EU.1"), ("designationDate", "2024-01-02")] none
      (names.map fun name => .mk "nameAlias" [("wholeName", name)] none [])]
  now := 0
  clock _ := 0
  savedAt _ := 0

/-- The ingestion of exports of the catalog's source. -/
abbrev catalogStep : RawTable → Ingestion → Option RawTable :=
  step plainSerializing .ascii plainUrls asciiDecimal cataloguedSanctions

/-- The table after the first export. -/
def afterFirst : RawTable :=
  ingest plainSerializing .ascii plainUrls asciiDecimal cataloguedSanctions UniqueTable.empty
    (exportOf ["Alpha"])

/-- And after one in which the designation has a second name. -/
def afterSecond : RawTable :=
  ingest plainSerializing .ascii plainUrls asciiDecimal cataloguedSanctions afterFirst
    (exportOf ["Alpha", "Beta"])

theorem execution_first : Execution catalogStep unguarded UniqueTable.empty
    [(UniqueTable.empty, exportOf ["Alpha"])] afterFirst :=
  Execution.nil.snoc trivial (if_pos (by decide))

/-- The first export delivers its name. -/
theorem namesKept_iff_first : Execution.Throughout (KeptLast .ascii)
    [(UniqueTable.empty, exportOf ["Alpha"])] afterFirst ↔
      ∀ x ∈ [(UniqueTable.empty, exportOf ["Alpha"])],
        Delivers plainSerializing .ascii plainUrls asciiDecimal cataloguedSanctions x.1 x.2 :=
  namesKept_iff plainSerializing_injective execution_first

/-- **A lost name.**  A second name is added to a designation under its date; no article that
was ever saved has it. -/
theorem name_lost : ∃ tr t, Execution catalogStep unguarded UniqueTable.empty tr t ∧
    ¬ Execution.Throughout (KeptLast .ascii) tr t := by
  refine ⟨_, afterSecond, execution_first.snoc (l := exportOf ["Alpha", "Beta"]) trivial
    (if_pos (by decide)), ?_⟩
  intro hkept
  have halias : AliasOf .ascii (.mk "sanctionEntity"
      [("euReferenceNumber", "EU.1"), ("designationDate", "2024-01-02")] none
      [.mk "nameAlias" [("wholeName", "Alpha")] none [],
        .mk "nameAlias" [("wholeName", "Beta")] none []]) "Beta" :=
    ⟨by decide, .mk "nameAlias" [("wholeName", "Beta")] none [],
      by simp [Element.iter, Element.iterAll], by decide +kernel, by decide +kernel⟩
  obtain ⟨row, hrow, -, -, hname⟩ := hkept.1 _ List.mem_cons_self "Beta" halias
  have hnone : ∀ row ∈ afterSecond.values,
      "Beta" ∉ row.article.rawPayloadJson.designationNames := by
    decide +kernel
  exact hnone row hrow hname

end Sanctions

end ProcureSignal.Retrieval
