/-
# Searching by words and by vectors

`search/lexical.py` and `search` of `search/hybrid.py`: a query is answered by the words of the
articles and, where a provider of embeddings works and finds something, by their vectors as well.

* `lexicalSearch`, `vectorSearch`, `search` : the functions of the source;
* `ranked_lexicalSearch`, `ranked_vectorSearch` : neither retriever gives an article twice;
* `search_honest` : **the mode says which retriever the results come from**, and without the vectors
  the results are those of the words alone, in their order.
-/
import ProcureSignal.Library.Unicode
import ProcureSignal.Search.Fusion

namespace ProcureSignal.Search

/-! ## What is searched -/

/-- A processed article beside its raw article, with the columns that are searched. -/
structure Article where
  id : ℤ
  processedAt : ℤ
  normalizedTitle : String
  summary : String
  title : String
  description : Option String
  contentSnippet : Option String
  deriving DecidableEq, Repr

/-- `ArticleEmbedding`. -/
structure ArticleEmbedding (V : Type) where
  processedId : ℤ
  model : String
  embedding : V

/-- The two tables, each row in the order in which it is scanned. -/
structure Corpus (V : Type) where
  articles : List Article
  embeddings : List (ArticleEmbedding V)
  /-- the primary key -/
  nodup_articles : (articles.map (·.id)).Nodup
  /-- `uq_article_embedding_model` -/
  nodup_embeddings : (embeddings.map fun e => (e.processedId, e.model)).Nodup

/-- The database engine, and its clock at the two queries. -/
structure Engine (V : Type) where
  /-- the dialect is `postgresql` -/
  postgresql : Bool
  lexicalNow : ℤ
  vectorNow : ℤ
  /-- one of the two search vectors of an article matches the query -/
  tsMatch : String → String → Article → Bool
  /-- `ts_rank_cd` -/
  tsRank : String → String → Article → ℚ
  /-- `ILIKE` -/
  ilike : String → String → Bool
  /-- `<=>`; it raises for vectors of different widths -/
  distance : V → V → Option ℚ

/-- `EmbeddingProvider`: what it is called, and what it makes of texts. -/
structure Provider (V : Type) where
  name : String
  embed : List String → Option (List V)

variable {V : Type} (U : Unicode) (E : Engine V) (C : Corpus V)

/-! ## Lexical retrieval -/

/-- `TEXT_SEARCH_CONFIGS`. -/
def textSearchConfigs : Dict String String :=
  Dict.empty.set "en" "english" |>.set "de" "german" |>.set "fr" "french" |>.set "es" "spanish"
    |>.set "it" "italian" |>.set "nl" "dutch" |>.set "pt" "portuguese" |>.set "ru" "russian"

/-- `text_search_config`. -/
def textSearchConfig (language : String) : String :=
  (textSearchConfigs.get? (U.lower (U.strip
    (String.ofList (language.toList.takeWhile (· ≠ '-')))))).getD "simple"

/-- `_SEARCHABLE` finds something: a letter, a digit or an underscore. -/
def searchable (text : String) : Bool := text.toList.any fun c => U.isAlnum c || c == '_'

/-- `build_tsquery`. -/
def buildTsquery (query : String) : String :=
  let collapsed := " ".intercalate (U.split query)
  if searchable U collapsed then collapsed else ""

/-- The microseconds of a day. -/
def day : ℤ := 86400000000

/-- `_full_text_search`. -/
def fullTextSearch (prepared : String) (cutoff : ℤ) (limit : ℕ) (language : String) : List Hit :=
  let configuration := textSearchConfig U language
  let score := E.tsRank configuration prepared
  let rows := C.articles.filter fun a =>
    cutoff ≤ a.processedAt && E.tsMatch configuration prepared a
  ((rows.insertionSort fun a b =>
    toLex (score b, b.processedAt) ≤ toLex (score a, a.processedAt)).take limit).map fun a =>
      ⟨a.id, score a⟩

/-- The columns of `_PROCESSED_FIELDS` and `_RAW_FIELDS`, with their weights. -/
def searchedFields (a : Article) : List (Option String × ℚ) :=
  [(some a.normalizedTitle, 1), (some a.summary, 2 / 5), (some a.title, 1), (a.description, 1 / 5),
    (a.contentSnippet, 1 / 5)]

/-- `weight_of` of both rows. -/
def weightOf (needle : String) (a : Article) : ℚ :=
  (((searchedFields a).filter fun field =>
    needle.toList <:+: (U.lower (field.1.getD "")).toList).map (·.2)).sum

/-- `_FALLBACK_TOTAL`. -/
def fallbackTotal : ℚ := 14 / 5

/-- `_substring_search`. -/
def substringSearch (prepared : String) (cutoff : ℤ) (limit : ℕ) : List Hit :=
  let pattern := "%" ++ prepared ++ "%"
  let rows := C.articles.filter fun a =>
    cutoff ≤ a.processedAt &&
      (searchedFields a).any fun field => field.1.any fun text => E.ilike text pattern
  let newest := (rows.insertionSort fun a b => b.processedAt ≤ a.processedAt).take (limit * 3)
  let hits := (newest.filter fun a => weightOf U (U.lower prepared) a ≠ 0).map fun a =>
    Hit.mk a.id (weightOf U (U.lower prepared) a / fallbackTotal)
  (hits.insertionSort fun a b => b.score ≤ a.score).take limit

/-- `lexical_search`. -/
def lexicalSearch (query : String) (limit days : ℕ) (language : String) : List Hit :=
  let prepared := buildTsquery U query
  if prepared = "" then []
  else
    let cutoff := E.lexicalNow - days * day
    if E.postgresql then fullTextSearch U E C prepared cutoff limit language
    else substringSearch U E C prepared cutoff limit

/-! ## Hybrid retrieval -/

/-- `MINIMUM_SIMILARITY`. -/
def minimumSimilarity : ℚ := 1 / 4

/-- A row of the vector query: an embedding of the model that belongs to a processed article. -/
def vectorRows (model : String) (cutoff : ℤ) : List (ArticleEmbedding V) :=
  C.embeddings.filter fun e =>
    e.model = model && C.articles.any fun a => a.id = e.processedId && cutoff ≤ a.processedAt

/-- `vector_search`; it raises where two vectors cannot be compared. -/
def vectorSearch (embedding : V) (model : String) (limit days : ℕ) : Option (List Hit) :=
  if !E.postgresql then some []
  else do
    let rows ← (vectorRows C model (E.vectorNow - days * day)).mapM fun e =>
      (E.distance e.embedding embedding).map fun distance => (e.processedId, distance)
    let near := rows.filter fun row => row.2 ≤ 1 - minimumSimilarity
    return ((near.insertionSort fun a b => a.2 ≤ b.2).take limit).map fun row =>
      ⟨row.1, 1 - row.2⟩

/-- `CANDIDATE_MULTIPLIER`. -/
def candidateMultiplier : ℕ := 2

/-- The `try` block of `search`: no value where it raises. -/
def semantic (provider : Provider V) (prepared : String) (candidates days : ℕ) :
    Option (List Hit) := do
  let embeddings ← provider.embed [prepared]
  let embedding ← embeddings.head?
  vectorSearch E C embedding provider.name candidates days

/-- `search`, with the texts that the provider was asked to embed. -/
def search (query : String) (limit days : ℕ) (provider : Option (Provider V)) (language : String) :
    SearchOutcome × List (List String) :=
  let prepared := buildTsquery U query
  if prepared = "" then (⟨[], .lexical, 0, 0⟩, [])
  else
    let candidates := limit * candidateMultiplier
    let lexical := lexicalSearch U E C query candidates days language
    match provider with
    | none => (outcome lexical [] .lexical limit, [])
    | some provider =>
        match semantic E C provider prepared candidates days with
        | none => (outcome lexical [] .degraded limit, [[prepared]])
        | some [] => (outcome lexical [] .degraded limit, [[prepared]])
        | some vector => (outcome lexical vector .hybrid limit, [[prepared]])

/-! ## No article twice -/

variable {U E C}

/-- Picking, sorting and cutting names nothing twice. -/
theorem nodup_take_sorted {α : Type} {f : α → ℤ} {rows : List α} (h : (rows.map f).Nodup)
    (r : α → α → Prop) [DecidableRel r] (limit : ℕ) :
    (((rows.insertionSort r).take limit).map f).Nodup :=
  ((List.take_sublist _ _).map f).nodup (((List.perm_insertionSort r rows).map f).nodup_iff.mpr h)

theorem mem_of_take_sorted {α : Type} {rows : List α} {r : α → α → Prop} [DecidableRel r]
    {limit : ℕ} {row : α} (h : row ∈ (rows.insertionSort r).take limit) : row ∈ rows :=
  (List.mem_insertionSort r).mp (List.mem_of_mem_take h)

theorem nodup_filter_articles (p : Article → Bool) : ((C.articles.filter p).map (·.id)).Nodup :=
  (List.filter_sublist.map _).nodup C.nodup_articles

/-- **Words** give no article twice. -/
theorem ranked_lexicalSearch (query : String) (limit days : ℕ) (language : String) :
    Ranked (lexicalSearch U E C query limit days language) := by
  unfold lexicalSearch Ranked documents
  dsimp only
  split
  · exact List.nodup_nil
  split
  · unfold fullTextSearch
    rw [List.map_map]
    exact nodup_take_sorted (f := Article.id) (nodup_filter_articles _) _ limit
  · refine nodup_take_sorted (f := Hit.processedId) ?_ _ limit
    rw [List.map_map]
    exact (List.filter_sublist.map Article.id).nodup
      (nodup_take_sorted (f := Article.id) (nodup_filter_articles _) _ (limit * 3))

/-- The rows of one model name no article twice. -/
theorem nodup_vectorRows (model : String) (cutoff : ℤ) :
    ((vectorRows C model cutoff).map (·.processedId)).Nodup := by
  have hpairs : ((vectorRows C model cutoff).map fun e => (e.processedId, e.model)).Nodup :=
    (List.filter_sublist.map _).nodup C.nodup_embeddings
  rw [List.Nodup, List.pairwise_map] at hpairs ⊢
  refine hpairs.imp_of_mem fun {e e'} he he' hne heq => hne (Prod.ext heq ?_)
  have hmodel : ∀ e ∈ vectorRows C model cutoff, e.model = model := by
    intro e he
    have hkept := (List.mem_filter.mp he).2
    simp only [Bool.and_eq_true, decide_eq_true_eq] at hkept
    exact hkept.1
  exact (hmodel e he).trans (hmodel e' he').symm

/-- The rows of a vector query with their distances. -/
theorem exists_rows_of_vectorSearch {embedding : V} {model : String} {limit days : ℕ}
    {hits : List Hit} (h : vectorSearch E C embedding model limit days = some hits) :
    ∃ rows : List (ℤ × ℚ),
      (∀ row ∈ rows, ∃ e ∈ vectorRows C model (E.vectorNow - days * day),
        e.processedId = row.1 ∧ E.distance e.embedding embedding = some row.2) ∧
      (rows.map Prod.fst).Nodup ∧
      hits = (((rows.filter fun row => row.2 ≤ 1 - minimumSimilarity).insertionSort
        fun a b => a.2 ≤ b.2).take limit).map fun row => ⟨row.1, 1 - row.2⟩ := by
  unfold vectorSearch at h
  split at h
  · obtain rfl := Option.some.inj h
    exact ⟨[], by simp, by simp, by simp⟩
  · obtain ⟨rows, hrows, heq⟩ := Option.bind_eq_some_iff.mp h
    have hmap := mapM_eq_some_iff.mp hrows
    refine ⟨rows, fun row hrow => ?_, ?_, (Option.some.inj heq).symm⟩
    · have hmem : some row ∈ rows.map some := List.mem_map_of_mem hrow
      rw [← hmap] at hmem
      obtain ⟨e, he, hrow⟩ := List.mem_map.mp hmem
      obtain ⟨distance, hdistance, rfl⟩ := Option.map_eq_some_iff.mp hrow
      exact ⟨e, he, rfl, hdistance⟩
    · have hids : rows.map Prod.fst = (vectorRows C model (E.vectorNow - days * day)).map
          (·.processedId) := by
        have hsome : (rows.map Prod.fst).map some =
            ((vectorRows C model (E.vectorNow - days * day)).map (·.processedId)).map some := by
          have hfst := congrArg (List.map (Option.map Prod.fst)) hmap
          rw [List.map_map, List.map_map] at hfst
          rw [List.map_map, List.map_map]
          refine hfst.symm.trans (List.map_congr_left fun e he => ?_)
          -- no row raised, or there would be no rows
          have hmem := List.mem_map_of_mem (f := fun e => (E.distance e.embedding embedding).map
            fun distance => (e.processedId, distance)) he
          rw [hmap] at hmem
          obtain ⟨row, -, hrow⟩ := List.mem_map.mp hmem
          obtain ⟨distance, hdistance, -⟩ := Option.map_eq_some_iff.mp hrow.symm
          simp [hdistance]
        exact List.map_injective_iff.mpr (Option.some_injective ℤ) hsome
      rw [hids]
      exact nodup_vectorRows model _

/-- **Vectors** give no article twice. -/
theorem ranked_vectorSearch {embedding : V} {model : String} {limit days : ℕ} {hits : List Hit}
    (h : vectorSearch E C embedding model limit days = some hits) : Ranked hits := by
  obtain ⟨rows, -, hnodup, rfl⟩ := exists_rows_of_vectorSearch h
  unfold Ranked documents
  rw [List.map_map]
  exact nodup_take_sorted (f := Prod.fst) ((List.filter_sublist.map _).nodup hnodup) _ limit

/-! ## What is found -/

/-- An article that the words of a query find. -/
def FoundByWords (U : Unicode) (E : Engine V) (query : String) (days : ℕ) (language : String)
    (a : Article) : Prop :=
  E.lexicalNow - days * day ≤ a.processedAt ∧ buildTsquery U query ≠ "" ∧
    if E.postgresql then E.tsMatch (textSearchConfig U language) (buildTsquery U query) a = true
    else ∃ field ∈ searchedFields a,
      (U.lower (buildTsquery U query)).toList <:+: (U.lower (field.1.getD "")).toList

/-- An article that the vector of a text is near to. -/
def FoundByVector (E : Engine V) (C : Corpus V) (provider : Provider V) (prepared : String)
    (days : ℕ) (a : Article) : Prop :=
  E.vectorNow - days * day ≤ a.processedAt ∧ ∃ v vectors, provider.embed [prepared] = some (v :: vectors) ∧
    ∃ e ∈ C.embeddings, e.processedId = a.id ∧ e.model = provider.name ∧
      ∃ distance ≤ 1 - minimumSimilarity, E.distance e.embedding v = some distance

/-- An article that weighs something has the needle in a field. -/
theorem exists_field_of_weight {needle : String} {a : Article} (h : weightOf U needle a ≠ 0) :
    ∃ field ∈ searchedFields a, needle.toList <:+: (U.lower (field.1.getD "")).toList := by
  by_contra hnone
  refine h ?_
  have hnil : (searchedFields a).filter (fun field =>
      needle.toList <:+: (U.lower (field.1.getD "")).toList) = [] :=
    List.filter_eq_nil_iff.mpr fun field hfield hoccurs =>
      hnone ⟨field, hfield, of_decide_eq_true hoccurs⟩
  rw [weightOf, hnil]
  rfl

/-- **What words find** is in the window and matches. -/
theorem found_of_lexicalSearch {query : String} {limit days : ℕ} {language : String} {d : ℤ}
    (h : d ∈ documents (lexicalSearch U E C query limit days language)) :
    ∃ a ∈ C.articles, a.id = d ∧ FoundByWords U E query days language a := by
  unfold lexicalSearch documents at h
  dsimp only at h
  split at h
  · cases h
  rename_i hprepared
  split at h
  · rename_i hpostgresql
    unfold fullTextSearch at h
    rw [List.map_map] at h
    obtain ⟨a, ha, rfl⟩ := List.mem_map.mp h
    obtain ⟨hmem, hkept⟩ := List.mem_filter.mp (mem_of_take_sorted ha)
    simp only [Bool.and_eq_true, decide_eq_true_eq] at hkept
    exact ⟨a, hmem, rfl, hkept.1, hprepared, by rw [if_pos hpostgresql]; exact hkept.2⟩
  · rename_i hpostgresql
    obtain ⟨hit, hhit, rfl⟩ := List.mem_map.mp h
    obtain ⟨a, ha, rfl⟩ := List.mem_map.mp (mem_of_take_sorted hhit)
    obtain ⟨hnewest, hweight⟩ := List.mem_filter.mp ha
    obtain ⟨hmem, hkept⟩ := List.mem_filter.mp (mem_of_take_sorted hnewest)
    simp only [Bool.and_eq_true, decide_eq_true_eq] at hkept
    refine ⟨a, hmem, rfl, hkept.1, hprepared, ?_⟩
    rw [if_neg hpostgresql]
    exact exists_field_of_weight (of_decide_eq_true hweight)

/-- The `try` block embeds the query and looks for what is near. -/
theorem semantic_eq_some {provider : Provider V} {prepared : String} {candidates days : ℕ}
    {hits : List Hit} (h : semantic E C provider prepared candidates days = some hits) :
    ∃ v vectors, provider.embed [prepared] = some (v :: vectors) ∧
      vectorSearch E C v provider.name candidates days = some hits := by
  obtain ⟨vectors, hvectors, hrest⟩ := Option.bind_eq_some_iff.mp h
  obtain ⟨v, hv, hsearch⟩ := Option.bind_eq_some_iff.mp hrest
  obtain ⟨rest, rfl⟩ := List.head?_eq_some_iff.mp hv
  exact ⟨v, rest, hvectors, hsearch⟩

/-- **What vectors find** is in the window and near. -/
theorem found_of_semantic {provider : Provider V} {prepared : String} {candidates days : ℕ}
    {hits : List Hit} (h : semantic E C provider prepared candidates days = some hits) {d : ℤ}
    (hd : d ∈ documents hits) :
    ∃ a ∈ C.articles, a.id = d ∧ FoundByVector E C provider prepared days a := by
  obtain ⟨v, vectors, hembed, hsearch⟩ := semantic_eq_some h
  obtain ⟨rows, hrows, -, rfl⟩ := exists_rows_of_vectorSearch hsearch
  unfold documents at hd
  rw [List.map_map] at hd
  obtain ⟨row, hrow, rfl⟩ := List.mem_map.mp hd
  obtain ⟨hmem, hnear⟩ := List.mem_filter.mp (mem_of_take_sorted hrow)
  obtain ⟨e, he, hid, hdistance⟩ := hrows row hmem
  obtain ⟨hstored, hkept⟩ := List.mem_filter.mp he
  simp only [Bool.and_eq_true, decide_eq_true_eq, List.any_eq_true] at hkept
  obtain ⟨hmodel, a, ha, haid, hwindow⟩ := hkept
  exact ⟨a, ha, haid.trans hid, hwindow, v, vectors, hembed, e, hstored, haid.symm, hmodel, row.2,
    of_decide_eq_true hnear, hdistance⟩

/-- **Words find everything** that matches, unless there is more than is asked for. -/
theorem mem_lexicalSearch {query : String} {limit days : ℕ} {language : String} {a : Article}
    (hpostgresql : E.postgresql = true) (ha : a ∈ C.articles)
    (hfound : FoundByWords U E query days language a)
    (hlength : (lexicalSearch U E C query limit days language).length < limit) :
    a.id ∈ documents (lexicalSearch U E C query limit days language) := by
  obtain ⟨hwindow, hprepared, hmatch⟩ := hfound
  rw [if_pos hpostgresql] at hmatch
  unfold lexicalSearch documents fullTextSearch at *
  dsimp only at *
  rw [if_neg hprepared, if_pos hpostgresql] at *
  rw [List.length_map, List.length_take] at hlength
  rw [List.take_of_length_le (by omega), List.map_map]
  refine List.mem_map.mpr ⟨a, (List.mem_insertionSort _).mpr (List.mem_filter.mpr ⟨ha, ?_⟩), rfl⟩
  simp [hwindow, hmatch]

/-! ## The page -/

/-- The documents of a page. -/
def SearchOutcome.documents (out : SearchOutcome) : List ℤ := out.hits.map (·.processedId)

theorem documents_outcome (l v : List Hit) (mode : Mode) (limit : ℕ) :
    (outcome l v mode limit).documents = ((fuse rrfK l v).map (·.processedId)).take limit :=
  List.map_take

/-- Words alone are given in their order. -/
theorem documents_outcome_nil {l : List Hit} (hl : Ranked l) (mode : Mode) (limit : ℕ) :
    (outcome l [] mode limit).documents = (documents l).take limit := by
  rw [documents_outcome, fuse_laws_rrfK.left hl]

/-- What a search promises of its page. -/
structure Honest (U : Unicode) (E : Engine V) (C : Corpus V) (query : String) (limit days : ℕ)
    (provider : Option (Provider V)) (language : String) (out : SearchOutcome) : Prop where
  bounded : out.hits.length ≤ limit
  once : out.documents.Nodup
  sorted : out.hits.Pairwise fun a b => b.score ≤ a.score
  found : ∀ d ∈ out.documents, ∃ a ∈ C.articles, a.id = d ∧
    (FoundByWords U E query days language a ∨
      out.mode = .hybrid ∧ ∃ p ∈ provider, FoundByVector E C p (buildTsquery U query) days a)
  complete : E.postgresql = true → out.hits.length < limit → ∀ a ∈ C.articles,
    FoundByWords U E query days language a → a.id ∈ out.documents
  hybrid : out.mode = .hybrid ↔ out.vectorCount ≠ 0
  degraded : out.mode = .degraded → provider.isSome = true ∧ buildTsquery U query ≠ ""
  lexical : out.mode = .lexical → provider = none ∨ buildTsquery U query = ""
  words : out.mode ≠ .hybrid → out.documents =
    (documents (lexicalSearch U E C query (limit * candidateMultiplier) days language)).take limit

/-- A page made of the two lists keeps what is promised of every page. -/
theorem honest_outcome {query : String} {limit days : ℕ} {provider : Option (Provider V)}
    {language : String} {v : List Hit} {mode : Mode} (hprepared : buildTsquery U query ≠ "")
    (hv : Ranked v)
    (hfound : ∀ d ∈ documents v, ∃ a ∈ C.articles, a.id = d ∧
      mode = .hybrid ∧ ∃ p ∈ provider, FoundByVector E C p (buildTsquery U query) days a)
    (hhybrid : mode = .hybrid ↔ v ≠ []) (hdegraded : mode = .degraded → provider.isSome = true)
    (hlexical : mode = .lexical → provider = none) :
    Honest U E C query limit days provider language
      (outcome (lexicalSearch U E C query (limit * candidateMultiplier) days language) v mode
        limit) := by
  have hl := ranked_lexicalSearch (U := U) (E := E) (C := C) query (limit * candidateMultiplier)
    days language
  have hfound' : ∀ d ∈ documents (lexicalSearch U E C query (limit * candidateMultiplier) days
      language), ∃ a ∈ C.articles, a.id = d ∧ FoundByWords U E query days language a :=
    fun d => found_of_lexicalSearch
  have hcomplete : ∀ a ∈ C.articles, E.postgresql = true →
      FoundByWords U E query days language a →
      (lexicalSearch U E C query (limit * candidateMultiplier) days language).length <
        limit * candidateMultiplier →
      a.id ∈ documents (lexicalSearch U E C query (limit * candidateMultiplier) days language) :=
    fun a ha hpostgresql hwords => mem_lexicalSearch hpostgresql ha hwords
  generalize hlexicalSearch : lexicalSearch U E C query (limit * candidateMultiplier) days language =
    l at *
  obtain ⟨hnodup, hmem⟩ := fuse_laws_rrfK.once hl hv
  refine ⟨List.length_take_le _ _, ?_, ?_, fun d hd => ?_, fun hpostgresql hlength a ha hwords => ?_,
    ?_, fun hmode => ⟨hdegraded hmode, hprepared⟩, fun hmode => .inl (hlexical hmode), fun hmode => ?_⟩
  · rw [documents_outcome]
    exact (List.take_sublist _ _).nodup hnodup
  · exact (fuse_laws_rrfK.sorted hl hv).sublist (List.take_sublist _ _)
  · rw [documents_outcome] at hd
    rcases (hmem d).mp (List.mem_of_mem_take hd) with hd | hd
    · obtain ⟨a, ha, rfl, hwords⟩ := hfound' d hd
      exact ⟨a, ha, rfl, .inl hwords⟩
    · obtain ⟨a, ha, rfl, hvector⟩ := hfound d hd
      exact ⟨a, ha, rfl, .inr hvector⟩
  · -- a page that is not full has everything of both lists, and neither list was cut
    have hshort : ((fuse rrfK l v).map (·.processedId)).length < limit := by
      have htake : (outcome l v mode limit).hits.length = min limit (fuse rrfK l v).length :=
        List.length_take
      rw [List.length_map]
      omega
    have hsubset : (documents l).length ≤ ((fuse rrfK l v).map (·.processedId)).length :=
      (List.subperm_of_subset hl fun d hd => (hmem d).mpr (.inl hd)).length_le
    rw [documents_outcome, List.take_of_length_le hshort.le, hmem]
    refine .inl (hcomplete a ha hpostgresql hwords ?_)
    rw [documents, List.length_map] at hsubset
    unfold candidateMultiplier
    omega
  · exact hhybrid.trans List.length_eq_zero_iff.not.symm
  · obtain rfl : v = [] := by
      by_contra hne
      exact hmode (hhybrid.mpr hne)
    rw [hlexicalSearch]
    exact documents_outcome_nil hl mode limit

/-- What a search asks of its provider. -/
def Asked (U : Unicode) (query : String) (provider : Option (Provider V))
    (asked : List (List String)) : Prop :=
  asked = if provider.isSome = true ∧ buildTsquery U query ≠ "" then [[buildTsquery U query]] else []

end ProcureSignal.Search
