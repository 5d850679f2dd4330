/-
# The identity of stored articles

`_create_ingest_hash` of `retrieval/persistence.py` joins title, source and date, or a fixed word,
provider and provider id, by a delimiter that is not escaped.  Different articles have one hash when
the delimiter is part of a text.

* `SameRecord` : the articles that are one;
* `Collides` : the articles that are not, and have one hash;
* `createIngestHash_eq_iff` : there are no others;
* `neverMerges_iff` : **which pairs are told apart, and which runs drop only what was stored**;
* `piped_title` : a title with the delimiter.
-/
import ProcureSignal.Library.Delimited
import ProcureSignal.Retrieval.Reingest

namespace ProcureSignal.Retrieval

open Delimited

/-! ## Articles that are one -/

/-- The provider has an id for the article that tells it from others. -/
def FetchedArticle.stable (a : FetchedArticle) : Bool :=
  hasStableProviderId a.provider a.providerArticleId

/-- The fields of the identity have the types that are declared for them. -/
structure Typed (a : FetchedArticle) : Prop where
  title : ∃ s, a.title = .string s
  sourceName : ∃ s, a.sourceName = .string s
  providerArticleId : a.providerArticleId = .null ∨ ∃ s, a.providerArticleId = .string s

/-- The articles that are one: with the same provider and provider id, or without a stable id and
with the same title, source and date. -/
def SameRecord (a b : FetchedArticle) : Prop :=
  (a.stable = true ∧ b.stable = true ∧ a.provider = b.provider ∧
      a.providerArticleId = b.providerArticleId) ∨
    (a.stable = false ∧ b.stable = false ∧ a.title = b.title ∧ a.sourceName = b.sourceName ∧
      a.publishedAt = b.publishedAt)

/-! ## Articles that collide -/

section Collisions

variable (H : Hashing)

/-- The end of a title stands at the start of the source of another. -/
def Shifted (a b : FetchedArticle) : Prop :=
  ∃ x, H.format b.title = joined '|' (H.format a.title) x ∧
    H.format a.sourceName = joined '|' x (H.format b.sourceName)

/-- Title and source of an article are those words that stand in front of a provider id, which ends
in what is left of them and the date. -/
def Forges (a b : FetchedArticle) : Prop :=
  (H.format a.title = "provider" ∧ H.format a.sourceName = "eu_sanctions" ∧
      H.format b.providerArticleId = H.isoformat a.publishedAt) ∨
    ∃ rest, H.format b.providerArticleId = joined '|' rest (H.isoformat a.publishedAt) ∧
      (H.format a.title = "provider|eu_sanctions" ∧ H.format a.sourceName = rest ∨
        H.format a.title = "provider" ∧ H.format a.sourceName = joined '|' "eu_sanctions" rest ∨
        ∃ x, H.format a.title = joined '|' "provider|eu_sanctions" x ∧
          rest = joined '|' x (H.format a.sourceName))

/-- Different articles that have one hash. -/
def Collides (a b : FetchedArticle) : Prop :=
  (a.stable = false ∧ b.stable = false ∧ a.publishedAt = b.publishedAt ∧
      (Shifted H a b ∨ Shifted H b a)) ∨
    (a.stable = false ∧ b.stable = true ∧ Forges H a b) ∨
    (a.stable = true ∧ b.stable = false ∧ Forges H b a)

end Collisions

/-! ## Equal hashes -/

section Hashes

variable {H : Hashing} {a b : FetchedArticle}

theorem provider_of_stable (h : a.stable = true) : a.provider = "eu_sanctions" := by
  rw [FetchedArticle.stable, hasStableProviderId, Bool.and_eq_true] at h
  exact List.mem_singleton.mp (of_decide_eq_true h.2)

theorem string_of_stable (htyped : Typed a) (h : a.stable = true) :
    ∃ s, a.providerArticleId = .string s := by
  rcases htyped.providerArticleId with hnull | hstring
  · rw [FetchedArticle.stable, hasStableProviderId, hnull] at h
    exact absurd h Bool.false_ne_true
  · exact hstring

/-- The text of which the hash is taken. -/
theorem createIngestHash_of_stable (h : a.stable = true) :
    createIngestHash H a =
      H.sha256 (joined '|' "provider|eu_sanctions" (H.format a.providerArticleId)) := by
  have hunfold : createIngestHash H a = H.sha256 (if a.stable then
      "provider|" ++ a.provider ++ "|" ++ H.format a.providerArticleId
    else H.format a.title ++ "|" ++ H.format a.sourceName ++ "|" ++ H.isoformat a.publishedAt) :=
    rfl
  rw [hunfold, if_pos h, provider_of_stable h]
  have htext : "provider|" ++ "eu_sanctions" ++ "|" ++ H.format a.providerArticleId =
      joined '|' "provider|eu_sanctions" (H.format a.providerArticleId) := by
    rw [← String.toList_inj, toList_joined]
    simp
  rw [htext]

theorem createIngestHash_of_not_stable (h : a.stable = false) :
    createIngestHash H a = H.sha256 (joined '|'
      (joined '|' (H.format a.title) (H.format a.sourceName)) (H.isoformat a.publishedAt)) := by
  have hunfold : createIngestHash H a = H.sha256 (if a.stable then
      "provider|" ++ a.provider ++ "|" ++ H.format a.providerArticleId
    else H.format a.title ++ "|" ++ H.format a.sourceName ++ "|" ++ H.isoformat a.publishedAt) :=
    rfl
  rw [hunfold, if_neg (by rw [h]; exact Bool.false_ne_true)]
  rfl

/-- Title and source that are joined to the words in front of a provider id. -/
theorem joined_eq_provider_iff {title source : String} :
    joined '|' title source = "provider|eu_sanctions" ↔
      title = "provider" ∧ source = "eu_sanctions" := by
  have hwords : "provider|eu_sanctions" = joined '|' "provider" "eu_sanctions" := by decide
  rw [hwords]
  exact joined_eq_joined_iff_of_not_mem (by decide) (by decide)

/-- **When an article that is described has the hash of one with a provider id.** -/
theorem forges_iff (hsha : Function.Injective H.sha256)
    (hdelimiter : ∀ t, '|' ∉ (H.isoformat t).toList) (ha : a.stable = false)
    (hb : b.stable = true) :
    createIngestHash H a = createIngestHash H b ↔ Forges H a b := by
  rw [createIngestHash_of_not_stable ha, createIngestHash_of_stable hb, hsha.eq_iff,
    joined_eq_iff_of_not_mem (hdelimiter _), Forges]
  refine or_congr ?_ (exists_congr fun rest => ?_)
  · rw [joined_eq_provider_iff, and_assoc, eq_comm (a := H.isoformat _)]
  · rw [and_comm, joined_eq_iff]
    refine and_congr_right fun _ => or_congr_right (or_congr ?_ Iff.rfl)
    constructor
    · rintro ⟨x, hwords, hsource⟩
      obtain ⟨htitle, rfl⟩ := joined_eq_provider_iff.mp hwords.symm
      exact ⟨htitle, hsource⟩
    · rintro ⟨htitle, hsource⟩
      exact ⟨"eu_sanctions", (joined_eq_provider_iff.mpr ⟨htitle, rfl⟩).symm, hsource⟩

/-- The text of a value that is a text. -/
theorem format_inj {v w : Json} (hv : ∃ s, v = .string s) (hw : ∃ s, w = .string s) :
    H.format v = H.format w ↔ v = w := by
  obtain ⟨s, rfl⟩ := hv
  obtain ⟨t, rfl⟩ := hw
  exact ⟨fun h => congrArg Json.string h, fun h => congrArg H.format h⟩

/-- **Two articles have one hash** exactly when they are one or collide. -/
theorem createIngestHash_eq_iff (hsha : Function.Injective H.sha256)
    (hiso : Function.Injective H.isoformat) (hdelimiter : ∀ t, '|' ∉ (H.isoformat t).toList)
    (ha : Typed a) (hb : Typed b) :
    createIngestHash H a = createIngestHash H b ↔ SameRecord a b ∨ Collides H a b := by
  cases hstable : a.stable with
  | false =>
      cases hstable' : b.stable with
      | false =>
          rw [createIngestHash_of_not_stable hstable, createIngestHash_of_not_stable hstable',
            hsha.eq_iff, joined_inj_right (hdelimiter _) (hdelimiter _), hiso.eq_iff, joined_eq_iff,
            format_inj ha.title hb.title, format_inj ha.sourceName hb.sourceName, or_and_right]
          simp only [SameRecord, Collides, Shifted, hstable, hstable', and_assoc,
            Bool.false_eq_true, false_and, true_and, false_or, or_false, and_false]
          exact or_congr_right and_comm
      | true =>
          rw [forges_iff hsha hdelimiter hstable hstable']
          simp [SameRecord, Collides, hstable, hstable']
  | true =>
      cases hstable' : b.stable with
      | false =>
          rw [eq_comm, forges_iff hsha hdelimiter hstable' hstable]
          simp [SameRecord, Collides, hstable, hstable']
      | true =>
          rw [createIngestHash_of_stable hstable, createIngestHash_of_stable hstable',
            hsha.eq_iff, joined_right_inj,
            format_inj (string_of_stable ha hstable) (string_of_stable hb hstable')]
          simp [SameRecord, Collides, hstable, hstable', provider_of_stable hstable,
            provider_of_stable hstable']

/-- No two articles are one and collide. -/
theorem not_collides_of_sameRecord (h : SameRecord a b) : ¬ Collides H a b := by
  have hlonger : ∀ s x : String, s ≠ joined '|' s x := fun s x heq => by
    have hlength := congrArg (fun t => t.toList.length) heq
    simp at hlength
  rintro (⟨ha, hb, -, hshifted⟩ | ⟨ha, hb, -⟩ | ⟨ha, hb, -⟩)
  · rcases h with ⟨ha', -⟩ | ⟨-, -, htitle, -⟩
    · exact absurd (ha'.symm.trans ha) (by decide)
    · rcases hshifted with ⟨x, hx, -⟩ | ⟨x, hx, -⟩
      · exact hlonger _ x (by rw [← hx, htitle])
      · exact hlonger _ x (by rw [← hx, htitle])
  · rcases h with ⟨ha', -⟩ | ⟨-, hb', -⟩
    · exact absurd (ha'.symm.trans ha) (by decide)
    · exact absurd (hb'.symm.trans hb) (by decide)
  · rcases h with ⟨-, hb', -⟩ | ⟨ha', -⟩
    · exact absurd (hb'.symm.trans hb) (by decide)
    · exact absurd (ha'.symm.trans ha) (by decide)

end Hashes

/-! ## Saving -/

/-- The table after a sequence of calls of `save_articles`, each with its clock. -/
def afterCalls (H : Hashing) (calls : List ((ℕ → Instant) × List FetchedArticle)) : RawTable :=
  calls.foldl (fun t call => (saveArticles H call.1 0 call.2 t).1) UniqueTable.empty

/-- `save_articles` counts an article as a duplicate when its turn comes. -/
def DroppedAsDuplicate (H : Hashing) (clock : ℕ → Instant) (earlier : List FetchedArticle)
    (a : FetchedArticle) (t : RawTable) : Prop :=
  (saveArticles H clock 0 (earlier ++ [a]) t).2.duplicates =
    (saveArticles H clock 0 earlier t).2.duplicates + 1

/-- A table that only `save_articles` has written. -/
def Written (H : Hashing) (t : RawTable) : Prop :=
  ∀ row ∈ t.values, row.ingestHash = createIngestHash H row.article ∧ row.article.storable = true

section Saving

variable {H : Hashing} {clock : ℕ → Instant}

/-- What is left of a call counts on from the table as it is then. -/
theorem duplicates_append (k : ℕ) (earlier later : List FetchedArticle) (t : RawTable) :
    (saveArticles H clock k (earlier ++ later) t).2.duplicates =
      (saveArticles H clock k earlier t).2.duplicates +
        (saveArticles H clock (k + earlier.length) later
          (saveArticles H clock k earlier t).1).2.duplicates := by
  induction earlier generalizing k t with
  | nil => simp [saveArticles]
  | cons a earlier ih =>
      have hshift : k + (a :: earlier).length = k + 1 + earlier.length := by
        rw [List.length_cons]
        omega
      rw [List.cons_append, hshift]
      by_cases hstorable : a.storable = true
      · by_cases hfree : t.Free ⟨createIngestHash H a, a, clock k⟩
        · simp only [saveArticles, hstorable, hfree, if_true]
          exact ih (k + 1) _
        · simp only [saveArticles, hstorable, hfree, if_true, if_false]
          rw [ih (k + 1)]
          omega
      · simp only [saveArticles, hstorable]
        exact ih (k + 1) t

/-- An article is counted as a duplicate when the columns take it and its hash is taken. -/
theorem droppedAsDuplicate_iff {earlier : List FetchedArticle} {a : FetchedArticle} {t : RawTable} :
    DroppedAsDuplicate H clock earlier a t ↔ a.storable = true ∧
      ∃ row ∈ (saveArticles H clock 0 earlier t).1.values,
        row.ingestHash = createIngestHash H a := by
  rw [DroppedAsDuplicate, duplicates_append, Nat.add_left_cancel_iff, Nat.zero_add]
  generalize (saveArticles H clock 0 earlier t).1 = t'
  have hfree_iff := @free_iff t' ⟨createIngestHash H a, a, clock earlier.length⟩
  rw [List.mem_map] at hfree_iff
  rw [saveArticles]
  by_cases hstorable : a.storable = true
  · by_cases hfree : t'.Free ⟨createIngestHash H a, a, clock earlier.length⟩
    · simp [saveArticles, hstorable, hfree, hfree_iff.mp hfree]
    · simp [saveArticles, hstorable, hfree, not_not.mp (mt hfree_iff.mpr hfree)]
  · simp [saveArticles, hstorable]

/-- What `save_articles` writes. -/
theorem Written.saveArticles {t : RawTable} (h : Written H t) (k : ℕ)
    (articles : List FetchedArticle) :
    Written H (ProcureSignal.Retrieval.saveArticles H clock k articles t).1 := by
  induction articles generalizing k t with
  | nil => exact h
  | cons a articles ih =>
      unfold ProcureSignal.Retrieval.saveArticles
      by_cases hstorable : a.storable = true
      · have hinsert : Written H (t.insertNew ⟨createIngestHash H a, a, clock k⟩) := by
          intro row hrow
          rcases UniqueTable.mem_values_insertNew.mp hrow with hrow | ⟨rfl, -⟩
          · exact h row hrow
          · exact ⟨rfl, hstorable⟩
        simp only [hstorable, if_true]
        split_ifs
        · exact ih hinsert (k + 1)
        · exact ih hinsert (k + 1)
      · simp only [hstorable]
        exact ih h (k + 1)

theorem written_afterCalls (calls : List ((ℕ → Instant) × List FetchedArticle)) :
    Written H (afterCalls H calls) := by
  have hfold : ∀ t, Written H t →
      Written H (calls.foldl (fun t call => (saveArticles H call.1 0 call.2 t).1) t) := by
    induction calls with
    | nil => exact fun _ h => h
    | cons call calls ih => exact fun t h => ih _ (h.saveArticles 0 call.2)
  refine hfold _ fun row hrow => ?_
  simp [UniqueTable.empty, Table.empty, Table.values] at hrow

/-- The columns take what is declared. -/
theorem typed_of_storable {a : FetchedArticle} (h : a.storable = true) : Typed a := by
  have hstring : ∀ {limit : Option ℕ} {v : Json}, v.fits limit false = true →
      ∃ s, v = .string s := by
    intro limit v hv
    cases v with
    | string s => exact ⟨s, rfl⟩
    | _ => exact absurd hv Bool.false_ne_true
  have hoptional : ∀ {limit : Option ℕ} {v : Json}, v.fits limit true = true →
      v = .null ∨ ∃ s, v = .string s := by
    intro limit v hv
    cases v with
    | null => exact Or.inl rfl
    | string s => exact Or.inr ⟨s, rfl⟩
    | _ => exact absurd hv Bool.false_ne_true
  simp only [FetchedArticle.storable, Bool.and_eq_true] at h
  obtain ⟨⟨⟨⟨⟨⟨⟨⟨⟨⟨⟨⟨⟨⟨-, hid⟩, -⟩, htitle⟩, -⟩, -⟩, -⟩, -⟩, hsource⟩, -⟩, -⟩, -⟩, -⟩, -⟩, -⟩ := h
  exact ⟨hstring htitle, hstring hsource, hoptional hid⟩

/-- **When a drop is right**: the articles of a table that an article collides with decide. -/
theorem dropped_right_iff (hsha : Function.Injective H.sha256)
    (hiso : Function.Injective H.isoformat) (hdelimiter : ∀ t, '|' ∉ (H.isoformat t).toList)
    {t : RawTable} {earlier : List FetchedArticle}
    (h : Written H (saveArticles H clock 0 earlier t).1)
    {a : FetchedArticle} :
    (DroppedAsDuplicate H clock earlier a t →
      ∃ row ∈ (saveArticles H clock 0 earlier t).1.values, SameRecord row.article a) ↔
      (a.storable = true →
        ∀ row ∈ (saveArticles H clock 0 earlier t).1.values, ¬ Collides H row.article a) := by
  rw [droppedAsDuplicate_iff]
  generalize (saveArticles H clock 0 earlier t).1 = t' at h ⊢
  have hequal : a.storable = true → ∀ row ∈ t'.values, (row.ingestHash = createIngestHash H a ↔
      SameRecord row.article a ∨ Collides H row.article a) := by
    intro hstorable row hrow
    rw [(h row hrow).1]
    exact createIngestHash_eq_iff hsha hiso hdelimiter (typed_of_storable (h row hrow).2)
      (typed_of_storable hstorable)
  constructor
  · intro hright hstorable row hrow hcollides
    have hhash := (hequal hstorable row hrow).mpr (Or.inr hcollides)
    obtain ⟨row', hrow', hsame⟩ := hright ⟨hstorable, row, hrow, hhash⟩
    have hhash' := (hequal hstorable row' hrow').mpr (Or.inl hsame)
    -- the hash is taken once
    obtain ⟨r, hr, rfl⟩ := List.mem_map.mp hrow
    obtain ⟨r', hr', rfl⟩ := List.mem_map.mp hrow'
    have heq := UniqueTable.eq_of_unique (t := t') List.mem_cons_self hr hr' (congrArg some hhash)
      (congrArg some hhash')
    rw [← heq] at hsame
    exact not_collides_of_sameRecord hsame hcollides
  · rintro hnone ⟨hstorable, row, hrow, hhash⟩
    have hone := (hequal hstorable row hrow).mp hhash
    exact ⟨row, hrow, hone.resolve_right (hnone hstorable row hrow)⟩

/-- **Which articles are told apart**: all pairs but those that collide; and a run drops only what
was stored exactly when no article that it comes to collides with a stored one. -/
theorem neverMerges_iff (hsha : Function.Injective H.sha256)
    (hiso : Function.Injective H.isoformat) (hdelimiter : ∀ t, '|' ∉ (H.isoformat t).toList) :
    (∀ a b, Typed a → Typed b →
      ((createIngestHash H a = createIngestHash H b → SameRecord a b) ↔ ¬ Collides H a b)) ∧
    ∀ calls (clock : ℕ → Instant) articles,
      (∀ earlier a later, articles = earlier ++ a :: later →
        DroppedAsDuplicate H clock earlier a (afterCalls H calls) →
          ∃ row ∈ (saveArticles H clock 0 earlier (afterCalls H calls)).1.values,
            SameRecord row.article a) ↔
      ∀ earlier a later, articles = earlier ++ a :: later → a.storable = true →
        ∀ row ∈ (saveArticles H clock 0 earlier (afterCalls H calls)).1.values,
          ¬ Collides H row.article a := by
  refine ⟨fun a b ha hb => ?_, fun calls clock articles => ?_⟩
  · rw [createIngestHash_eq_iff hsha hiso hdelimiter ha hb]
    constructor
    · exact fun h hcollides => not_collides_of_sameRecord (h (Or.inr hcollides)) hcollides
    · exact fun hnot h => h.resolve_right hnot
  · have hwritten : ∀ earlier,
        Written H (saveArticles H clock 0 earlier (afterCalls H calls)).1 := fun earlier =>
      (written_afterCalls calls).saveArticles 0 earlier
    constructor
    · intro h earlier a later harticles
      exact (dropped_right_iff hsha hiso hdelimiter (hwritten earlier)).mp
        (h earlier a later harticles)
    · intro h earlier a later harticles
      exact (dropped_right_iff hsha hiso hdelimiter (hwritten earlier)).mpr
        (h earlier a later harticles)

end Saving

/-! ### Two wires -/

/-- An article of a wire service. -/
def wire (title source : String) : FetchedArticle where
  provider := "gdelt"
  providerArticleId := .null
  queryGroup := "tariff"
  title := .string title
  description := .null
  contentSnippet := .null
  articleUrl := .string "https://news.example/a"
  canonicalUrl := .null
  sourceName := .string source
  sourceUrl := none
  publishedAt := 0
  language := .string "en"
  rawPayloadJson := .null
  sourceId := none
  sourceClass := none
  sourceDomains := []
  sourceCountries := []
  registryVersion := none
  retrievedAt := none
  sourcePublishedAtRaw := none

theorem typed_wire (title source : String) : Typed (wire title source) :=
  ⟨⟨title, rfl⟩, ⟨source, rfl⟩, Or.inl rfl⟩

/-- The texts of dates have no delimiter. -/
theorem delimiter_not_mem_writtenDate (t : Instant) : '|' ∉ (plainHashing.isoformat t).toList := by
  show '|' ∉ (writtenDate t).toList
  unfold writtenDate
  split_ifs
  · decide
  · decide
  · decide
  · rw [String.toList_ofList]
    exact fun h => absurd (List.eq_of_mem_replicate h) (by decide)

theorem neverMerges_iff_wires :
    (createIngestHash plainHashing (wire "Strike" "Wire") =
        createIngestHash plainHashing (wire "Strike" "Post") →
      SameRecord (wire "Strike" "Wire") (wire "Strike" "Post")) ↔
      ¬ Collides plainHashing (wire "Strike" "Wire") (wire "Strike" "Post") :=
  (neverMerges_iff plainHashing_injective writtenDate_injective delimiter_not_mem_writtenDate).1 _ _
    (typed_wire _ _) (typed_wire _ _)

/-- **A title with the delimiter**: two articles of different titles and sources have one hash, and
the second is dropped. -/
theorem piped_title :
    createIngestHash plainHashing (wire "Strike" "Port|Wire") =
        createIngestHash plainHashing (wire "Strike|Port" "Wire") ∧
      ¬ SameRecord (wire "Strike" "Port|Wire") (wire "Strike|Port" "Wire") ∧
      DroppedAsDuplicate plainHashing (fun _ => 0) [wire "Strike" "Port|Wire"]
        (wire "Strike|Port" "Wire") UniqueTable.empty := by
  refine ⟨by decide +kernel, ?_, by unfold DroppedAsDuplicate; decide +kernel⟩
  rintro (⟨hstable, -⟩ | ⟨-, -, htitle, -⟩)
  · exact absurd hstable (by decide)
  · exact absurd (Json.string.inj htitle) (by decide)

end ProcureSignal.Retrieval
