/-
# Generating a feed

`PersonalizationPipeline` of `personalization/pipeline.py`: the queries of `generate_feed`, the
two scoring passes and the rows that are inserted.

* `Reads` is what the four queries return, each of which sees the rows committed by then.
* Articles processed at one time keep the order of their keys.
* One reading of the clock serves for the rows of a call.
-/
import ProcureSignal.Personalization.Matcher

namespace ProcureSignal.Personalization

open PreferenceMatcher (shouldIncludeArticle scoreArticle)

/-! ## Rows -/

/-- `UserNewsFeed`; the score is `rank_score` with `match_reasons`. -/
structure UserNewsFeed where
  userId : String
  processedArticleId : ℕ
  topLevelCategory : String
  score : MatchScore
  surfacedAt : Instant
  isRead : Bool
  isHidden : Bool
  deriving DecidableEq, Repr

/-- The preference of a user. -/
structure UserPreference where
  userId : String
  preference : Preference
  deriving DecidableEq, Repr

/-- `user_news_preferences`, unique in `user_id`. -/
abbrev PreferenceTable := UniqueTable UserPreference String [fun p => some p.userId]

/-- The tables that the feed is made of. -/
structure Store where
  suppliers : SupplierTable
  mentions : MentionTable
  articles : Table Article
  preferences : PreferenceTable
  feed : Table UserNewsFeed

/-! ## Queries -/

/-- The preference of a user without one: include all. -/
def Preference.default : Preference where
  preferredSuppliers := []
  excludedSuppliers := []
  preferredSupplierIds := []
  excludedSupplierIds := []
  preferredCategories := []
  preferredRegions := []
  preferredSignals := []
  excludedCategories := []
  excludedRegions := []
  excludedSignals := []
  excludedTopics := []

/-- The preference that `generate_feed` works with. -/
def Store.preferenceOf (s : Store) (userId : String) : Preference :=
  ((s.preferences.values.find? (·.userId = userId)).map (·.preference)).getD Preference.default

/-- `existing_article_ids`. -/
def Store.existingArticleIds (s : Store) (userId : String) : List ℕ :=
  (s.feed.values.filter (·.userId = userId)).map (·.processedArticleId)

/-- The articles processed since a time, newest first. -/
def Store.recentArticles (s : Store) (cutoff : Instant) : List (ℕ × Article) :=
  (s.articles.rows.filter fun a => cutoff ≤ a.2.processedAt).insertionSort
    fun a b => b.2.processedAt ≤ a.2.processedAt

/-- `_supplier_ids_by_article`: the active suppliers that the mentions of an article carry. -/
def Store.supplierIds (s : Store) (articleId : ℕ) : List String :=
  (s.mentions.values.filter (·.processedArticleId = articleId)).filterMap fun m =>
    (m.supplierId.bind s.suppliers.find?).bind fun supplier =>
      if supplier.isActive then some supplier.publicId else none

/-- What the queries return. -/
structure Reads where
  preference : Preference
  existing : List ℕ
  articles : List (ℕ × Article)
  supplierIds : ℕ → List String

/-- The queries on one state of the tables. -/
def Store.reads (s : Store) (userId : String) (cutoff : Instant) : Reads where
  preference := s.preferenceOf userId
  existing := s.existingArticleIds userId
  articles := s.recentArticles cutoff
  supplierIds := s.supplierIds

/-! ## Scoring -/

/-- `_fallback_preference`: the exclusions without the positive filters.  The new object is
given no supplier ids. -/
def fallbackPreference (preference : Preference) : Preference where
  preferredSuppliers := []
  excludedSuppliers := preference.excludedSuppliers
  preferredSupplierIds := []
  excludedSupplierIds := []
  preferredCategories := []
  preferredRegions := []
  preferredSignals := []
  excludedCategories := preference.excludedCategories
  excludedRegions := preference.excludedRegions
  excludedSignals := preference.excludedSignals
  excludedTopics := preference.excludedTopics

section Scoring

variable (U : Unicode) (O : SetOrder)

/-- An article is included and scores at least `0.3`. -/
def Ranks (preference : Preference) (articleSupplierIds : List String) (article : Article) :
    Bool :=
  shouldIncludeArticle U O article preference articleSupplierIds &&
    3 / 10 ≤ (scoreArticle U O article preference articleSupplierIds).overallScore

/-- The articles that the user's feed does not have. -/
def Reads.candidates (r : Reads) : List (ℕ × Article) :=
  r.articles.filter fun a => a.1 ∉ r.existing

/-- `_score_articles`. -/
def Reads.scoreArticles (r : Reads) (preference : Preference) :
    List ((ℕ × Article) × MatchScore) :=
  (r.candidates.filter fun a => Ranks U O preference (r.supplierIds a.1) a.2).map fun a =>
    (a, scoreArticle U O a.2 preference (r.supplierIds a.1))

/-- The scoring pass with the user's preference, or else the one with the fallback. -/
def Reads.scoredArticles (r : Reads) : List ((ℕ × Article) × MatchScore) :=
  let scored := r.scoreArticles U O r.preference
  if scored.isEmpty then r.scoreArticles U O (fallbackPreference r.preference) else scored

/-- `sort(key=…, reverse=True)`, which is stable. -/
def bestFirst {α : Type*} (score : α → ℚ) (l : List α) : List α :=
  l.insertionSort fun a b => score b ≤ score a

/-- The row for a scored article. -/
def feedEntry (userId : String) (now : Instant) (scored : (ℕ × Article) × MatchScore) :
    UserNewsFeed where
  userId := userId
  processedArticleId := scored.1.1
  topLevelCategory := scored.1.2.topLevelCategory
  score := scored.2
  surfacedAt := now
  isRead := false
  isHidden := false

/-- The rows that a call inserts. -/
def Reads.entries (r : Reads) (userId : String) (limit : ℕ) (now : Instant) :
    List UserNewsFeed :=
  ((bestFirst (·.2.overallScore) (r.scoredArticles U O)).take limit).map (feedEntry userId now)

/-- Insert rows one after the other. -/
def Store.addEntries (s : Store) (entries : List UserNewsFeed) : Store :=
  { s with feed := entries.foldl Table.insert s.feed }

/-- `generate_feed` on tables that do not change meanwhile; with the rows come the numbers of
scored and of recent articles. -/
def Store.generateFeed (s : Store) (userId : String) (limit daysBack : ℕ) (now : Instant) :
    Store × List UserNewsFeed × ℕ × ℕ :=
  let r := s.reads userId (now - days daysBack)
  let entries := r.entries U O userId limit now
  (s.addEntries entries, entries, (r.scoredArticles U O).length, r.articles.length)

end Scoring

/-! ## What the queries return -/

theorem mem_recentArticles {s : Store} {cutoff : Instant} {a : ℕ × Article} :
    a ∈ s.recentArticles cutoff ↔ a ∈ s.articles.rows ∧ cutoff ≤ a.2.processedAt := by
  rw [Store.recentArticles, List.mem_insertionSort, List.mem_filter, decide_eq_true_eq]

/-- No article is returned twice. -/
theorem nodup_recentArticles (s : Store) (cutoff : Instant) :
    ((s.recentArticles cutoff).map (·.1)).Nodup := by
  have hperm : ((s.recentArticles cutoff).map (·.1)).Perm
      ((s.articles.rows.filter fun a => cutoff ≤ a.2.processedAt).map (·.1)) :=
    (List.perm_insertionSort _ _).map _
  rw [hperm.nodup_iff]
  exact s.articles.nodup_keys.sublist (List.filter_sublist.map _)

/-! ## What a call inserts -/

section Entries

variable {U : Unicode} {O : SetOrder} {r : Reads} {preference : Preference} {userId : String}
  {limit : ℕ} {now : Instant} {entry : UserNewsFeed}

theorem perm_bestFirst {α : Type*} (score : α → ℚ) (l : List α) : (bestFirst score l).Perm l :=
  List.perm_insertionSort _ _

theorem mem_bestFirst {α : Type*} {score : α → ℚ} {l : List α} {a : α} :
    a ∈ bestFirst score l ↔ a ∈ l := (perm_bestFirst score l).mem_iff

/-- Ranking commutes with a map. -/
theorem bestFirst_map {α β : Type*} (score : β → ℚ) (f : α → β) (l : List α) :
    bestFirst score (l.map f) = (bestFirst (fun a => score (f a)) l).map f :=
  (List.map_insertionSort _ _ f l fun _ _ _ _ => Iff.rfl).symm

theorem mem_scoreArticles {x : (ℕ × Article) × MatchScore} :
    x ∈ r.scoreArticles U O preference ↔
      x.1 ∈ r.candidates ∧ Ranks U O preference (r.supplierIds x.1.1) x.1.2 = true ∧
        x.2 = scoreArticle U O x.1.2 preference (r.supplierIds x.1.1) := by
  rw [Reads.scoreArticles, List.mem_map]
  constructor
  · rintro ⟨a, ha, rfl⟩
    obtain ⟨hcandidate, hranks⟩ := List.mem_filter.mp ha
    exact ⟨hcandidate, hranks, rfl⟩
  · rintro ⟨hcandidate, hranks, hscore⟩
    exact ⟨x.1, List.mem_filter.mpr ⟨hcandidate, hranks⟩, Prod.ext rfl hscore.symm⟩

/-- No article ranks with the user's preference. -/
theorem scoreArticles_isEmpty :
    (r.scoreArticles U O preference).isEmpty = true ↔
      ∀ a ∈ r.candidates, Ranks U O preference (r.supplierIds a.1) a.2 = false := by
  rw [List.isEmpty_iff, Reads.scoreArticles, List.map_eq_nil_iff, List.filter_eq_nil_iff]
  simp

/-- The pass that the scored articles come from. -/
theorem scoredArticles_eq :
    r.scoredArticles U O = r.scoreArticles U O r.preference ∧
        (∃ a ∈ r.candidates, Ranks U O r.preference (r.supplierIds a.1) a.2 = true) ∨
      r.scoredArticles U O = r.scoreArticles U O (fallbackPreference r.preference) ∧
        ∀ a ∈ r.candidates, Ranks U O r.preference (r.supplierIds a.1) a.2 = false := by
  rw [Reads.scoredArticles]
  split
  · rename_i hempty
    exact Or.inr ⟨rfl, scoreArticles_isEmpty.mp hempty⟩
  · rename_i hempty
    refine Or.inl ⟨rfl, ?_⟩
    by_contra hnone
    push Not at hnone
    exact hempty (scoreArticles_isEmpty.mpr fun a ha => by simpa using hnone a ha)

/-- A new row is for a candidate. -/
theorem exists_of_mem_entries (h : entry ∈ r.entries U O userId limit now) :
    ∃ x ∈ r.scoredArticles U O, x.1 ∈ r.candidates ∧ entry = feedEntry userId now x := by
  obtain ⟨x, hx, rfl⟩ := List.mem_map.mp h
  have hscored : x ∈ r.scoredArticles U O := mem_bestFirst.mp (List.mem_of_mem_take hx)
  refine ⟨x, hscored, ?_, rfl⟩
  rcases scoredArticles_eq (U := U) (O := O) (r := r) with ⟨heq, -⟩ | ⟨heq, -⟩ <;>
  · rw [heq] at hscored
    exact (mem_scoreArticles.mp hscored).1

/-- The preference of the pass that the scored articles come from. -/
def Reads.passPreference (U : Unicode) (O : SetOrder) (r : Reads) : Preference :=
  if ∃ a ∈ r.candidates, Ranks U O r.preference (r.supplierIds a.1) a.2 = true then r.preference
  else fallbackPreference r.preference

/-- The candidates that the pass takes, best first. -/
def Reads.ranking (U : Unicode) (O : SetOrder) (r : Reads) : List (ℕ × Article) :=
  bestFirst
    (fun a => (scoreArticle U O a.2 (r.passPreference U O) (r.supplierIds a.1)).overallScore)
    (r.candidates.filter fun a => Ranks U O (r.passPreference U O) (r.supplierIds a.1) a.2)

/-- **The rows of a call** are for the first articles of the ranking. -/
theorem entries_eq_map : r.entries U O userId limit now =
    ((r.ranking U O).take limit).map fun a => feedEntry userId now
      (a, scoreArticle U O a.2 (r.passPreference U O) (r.supplierIds a.1)) := by
  have hscored : r.scoredArticles U O = r.scoreArticles U O (r.passPreference U O) := by
    rw [Reads.passPreference]
    rcases scoredArticles_eq (U := U) (O := O) (r := r) with ⟨heq, hranks⟩ | ⟨heq, hnone⟩
    · rw [if_pos hranks, heq]
    · rw [if_neg, heq]
      rintro ⟨a, ha, hranks⟩
      exact absurd hranks (by rw [hnone a ha]; exact Bool.false_ne_true)
  rw [Reads.entries, hscored, Reads.scoreArticles, bestFirst_map, ← List.map_take, List.map_map]
  rfl

/-- The ranking is made of candidates. -/
theorem mem_candidates_of_mem_ranking {a : ℕ × Article}
    (h : a ∈ (r.ranking U O).take limit) : a ∈ r.candidates :=
  (List.mem_filter.mp (mem_bestFirst.mp (List.mem_of_mem_take h))).1

/-- A call inserts no article twice. -/
theorem nodup_entries (hr : (r.articles.map (·.1)).Nodup) :
    ((r.entries U O userId limit now).map (·.processedArticleId)).Nodup := by
  have hpass : ∀ preference, ((r.scoreArticles U O preference).map (·.1.1)).Nodup := by
    intro preference
    rw [Reads.scoreArticles, List.map_map]
    exact hr.sublist ((List.filter_sublist.trans List.filter_sublist).map _)
  have hscored : ((r.scoredArticles U O).map (·.1.1)).Nodup := by
    rcases scoredArticles_eq (U := U) (O := O) (r := r) with ⟨heq, -⟩ | ⟨heq, -⟩ <;>
      exact heq ▸ hpass _
  rw [Reads.entries, List.map_map]
  have hsorted : ((bestFirst (·.2.overallScore) (r.scoredArticles U O)).map (·.1.1)).Nodup := by
    rw [((perm_bestFirst _ _).map _).nodup_iff]
    exact hscored
  exact hsorted.sublist ((List.take_sublist _ _).map _)

end Entries

end ProcureSignal.Personalization
