/-
# Excluded articles in a feed

Does `generate_feed` insert a row for an article that the user has excluded?  The pass with
the user's preference filters by every exclusion.  The pass with the fallback preference, which
runs when no article ranks in the first, has lost the excluded supplier ids.

* `ranks_fallback` : the fallback takes every article that no other exclusion rejects;
* `exclusions_respected_iff` : when the rows of a call respect the exclusions;
* `fallback_forgets_supplier` : a feed with an excluded supplier.
-/
import ProcureSignal.Personalization.Pipeline

namespace ProcureSignal.Personalization

open PreferenceMatcher

variable {U : Unicode} {O : SetOrder}

/-! ## The fallback preference -/

theorem meet_eq_true {xs ys : List String} : meet xs ys = true ↔ ∃ x ∈ xs, x ∈ ys := by
  simp [meet]

theorem meet_eq_false {xs ys : List String} : meet xs ys = false ↔ ∀ x ∈ xs, x ∉ ys := by
  simp [meet]

@[simp] theorem meet_nil (xs : List String) : meet xs [] = false := by simp [meet]

/-- Of the exclusions the fallback keeps all but the supplier ids. -/
theorem hasExcludedMatch_fallback (article : Article) (preference : Preference)
    (ids : List String) :
    hasExcludedMatch U O article (fallbackPreference preference) ids =
      hasExcludedTerm U O article preference := by
  have hids : excludedSupplierIds U (fallbackPreference preference) = [] := rfl
  rw [hasExcludedMatch, hids, meet_nil, Bool.false_or]
  rfl

theorem shouldIncludeArticle_fallback (article : Article) (preference : Preference)
    (ids : List String) :
    shouldIncludeArticle U O article (fallbackPreference preference) ids =
      !hasExcludedTerm U O article preference := by
  have hcategories : preferredCategories U (fallbackPreference preference) = [] := rfl
  have hsuppliers : preferredSuppliers U (fallbackPreference preference) = [] := rfl
  have hregions : preferredRegions U (fallbackPreference preference) = [] := rfl
  have hsignals : preferredSignals U (fallbackPreference preference) = [] :=
    Signals.expandSignalTerms_nil U
  rw [shouldIncludeArticle, hasExcludedMatch_fallback, hcategories, hsuppliers, hregions,
    hsignals]
  cases hasExcludedTerm U O article preference <;> simp

/-- A preference that excludes suppliers by name only. -/
theorem hasExcludedTerm_of_names {article : Article} {preference : Preference}
    (hcategories : preference.excludedCategories = []) (htopics : preference.excludedTopics = [])
    (hregions : preference.excludedRegions = []) (hsignals : preference.excludedSignals = []) :
    hasExcludedTerm U O article preference =
      meet (articleSuppliers U article) (normalized U preference.excludedSuppliers) := by
  have hcategory : excludedCategories U preference = [] := by
    rw [excludedCategories, if_pos hcategories, htopics]
    rfl
  have hsignal : signalMatchesArticle U O article [] = false := by
    rw [signalMatchesArticle, Signals.expandSignalTerms_nil]
    rfl
  have hregion : regionTokens U (normalized U []) = [] := rfl
  rw [hasExcludedTerm, excludedSignals, hsignals, Signals.expandSignalTerms_nil, hcategory,
    hregions, hregion, hsignal, meet_nil, meet_nil]
  simp

/-! ## Scores of the fallback -/

/-- The category of an article that is not excluded is neutral. -/
theorem calculateCategoryMatch_fallback {article : Article} {preference : Preference}
    (h : hasExcludedTerm U O article preference = false) :
    calculateCategoryMatch U article.topLevelCategory (fallbackPreference preference) = 1 / 2 := by
  have hmeet : meet (articleCategories U article) (excludedCategories U preference) = false := by
    simp only [hasExcludedTerm, Bool.or_eq_false_iff] at h
    exact h.1.1.1
  have hnot : canonicalCategory U article.topLevelCategory ∉ excludedCategories U preference := by
    intro hmem
    have hne := (mem_canonicalCategoryList.mp hmem).1
    have harticle : canonicalCategory U article.topLevelCategory ∈ articleCategories U article :=
      mem_canonicalCategoryList.mpr ⟨hne, _, List.mem_cons_self, rfl⟩
    exact meet_eq_false.mp hmeet _ harticle hmem
  have hpreferred : preferredCategories U (fallbackPreference preference) = [] := rfl
  rw [calculateCategoryMatch, if_neg, if_pos hpreferred]
  exact hnot

/-- So are its suppliers. -/
theorem calculateSupplierMatch_fallback {article : Article} {preference : Preference}
    (h : hasExcludedTerm U O article preference = false) (ids : List String) :
    calculateSupplierMatch U (article.detectedSuppliers.getD [] ++
      supplierTextMatches U article (preferredSuppliers U (fallbackPreference preference)))
      (fallbackPreference preference) ids = 1 / 2 := by
  have hmeet : meet (articleSuppliers U article) (normalized U preference.excludedSuppliers) =
      false := by
    simp only [hasExcludedTerm, Bool.or_eq_false_iff] at h
    exact h.1.1.2
  have hids : excludedSupplierIds U (fallbackPreference preference) = [] := rfl
  have hpreferred : preferredSuppliers U (fallbackPreference preference) = [] := rfl
  have htokens : supplierTextMatches U article [] = [] := rfl
  rw [calculateSupplierMatch, hids, meet_nil, hpreferred, htokens, List.append_nil]
  have hnames : meet (normalized U (article.detectedSuppliers.getD []))
      (normalized U (fallbackPreference preference).excludedSuppliers) = false := hmeet
  rw [hnames]
  simp

theorem scoreOfMatches_nonneg (n : ℕ) : 0 ≤ scoreOfMatches n := by
  unfold scoreOfMatches
  split
  · exact le_min zero_le_one (by positivity)
  · norm_num

theorem calculateRegionMatch_nonneg (regions : List String) (preference : Preference) :
    0 ≤ calculateRegionMatch U regions preference := by
  unfold calculateRegionMatch
  split
  · exact le_rfl
  · split
    · norm_num
    · exact scoreOfMatches_nonneg _

theorem calculateSignalMatch_nonneg (signalTags : List String) (prioritySignal : Option String)
    (preference : Preference) (context : String) :
    0 ≤ calculateSignalMatch U signalTags prioritySignal preference context := by
  simp only [calculateSignalMatch]
  split
  · exact le_rfl
  · split
    · norm_num
    · split
      · exact zero_le_one
      · exact scoreOfMatches_nonneg _

/-- **The fallback takes every article** that the exclusions by category, supplier name, region
and signal let through: its category and its suppliers alone score `0.3`. -/
theorem ranks_fallback (preference : Preference) (ids : List String) (article : Article) :
    Ranks U O (fallbackPreference preference) ids article =
      !hasExcludedTerm U O article preference := by
  rw [Ranks, shouldIncludeArticle_fallback]
  cases h : hasExcludedTerm U O article preference with
  | true => rfl
  | false =>
      have hscore : 3 / 10 ≤
          (scoreArticle U O article (fallbackPreference preference) ids).overallScore := by
        simp only [scoreArticle]
        rw [calculateCategoryMatch_fallback h, calculateSupplierMatch_fallback h]
        have hregion := calculateRegionMatch_nonneg (U := U) (articleRegionsForMatching U article)
          (fallbackPreference preference)
        have hsignal := calculateSignalMatch_nonneg (U := U) (article.signalTags.getD [])
          article.prioritySignal (fallbackPreference preference)
          (articleSignalContext U O article)
        linarith
      simp [hscore]

/-! ## The rows of a call -/

/-- The candidates that the fallback takes, best first. -/
def Reads.fallbackRanking (U : Unicode) (O : SetOrder) (r : Reads) : List (ℕ × Article) :=
  bestFirst
    (fun a => (scoreArticle U O a.2 (fallbackPreference r.preference)
      (r.supplierIds a.1)).overallScore)
    (r.candidates.filter fun a => !hasExcludedTerm U O a.2 r.preference)

variable {r : Reads} {userId : String} {limit : ℕ} {now : Instant}

/-- An article that ranks with the user's own preference is not excluded. -/
theorem hasExcludedMatch_of_ranks {preference : Preference} {ids : List String}
    {article : Article} (h : Ranks U O preference ids article = true) :
    hasExcludedMatch U O article preference ids = false := by
  rw [Ranks, Bool.and_eq_true, shouldIncludeArticle] at h
  by_contra hexcluded
  rw [Bool.not_eq_false] at hexcluded
  rw [hexcluded] at h
  simp at h

/-- What the fallback inserts: the first articles of its ranking. -/
theorem ranking_of_fallback
    (h : ∀ a ∈ r.candidates, Ranks U O r.preference (r.supplierIds a.1) a.2 = false) :
    r.passPreference U O = fallbackPreference r.preference ∧
      r.ranking U O = r.fallbackRanking U O := by
  have hpass : r.passPreference U O = fallbackPreference r.preference := by
    apply if_neg
    rintro ⟨a, ha, hranks⟩
    exact absurd hranks (by rw [h a ha]; exact Bool.false_ne_true)
  refine ⟨hpass, ?_⟩
  have hfilter : (r.candidates.filter fun a =>
      Ranks U O (fallbackPreference r.preference) (r.supplierIds a.1) a.2) =
      r.candidates.filter fun a => !hasExcludedTerm U O a.2 r.preference := by
    apply List.filter_congr
    intro a _
    exact ranks_fallback r.preference (r.supplierIds a.1) a.2
  rw [Reads.ranking, hpass, hfilter]
  rfl

/-- **When the articles of a call are not excluded.** -/
theorem ranking_respects_iff :
    (∀ a ∈ (r.ranking U O).take limit,
      hasExcludedMatch U O a.2 r.preference (r.supplierIds a.1) = false) ↔
      (∃ a ∈ r.candidates, Ranks U O r.preference (r.supplierIds a.1) a.2 = true) ∨
        ∀ a ∈ (r.fallbackRanking U O).take limit,
          meet (r.supplierIds a.1) (excludedSupplierIds U r.preference) = false := by
  by_cases hranks : ∃ a ∈ r.candidates, Ranks U O r.preference (r.supplierIds a.1) a.2 = true
  · refine iff_of_true (fun a ha => ?_) (Or.inl hranks)
    have hmem := List.mem_filter.mp (mem_bestFirst.mp (List.mem_of_mem_take ha))
    rw [Reads.passPreference, if_pos hranks] at hmem
    exact hasExcludedMatch_of_ranks hmem.2
  · have hnone : ∀ a ∈ r.candidates, Ranks U O r.preference (r.supplierIds a.1) a.2 = false := by
      intro a ha
      rw [← Bool.not_eq_true]
      exact fun htrue => hranks ⟨a, ha, htrue⟩
    rw [or_iff_right hranks, (ranking_of_fallback hnone).2]
    refine forall_congr' fun a => forall_congr' fun ha => ?_
    have hterm := (List.mem_filter.mp (mem_bestFirst.mp (List.mem_of_mem_take ha))).2
    rw [Bool.not_eq_true'] at hterm
    rw [hasExcludedMatch, hterm, Bool.or_false]

/-- **When the rows of a call are for articles that are not excluded.** -/
theorem entries_respect_iff (hr : (r.articles.map (·.1)).Nodup) :
    (∀ entry ∈ r.entries U O userId limit now, ∀ article,
      (entry.processedArticleId, article) ∈ r.articles →
        hasExcludedMatch U O article r.preference (r.supplierIds entry.processedArticleId) =
          false) ↔
      (∃ a ∈ r.candidates, Ranks U O r.preference (r.supplierIds a.1) a.2 = true) ∨
        ∀ a ∈ (r.fallbackRanking U O).take limit,
          meet (r.supplierIds a.1) (excludedSupplierIds U r.preference) = false := by
  rw [← ranking_respects_iff, entries_eq_map, List.forall_mem_map]
  refine forall_congr' fun a => forall_congr' fun ha => ?_
  have hmem : a ∈ r.articles := (List.mem_filter.mp (mem_candidates_of_mem_ranking ha)).1
  constructor
  · exact fun h => h a.2 hmem
  · intro h article harticle
    obtain rfl := (Prod.mk.inj (List.inj_on_of_nodup_map hr harticle hmem rfl)).2
    exact h

/-- **When a call respects the exclusions.**  No row that `generate_feed` inserts is for an
article that `has_excluded_match` rejects exactly when some candidate ranks with the user's own
preference, or none of the first articles of the fallback's ranking is resolved to an excluded
supplier. -/
theorem exclusions_respected_iff (s : Store) (userId : String) (limit daysBack : ℕ)
    (now : Instant) :
    (∀ row ∈ (s.generateFeed U O userId limit daysBack now).1.feed.rows, row ∉ s.feed.rows →
      ∀ article, s.articles.find? row.2.processedArticleId = some article →
        hasExcludedMatch U O article (s.preferenceOf userId)
          (s.supplierIds row.2.processedArticleId) = false) ↔
      (∃ a ∈ (s.reads userId (now - days daysBack)).candidates,
        Ranks U O (s.preferenceOf userId) (s.supplierIds a.1) a.2 = true) ∨
      ∀ a ∈ ((s.reads userId (now - days daysBack)).fallbackRanking U O).take limit,
        meet (s.supplierIds a.1) (excludedSupplierIds U (s.preferenceOf userId)) = false := by
  set r := s.reads userId (now - days daysBack) with hr
  refine Iff.trans (b := ∀ entry ∈ r.entries U O userId limit now, ∀ article,
    (entry.processedArticleId, article) ∈ r.articles →
      hasExcludedMatch U O article r.preference (r.supplierIds entry.processedArticleId) = false)
    ?_ (entries_respect_iff (nodup_recentArticles s (now - days daysBack)))
  constructor
  · intro h entry hentry article harticle
    obtain ⟨i, hi, hnew⟩ := Table.exists_row_foldl_insert (t := s.feed) hentry
    have hfind := Table.find?_eq_some_iff.mpr (mem_recentArticles.mp harticle).1
    exact h _ hi hnew article hfind
  · intro h row hrow hnew article hfind
    have hentry : row.2 ∈ r.entries U O userId limit now :=
      (Table.mem_rows_foldl_insert hrow).resolve_left hnew
    obtain ⟨x, -, hcandidate, hx⟩ := exists_of_mem_entries hentry
    have hid : row.2.processedArticleId = x.1.1 := by rw [hx]; rfl
    have hx₁ : x.1 ∈ r.articles := (List.mem_filter.mp hcandidate).1
    have harticle : article = x.1.2 := by
      have hfind' := Table.find?_eq_some_iff.mpr (mem_recentArticles.mp hx₁).1
      exact Option.some.inj (hfind.symm.trans (hid ▸ hfind'))
    refine h row.2 hentry article ?_
    rw [harticle, hid]
    exact hx₁

/-! ## A user without a preference -/

/-- Who excludes nothing and prefers nothing gets every article. -/
theorem ranks_default (ids : List String) (article : Article) :
    Ranks U O Preference.default ids article = true := by
  have hterm : hasExcludedTerm U O article Preference.default = false :=
    (hasExcludedTerm_of_names rfl rfl rfl rfl).trans (meet_nil _)
  have hfallback : fallbackPreference Preference.default = Preference.default := rfl
  rw [← hfallback, ranks_fallback, hterm]
  rfl

/-- The row of the only candidate. -/
theorem entries_of_default (hpreference : r.preference = Preference.default)
    {a : ℕ × Article} (hcandidates : r.candidates = [a]) (hlimit : 0 < limit) :
    ∃ score, r.entries U O userId limit now = [feedEntry userId now (a, score)] := by
  have hscored : r.scoreArticles U O r.preference =
      [(a, scoreArticle U O a.2 r.preference (r.supplierIds a.1))] := by
    rw [Reads.scoreArticles, hcandidates, List.filter_cons_of_pos]
    · rfl
    · rw [hpreference]
      exact ranks_default _ _
  have hall : r.scoredArticles U O = r.scoreArticles U O r.preference := by
    rw [Reads.scoredArticles, hscored]
    rfl
  obtain ⟨n, rfl⟩ : ∃ n, limit = n + 1 := ⟨limit - 1, by omega⟩
  refine ⟨scoreArticle U O a.2 r.preference (r.supplierIds a.1), ?_⟩
  rw [Reads.entries, hall, hscored, bestFirst, List.insertionSort_cons, List.insertionSort_nil,
    List.orderedInsert_nil, List.take_succ_cons, List.take_nil]
  rfl

/-! ## A feed with an excluded supplier -/

/-- An article about Siemens AG. -/
def siemensArticle : Article :=
  ⟨"Fire", "", "logistics", none, none, none, some ["Siemens AG"], none, 0⟩

/-- The preference of a user who excludes Siemens, a supplier of the registry. -/
def withoutSiemens : Preference :=
  { Preference.default with
    preferredCategories := ["manufacturing"]
    excludedSuppliers := ["Siemens"]
    excludedSupplierIds := ["sup-1"] }

/-- The article was resolved to the supplier. -/
def siemensStore : Store where
  suppliers := UniqueTable.empty.insertNew ⟨"sup-1", "Siemens", "siemens", none, none, true⟩
  mentions := UniqueTable.empty.insertNew ⟨1, some 1, "Siemens AG", 1⟩
  articles := Table.empty.insert siemensArticle
  preferences := UniqueTable.empty.insertNew ⟨"u-1", withoutSiemens⟩
  feed := Table.empty

/-- Only the supplier id excludes the article. -/
theorem hasExcludedTerm_siemens :
    hasExcludedTerm .ascii .listed siemensArticle withoutSiemens = false := by
  rw [hasExcludedTerm_of_names rfl rfl rfl rfl]
  decide +kernel

theorem hasExcludedMatch_siemens :
    hasExcludedMatch .ascii .listed siemensArticle withoutSiemens ["sup-1"] = true := by
  have hids : meet ["sup-1"] (excludedSupplierIds .ascii withoutSiemens) = true := by
    decide +kernel
  rw [hasExcludedMatch, hids, Bool.true_or]

/-- The article is rejected, and the feed has it. -/
theorem fallback_forgets_supplier :
    ∃ row ∈ (siemensStore.generateFeed .ascii .listed "u-1" 50 7 0).1.feed.rows,
      row ∉ siemensStore.feed.rows ∧
      ∃ article, siemensStore.articles.find? row.2.processedArticleId = some article ∧
        hasExcludedMatch .ascii .listed article (siemensStore.preferenceOf "u-1")
          (siemensStore.supplierIds row.2.processedArticleId) = true := by
  set r := siemensStore.reads "u-1" (0 - days (7 : ℕ)) with hr
  have hpreference : r.preference = withoutSiemens := by decide +kernel
  have hcandidates : r.candidates = [(1, siemensArticle)] := by decide +kernel
  have hids : siemensStore.supplierIds 1 = ["sup-1"] := by decide +kernel
  have hnone : ∀ a ∈ r.candidates, Ranks .ascii .listed r.preference (r.supplierIds a.1) a.2 =
      false := by
    intro a ha
    rw [hcandidates, List.mem_singleton] at ha
    subst ha
    have hrejected : hasExcludedMatch .ascii .listed siemensArticle r.preference
        (r.supplierIds 1) = true := by
      rw [hpreference]
      show hasExcludedMatch _ _ _ _ (siemensStore.supplierIds 1) = true
      rw [hids]
      exact hasExcludedMatch_siemens
    rw [Ranks, shouldIncludeArticle, if_pos hrejected, Bool.false_and]
  have hranking : r.fallbackRanking .ascii .listed = [(1, siemensArticle)] := by
    rw [Reads.fallbackRanking, hcandidates, hpreference, List.filter_cons_of_pos]
    · rfl
    · show (!hasExcludedTerm .ascii .listed siemensArticle withoutSiemens) = true
      rw [hasExcludedTerm_siemens]
      rfl
  obtain ⟨entry, hentry, hid⟩ : ∃ entry ∈ r.entries .ascii .listed "u-1" 50 0,
      entry.processedArticleId = 1 := by
    rw [entries_eq_map, (ranking_of_fallback hnone).2, hranking]
    exact ⟨_, List.mem_map_of_mem List.mem_cons_self, rfl⟩
  obtain ⟨i, hi, hnew⟩ := Table.exists_row_foldl_insert (t := siemensStore.feed) hentry
  have hfind : siemensStore.articles.find? 1 = some siemensArticle := rfl
  refine ⟨(i, entry), hi, hnew, siemensArticle, ?_, ?_⟩
  · rw [hid, hfind]
  · have hstored : siemensStore.preferenceOf "u-1" = withoutSiemens := hpreference
    rw [hid, hids, hstored]
    exact hasExcludedMatch_siemens

end ProcureSignal.Personalization
