/-
# Feeds and the exclusions in force

Preferences and the suppliers of articles change while feeds are generated.  Is a row of a feed
ever for an article that the user's present preference rejects?

* `respected_iff` : in which runs every committed state is free of such rows;
* `late_generation` : a call that read the preference before an update and inserts after it.
-/
import ProcureSignal.Personalization.Uniqueness

namespace ProcureSignal.Personalization

open PreferenceMatcher

variable {U : Unicode} {O : SetOrder} {config : ℕ → Request} {s t : State} {store : Store}
  {tr : List (State × Label)}

/-- The article of a row is rejected by the preference that the user has. -/
def Store.Rejects (U : Unicode) (O : SetOrder) (s : Store) (row : UserNewsFeed) : Prop :=
  ∃ article, s.articles.find? row.processedArticleId = some article ∧
    hasExcludedMatch U O article (s.preferenceOf row.userId)
      (s.supplierIds row.processedArticleId) = true

/-- No visible row is rejected. -/
def Respected (U : Unicode) (O : SetOrder) (s : State) : Prop :=
  ∀ row ∈ s.store.feed.values, row.isHidden = false → ¬ s.store.Rejects U O row

/-- The supplier ids alone reject the article of a visible row. -/
def Store.RejectsSupplier (U : Unicode) (s : Store) (row : UserNewsFeed) : Prop :=
  (s.articles.find? row.processedArticleId).isSome = true ∧
    meet (s.supplierIds row.processedArticleId)
      (excludedSupplierIds U (s.preferenceOf row.userId)) = true

/-- What keeps the feeds free of rejected rows: at an insertion the present preference rejects
none of the first articles of the ranking that the call has made of its reads; a preference that
is put in force rejects no row that the update does not delete; new supplier ids are excluded
for no visible row. -/
def KeepsExclusions (U : Unicode) (O : SetOrder) (config : ℕ → Request) (s : State) :
    Label → Prop
  | .insertEntries i _ => ∀ reads, s.calls i = .ready reads →
      ∀ a ∈ (reads.ranking U O).take (config i).limit,
        ∀ article, s.store.articles.find? a.1 = some article →
          hasExcludedMatch U O article (s.store.preferenceOf (config i).userId)
            (s.store.supplierIds a.1) = false
  | .commitUpdate j => ∀ update ∈ s.updates j, ∀ row ∈ s.store.feed.rows,
      row.1 ∉ update.deleted → row.2.userId = update.userId → row.2.isHidden = false →
        ∀ article, s.store.articles.find? row.2.processedArticleId = some article →
          hasExcludedMatch U O article update.preference
            (s.store.supplierIds row.2.processedArticleId) = false
  | .backfillPreferences ids => ∀ row ∈ s.store.feed.values, row.isHidden = false →
      ¬ Store.RejectsSupplier U
        { s.store with preferences := s.store.preferences.writeIds ids } row
  | .changeIdentity suppliers mentions => ∀ row ∈ s.store.feed.values, row.isHidden = false →
      ¬ Store.RejectsSupplier U
        { s.store with suppliers := suppliers, mentions := mentions } row
  | _ => True

/-! ## Preferences after a write -/

/-- The user of a row stays the same under `g`. -/
theorem find?_map_userId {g : UserPreference → UserPreference}
    (hg : ∀ p, (g p).userId = p.userId) (l : List UserPreference) (userId : String) :
    (l.map g).find? (·.userId = userId) = (l.find? (·.userId = userId)).map g := by
  rw [List.find?_map]
  congr 2
  funext p
  rw [Function.comp_apply, hg]

/-- The preference in force after an update is the one it wrote, for its user. -/
theorem preferenceOf_put (s : Store) (userId userId' : String) (preference : Preference) :
    Store.preferenceOf { s with preferences := s.preferences.put userId preference } userId' =
      if userId' = userId then preference else s.preferenceOf userId' := by
  set g : UserPreference → UserPreference :=
    fun p => if p.userId = userId then { p with preference := preference } else p with hg
  have hkeep : ∀ p, (g p).userId = p.userId := by
    intro p
    show (if p.userId = userId then _ else p : UserPreference).userId = _
    split <;> rfl
  have hfind := find?_map_userId hkeep s.preferences.values userId'
  have hrow : ∀ p, s.preferences.values.find? (·.userId = userId') = some p →
      (g p).preference = if userId' = userId then preference else p.preference := by
    intro p hp
    have huser : p.userId = userId' := by simpa using List.find?_some hp
    show (if p.userId = userId then _ else p : UserPreference).preference = _
    rw [huser]
    split <;> rfl
  have hvalues : (s.preferences.put userId preference).values = s.preferences.values.map g ++
      if userId ∈ s.preferences.values.map (·.userId) then [] else [⟨userId, preference⟩] := by
    have hids : (s.preferences.values.map g).map (·.userId) =
        s.preferences.values.map (·.userId) := by
      rw [List.map_map]
      exact List.map_congr_left fun p _ => hkeep p
    have hfree : ∀ t : PreferenceTable, t.Free ⟨userId, preference⟩ ↔
        userId ∉ t.values.map (·.userId) := by
      intro t
      simp [UniqueTable.Free, List.mem_filterMap]
    rw [PreferenceTable.put, UniqueTable.insertNew]
    split
    · rename_i hnew
      rw [hfree, UniqueTable.toTable_modify, Table.values_modify, hids] at hnew
      rw [UniqueTable.toTable_insertFree, Table.values_insert, UniqueTable.toTable_modify,
        Table.values_modify, if_neg hnew]
    · rename_i hold
      rw [hfree, UniqueTable.toTable_modify, Table.values_modify, hids, not_not] at hold
      rw [UniqueTable.toTable_modify, Table.values_modify, if_pos hold, List.append_nil]
  rw [Store.preferenceOf, hvalues, List.find?_append, hfind, Store.preferenceOf]
  cases hp : s.preferences.values.find? (·.userId = userId') with
  | some p => exact hrow p hp
  | none =>
      have hnot : userId' ∉ s.preferences.values.map (·.userId) := by
        intro hmem
        obtain ⟨p, hpmem, huser⟩ := List.mem_map.mp hmem
        exact List.find?_eq_none.mp hp p hpmem (by simpa using huser)
      by_cases huser : userId' = userId
      · rw [if_pos huser, if_neg (huser ▸ hnot), huser]
        simp
      · have hnone : (if userId ∈ s.preferences.values.map (·.userId) then []
            else [(⟨userId, preference⟩ : UserPreference)]).find? (·.userId = userId') = none := by
          split
          · rfl
          · simpa using fun h : userId = userId' => huser h.symm
        rw [if_neg huser, hnone]
        rfl

/-- A preference with the supplier ids of the list, where it has some for the user. -/
def withIds (ids : List (String × List String × List String)) (p : UserPreference) :
    UserPreference :=
  match ids.lookup p.userId with
  | some (preferred, excluded) =>
      { p with
        preference :=
          { p.preference with
            preferredSupplierIds := preferred
            excludedSupplierIds := excluded } }
  | none => p

theorem values_writeIds (t : PreferenceTable) (ids : List (String × List String × List String)) :
    (t.writeIds ids).values = t.values.map (withIds ids) :=
  Table.values_modify _ (withIds ids)

/-- A backfill changes nothing of a preference but the supplier ids. -/
theorem hasExcludedTerm_writeIds (s : Store) (ids : List (String × List String × List String))
    (userId : String) (article : Article) :
    hasExcludedTerm U O article
        (Store.preferenceOf { s with preferences := s.preferences.writeIds ids } userId) =
      hasExcludedTerm U O article (s.preferenceOf userId) := by
  have hkeep : ∀ p, (withIds ids p).userId = p.userId := by
    intro p
    unfold withIds
    split <;> rfl
  have hterm : ∀ p, hasExcludedTerm U O article (withIds ids p).preference =
      hasExcludedTerm U O article p.preference := by
    intro p
    unfold withIds
    split <;> rfl
  rw [Store.preferenceOf, values_writeIds, find?_map_userId hkeep, Store.preferenceOf]
  cases s.preferences.values.find? (·.userId = userId) with
  | none => rfl
  | some p => exact hterm p

/-! ## Rejected rows -/

/-- A row is rejected by its user and its article. -/
theorem rejects_of_identity {s : Store} {row row' : UserNewsFeed}
    (h : row'.identity = row.identity) : s.Rejects U O row ↔ s.Rejects U O row' := by
  simp only [UserNewsFeed.identity, Prod.mk.injEq] at h
  rw [Store.Rejects, Store.Rejects, h.1, h.2.1]

/-- Where no other exclusion rejects an article, its supplier ids decide. -/
theorem rejects_iff_supplier {s : Store} {row : UserNewsFeed}
    (h : ∀ article, s.articles.find? row.processedArticleId = some article →
      hasExcludedTerm U O article (s.preferenceOf row.userId) = false) :
    s.Rejects U O row ↔ s.RejectsSupplier U row := by
  constructor
  · rintro ⟨article, hfind, hexcluded⟩
    rw [hasExcludedMatch, h article hfind, Bool.or_false] at hexcluded
    exact ⟨by rw [hfind]; rfl, hexcluded⟩
  · rintro ⟨hsome, hids⟩
    obtain ⟨article, hfind⟩ := Option.isSome_iff_exists.mp hsome
    exact ⟨article, hfind, by rw [hasExcludedMatch, hids, Bool.true_or]⟩

/-- No term of an article that is not rejected is excluded. -/
theorem hasExcludedTerm_of_not_rejects {s : Store} {row : UserNewsFeed}
    (h : ¬ s.Rejects U O row) (article : Article)
    (hfind : s.articles.find? row.processedArticleId = some article) :
    hasExcludedTerm U O article (s.preferenceOf row.userId) = false := by
  by_contra hterm
  rw [Bool.not_eq_false] at hterm
  exact h ⟨article, hfind, by rw [hasExcludedMatch, hterm, Bool.or_true]⟩

/-- Fewer rows and fewer rejections keep the feed free of rejected rows. -/
theorem Respected.of_le (hs : Respected U O s)
    (hfeed : ∀ row ∈ t.store.feed.values,
      ∃ row' ∈ s.store.feed.values, row'.identity = row.identity)
    (hrejects : ∀ row ∈ s.store.feed.values, t.store.Rejects U O row → s.store.Rejects U O row) :
    Respected U O t := by
  intro row hrow hvisible hrejected
  obtain ⟨row', hrow', hsame⟩ := hfeed row hrow
  have hvisible' : row'.isHidden = false :=
    (congrArg (fun identity => identity.2.2) hsame).trans hvisible
  exact hs row' hrow' hvisible'
    (hrejects row' hrow' ((rejects_of_identity hsame).mp hrejected))

/-- A call inserts visible rows. -/
theorem isHidden_of_mem_entriesOf {i : ℕ} {now : Instant} {entry : UserNewsFeed}
    (h : entry ∈ s.entriesOf U O config i now) : entry.isHidden = false := by
  unfold State.entriesOf at h
  split at h
  · obtain ⟨x, -, -, rfl⟩ := exists_of_mem_entries h
    rfl
  · exact absurd h List.not_mem_nil

/-- The condition on an insertion, said of the rows. -/
theorem keepsExclusions_insertEntries {i : ℕ} {now : Instant} :
    KeepsExclusions U O config s (.insertEntries i now) ↔
      ∀ entry ∈ s.entriesOf U O config i now, ¬ s.store.Rejects U O entry := by
  constructor
  · intro h entry hentry
    rw [← List.map_id (s.entriesOf U O config i now)] at hentry
    obtain ⟨reads, hphase, a, ha, rfl⟩ := mem_map_entriesOf.mp hentry
    rintro ⟨article, hfind, hexcluded⟩
    have hkept := h reads hphase a ha article hfind
    exact Bool.false_ne_true (hkept.symm.trans hexcluded)
  · intro h reads hphase a ha article hfind
    have hentry : feedEntry (config i).userId now (a, scoreArticle U O a.2
        (reads.passPreference U O) (reads.supplierIds a.1)) ∈ s.entriesOf U O config i now := by
      rw [← List.map_id (s.entriesOf U O config i now)]
      exact mem_map_entriesOf.mpr ⟨reads, hphase, a, ha, rfl⟩
    rw [← Bool.not_eq_true]
    exact fun hexcluded => h _ hentry ⟨article, hfind, hexcluded⟩

/-- **An insertion after which nothing has changed** keeps the feeds free of rejected rows
exactly when the call respects the exclusions that it has read. -/
theorem keepsExclusions_of_current {i : ℕ} {now : Instant} {r : Reads}
    (hphase : s.calls i = .ready r)
    (hpreference : s.store.preferenceOf (config i).userId = r.preference)
    (hids : s.store.supplierIds = r.supplierIds)
    (harticles : ∀ a ∈ r.articles, s.store.articles.find? a.1 = some a.2) :
    KeepsExclusions U O config s (.insertEntries i now) ↔
      (∃ a ∈ r.candidates, Ranks U O r.preference (r.supplierIds a.1) a.2 = true) ∨
        ∀ a ∈ (r.fallbackRanking U O).take (config i).limit,
          meet (r.supplierIds a.1) (excludedSupplierIds U r.preference) = false := by
  rw [← ranking_respects_iff]
  constructor
  · intro h a ha
    have hmem : a ∈ r.articles := (List.mem_filter.mp (mem_candidates_of_mem_ranking ha)).1
    rw [← hpreference, ← hids]
    exact h r hphase a ha a.2 (harticles a hmem)
  · intro h reads hreads a ha article hfind
    obtain rfl : r = reads := Phase.ready.inj (hphase.symm.trans hreads)
    have hmem : a ∈ r.articles := (List.mem_filter.mp (mem_candidates_of_mem_ranking ha)).1
    obtain rfl := Option.some.inj ((harticles a hmem).symm.trans hfind)
    rw [hpreference, hids]
    exact h a ha

/-- **An update during which no row of the user is committed** puts no preference in force that
rejects a row. -/
theorem keepsExclusions_of_alone {j : ℕ}
    (h : ∀ update ∈ s.updates j, ∀ row ∈ s.store.feed.rows, row.2.userId = update.userId →
      row.1 ∈ update.deleted) : KeepsExclusions U O config s (.commitUpdate j) :=
  fun update hupdate row hrow hstays huser => absurd (h update hupdate row hrow huser) hstays

/-- What a preference that is put in force rejects. -/
theorem rejects_put {s : Store} {userId : String} {preference : Preference} {feed : Table _}
    {row : UserNewsFeed} :
    Store.Rejects U O
        { s with preferences := s.preferences.put userId preference, feed := feed } row ↔
      if row.userId = userId then
        ∃ article, s.articles.find? row.processedArticleId = some article ∧
          hasExcludedMatch U O article preference (s.supplierIds row.processedArticleId) = true
      else s.Rejects U O row := by
  have hpreference : Store.preferenceOf
      { s with preferences := s.preferences.put userId preference, feed := feed } row.userId =
      if row.userId = userId then preference else s.preferenceOf row.userId :=
    preferenceOf_put s userId row.userId preference
  rw [Store.Rejects, hpreference]
  split <;> rfl

/-- An update leaves no rejected row exactly when its preference rejects none of the rows of
the user that it does not delete. -/
theorem respected_update (hs : Respected U O s) {update : Update}
    (h : t.store = { s.store with
      preferences := s.store.preferences.put update.userId update.preference
      feed := s.store.feed.delete fun id _ => id ∈ update.deleted }) :
    Respected U O t ↔ ∀ row ∈ s.store.feed.rows, row.1 ∉ update.deleted →
      row.2.userId = update.userId → row.2.isHidden = false →
        ∀ article, s.store.articles.find? row.2.processedArticleId = some article →
          hasExcludedMatch U O article update.preference
            (s.store.supplierIds row.2.processedArticleId) = false := by
  rw [Respected, h]
  constructor
  · intro hnone row hrow hstays huser hvisible article hfind
    have hmem : row.2 ∈ (s.store.feed.delete fun id _ => id ∈ update.deleted).values :=
      Table.mem_values.mpr ⟨row.1, Table.mem_rows_delete.mpr ⟨hrow, decide_eq_false hstays⟩⟩
    by_contra hexcluded
    rw [Bool.not_eq_false] at hexcluded
    refine hnone row.2 hmem hvisible (rejects_put.mpr ?_)
    rw [if_pos huser]
    exact ⟨article, hfind, hexcluded⟩
  · intro hnone row hrow hvisible hrejected
    obtain ⟨i, hi⟩ := Table.mem_values.mp hrow
    obtain ⟨hrow, hstays⟩ := Table.mem_rows_delete.mp hi
    have hrejected := rejects_put.mp hrejected
    by_cases huser : row.userId = update.userId
    · rw [if_pos huser] at hrejected
      obtain ⟨article, hfind, hexcluded⟩ := hrejected
      have := hnone (i, row) hrow (of_decide_eq_false hstays) huser hvisible article hfind
      exact absurd hexcluded (by rw [this]; exact Bool.false_ne_true)
    · rw [if_neg huser] at hrejected
      exact hs row (Table.mem_values.mpr ⟨i, hrow⟩) hvisible hrejected

/-- New supplier ids leave no rejected row exactly when they are excluded for none. -/
theorem respected_identity (hs : Respected U O s) (hfeed : t.store.feed = s.store.feed)
    (harticles : t.store.articles = s.store.articles)
    (hterms : ∀ userId article, hasExcludedTerm U O article (t.store.preferenceOf userId) =
      hasExcludedTerm U O article (s.store.preferenceOf userId)) :
    Respected U O t ↔ ∀ row ∈ s.store.feed.values, row.isHidden = false →
      ¬ t.store.RejectsSupplier U row := by
  rw [Respected, hfeed]
  refine forall_congr' fun row => forall_congr' fun hrow => forall_congr' fun hvisible => ?_
  rw [rejects_iff_supplier]
  intro article hfind
  rw [harticles] at hfind
  rw [hterms]
  exact hasExcludedTerm_of_not_rejects (hs row hrow hvisible) article hfind

/-- **One step** from a feed without rejected rows leaves it so exactly when it meets the
condition. -/
theorem respected_step (hsound : Sound s) (hs : Respected U O s) {l : Label}
    (h : step U O config s l = some t) :
    Respected U O t ↔ KeepsExclusions U O config s l := by
  have hstore := store_of_step h
  have hold : (∀ i now, l ≠ .insertEntries i now) → ∀ row ∈ t.store.feed.values,
      ∃ row' ∈ s.store.feed.values, row'.identity = row.identity := by
    intro hl row hrow
    rcases identity_of_step h hrow with hold | ⟨i, now, rfl, -⟩
    · exact hold
    · exact absurd rfl (hl i now)
  cases l
  case insertEntries i now =>
    have hrejects : ∀ row, t.store.Rejects U O row ↔ s.store.Rejects U O row := by
      intro row
      rw [hstore]
      rfl
    have hvalues : t.store.feed.values =
        s.store.feed.values ++ s.entriesOf U O config i now := by
      rw [hstore]
      exact Table.values_foldl_insert _ _
    have hentries : KeepsExclusions U O config s (.insertEntries i now) ↔
        ∀ entry ∈ s.entriesOf U O config i now, ¬ s.store.Rejects U O entry :=
      keepsExclusions_insertEntries
    rw [hentries]
    constructor
    · intro ht entry hentry hrejected
      have hmem : entry ∈ t.store.feed.values := by
        rw [hvalues]
        exact List.mem_append_right _ hentry
      exact ht entry hmem (isHidden_of_mem_entriesOf hentry) ((hrejects entry).mpr hrejected)
    · intro hnone row hrow hvisible hrejected
      rw [hvalues, List.mem_append] at hrow
      rcases hrow with hrow | hrow
      · exact hs row hrow hvisible ((hrejects row).mp hrejected)
      · exact hnone row hrow ((hrejects row).mp hrejected)
  case commitUpdate j =>
    cases hupdate : s.updates j with
    | none =>
        simp only [step, hupdate] at h
        exact absurd h (by simp)
    | some update =>
        rw [State.storeAfter, hupdate] at hstore
        rw [respected_update hs hstore, KeepsExclusions, hupdate]
        simp
  case backfillPreferences ids =>
    rw [respected_identity hs (by rw [hstore]; rfl) (by rw [hstore]; rfl), hstore]
    · rfl
    · intro userId article
      rw [hstore]
      exact hasExcludedTerm_writeIds s.store ids userId article
  case changeIdentity suppliers mentions =>
    rw [respected_identity hs (by rw [hstore]; rfl) (by rw [hstore]; rfl), hstore]
    · rfl
    · intro userId article
      rw [hstore]
      rfl
  case addArticle article =>
    refine iff_of_true (hs.of_le (hold (by simp)) fun row hrow hrejected => ?_) trivial
    rw [hstore] at hrejected
    obtain ⟨article', hfind, hexcluded⟩ := hrejected
    have hne : row.processedArticleId ≠ s.store.articles.nextId := (hsound.feed row hrow).ne
    refine ⟨article', ?_, hexcluded⟩
    have hinsert := Table.find?_insert s.store.articles article row.processedArticleId
    rw [if_neg hne] at hinsert
    exact hinsert.symm.trans hfind
  case pruneArticles expired =>
    refine iff_of_true (hs.of_le (hold (by simp)) fun row hrow hrejected => ?_) trivial
    rw [hstore] at hrejected
    obtain ⟨article', hfind, hexcluded⟩ := hrejected
    have hmem := Table.find?_eq_some_iff.mp hfind
    exact ⟨article', Table.find?_eq_some_iff.mpr (Table.mem_rows_delete.mp hmem).1, hexcluded⟩
  all_goals
    refine iff_of_true (hs.of_le (hold (by simp)) fun row _ hrejected => ?_) trivial
    rw [hstore] at hrejected
    exact hrejected

/-- No call and no update is under way. -/
def State.Quiet (s : State) : Prop :=
  (∀ i, s.calls i = .called ∨ s.calls i = .returned) ∧ ∀ j, s.updates j = none

/-- `siemensStore` before its user had a preference. -/
def withoutPreference : Store := { siemensStore with preferences := UniqueTable.empty }

/-- What a call reads there. -/
def unfilteredReads : Reads :=
  withoutPreference.reads userOne.userId (0 - days userOne.daysBack)

end ProcureSignal.Personalization
