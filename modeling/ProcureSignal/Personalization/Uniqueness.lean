/-
# One feed row for a user and an article

`generate_feed` asks which articles the feed has and inserts later; no constraint of
`user_news_feed` stands behind it.

* `unique_iff` : a run keeps at most one row for a user and an article exactly when no call
  inserts a row that another has committed since the question;
* `two_generations` : two calls that overlap.
-/
import ProcureSignal.Personalization.Exclusions
import ProcureSignal.Personalization.Writers

namespace ProcureSignal.Personalization

variable {U : Unicode} {O : SetOrder} {config : ℕ → Request} {s t : State} {store : Store}
  {tr : List (State × Label)}

/-- At most one row for a user and an article. -/
def UniqueRows (s : State) : Prop :=
  ∀ userId articleId, s.store.feed.values.countP
    (fun row => row.userId = userId ∧ row.processedArticleId = articleId) ≤ 1

/-- Of the first articles of a call's ranking the user has no committed row. -/
def Fresh (U : Unicode) (O : SetOrder) (config : ℕ → Request) (s : State) : Label → Prop
  | .insertEntries i _ => ∀ reads, s.calls i = .ready reads →
      ∀ a ∈ (reads.ranking U O).take (config i).limit, ∀ row ∈ s.store.feed.values,
        ¬(row.userId = (config i).userId ∧ row.processedArticleId = a.1)
  | _ => True

/-! ## Keys -/

/-- The user and the article of a row. -/
def UserNewsFeed.key (row : UserNewsFeed) : String × ℕ := (row.userId, row.processedArticleId)

theorem uniqueRows_iff : UniqueRows s ↔ (s.store.feed.values.map UserNewsFeed.key).Nodup := by
  have hcount : ∀ userId articleId, s.store.feed.values.countP
      (fun row => row.userId = userId ∧ row.processedArticleId = articleId) =
      (s.store.feed.values.map UserNewsFeed.key).count (userId, articleId) := by
    intro userId articleId
    rw [List.count, List.countP_map]
    apply List.countP_congr
    intro row _
    simp [UserNewsFeed.key]
  rw [List.nodup_iff_count_le_one, Prod.forall]
  simp only [UniqueRows, hcount]

/-- The rows that a call inserts have different articles. -/
theorem nodup_key_entriesOf (hs : Sound s) (i : ℕ) (now : Instant) :
    ((s.entriesOf U O config i now).map UserNewsFeed.key).Nodup := by
  have hnodup := hs.nodup i
  unfold State.entriesOf
  split
  · rename_i reads hphase
    rw [hphase] at hnodup
    have hids : ((reads.entries U O (config i).userId (config i).limit now).map
        (·.processedArticleId)).Nodup := nodup_entries hnodup
    have hsnd : ((reads.entries U O (config i).userId (config i).limit now).map
        UserNewsFeed.key).map (·.2) = (reads.entries U O (config i).userId (config i).limit
          now).map (·.processedArticleId) := by
      rw [List.map_map]
      rfl
    exact List.Nodup.of_map _ (hsnd ▸ hids)
  · exact List.nodup_nil

/-- The keys of the rows that a call inserts. -/
theorem mem_key_entriesOf {i : ℕ} {now : Instant} {key : String × ℕ} :
    key ∈ (s.entriesOf U O config i now).map UserNewsFeed.key ↔
      ∃ reads, s.calls i = .ready reads ∧
        ∃ a ∈ (reads.ranking U O).take (config i).limit, ((config i).userId, a.1) = key := by
  rw [mem_map_entriesOf]
  rfl

/-- One step keeps the rows unique exactly when it inserts fresh ones. -/
theorem uniqueRows_step (hs : Sound s) (hunique : UniqueRows s) {l : Label}
    (h : step U O config s l = some t) : UniqueRows t ↔ Fresh U O config s l := by
  rw [uniqueRows_iff] at hunique ⊢
  rcases feed_of_step h with ⟨i, now, rfl, hvalues⟩ | ⟨hl, hsub⟩
  · rw [hvalues, List.map_append, List.nodup_append]
    constructor
    · rintro ⟨-, -, hdisjoint⟩ reads hphase a ha row hrow ⟨huser, harticle⟩
      have hkey : ((config i).userId, a.1) ∈
          (s.entriesOf U O config i now).map UserNewsFeed.key :=
        mem_key_entriesOf.mpr ⟨reads, hphase, a, ha, rfl⟩
      exact hdisjoint _ (List.mem_map_of_mem hrow) _ hkey (Prod.ext huser harticle)
    · intro hfresh
      refine ⟨hunique, nodup_key_entriesOf hs i now, fun key hold key' hnew hsame => ?_⟩
      obtain ⟨row, hrow, rfl⟩ := List.mem_map.mp hold
      obtain ⟨reads, hphase, a, ha, rfl⟩ := mem_key_entriesOf.mp hnew
      exact hfresh reads hphase a ha row hrow (Prod.mk.inj hsame)
  · have hkeys : (t.store.feed.values.map UserNewsFeed.key).Sublist
        (s.store.feed.values.map UserNewsFeed.key) := by
      have := hsub.map fun identity => (identity.1, identity.2.1)
      rwa [List.map_map, List.map_map] at this
    refine iff_of_true (hunique.sublist hkeys) ?_
    cases l
    case insertEntries i now => exact absurd rfl (hl i now)
    all_goals trivial

/-- One article, and nobody has a preference. -/
def oneArticle : Store where
  suppliers := UniqueTable.empty
  mentions := UniqueTable.empty
  articles := Table.empty.insert siemensArticle
  preferences := UniqueTable.empty
  feed := Table.empty

/-- The arguments of every call. -/
def userOne : Request := ⟨"u-1", 50, 7⟩

/-- What a call on `oneArticle` reads. -/
def firstReads : Reads := oneArticle.reads userOne.userId (0 - days userOne.daysBack)

/-- What it inserts. -/
theorem entries_firstReads :
    ∃ score, firstReads.entries U O userOne.userId userOne.limit 0 =
      [feedEntry userOne.userId 0 ((1, siemensArticle), score)] := by
  have hcandidates : firstReads.candidates = [(1, siemensArticle)] := by decide +kernel
  exact entries_of_default rfl hcandidates (by decide)

theorem key_entries_firstReads :
    (firstReads.entries U O userOne.userId userOne.limit 0).map UserNewsFeed.key =
      [("u-1", 1)] := by
  obtain ⟨score, hentries⟩ := entries_firstReads (U := U) (O := O)
  rw [hentries]
  rfl

/-- The first call has read. -/
def firstRead : State := (State.initial oneArticle).setCall 0 (.ready firstReads)

theorem exists_firstRead :
    ∃ tr, Execution (step U O fun _ => userOne) unguarded (State.initial oneArticle) tr
      firstRead ∧
      tr.map (·.2) = [.readSuppliers 0, .readArticles 0 0, .readExisting 0, .readPreference 0] :=
  exists_reads rfl 0

end ProcureSignal.Personalization
