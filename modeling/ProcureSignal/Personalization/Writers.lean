/-
# The writers of a feed

Any number of `generate_feed` calls, preference updates and backfills are under way on the same
tables.  A step is one query of a call, or one commit with what was flushed for it.

* A call reads the preference, the rows the user has, the recent articles and their suppliers
  one after the other, and inserts its rows at its end.
* A preference update deletes the feed rows it sees; rows that are committed after its
  `DELETE` and before its commit stay.
* A backfill writes the supplier ids it has resolved; what it resolved them to is part of the
  label, as is what a preference update writes.
-/
import ProcureSignal.Library.Execution
import ProcureSignal.Personalization.Pipeline

namespace ProcureSignal.Personalization

/-! ## The system -/

/-- The arguments of a `generate_feed` call. -/
structure Request where
  userId : String
  limit : ℕ
  daysBack : ℕ
  deriving DecidableEq, Repr

/-- How far a `generate_feed` call is. -/
inductive Phase
  | called
  | hasPreference (preference : Preference)
  | hasExisting (preference : Preference) (existing : List ℕ)
  | hasArticles (preference : Preference) (existing : List ℕ) (articles : List (ℕ × Article))
  | ready (reads : Reads)
  | returned

/-- The articles that a call has read. -/
def Phase.articles : Phase → List (ℕ × Article)
  | .hasArticles _ _ articles => articles
  | .ready reads => reads.articles
  | _ => []

/-- A preference update after its `DELETE`: what it will write, and the rows it will delete. -/
structure Update where
  userId : String
  preference : Preference
  deleted : List ℕ

/-- The committed tables, the calls and the updates. -/
structure State where
  store : Store
  calls : ℕ → Phase
  updates : ℕ → Option Update

/-- No call has begun. -/
def State.initial (store : Store) : State := ⟨store, fun _ => .called, fun _ => none⟩

inductive Label
  /-- call `i` reads the preference -/
  | readPreference (i : ℕ)
  /-- call `i` reads the articles that the feed has -/
  | readExisting (i : ℕ)
  /-- call `i` reads the recent articles -/
  | readArticles (i : ℕ) (now : Instant)
  /-- call `i` reads the suppliers of the articles -/
  | readSuppliers (i : ℕ)
  /-- call `i` inserts its rows, commits and returns -/
  | insertEntries (i : ℕ) (now : Instant)
  /-- update `j` flushes a preference and deletes the feed of the user -/
  | deleteFeed (j : ℕ) (userId : String) (preference : Preference)
  /-- update `j` commits -/
  | commitUpdate (j : ℕ)
  /-- a backfill commits the preferred and the excluded supplier ids of users -/
  | backfillPreferences (ids : List (String × List String × List String))
  /-- a backfill commits mentions, or suppliers are registered or merged -/
  | changeIdentity (suppliers : SupplierTable) (mentions : MentionTable)
  /-- enrichment commits an article -/
  | addArticle (article : Article)
  /-- `mark_article_read` -/
  | markRead (row : ℕ)
  /-- retention deletes feed rows -/
  | pruneFeed (expired : ℕ → UserNewsFeed → Bool)
  /-- retention deletes articles -/
  | pruneArticles (expired : ℕ → Article → Bool)

/-- `INSERT` or `UPDATE` of the preference of a user. -/
def PreferenceTable.put (t : PreferenceTable) (userId : String) (preference : Preference) :
    PreferenceTable :=
  (t.modify
    (fun _ p => if p.userId = userId then { p with preference := preference } else p) (by
      intro k hk _ p
      rw [List.mem_singleton.mp hk]
      split <;> rfl)).insertNew ⟨userId, preference⟩

/-- The supplier ids of the listed users are overwritten. -/
def PreferenceTable.writeIds (t : PreferenceTable)
    (ids : List (String × List String × List String)) : PreferenceTable :=
  t.modify
    (fun _ p =>
      match ids.lookup p.userId with
      | some (preferred, excluded) =>
          { p with
            preference :=
              { p.preference with
                preferredSupplierIds := preferred
                excludedSupplierIds := excluded } }
      | none => p) (by
      intro k hk _ p
      rw [List.mem_singleton.mp hk]
      split <;> rfl)

def State.setCall (s : State) (i : ℕ) (phase : Phase) : State :=
  { s with calls := Function.update s.calls i phase }

section Step

variable (U : Unicode) (O : SetOrder) (config : ℕ → Request)

/-- The rows that a call is about to insert. -/
def State.entriesOf (s : State) (i : ℕ) (now : Instant) : List UserNewsFeed :=
  match s.calls i with
  | .ready reads => reads.entries U O (config i).userId (config i).limit now
  | _ => []

/-- One step; a label that is not enabled yields `none`. -/
def step (s : State) : Label → Option State
  | .readPreference i =>
      match s.calls i with
      | .called => some (s.setCall i (.hasPreference (s.store.preferenceOf (config i).userId)))
      | _ => none
  | .readExisting i =>
      match s.calls i with
      | .hasPreference preference =>
          some (s.setCall i
            (.hasExisting preference (s.store.existingArticleIds (config i).userId)))
      | _ => none
  | .readArticles i now =>
      match s.calls i with
      | .hasExisting preference existing =>
          some (s.setCall i (.hasArticles preference existing
            (s.store.recentArticles (now - days (config i).daysBack))))
      | _ => none
  | .readSuppliers i =>
      match s.calls i with
      | .hasArticles preference existing articles =>
          some (s.setCall i (.ready ⟨preference, existing, articles, s.store.supplierIds⟩))
      | _ => none
  | .insertEntries i now =>
      match s.calls i with
      | .ready _ =>
          some ({ s with store := s.store.addEntries (s.entriesOf U O config i now) }.setCall i
            .returned)
      | _ => none
  | .deleteFeed j userId preference =>
      match s.updates j with
      | none =>
          some { s with updates := Function.update s.updates j (some ⟨userId, preference,
            (s.store.feed.rows.filter (·.2.userId = userId)).map (·.1)⟩) }
      | some _ => none
  | .commitUpdate j =>
      match s.updates j with
      | some update =>
          some { s with
            store :=
              { s.store with
                preferences := s.store.preferences.put update.userId update.preference
                feed := s.store.feed.delete fun id _ => id ∈ update.deleted }
            updates := Function.update s.updates j none }
      | none => none
  | .backfillPreferences ids =>
      some { s with store := { s.store with preferences := s.store.preferences.writeIds ids } }
  | .changeIdentity suppliers mentions =>
      some { s with store := { s.store with suppliers := suppliers, mentions := mentions } }
  | .addArticle article =>
      some { s with store := { s.store with articles := s.store.articles.insert article } }
  | .markRead row =>
      some { s with
        store :=
          { s.store with
            feed := s.store.feed.modify fun id r =>
              if id = row then { r with isRead := true } else r } }
  | .pruneFeed expired =>
      some { s with store := { s.store with feed := s.store.feed.delete expired } }
  | .pruneArticles expired =>
      some { s with store := { s.store with articles := s.store.articles.delete expired } }

/-- The tables after a step. -/
def State.storeAfter (s : State) : Label → Store
  | .insertEntries i now => s.store.addEntries (s.entriesOf U O config i now)
  | .commitUpdate j =>
      match s.updates j with
      | some update =>
          { s.store with
            preferences := s.store.preferences.put update.userId update.preference
            feed := s.store.feed.delete fun id _ => id ∈ update.deleted }
      | none => s.store
  | .backfillPreferences ids =>
      { s.store with preferences := s.store.preferences.writeIds ids }
  | .changeIdentity suppliers mentions =>
      { s.store with suppliers := suppliers, mentions := mentions }
  | .addArticle article => { s.store with articles := s.store.articles.insert article }
  | .markRead row =>
      { s.store with
        feed := s.store.feed.modify fun id r => if id = row then { r with isRead := true } else r }
  | .pruneFeed expired => { s.store with feed := s.store.feed.delete expired }
  | .pruneArticles expired => { s.store with articles := s.store.articles.delete expired }
  | _ => s.store

end Step

/-! ## What a step does -/

section Effects

variable {U : Unicode} {O : SetOrder} {config : ℕ → Request} {s t : State} {l : Label}
  {tr : List (State × Label)}

/-- **What a step does to the tables.** -/
theorem store_of_step (h : step U O config s l = some t) :
    t.store = s.storeAfter U O config l := by
  cases l <;> simp only [step] at h
  case commitUpdate j =>
    cases hupdate : s.updates j with
    | none => simp [hupdate] at h
    | some update =>
        rw [hupdate] at h
        rw [← Option.some.inj h, State.storeAfter, hupdate]
  case deleteFeed j userId preference =>
    split at h
    · exact Option.some.inj h ▸ rfl
    · exact absurd h (by simp)
  case readPreference i | readExisting i | readArticles i now | readSuppliers i
      | insertEntries i now =>
    split at h
    · exact Option.some.inj h ▸ rfl
    · exact absurd h (by simp)
  all_goals exact Option.some.inj h ▸ rfl

theorem articles_setCall {i j : ℕ} {phase : Phase} :
    ((s.setCall i phase).calls j).articles =
      if j = i then phase.articles else (s.calls j).articles := by
  show (Function.update s.calls i phase j).articles = _
  rw [Function.update_apply]
  split <;> rfl

/-- The articles of a call are the ones it had, none, or the recent ones. -/
theorem articles_of_step (h : step U O config s l = some t) (j : ℕ) :
    (t.calls j).articles = (s.calls j).articles ∨ (t.calls j).articles = [] ∨
      ∃ cutoff, (t.calls j).articles = s.store.recentArticles cutoff := by
  cases l <;> simp only [step] at h
  case readPreference i | readExisting i =>
    split at h
    · rw [← Option.some.inj h, articles_setCall]
      split
      · exact Or.inr (Or.inl rfl)
      · exact Or.inl rfl
    · exact absurd h (by simp)
  case readArticles i now =>
    split at h
    · rw [← Option.some.inj h, articles_setCall]
      split
      · exact Or.inr (Or.inr ⟨_, rfl⟩)
      · exact Or.inl rfl
    · exact absurd h (by simp)
  case readSuppliers i =>
    split at h
    · rename_i hphase
      rw [← Option.some.inj h, articles_setCall]
      split
      · rename_i hj
        rw [hj, hphase]
        exact Or.inl rfl
      · exact Or.inl rfl
    · exact absurd h (by simp)
  case insertEntries i now =>
    split at h
    · rw [← Option.some.inj h, articles_setCall]
      split
      · exact Or.inr (Or.inl rfl)
      · exact Or.inl rfl
    · exact absurd h (by simp)
  case deleteFeed j userId preference | commitUpdate j =>
    split at h
    · exact Or.inl (Option.some.inj h ▸ rfl)
    · exact absurd h (by simp)
  all_goals exact Or.inl (Option.some.inj h ▸ rfl)

/-! ## The invariant -/

/-- Feed rows and calls name articles that were there, and a call names none twice. -/
structure Sound (s : State) : Prop where
  feed : ∀ row ∈ s.store.feed.values, row.processedArticleId < s.store.articles.nextId
  calls : ∀ i, ∀ a ∈ (s.calls i).articles, a.1 < s.store.articles.nextId
  nodup : ∀ i, ((s.calls i).articles.map (·.1)).Nodup

theorem sound_initial {store : Store} (h : store.feed.values = []) :
    Sound (State.initial store) where
  feed := by
    intro row hrow
    rw [State.initial, h] at hrow
    exact absurd hrow List.not_mem_nil
  calls i a ha := absurd ha List.not_mem_nil
  nodup i := List.nodup_nil

/-- The next key of the articles only grows. -/
theorem nextId_of_step (h : step U O config s l = some t) :
    s.store.articles.nextId ≤ t.store.articles.nextId := by
  rw [store_of_step h]
  cases l <;> simp only [State.storeAfter, le_refl]
  case insertEntries i now => exact le_rfl
  case commitUpdate j =>
    split <;> exact le_rfl
  case addArticle article => exact Nat.le_succ _
  case pruneArticles expired => exact le_rfl

/-- What a call is about to insert: rows for the first articles of its ranking. -/
theorem mem_map_entriesOf {β : Type*} {f : UserNewsFeed → β} {i : ℕ} {now : Instant} {b : β} :
    b ∈ (s.entriesOf U O config i now).map f ↔
      ∃ reads, s.calls i = .ready reads ∧
        ∃ a ∈ (reads.ranking U O).take (config i).limit, f (feedEntry (config i).userId now
          (a, PreferenceMatcher.scoreArticle U O a.2 (reads.passPreference U O)
            (reads.supplierIds a.1))) = b := by
  unfold State.entriesOf
  split
  · rename_i reads hphase
    rw [entries_eq_map, List.map_map, List.mem_map]
    simp [hphase]
  · rename_i hphase
    constructor
    · exact fun h => absurd h List.not_mem_nil
    · rintro ⟨reads, hready, -⟩
      exact absurd hready (hphase reads)

/-- A row that a call inserts is for one of its articles. -/
theorem exists_of_mem_entriesOf {i : ℕ} {now : Instant} {entry : UserNewsFeed}
    (h : entry ∈ s.entriesOf U O config i now) :
    ∃ a ∈ (s.calls i).articles, entry.processedArticleId = a.1 := by
  unfold State.entriesOf at h
  split at h
  · rename_i reads hphase
    obtain ⟨x, -, hcandidate, rfl⟩ := exists_of_mem_entries h
    rw [hphase]
    exact ⟨x.1, (List.mem_filter.mp hcandidate).1, rfl⟩
  · exact absurd h List.not_mem_nil

/-- The columns of a feed row that no step changes. -/
def UserNewsFeed.identity (row : UserNewsFeed) : String × ℕ × Bool :=
  (row.userId, row.processedArticleId, row.isHidden)

/-- **What a step does to the feed**: a call inserts its rows at its end, or rows go. -/
theorem feed_of_step (h : step U O config s l = some t) :
    (∃ i now, l = .insertEntries i now ∧
      t.store.feed.values = s.store.feed.values ++ s.entriesOf U O config i now) ∨
    (∀ i now, l ≠ .insertEntries i now) ∧
      (t.store.feed.values.map UserNewsFeed.identity).Sublist
        (s.store.feed.values.map UserNewsFeed.identity) := by
  have hdelete : ∀ p, ((s.store.feed.delete p).values.map UserNewsFeed.identity).Sublist
      (s.store.feed.values.map UserNewsFeed.identity) :=
    fun p => (List.filter_sublist.map _).map _
  rw [store_of_step h]
  cases l
  case insertEntries i now =>
    exact Or.inl ⟨i, now, rfl, Table.values_foldl_insert _ _⟩
  case commitUpdate j =>
    refine Or.inr ⟨by simp, ?_⟩
    rw [State.storeAfter]
    split
    · exact hdelete _
    · exact List.Sublist.refl _
  case markRead row =>
    refine Or.inr ⟨by simp, ?_⟩
    have hsame : (s.store.feed.modify fun id r =>
        if id = row then { r with isRead := true } else r).values.map UserNewsFeed.identity =
        s.store.feed.values.map UserNewsFeed.identity := by
      simp only [Table.values, Table.modify, List.map_map]
      apply List.map_congr_left
      intro r _
      simp only [Function.comp_apply]
      split <;> rfl
    exact hsame ▸ List.Sublist.refl _
  case pruneFeed expired => exact Or.inr ⟨by simp, hdelete _⟩
  all_goals exact Or.inr ⟨by simp, List.Sublist.refl _⟩

/-- A feed row after a step was there, or is inserted by a call. -/
theorem identity_of_step (h : step U O config s l = some t) {row : UserNewsFeed}
    (hrow : row ∈ t.store.feed.values) :
    (∃ row' ∈ s.store.feed.values, row'.identity = row.identity) ∨
      ∃ i now, l = .insertEntries i now ∧ row ∈ s.entriesOf U O config i now := by
  rcases feed_of_step h with ⟨i, now, hl, hvalues⟩ | ⟨-, hsub⟩
  · rw [hvalues, List.mem_append] at hrow
    rcases hrow with hrow | hrow
    · exact Or.inl ⟨row, hrow, rfl⟩
    · exact Or.inr ⟨i, now, hl, hrow⟩
  · exact Or.inl (List.mem_map.mp (hsub.subset (List.mem_map_of_mem hrow)))

theorem Sound.of_step (hs : Sound s) (h : step U O config s l = some t) : Sound t where
  feed := by
    intro row hrow
    rcases identity_of_step h hrow with ⟨row', hrow', heq⟩ | ⟨i, now, -, hentry⟩
    · have hid : row'.processedArticleId = row.processedArticleId :=
        congrArg (fun identity => identity.2.1) heq
      rw [← hid]
      exact (hs.feed row' hrow').trans_le (nextId_of_step h)
    · obtain ⟨a, ha, hid⟩ := exists_of_mem_entriesOf hentry
      rw [hid]
      exact (hs.calls i a ha).trans_le (nextId_of_step h)
  calls := by
    intro i a ha
    rcases articles_of_step h i with heq | heq | ⟨cutoff, heq⟩ <;> rw [heq] at ha
    · exact (hs.calls i a ha).trans_le (nextId_of_step h)
    · exact absurd ha List.not_mem_nil
    · exact (s.store.articles.below a (mem_recentArticles.mp ha).1).trans_le (nextId_of_step h)
  nodup := by
    intro i
    rcases articles_of_step h i with heq | heq | ⟨cutoff, heq⟩ <;> rw [heq]
    · exact hs.nodup i
    · exact List.nodup_nil
    · exact nodup_recentArticles s.store cutoff

/-! ## One call after the other -/

theorem setCall_setCall (s : State) (i : ℕ) (phase phase' : Phase) :
    (s.setCall i phase).setCall i phase' = s.setCall i phase' := by
  show { s with calls := Function.update (Function.update s.calls i phase) i phase' } = _
  rw [Function.update_idem]
  rfl

theorem calls_setCall_self (s : State) (i : ℕ) (phase : Phase) :
    (s.setCall i phase).calls i = phase := Function.update_self _ _ _

/-- A call whose queries follow one another reads one state of the tables. -/
theorem exists_reads {i : ℕ} (h : s.calls i = .called) (now : Instant) :
    ∃ tr, Execution (step U O config) unguarded s tr
      (s.setCall i (.ready (s.store.reads (config i).userId
        (now - days (config i).daysBack)))) ∧
      tr.map (·.2) = [.readSuppliers i, .readArticles i now, .readExisting i,
        .readPreference i] := by
  have h₁ : step U O config s (.readPreference i) =
      some (s.setCall i (.hasPreference (s.store.preferenceOf (config i).userId))) := by
    simp only [step, h]
  have h₂ : ∀ p, step U O config (s.setCall i (.hasPreference p)) (.readExisting i) =
      some (s.setCall i (.hasExisting p (s.store.existingArticleIds (config i).userId))) := by
    intro p
    simp only [step, calls_setCall_self, setCall_setCall]
    rfl
  have h₃ : ∀ p e, step U O config (s.setCall i (.hasExisting p e)) (.readArticles i now) =
      some (s.setCall i (.hasArticles p e
        (s.store.recentArticles (now - days (config i).daysBack)))) := by
    intro p e
    simp only [step, calls_setCall_self, setCall_setCall]
    rfl
  have h₄ : ∀ p e a, step U O config (s.setCall i (.hasArticles p e a)) (.readSuppliers i) =
      some (s.setCall i (.ready ⟨p, e, a, s.store.supplierIds⟩)) := by
    intro p e a
    simp only [step, calls_setCall_self, setCall_setCall]
    rfl
  have hnil : Execution (step U O config) unguarded s [] s := Execution.nil
  have hrun := ((hnil.snoc trivial h₁).snoc trivial (h₂ _)).snoc trivial (h₃ _ _)
  exact ⟨_, hrun.snoc trivial (h₄ _ _ _), rfl⟩

/-- A call that has read inserts what it has read of. -/
theorem step_insertEntries {i : ℕ} {reads : Reads} (h : s.calls i = .ready reads)
    (now : Instant) :
    step U O config s (.insertEntries i now) =
      some ({ s with store := s.store.addEntries (reads.entries U O (config i).userId
        (config i).limit now) }.setCall i .returned) := by
  simp only [step, State.entriesOf, h]

theorem feed_addEntries (s : State) (i : ℕ) (entries : List UserNewsFeed) :
    ({ s with store := s.store.addEntries entries }.setCall i .returned).store.feed.values =
      s.store.feed.values ++ entries := Table.values_foldl_insert _ _

theorem sound_of_execution {store : Store} (hempty : store.feed.values = [])
    (h : Execution (step U O config) unguarded (State.initial store) tr t) : Sound t :=
  h.invariant (sound_initial hempty) fun _ _ _ hs _ hstep => hs.of_step hstep

end Effects

end ProcureSignal.Personalization
