/-
# The counters of a source attempt

Every fetched article is a duplicate within its batch, a duplicate of a stored row, an error, or
a new row.  `_source` counts them and `complete_source` stores the counts with the rows.

* `countSource_conserved` : the counts of one attempt, from the code that makes them;
* `counted_step`, `countedRows_step` : the counts on the way to an outcome row;
* `frozen_step` : a finished outcome row does not change;
* `added_step` : the raw rows that an attempt adds.
-/
import ProcureSignal.Retrieval.Dedup
import ProcureSignal.Retrieval.Fencing

namespace ProcureSignal.Retrieval

open NewsRetrievalSourceOutcome (Terminal)

/-! ## The counts of one attempt -/

/-- The counts that `_source` passes to `complete_source`. -/
structure SourceValues where
  fetchedCount : ℕ
  acceptedCount : ℕ
  insertedCount : ℕ
  duplicateCount : ℕ
  withinRunDuplicateCount : ℕ
  databaseDuplicateCount : ℕ
  failedCount : ℕ
  deriving DecidableEq, Repr

/-- `accepted_count` of counts: `len(deduped.articles)`, the articles that were not duplicates
within the batch. -/
def SourceCounts.accepted (c : SourceCounts) : ℕ := c.fetched - c.withinRunDuplicates

/-- Every fetched article is in one bucket. -/
def SourceCounts.Conserved (c : SourceCounts) : Prop :=
  c.fetched = c.withinRunDuplicates + c.accepted ∧
    c.accepted = c.inserted + c.databaseDuplicates + c.failed

/-- The counts as the outcome row keeps them. -/
def SourceValues.counts (v : SourceValues) (responseBytes : ℕ) : SourceCounts where
  fetched := v.fetchedCount
  inserted := v.insertedCount
  withinRunDuplicates := v.withinRunDuplicateCount
  databaseDuplicates := v.databaseDuplicateCount
  failed := v.failedCount
  responseBytes := responseBytes

section Source

variable (S : Serializing) (U : Unicode) (L : UrlParsing) (clock : ℕ → Instant)

/-- `_source` from the fetched articles on: deduplicate, save, count. -/
def countSource (t : RawTable) (articles : List FetchedArticle) :
    Option (RawTable × SourceValues) :=
  (deduplicateWithinRun S U L articles).map fun deduped =>
    let saved := saveArticles S.toHashing clock 0 deduped.articles t
    (saved.1,
      { fetchedCount := articles.length
        acceptedCount := deduped.articles.length
        insertedCount := saved.2.inserted
        duplicateCount := saved.2.duplicates + deduped.duplicates
        withinRunDuplicateCount := deduped.duplicates
        databaseDuplicateCount := saved.2.duplicates
        failedCount := saved.2.errors })

variable {S U L clock}

/-- A row that is new adds one value, any other none. -/
theorem length_values_insertNew (t : RawTable) (row : IngestedArticle) :
    (t.insertNew row).values.length = t.values.length + if t.Free row then 1 else 0 := by
  unfold UniqueTable.insertNew
  split
  · rename_i hfree
    have hvalues : (t.insertFree row hfree).values = t.values ++ [row] := Table.values_insert _ _
    rw [hvalues, List.length_append, List.length_singleton]
  · omega

/-- **Saving counts every article once**, and a new row for each that it counts as
inserted. -/
theorem saveArticles_counts {H : Hashing} (k : ℕ) (articles : List FetchedArticle) (t : RawTable) :
    let saved := saveArticles H clock k articles t
    saved.2.inserted + saved.2.duplicates + saved.2.errors = articles.length ∧
      saved.1.values.length = t.values.length + saved.2.inserted := by
  induction articles generalizing k t with
  | nil => exact ⟨rfl, rfl⟩
  | cons a articles ih =>
      set row : IngestedArticle := ⟨createIngestHash H a, a, clock k⟩ with hrow
      by_cases hstorable : a.storable = true
      · obtain ⟨hcount, hrows⟩ := ih (k + 1) (t.insertNew row)
        have hlength := length_values_insertNew t row
        by_cases hfree : t.Free row
        · rw [if_pos hfree] at hlength
          simp only [saveArticles, hstorable, if_true, ← hrow, if_pos hfree, List.length_cons]
          omega
        · rw [if_neg hfree] at hlength
          simp only [saveArticles, hstorable, if_true, ← hrow, if_neg hfree, List.length_cons]
          omega
      · -- the columns reject the article: an error, and no row
        obtain ⟨hcount, hrows⟩ := ih (k + 1) t
        simp only [saveArticles, hstorable, List.length_cons]
        simp only [Bool.false_eq_true, if_false]
        omega

/-- Deduplication keeps an article or counts it. -/
theorem deduplicateWithinRun_counts {articles : List FetchedArticle}
    {deduped : DeduplicationResult} (h : deduplicateWithinRun S U L articles = some deduped) :
    articles.length = deduped.duplicates + deduped.articles.length := by
  unfold deduplicateWithinRun at h
  obtain ⟨items, hitems, rfl⟩ := Option.map_eq_some_iff.mp h
  have hlength : articles.length = items.length := by
    have hmap := congrArg List.length (mapM_eq_some_iff.mp hitems)
    rwa [List.length_map, List.length_map] at hmap
  have hle := length_retained_le items
  show articles.length =
    articles.length - (retained items).length + ((retained items).map (·.article)).length
  rw [List.length_map]
  omega

/-- **One attempt counts every article once**: fetched articles are duplicates within the batch
or accepted, accepted ones are inserted, duplicates of a row or errors, and the table grows by
the inserted ones. -/
theorem countSource_conserved {t t' : RawTable} {articles : List FetchedArticle}
    {v : SourceValues} (h : countSource S U L clock t articles = some (t', v)) :
    v.fetchedCount = v.withinRunDuplicateCount + v.acceptedCount ∧
      v.acceptedCount = v.insertedCount + v.databaseDuplicateCount + v.failedCount ∧
      v.duplicateCount = v.withinRunDuplicateCount + v.databaseDuplicateCount ∧
      t'.values.length = t.values.length + v.insertedCount := by
  unfold countSource at h
  obtain ⟨deduped, hdeduped, heq⟩ := Option.map_eq_some_iff.mp h
  obtain ⟨rfl, rfl⟩ := Prod.mk.inj heq
  have hwithin := deduplicateWithinRun_counts hdeduped
  obtain ⟨hsaved, hrows⟩ := @saveArticles_counts clock S.toHashing 0 deduped.articles t
  refine ⟨hwithin, ?_, ?_, hrows⟩
  · exact hsaved.symm
  · exact Nat.add_comm _ _

/-- The counts of an attempt are those that the steps of the run accept. -/
theorem conserved_countSource {t t' : RawTable} {articles : List FetchedArticle}
    {v : SourceValues} (h : countSource S U L clock t articles = some (t', v))
    (responseBytes : ℕ) :
    (v.counts responseBytes).Conserved ∧ (v.counts responseBytes).accepted = v.acceptedCount := by
  obtain ⟨hfetched, haccepted, -, -⟩ := countSource_conserved h
  have heq : (v.counts responseBytes).accepted = v.acceptedCount := by
    show v.fetchedCount - v.withinRunDuplicateCount = v.acceptedCount
    omega
  refine ⟨⟨?_, ?_⟩, heq⟩
  · rw [heq]
    exact hfetched
  · rw [heq]
    exact haccepted

/-- **The steps of a run are those of the code**: an attempt that fetched these articles takes
the steps `fetch` and `save` with the counts of `countSource`. -/
theorem steps_countSource {t t' : RawTable} {articles : List FetchedArticle} {v : SourceValues}
    (h : countSource S U L clock t articles = some (t', v)) {s s' : State} {a : ℕ × String}
    {fencedAt : Instant} {hashes : List String} (responseBytes : ℕ)
    (hclaimed : (s.attempts a).phase = .claimed)
    (hfenced : (s'.attempts a).phase =
      .fenced ⟨v.fetchedCount, 0, v.withinRunDuplicateCount, 0, 0, responseBytes⟩ fencedAt)
    (hhashes : hashes.length = v.insertedCount) :
    (∃ q, fetch a v.fetchedCount v.withinRunDuplicateCount responseBytes s = some q) ∧
      ∃ q, save a hashes v.databaseDuplicateCount v.failedCount s' = some q ∧
        (q.attempts a).phase = .saved (v.counts responseBytes) fencedAt := by
  obtain ⟨hfetched, haccepted, -, -⟩ := countSource_conserved h
  constructor
  · have hle : v.withinRunDuplicateCount ≤ v.fetchedCount := by omega
    simp only [fetch, hclaimed, if_pos hle]
    exact ⟨_, rfl⟩
  · have hsum : hashes.length + v.databaseDuplicateCount + v.failedCount =
        v.fetchedCount - v.withinRunDuplicateCount := by omega
    simp only [save, hfenced, if_pos hsum]
    refine ⟨_, rfl, ?_⟩
    rw [phase_setAttempt_self, hhashes]
    rfl

end Source

/-! ## The counts on the way to an outcome row -/

variable {config : ℕ → Orchestrator} {s t : State} {tr : List (State × Label)}

/-- What an attempt carries has been counted: the batch once it is fetched, every article once it
is saved. -/
def SourceAttempt.Counted (attempt : SourceAttempt) : Prop :=
  match attempt.phase with
  | .fetched counts | .fenced counts _ => counts.withinRunDuplicates ≤ counts.fetched
  | .saved counts _ | .completing counts _ _ =>
      counts.Conserved ∧ attempt.pending.length = counts.inserted
  | .committed counts => counts.Conserved
  | _ => True

/-- A running row has counted nothing, a completed one every article, a failed one its
failure. -/
def NewsRetrievalSourceOutcome.Counted (row : NewsRetrievalSourceOutcome) : Prop :=
  match row.status with
  | .running => row.counts = .zero
  | .completed => row.counts.Conserved
  | .failed => ∃ responseBytes,
      row.counts = { SourceCounts.zero with failed := 1, responseBytes := responseBytes }

/-- What a fetch leaves in the attempt. -/
theorem fetch_counts {a : ℕ × String} {fetched withinRunDuplicates responseBytes : ℕ}
    (h : fetch a fetched withinRunDuplicates responseBytes s = some t) :
    withinRunDuplicates ≤ fetched ∧
      t = s.moveAttempt a (.fetched ⟨fetched, 0, withinRunDuplicates, 0, 0, responseBytes⟩) := by
  unfold fetch at h
  split at h
  · split at h
    · rename_i hle
      exact ⟨hle, (Option.some.inj h).symm⟩
    · cases h
  · cases h

/-- What a save leaves in the attempt. -/
theorem save_counts {a : ℕ × String} {inserted : List String} {databaseDuplicates errors : ℕ}
    (h : save a inserted databaseDuplicates errors s = some t) :
    ∃ counts fencedAt, (s.attempts a).phase = .fenced counts fencedAt ∧
      inserted.length + databaseDuplicates + errors =
        counts.fetched - counts.withinRunDuplicates ∧
      t = s.setAttempt a ⟨.saved { counts with
        inserted := inserted.length
        databaseDuplicates := databaseDuplicates
        failed := errors } fencedAt, (s.attempts a).lastNow, inserted⟩ := by
  unfold save at h
  split at h
  · rename_i counts fencedAt hphase
    split at h
    · rename_i hsum
      exact ⟨counts, fencedAt, hphase, hsum, (Option.some.inj h).symm⟩
    · cases h
  · cases h

/-- **An attempt keeps its counts** from the fetch to the commit. -/
theorem counted_step (hc : ∀ a, (s.attempts a).Counted) {l : Label}
    (h : step config s l = some t) (a : ℕ × String) : (t.attempts a).Counted := by
  by_cases ha : l.attempt? = some a
  · have hnext := next_step h ha
    have hold := hc a
    unfold SourceAttempt.Counted at hold ⊢
    generalize hp : (s.attempts a).phase = phase at hnext hold
    generalize hq : (t.attempts a).phase = phase' at hnext ⊢
    cases hnext with
    | fetch fetched withinRunDuplicates responseBytes counts =>
        obtain ⟨hle, rfl⟩ := fetch_counts h
        rw [phase_moveAttempt_self] at hq
        obtain rfl := SourcePhase.fetched.inj hq
        exact hle
    | fence now counts => exact hold
    | save inserted databaseDuplicates errors counts counts' fencedAt =>
        obtain ⟨counts₀, fencedAt₀, hphase, hsum, rfl⟩ := save_counts h
        obtain ⟨rfl, -⟩ := SourcePhase.fenced.inj (hp.symm.trans hphase)
        rw [phase_setAttempt_self] at hq
        obtain ⟨rfl, -⟩ := SourcePhase.saved.inj hq
        have hle : counts.withinRunDuplicates ≤ counts.fetched := hold
        refine ⟨⟨?_, ?_⟩, ?_⟩
        · show counts.fetched = counts.withinRunDuplicates +
            (counts.fetched - counts.withinRunDuplicates)
          omega
        · show counts.fetched - counts.withinRunDuplicates = _
          exact hsum.symm
        · rw [attempts_setAttempt_self]
    | complete now counts fencedAt =>
        obtain ⟨counts', fencedAt', -, ⟨row, -, -, -, rfl⟩ | rfl⟩ := complete_eq_some h
        · refine ⟨hold.1, ?_⟩
          rw [attempts_setAttempt_self]
          exact hold.2
        · rw [phase_setAttempt_self] at hq
          cases hq
    | commit counts fencedAt completedAt => exact hold.1
    | _ => trivial
  · rw [attempts_of_ne h ha]
    exact hc a

/-- How a step writes the outcome row of an attempt: it claims a running row, commits an attempt,
or fails a row that the owner holds. -/
inductive RowWrite (config : ℕ → Orchestrator) (s : State) (a : ℕ × String) :
    NewsRetrievalSourceOutcome → Prop
  | claim (row : NewsRetrievalSourceOutcome) (hrunning : row.status = .running)
      (hold : (s.outcomes (outcomeKey config a) = none ∧ row.counts = .zero) ∨
        ∃ row₀, s.outcomes (outcomeKey config a) = some row₀ ∧ row₀.status = .running ∧
          row.counts = row₀.counts) : RowWrite config s a row
  | commit (counts : SourceCounts) (fencedAt completedAt : Instant)
      (row₀ : NewsRetrievalSourceOutcome)
      (hphase : (s.attempts a).phase = .completing counts fencedAt completedAt)
      (hrow₀ : s.outcomes (outcomeKey config a) = some row₀) :
      RowWrite config s a (row₀.complete completedAt counts)
  | fail (now : Instant) (code : FetchFailureCode) (responseBytes : ℕ)
      (row₀ : NewsRetrievalSourceOutcome) (hrow₀ : s.outcomes (outcomeKey config a) = some row₀)
      (hheld : row₀.HeldBy (config a.1).owner now) :
      RowWrite config s a (row₀.fail now code responseBytes)

/-- The `UPDATE` of a claim keeps the counts of a running row. -/
theorem updateSource_row {a : ℕ × String} (h : updateSource config a s = some t) :
    t.outcomes = s.outcomes ∨ ∃ row, t.outcomes =
      Function.update s.outcomes (outcomeKey config a) (some row) ∧ RowWrite config s a row := by
  unfold updateSource at h
  split at h
  · split at h
    · rcases updateOutcomeWhere_eq_some h with ⟨row, hrow, hcond, -, heq⟩ | ⟨-, heq⟩
      · rw [← Option.some.inj heq]
        have hrunning : row.status = .running := (of_decide_eq_true hcond).1
        exact Or.inr ⟨_, rfl, .claim _ hrunning (Or.inr ⟨row, hrow, hrunning, rfl⟩)⟩
      · exact Or.inl (by rw [← Option.some.inj heq]; rfl)
    · rcases updateOutcomeWhere_eq_some h with ⟨row, hrow, hcond, -, heq⟩ | ⟨-, heq⟩
      · rw [← Option.some.inj heq]
        have hrunning : row.status = .running := (of_decide_eq_true hcond).1
        exact Or.inr ⟨_, rfl, .claim _ hrunning (Or.inr ⟨row, hrow, hrunning, rfl⟩)⟩
      · exact Or.inl (by rw [← Option.some.inj heq]; rfl)
  · cases h

/-- **What is written to an outcome row.** -/
theorem rowWrite_step {l : Label} (h : step config s l = some t) :
    t.outcomes = s.outcomes ∨ ∃ a row, l.attempt? = some a ∧
      t.outcomes = Function.update s.outcomes (outcomeKey config a) (some row) ∧
      RowWrite config s a row := by
  rcases outcomes_step h with heq | ⟨a, row, ha, -, -, -, hkind, -⟩
  · exact Or.inl heq
  · -- only a claim, a commit and a failure write
    rcases hkind with hclaims | hstores
    · cases l with
      | updateSource i src =>
          rcases updateSource_row h with heq | ⟨row, heq, hwrite⟩
          · exact Or.inl heq
          · exact Or.inr ⟨(i, src), row, rfl, heq, hwrite⟩
      | insertSource i src =>
          obtain ⟨now, -, rfl | ⟨hnone, rfl⟩⟩ := insertSource_eq_some h
          · exact Or.inl rfl
          · exact Or.inr ⟨(i, src), _, rfl, rfl, .claim _ rfl (Or.inl ⟨hnone, rfl⟩)⟩
      | _ => exact hclaims.elim
    · cases l with
      | commit i src =>
          obtain ⟨counts, fencedAt, completedAt, row₀, hphase, hrow₀, rfl⟩ := commit_eq_some h
          exact Or.inr ⟨(i, src), _, rfl, rfl, .commit counts fencedAt completedAt row₀ hphase hrow₀⟩
      | circuitFailure i src =>
          obtain ⟨-, -, rfl⟩ := circuitFailure_eq_some h
          exact Or.inl rfl
      | fail i src now =>
          obtain ⟨code, responseBytes, -, ⟨row₀, hrow₀, hheld, -, rfl⟩ | ⟨-, rfl⟩⟩ := fail_eq_some h
          · exact Or.inr ⟨(i, src), _, rfl, rfl, .fail now code responseBytes row₀ hrow₀ hheld⟩
          · exact Or.inl rfl
      | _ => exact hstores.elim

/-- Every row that is written has counted what its status says. -/
theorem counted_rowWrite {a : ℕ × String} {row : NewsRetrievalSourceOutcome}
    (hrows : ∀ row₀, s.outcomes (outcomeKey config a) = some row₀ → row₀.Counted)
    (hphase : (s.attempts a).Counted) (h : RowWrite config s a row) : row.Counted := by
  cases h with
  | claim row hrunning hold =>
      have hcounts : row.counts = .zero := by
        rcases hold with ⟨-, hzero⟩ | ⟨row₀, hrow₀, hrunning₀, hsame⟩
        · exact hzero
        · have hcounted := hrows row₀ hrow₀
          rw [NewsRetrievalSourceOutcome.Counted, hrunning₀] at hcounted
          rw [hsame]
          exact hcounted
      rw [NewsRetrievalSourceOutcome.Counted, hrunning]
      exact hcounts
  | commit counts fencedAt completedAt row₀ hcompleting hrow₀ =>
      rw [SourceAttempt.Counted, hcompleting] at hphase
      exact hphase.1
  | fail now code responseBytes row₀ hrow₀ hheld =>
      have hcounted := hrows row₀ hrow₀
      rw [NewsRetrievalSourceOutcome.Counted, hheld.1] at hcounted
      have hzero : row₀.counts = .zero := hcounted
      refine ⟨responseBytes, ?_⟩
      show { row₀.counts with failed := 1, responseBytes := responseBytes } = _
      rw [hzero]

/-- **Outcome rows have counted what their status says.** -/
theorem countedRows_step (hc : ∀ a, (s.attempts a).Counted)
    (hrows : ∀ key row, s.outcomes key = some row → row.Counted) {l : Label}
    (h : step config s l = some t) {key : String × String} {row : NewsRetrievalSourceOutcome}
    (hrow : t.outcomes key = some row) : row.Counted := by
  rcases rowWrite_step h with heq | ⟨a, row', -, heq, hwrite⟩
  · rw [heq] at hrow
    exact hrows key row hrow
  · rw [heq, Function.update_apply] at hrow
    split at hrow
    · obtain rfl := Option.some.inj hrow
      exact counted_rowWrite (hrows _) (hc a) hwrite
    · exact hrows key row hrow

/-- **A finished row does not change.** -/
theorem frozen_step (hf : Fenced config tr s) {l : Label} (h : step config s l = some t)
    {key : String × String} {row : NewsRetrievalSourceOutcome} (hrow : s.outcomes key = some row)
    (hterm : row.Terminal) : t.outcomes key = some row := by
  rcases rowWrite_step h with heq | ⟨a, row', -, heq, hwrite⟩
  · rw [heq]
    exact hrow
  · rw [heq, Function.update_apply]
    split
    · rename_i hkey
      subst hkey
      -- whatever writes the row finds it running
      exfalso
      have hrunning : ∀ row₀, s.outcomes (outcomeKey config a) = some row₀ →
          row₀.status = .running → False := by
        intro row₀ hrow₀ hstatus
        have hsame : row = row₀ := Option.some.inj (hrow.symm.trans hrow₀)
        exact hterm (hsame ▸ hstatus)
      cases hwrite with
      | claim _ _ hold =>
          rcases hold with ⟨hnone, -⟩ | ⟨row₀, hrow₀, hstatus, -⟩
          · rw [hrow] at hnone
            cases hnone
          · exact hrunning row₀ hrow₀ hstatus
      | commit counts fencedAt completedAt row₀ hcompleting hrow₀ =>
          have hfenced := hf.outcome a completedAt (by rw [hcompleting]; rfl)
          obtain ⟨-, row₁, hrow₁, hheld, -⟩ := hfenced
          exact hrunning row₁ hrow₁ hheld.1
      | fail now code responseBytes row₀ hrow₀ hheld => exact hrunning row₀ hrow₀ hheld.1
    · exact hrow

/-! ## The rows that an attempt adds -/

/-- How many raw rows the steps of an attempt added. -/
def added (config : ℕ → Orchestrator) (a : ℕ × String) (tr : List (State × Label)) : ℕ :=
  (tr.map fun x => if x.2.attempt? = some a then
    ((step config x.1 x.2).map fun q => q.raws.length - x.1.raws.length).getD 0 else 0).sum

theorem added_cons {l : Label} (h : step config s l = some t) (a : ℕ × String) :
    added config a ((s, l) :: tr) =
      (if l.attempt? = some a then t.raws.length - s.raws.length else 0) + added config a tr := by
  unfold added
  rw [List.map_cons, List.sum_cons, h]
  rfl

/-- The attempt committed. -/
def Committed (tr : List (State × Label)) (a : ℕ × String) : Prop :=
  ∃ p, (p, .commit a.1 a.2) ∈ tr

/-- The articles of the attempt are saved, and perhaps committed. -/
def SourcePhase.Saved : SourcePhase → Prop
  | .saved _ _ | .completing _ _ _ | .committed _ => True
  | _ => False

/-- What is inserted and not committed is saved. -/
theorem SourcePhase.Holds.saved {phase : SourcePhase} (h : phase.Holds) : phase.Saved := by
  cases phase with
  | saved counts fencedAt => trivial
  | completing counts fencedAt completedAt => trivial
  | _ => exact h.elim

/-- A step of the attempt raised after its articles were saved. -/
def RaisedAfterSave (tr : List (State × Label)) (a : ℕ × String) : Prop :=
  ∃ p code responseBytes, (p, .raise a.1 a.2 code responseBytes) ∈ tr ∧
    (p.attempts a).phase.Saved

/-- The rows an attempt added: those that the row of a committed attempt says, else none as
long as no step raised after the articles were saved. -/
structure Adds (config : ℕ → Orchestrator) (tr : List (State × Label)) (s : State)
    (a : ℕ × String) : Prop where
  raised : RaisedAfterSave tr a → (s.attempts a).phase.Late
  committed : Committed tr a → (s.attempts a).phase.Late ∧ (s.attempts a).pending = [] ∧
    ∃ row, s.outcomes (outcomeKey config a) = some row ∧ row.status = .completed ∧
      row.counts.inserted = added config a tr
  uncommitted : ¬ Committed tr a → ¬ RaisedAfterSave tr a →
    added config a tr = 0 ∧ ((s.attempts a).pending ≠ [] → (s.attempts a).phase.Holds)

theorem adds_initial (clock : Instant) (raws : List String) (a : ℕ × String) :
    Adds config [] (.initial clock raws) a where
  raised := fun ⟨_, _, _, h, _⟩ => absurd h List.not_mem_nil
  committed := fun ⟨_, h⟩ => absurd h List.not_mem_nil
  uncommitted := fun _ _ => ⟨rfl, fun h => absurd rfl h⟩

/-- Steps of others add nothing to what an attempt added. -/
theorem adds_step_of_ne (hf : Fenced config tr s) {a : ℕ × String} (hadds : Adds config tr s a)
    {l : Label} (h : step config s l = some t) (ha : l.attempt? ≠ some a) :
    Adds config ((s, l) :: tr) t a := by
  have hsame := attempts_of_ne h ha
  have hadded : added config a ((s, l) :: tr) = added config a tr := by
    rw [added_cons h, if_neg ha, Nat.zero_add]
  have hcommitted : Committed ((s, l) :: tr) a → Committed tr a := by
    rintro ⟨p, hp⟩
    rcases List.mem_cons.mp hp with heq | hp
    · obtain ⟨-, rfl⟩ := Prod.mk.inj heq
      exact absurd rfl ha
    · exact ⟨p, hp⟩
  refine ⟨?_, ?_, ?_⟩
  · rintro ⟨p, code, responseBytes, hp, hsaved⟩
    rw [hsame]
    rcases List.mem_cons.mp hp with heq | hp
    · obtain ⟨-, rfl⟩ := Prod.mk.inj heq
      exact absurd rfl ha
    · exact hadds.raised ⟨p, code, responseBytes, hp, hsaved⟩
  · intro hc
    obtain ⟨hlate, hpending, row, hrow, hstatus, hinserted⟩ := hadds.committed (hcommitted hc)
    rw [hsame, hadded]
    have hterm : row.Terminal := by
      rw [Terminal, hstatus]
      decide
    exact ⟨hlate, hpending, row, frozen_step hf h hrow hterm, hstatus, hinserted⟩
  · intro hnot hclean
    rw [hsame, hadded]
    refine hadds.uncommitted ?_ ?_
    · rintro ⟨p, hp⟩
      exact hnot ⟨p, List.mem_cons_of_mem _ hp⟩
    · rintro ⟨p, code, responseBytes, hp, hsaved⟩
      exact hclean ⟨p, code, responseBytes, List.mem_cons_of_mem _ hp, hsaved⟩

/-- An attempt with nothing pending adds nothing. -/
theorem length_raws_of_pending {l : Label} (h : step config s l = some t) {a : ℕ × String}
    (ha : l.attempt? = some a) (hpending : l.Stores → (s.attempts a).pending = []) :
    t.raws.length - s.raws.length = 0 := by
  rcases raws_step h with heq | ⟨i, src, heq, hattempt, hstores⟩
  · rw [heq]
    omega
  · obtain rfl : (i, src) = a := Option.some.inj (hattempt.symm.trans ha)
    rw [heq, hpending hstores, List.append_nil]
    omega

/-- The steps of an attempt that has committed add nothing more. -/
theorem adds_step_committed (hf : Fenced config tr s) {a : ℕ × String}
    (hadds : Adds config tr s a) (hc : Committed tr a) {l : Label}
    (h : step config s l = some t) (ha : l.attempt? = some a) :
    (t.attempts a).phase.Late ∧ (t.attempts a).pending = [] ∧
      ∃ row, t.outcomes (outcomeKey config a) = some row ∧ row.status = .completed ∧
        row.counts.inserted = added config a ((s, l) :: tr) := by
  obtain ⟨hlate, hpending, row, hrow, hstatus, hinserted⟩ := hadds.committed hc
  have hnext := next_step h ha
  refine ⟨late_next hnext hlate, ?_, row, ?_, hstatus, ?_⟩
  · by_contra hne
    rcases pending_step h hne with hold | ⟨inserted, databaseDuplicates, errors, rfl⟩
    · exact hold hpending
    · obtain ⟨counts, fencedAt, hphase, -⟩ := save_counts h
      have hphase : (s.attempts a).phase = .fenced counts fencedAt := hphase
      rw [hphase] at hlate
      exact hlate
  · refine frozen_step hf h hrow ?_
    rw [Terminal, hstatus]
    decide
  · have hzero := length_raws_of_pending h ha fun _ => hpending
    rw [added_cons h, if_pos ha, hinserted, hzero, Nat.zero_add]

/-- The commit of an attempt adds what its row says. -/
theorem adds_step_commit (hcount : ∀ a, (s.attempts a).Counted) {a : ℕ × String}
    (hadds : Adds config tr s a) (h : step config s (.commit a.1 a.2) = some t) :
    (t.attempts a).phase.Late ∧ (t.attempts a).pending = [] ∧
      ∃ row, t.outcomes (outcomeKey config a) = some row ∧ row.status = .completed ∧
        row.counts.inserted = added config a ((s, .commit a.1 a.2) :: tr) := by
  have hcommit : commit config a s = some t := h
  obtain ⟨counts, fencedAt, completedAt, row, hphase, hrow, rfl⟩ := commit_eq_some hcommit
  -- an attempt that raised or committed before is past this phase
  have hearly : ¬ (s.attempts a).phase.Late := by
    rw [hphase]
    exact id
  have hnone : added config a tr = 0 :=
    (hadds.uncommitted (fun hc => hearly (hadds.committed hc).1)
      (fun hr => hearly (hadds.raised hr))).1
  have hpending : (s.attempts a).pending.length = counts.inserted := by
    have hc := hcount a
    rw [SourceAttempt.Counted, hphase] at hc
    exact hc.2
  refine ⟨?_, ?_, _, Function.update_self _ _ _, rfl, ?_⟩
  · rw [phase_moveAttempt_self]
    trivial
  · rw [pending_moveAttempt_self]
    exact pending_rollback_self s a
  · have ha : (Label.commit a.1 a.2).attempt? = some a := rfl
    rw [added_cons h, if_pos ha, hnone, Nat.add_zero]
    show counts.inserted = (s.raws ++ (s.attempts a).pending).length - s.raws.length
    rw [List.length_append, hpending]
    omega

/-- Before its commit an attempt that has not raised late adds nothing. -/
theorem adds_step_uncommitted {a : ℕ × String} (hadds : Adds config tr s a) {l : Label}
    (h : step config s l = some t) (ha : l.attempt? = some a)
    (hnot : ¬ Committed ((s, l) :: tr) a) (hclean : ¬ RaisedAfterSave ((s, l) :: tr) a) :
    added config a ((s, l) :: tr) = 0 ∧
      ((t.attempts a).pending ≠ [] → (t.attempts a).phase.Holds) := by
  have hnext := next_step h ha
  obtain ⟨hzero, hholds⟩ := hadds.uncommitted
    (fun ⟨p, hp⟩ => hnot ⟨p, List.mem_cons_of_mem _ hp⟩)
    (fun ⟨p, code, responseBytes, hp, hsaved⟩ =>
      hclean ⟨p, code, responseBytes, List.mem_cons_of_mem _ hp, hsaved⟩)
  have hraise : ∀ code responseBytes, l = .raise a.1 a.2 code responseBytes →
      ¬ (s.attempts a).phase.Saved := by
    rintro code responseBytes rfl hsaved
    exact hclean ⟨s, code, responseBytes, List.mem_cons_self, hsaved⟩
  constructor
  · have hstores : l.Stores → (s.attempts a).pending = [] := by
      intro hstores
      by_contra hne
      have hph := hholds hne
      generalize (s.attempts a).phase = phase at hnext hph
      generalize (t.attempts a).phase = phase' at hnext
      cases hnext with
      | commit counts fencedAt completedAt => exact hnot ⟨s, List.mem_cons_self⟩
      | circuitFailure responseBytes => exact hph
      | fail now code responseBytes => exact hph
      | _ => exact hstores
    rw [added_cons h, if_pos ha, hzero, length_raws_of_pending h ha hstores]
  · intro hpending
    rcases pending_step h hpending with hold | ⟨inserted, databaseDuplicates, errors, rfl⟩
    · have hph := hholds hold
      generalize hp : (s.attempts a).phase = phase at hnext hph
      generalize hq : (t.attempts a).phase = phase' at hnext ⊢
      have hsaved : phase.Saved := hph.saved
      cases hnext with
      | complete now counts fencedAt => trivial
      | completeLost now counts fencedAt =>
          obtain ⟨counts', fencedAt', -, ⟨row, -, -, -, rfl⟩ | rfl⟩ := complete_eq_some h
          · rw [phase_setAttempt_self] at hq
            cases hq
          · exact absurd (congrArg SourceAttempt.pending (attempts_setAttempt_self _ a _)) hpending
      | commit counts fencedAt completedAt => exact absurd ⟨s, List.mem_cons_self⟩ hnot
      | raiseParserError code responseBytes htrying =>
          exact absurd (hp ▸ hsaved) (hraise code responseBytes rfl)
      | raise code responseBytes htrying =>
          exact absurd (hp ▸ hsaved) (hraise code responseBytes rfl)
      | crash hne =>
          obtain ⟨-, rfl⟩ := crash_eq_some h
          rw [pending_moveAttempt_self] at hpending
          exact absurd (pending_rollback_self s a) hpending
      | _ => exact hph.elim
    · obtain ⟨counts, fencedAt, -, -, rfl⟩ := save_counts h
      rw [phase_setAttempt_self]
      trivial

/-- **What an attempt adds**, step by step. -/
theorem added_step (hf : Fenced config tr s) (hcount : ∀ a, (s.attempts a).Counted)
    {a : ℕ × String} (hadds : Adds config tr s a) {l : Label} (h : step config s l = some t) :
    Adds config ((s, l) :: tr) t a := by
  by_cases ha : l.attempt? = some a
  · refine ⟨?_, ?_, ?_⟩
    · rintro ⟨p, code, responseBytes, hp, hsaved⟩
      have hnext := next_step h ha
      rcases List.mem_cons.mp hp with heq | hp
      · obtain ⟨rfl, rfl⟩ := Prod.mk.inj heq
        generalize (p.attempts a).phase = phase at hnext
        generalize (t.attempts a).phase = phase' at hnext ⊢
        cases hnext with
        | raiseParserError code responseBytes htrying => trivial
        | raise code responseBytes htrying => trivial
      · exact late_next hnext (hadds.raised ⟨p, code, responseBytes, hp, hsaved⟩)
    · intro hc
      by_cases hold : Committed tr a
      · exact adds_step_committed hf hadds hold h ha
      · obtain ⟨p, hp⟩ := hc
        rcases List.mem_cons.mp hp with heq | hp
        · obtain ⟨rfl, rfl⟩ := Prod.mk.inj heq
          exact adds_step_commit hcount hadds h
        · exact absurd ⟨p, hp⟩ hold
    · exact adds_step_uncommitted hadds h ha
  · exact adds_step_of_ne hf hadds h ha

/-! ## Runs -/

/-- What every run keeps. -/
structure Conserving (config : ℕ → Orchestrator) (tr : List (State × Label)) (s : State) :
    Prop where
  fenced : Fenced config tr s
  attempts : ∀ a, (s.attempts a).Counted
  rows : ∀ key row, s.outcomes key = some row → row.Counted
  adds : ∀ a, Adds config tr s a

theorem conserving_of_execution {clock : Instant} {raws : List String}
    (h : Execution (step config) unguarded (.initial clock raws) tr t) : Conserving config tr t := by
  refine h.traceInvariant ?_ ?_
  · refine ⟨fenced_initial clock raws, fun a => trivial, ?_, adds_initial clock raws⟩
    intro key row hrow
    cases hrow
  · intro tr p l q hp _ hq
    exact ⟨fenced_step hp.fenced hq, counted_step hp.attempts hq,
      fun key row hrow => countedRows_step hp.attempts hp.rows hq hrow,
      fun a => added_step hp.fenced hp.attempts (hp.adds a) hq⟩

end ProcureSignal.Retrieval
