/-
# What a source attempt reports

`_source` of `retrieval/orchestrator.py` from its claim on: the body of its `try`, in the session
that the attempt has for itself, the handler, and an exception at any step of the body.

* `Session` : what is committed, and what the open transaction sees;
* `saveArticles_eq_self_iff` : when saving inserts nothing;
* `handle_eq` : what the handler leaves and reports;
* `agrees_iff` : **when the report and the durable rows agree**.
-/
import ProcureSignal.Library.Raising
import ProcureSignal.Retrieval.Circuit
import ProcureSignal.Retrieval.Counters
import ProcureSignal.Retrieval.Designations

namespace ProcureSignal.Retrieval.Report

open Circuit

/-! ## Sessions -/

/-- The rows that an attempt writes. -/
structure Tables where
  raws : RawTable
  outcome : NewsRetrievalSourceOutcome
  circuit : Option NewsRetrievalCircuit

/-- What is committed, and what the transaction of the session sees. -/
structure Session where
  durable : Tables
  current : Tables

/-- `session.commit()`. -/
def Session.commit (s : Session) : Session := ⟨s.current, s.current⟩

/-- `session.rollback()`. -/
def Session.rollback (s : Session) : Session := ⟨s.durable, s.durable⟩

/-- An exception, as the handler tells them apart. -/
inductive Exc
  /-- a `RetrievalFetchError` with its result -/
  | fetch (failureCode : Option FetchFailureCode) (responseBytes : ℕ)
  /-- a `TimeoutError` or a `ConnectionError` -/
  | connection
  | other
  deriving DecidableEq, Repr

/-- The failure code of an exception. -/
def Exc.code : Exc → FetchFailureCode
  | fetch failureCode _ => failureCode.getD .networkError
  | connection => .networkError
  | other => .parserError

/-- The bytes that a failed fetch had read. -/
def Exc.responseBytes : Exc → ℕ
  | fetch _ responseBytes => responseBytes
  | _ => 0

/-- A program of the session; an exception leaves the session as it is. -/
abbrev Transaction := Raising Exc Session

/-! ## Faults -/

/-- What a commit that raises has done. -/
inductive CommitFault
  /-- the session is rolled back -/
  | rolledBack
  /-- the transaction is still open -/
  | pending
  /-- the server has committed, and its answer was lost -/
  | committed
  deriving DecidableEq, Repr

/-- Where a step of the `try` raises.  Saving may have sent some articles, and the update of the
outcome row may have been made. -/
inductive Fault
  | provider (exc : Exc)
  | fetch (exc : Exc)
  | deduplicate (exc : Exc)
  | fence (exc : Exc)
  | save (sent : ℕ) (exc : Exc)
  | complete (updated : Bool) (exc : Exc)
  | commit (fault : CommitFault) (exc : Exc)
  | circuitSuccess (exc : Exc)
  | circuitState (exc : Exc)
  deriving DecidableEq, Repr

/-- One attempt: what its provider returns and makes of the circuit row, whether the fence finds
the run row held, and the times that are read. -/
structure Attempt where
  owner : String
  articles : List FetchedArticle
  circuit : Option NewsRetrievalCircuit
  responseBytes : ℕ
  fenced : Bool
  completedAt : Instant
  handledAt : Instant
  failedAt : Instant

section Source

variable (S : Serializing) (U : Unicode) (L : UrlParsing) (clock : ℕ → Instant) (A : Attempt)

/-! ## The steps of the `try` -/

/-- `_provider`. -/
def provide : Option Fault → Transaction Unit
  | some (.provider exc) => throw exc
  | _ => pure ()

/-- `fetch_articles`, and the loop that stamps the articles.  The fetch commits the circuit row in
this session, before anything else is written. -/
def fetchArticles (fault : Option Fault) : Transaction (List FetchedArticle) := do
  modify fun s => Session.commit { s with current := { s.current with circuit := A.circuit } }
  match fault with
  | some (.fetch exc) => throw exc
  | _ => pure A.articles

/-- `deduplicate_within_run`. -/
def deduplicate (articles : List FetchedArticle) : Option Fault → Transaction DeduplicationResult
  | some (.deduplicate exc) => throw exc
  | _ =>
      match deduplicateWithinRun S U L articles with
      | some deduped => pure deduped
      | none => throw .other

/-- `fence_run`. -/
def fenceRun : Option Fault → Transaction Bool
  | some (.fence exc) => throw exc
  | _ => pure A.fenced

/-- `save_articles` without its commit. -/
def save (articles : List FetchedArticle) : Option Fault → Transaction SaveCounts
  | some (.save sent exc) => do
      modify fun s => { s with current := { s.current with
        raws := (saveArticles S.toHashing clock 0 (articles.take sent) s.current.raws).1 } }
      throw exc
  | _ => do
      let saved := saveArticles S.toHashing clock 0 articles (← get).current.raws
      modify fun s => { s with current := { s.current with raws := saved.1 } }
      pure saved.2

/-- The `UPDATE` of `_update_source`. -/
def updateSource (now : Instant)
    (values : NewsRetrievalSourceOutcome → NewsRetrievalSourceOutcome) (s : Session) :
    Bool × Session :=
  if s.current.outcome.HeldBy A.owner now then
    (true, { s with current := { s.current with outcome := values s.current.outcome } })
  else (false, s)

/-- `complete_source` without its commit. -/
def completeSource (counts : SourceCounts) : Option Fault → Transaction Bool
  | some (.complete updated exc) => do
      if updated then
        modify fun s => (updateSource A A.completedAt (·.complete A.completedAt counts) s).2
      throw exc
  | _ => modifyGet (updateSource A A.completedAt (·.complete A.completedAt counts))

/-- The commit of the articles with the completed outcome row. -/
def commit : Option Fault → Transaction Unit
  | some (.commit fault exc) => do
      match fault with
      | .rolledBack => modify Session.rollback
      | .pending => pure ()
      | .committed => modify Session.commit
      throw exc
  | _ => modify Session.commit

/-- `record_circuit_success`, which commits. -/
def recordCircuitSuccess : Option Fault → Transaction Unit
  | some (.circuitSuccess exc) => throw exc
  | _ => modify fun s => Session.commit { s with current := { s.current with
      circuit := s.current.circuit.map fun c => if c.Closable A.owner then .closed else c } }

/-- `circuit_state`, which commits. -/
def circuitState : Option Fault → Transaction Unit
  | some (.circuitState exc) => throw exc
  | _ => modify Session.commit

/-- The body of the `try`. -/
def body (fault : Option Fault) : Transaction SourceRetrievalResult := do
  provide fault
  let articles ← fetchArticles A fault
  let deduped ← deduplicate S U L articles fault
  if !(← fenceRun A fault) then
    modify Session.rollback
    return leaseLostResult
  let saved ← save S clock deduped.articles fault
  let counts : SourceCounts := ⟨articles.length, saved.inserted, deduped.duplicates,
    saved.duplicates, saved.errors, A.responseBytes⟩
  if !(← completeSource A counts fault) then
    modify Session.rollback
    return leaseLostResult
  commit fault
  recordCircuitSuccess A fault
  circuitState fault
  return ⟨.completed, counts, none⟩

/-! ## The handler -/

/-- `record_circuit_failure`, which commits. -/
def recordCircuitFailure (s : Session) : Session :=
  Session.commit { s with current := { s.current with
    circuit := some ((s.current.circuit.getD .closed).fail A.handledAt) } }

/-- `fail_source`, which commits whether or not the row matched. -/
def failSource (exc : Exc) (s : Session) : Session :=
  (updateSource A A.failedAt (·.fail A.failedAt exc.code exc.responseBytes) s).2.commit

/-- The `except` of `_source`. -/
def handle (exc : Exc) (s : Session) : SourceRetrievalResult × Session :=
  let s := if exc.code = .parserError then recordCircuitFailure A s else s
  (failedResult exc.code exc.responseBytes, failSource A exc s)

/-- `_source` from its claim on. -/
def source (fault : Option Fault) (s : Session) : SourceRetrievalResult × Session :=
  match (body S U L clock A fault).exec s with
  | (.ok result, s) => (result, s)
  | (.error exc, s) => handle A exc s

/-! ## The two sides -/

/-- The rows that saving the attempt's articles leaves. -/
def savedRaws (raws : RawTable) : RawTable :=
  match deduplicateWithinRun S U L A.articles with
  | some deduped => (saveArticles S.toHashing clock 0 deduped.articles raws).1
  | none => raws

/-- The report has the status and the counts of the outcome row, and the articles of the attempt
are stored where that row is completed, and none of them elsewhere. -/
structure Agrees (t : Tables) (result : SourceRetrievalResult) (s : Session) : Prop where
  status : result.status = .completed ∧ s.durable.outcome.status = .completed ∨
    result.status = .failed ∧ s.durable.outcome.status = .failed
  counts : result.counts = s.durable.outcome.counts
  stored : s.durable.outcome.status = .completed →
    s.durable.raws = savedRaws S U L clock A t.raws
  unstored : s.durable.outcome.status ≠ .completed → s.durable.raws = t.raws

/-- The hash of each of these articles is stored, so that saving them adds no row. -/
def NothingNew (raws : RawTable) (articles : List FetchedArticle) : Prop :=
  ∀ a ∈ articles, a.storable = true →
    createIngestHash S.toHashing a ∈ raws.values.map (·.ingestHash)

/-- The step that raises leaves nothing of the attempt for the handler to commit: it is one up to
the fence, or a save or an update that sent no new row, or a commit that was rolled back. -/
def Clean (raws : RawTable) : Option Fault → Prop
  | none | some (.provider _) | some (.fetch _) | some (.deduplicate _) | some (.fence _) => True
  | some fault =>
      -- without a result of the deduplication, no later step is reached
      ∀ deduped ∈ deduplicateWithinRun S U L A.articles,
        match fault with
        | .save sent _ => NothingNew S raws (deduped.articles.take sent)
        | .complete updated _ => updated = false ∧ NothingNew S raws deduped.articles
        | .commit fault _ => fault = .rolledBack
        | _ => False

/-- The counts of the attempt. -/
def countsOf (raws : RawTable) (deduped : DeduplicationResult) : SourceCounts :=
  let saved := (saveArticles S.toHashing clock 0 deduped.articles raws).2
  ⟨A.articles.length, saved.inserted, deduped.duplicates, saved.duplicates, saved.errors,
    A.responseBytes⟩

/-- The raw articles and the outcome row that the transaction sees after a step has raised. -/
def left (t : Tables) (deduped : DeduplicationResult) :
    Fault → RawTable × NewsRetrievalSourceOutcome
  | .save sent _ =>
      ((saveArticles S.toHashing clock 0 (deduped.articles.take sent) t.raws).1, t.outcome)
  | .complete false _ =>
      ((saveArticles S.toHashing clock 0 deduped.articles t.raws).1, t.outcome)
  | .complete true _ | .commit .pending _ | .commit .committed _ | .circuitSuccess _
  | .circuitState _ =>
      ((saveArticles S.toHashing clock 0 deduped.articles t.raws).1,
        t.outcome.complete A.completedAt (countsOf S clock A t.raws deduped))
  | _ => (t.raws, t.outcome)

variable {S U L clock A} {t : Tables} {fault : Option Fault} {exc : Exc} {s : Session}

/-- Saving inserts nothing exactly when each hash is stored. -/
theorem saveArticles_eq_self_iff {H : Hashing} (articles : List FetchedArticle) (raws : RawTable) :
    (saveArticles H clock 0 articles raws).1 = raws ↔
      ∀ a ∈ articles, a.storable = true →
        createIngestHash H a ∈ raws.values.map (·.ingestHash) := by
  constructor
  · intro h a ha hstorable
    have hsaved := (@hash_mem_saveArticles H clock 0 articles raws).2 a ha hstorable
    rwa [h] at hsaved
  · exact fun h => saveArticles_of_taken 0 h

/-! ## What the handler leaves -/

/-- **The handler commits what it finds**, with the outcome row failed where the lease is still
there. -/
theorem handle_eq (exc : Exc) (s : Session) :
    (handle A exc s).1 = failedResult exc.code exc.responseBytes ∧
      (handle A exc s).2.durable.raws = s.current.raws ∧
      (handle A exc s).2.durable.outcome =
        if s.current.outcome.HeldBy A.owner A.failedAt then
          s.current.outcome.fail A.failedAt exc.code exc.responseBytes
        else s.current.outcome := by
  have hpending : ∀ q : Session, q.current.raws = s.current.raws →
      q.current.outcome = s.current.outcome →
      (failSource A exc q).durable.raws = s.current.raws ∧
        (failSource A exc q).durable.outcome =
          if s.current.outcome.HeldBy A.owner A.failedAt then
            s.current.outcome.fail A.failedAt exc.code exc.responseBytes
          else s.current.outcome := by
    intro q hraws houtcome
    unfold failSource updateSource
    rw [houtcome]
    split
    · exact ⟨hraws, rfl⟩
    · exact ⟨hraws, houtcome⟩
  unfold handle
  refine ⟨rfl, ?_⟩
  by_cases hcode : exc.code = .parserError
  · simp only [if_pos hcode]
    exact hpending (recordCircuitFailure A s) rfl rfl
  · simp only [if_neg hcode]
    exact hpending s rfl rfl

/-- After the handler the report agrees exactly where it found the session without rows of the
attempt. -/
theorem agrees_handle_iff (hheld : t.outcome.HeldBy A.owner A.failedAt)
    (hcounts : t.outcome.counts = .zero)
    (houtcome : s.current.outcome = t.outcome ∨ s.current.outcome.status = .completed) :
    Agrees S U L clock A t (handle A exc s).1 (handle A exc s).2 ↔
      s.current.outcome = t.outcome ∧ s.current.raws = t.raws := by
  obtain ⟨hresult, hraws, hrow⟩ := handle_eq (A := A) exc s
  constructor
  · intro h
    have hreport : (handle A exc s).1.status = .failed := by rw [hresult]; rfl
    have hfailed : (handle A exc s).2.durable.outcome.status = .failed := by
      rcases h.status with ⟨hcompleted, -⟩ | ⟨-, hfailed⟩
      · rw [hreport] at hcompleted
        cases hcompleted
      · exact hfailed
    have hunstored := h.unstored (by rw [hfailed]; decide)
    rcases houtcome with houtcome | hcompleted
    · exact ⟨houtcome, hraws.symm.trans hunstored⟩
    · -- a completed row is not failed again
      have hnot : ¬ s.current.outcome.HeldBy A.owner A.failedAt := by
        rintro ⟨hrunning, -⟩
        rw [hrunning] at hcompleted
        cases hcompleted
      rw [hrow, if_neg hnot, hcompleted] at hfailed
      cases hfailed
  · rintro ⟨houtcome, hsame⟩
    rw [houtcome, if_pos hheld] at hrow
    constructor
    · exact Or.inr ⟨by rw [hresult]; rfl, by rw [hrow]; rfl⟩
    · rw [hresult, hrow]
      show _ = { t.outcome.counts with failed := 1, responseBytes := exc.responseBytes }
      rw [hcounts]
      rfl
    · intro hcompleted
      rw [hrow] at hcompleted
      cases hcompleted
    · exact fun _ => hraws.trans hsame

/-! ## What a step that raises leaves -/

/-- A deduplication that raises is reached with nothing written. -/
theorem left_of_undeduplicated (hnone : deduplicateWithinRun S U L A.articles = none)
    (hraised : (body S U L clock A fault).exec ⟨t, t⟩ = (.error exc, s)) :
    s.current.outcome = t.outcome ∧ s.current.raws = t.raws := by
  unfold body at hraised
  rcases fault with - | fault
  · simp [provide, fetchArticles, deduplicate, hnone, Session.commit] at hraised
    rw [← hraised.2]
    exact ⟨rfl, rfl⟩
  · cases fault <;> simp [provide, fetchArticles, deduplicate, hnone, Session.commit] at hraised
    all_goals
      rw [← hraised.2]
      exact ⟨rfl, rfl⟩

/-- Without the run row, nothing past the fence is reached. -/
theorem left_of_unfenced {deduped : DeduplicationResult}
    (hdeduped : deduplicateWithinRun S U L A.articles = some deduped) (hfenced : A.fenced = false)
    (hraised : (body S U L clock A fault).exec ⟨t, t⟩ = (.error exc, s)) :
    ∃ f ∈ fault, (s.current.raws, s.current.outcome) = left S clock A t deduped f := by
  unfold body at hraised
  rcases fault with - | fault
  · simp [provide, fetchArticles, deduplicate, hdeduped, fenceRun, hfenced] at hraised
  · refine ⟨fault, rfl, ?_⟩
    cases fault <;>
      simp [provide, fetchArticles, deduplicate, hdeduped, fenceRun, hfenced] at hraised
    all_goals
      rw [← hraised.2]
      rfl

/-- **What a step that raises leaves.** -/
theorem left_of_raised {deduped : DeduplicationResult}
    (hdeduped : deduplicateWithinRun S U L A.articles = some deduped)
    (hheld : t.outcome.HeldBy A.owner A.completedAt)
    (hraised : (body S U L clock A fault).exec ⟨t, t⟩ = (.error exc, s)) :
    ∃ f ∈ fault, (s.current.raws, s.current.outcome) = left S clock A t deduped f := by
  by_cases hfenced : A.fenced = true
  · unfold body at hraised
    rcases fault with - | fault
    · -- nothing raises
      simp [provide, fetchArticles, deduplicate, hdeduped, Session.commit, fenceRun, hfenced,
        save, completeSource, updateSource, hheld, commit, recordCircuitSuccess,
        circuitState] at hraised
    · refine ⟨fault, rfl, ?_⟩
      cases fault with
      | provider exc | fetch exc | deduplicate exc | fence exc =>
          simp [provide, fetchArticles, deduplicate, hdeduped, fenceRun] at hraised
          rw [← hraised.2]
          rfl
      | save sent exc =>
          simp [provide, fetchArticles, deduplicate, hdeduped, Session.commit, fenceRun, hfenced,
            save] at hraised
          rw [← hraised.2]
          rfl
      | complete updated exc =>
          cases updated
          all_goals
            simp [provide, fetchArticles, deduplicate, hdeduped, Session.commit, fenceRun, hfenced,
              save, completeSource, updateSource, hheld] at hraised
            rw [← hraised.2]
            rfl
      | commit fault exc =>
          cases fault
          all_goals
            simp [provide, fetchArticles, deduplicate, hdeduped, Session.commit, fenceRun, hfenced,
              save, completeSource, updateSource, hheld, commit] at hraised
            rw [← hraised.2]
            rfl
      | circuitSuccess exc | circuitState exc =>
          simp [provide, fetchArticles, deduplicate, hdeduped, Session.commit, fenceRun, hfenced,
            save, completeSource, updateSource, hheld, commit, recordCircuitSuccess,
            circuitState] at hraised
          rw [← hraised.2]
          rfl
  · exact left_of_unfenced hdeduped (Bool.eq_false_iff.mpr hfenced) hraised

/-- A running row is not what completing it makes. -/
theorem complete_ne {row : NewsRetrievalSourceOutcome} {owner : String} {now : Instant}
    (hheld : row.HeldBy owner now) (counts : SourceCounts) : row.complete now counts ≠ row := by
  intro heq
  have hstatus : OutcomeStatus.completed = row.status :=
    congrArg NewsRetrievalSourceOutcome.status heq
  rw [hheld.1] at hstatus
  cases hstatus

/-- **A step that raises leaves nothing** of the attempt exactly under the condition, and the
outcome row as it was or completed. -/
theorem unchanged_iff_clean (hheld : t.outcome.HeldBy A.owner A.completedAt)
    (hraised : (body S U L clock A fault).exec ⟨t, t⟩ = (.error exc, s)) :
    (s.current.outcome = t.outcome ∨ s.current.outcome.status = .completed) ∧
      ((s.current.outcome = t.outcome ∧ s.current.raws = t.raws) ↔
        Clean S U L A t.raws fault) := by
  cases hdeduped : deduplicateWithinRun S U L A.articles with
  | none =>
      have hleft := left_of_undeduplicated hdeduped hraised
      refine ⟨Or.inl hleft.1, iff_of_true hleft ?_⟩
      rcases fault with - | fault
      · trivial
      · cases fault <;> simp [Clean, hdeduped]
  | some deduped =>
      obtain ⟨f, rfl, hleft⟩ := left_of_raised hdeduped hheld hraised
      obtain ⟨hraws, houtcome⟩ := Prod.mk.inj hleft
      have hne := complete_ne hheld (countsOf S clock A t.raws deduped)
      have hnew := @saveArticles_eq_self_iff clock S.toHashing
      rw [hraws, houtcome]
      cases f with
      | provider exc | fetch exc | deduplicate exc | fence exc =>
          exact ⟨Or.inl rfl, iff_of_true ⟨rfl, rfl⟩ trivial⟩
      | save sent exc =>
          refine ⟨Or.inl rfl, ?_⟩
          simp [Clean, hdeduped, NothingNew, hnew]
      | complete updated exc =>
          cases updated with
          | false =>
              refine ⟨Or.inl rfl, ?_⟩
              simp [Clean, hdeduped, NothingNew, hnew]
          | true =>
              refine ⟨Or.inr rfl, iff_of_false (fun h => hne h.1) fun h => ?_⟩
              exact Bool.noConfusion (h deduped hdeduped).1
      | commit fault exc =>
          cases fault with
          | rolledBack => exact ⟨Or.inl rfl, iff_of_true ⟨rfl, rfl⟩ fun _ _ => rfl⟩
          | pending | committed =>
              refine ⟨Or.inr rfl, iff_of_false (fun h => hne h.1) fun h => ?_⟩
              exact CommitFault.noConfusion (h deduped hdeduped)
      | circuitSuccess exc | circuitState exc =>
          exact ⟨Or.inr rfl, iff_of_false (fun h => hne h.1) fun h => h deduped hdeduped⟩

/-- **When the report and the durable rows agree**: an attempt whose row is running under its
lease, and of which some step raises. -/
theorem agrees_iff (hcompleted : t.outcome.HeldBy A.owner A.completedAt)
    (hfailed : t.outcome.HeldBy A.owner A.failedAt) (hcounts : t.outcome.counts = .zero)
    (hraised : (body S U L clock A fault).exec ⟨t, t⟩ = (.error exc, s)) :
    Agrees S U L clock A t (source S U L clock A fault ⟨t, t⟩).1
        (source S U L clock A fault ⟨t, t⟩).2 ↔
      Clean S U L A t.raws fault := by
  have hsource : source S U L clock A fault ⟨t, t⟩ = handle A exc s := by
    unfold source
    rw [hraised]
  obtain ⟨houtcome, hclean⟩ := unchanged_iff_clean hcompleted hraised
  rw [hsource, agrees_handle_iff hfailed hcounts houtcome, hclean]

end Source

/-! ## One designation -/

section Designation

open Sanctions (plainSerializing plainUrls asciiDecimal cataloguedSanctions exportOf)

/-- An attempt at an export of one designation. -/
def oneDesignation : Attempt where
  owner := "worker"
  articles := (cataloguedSanctions.fetch plainSerializing .ascii asciiDecimal
    (exportOf ["Alpha"])).getD []
  circuit := none
  responseBytes := 512
  fenced := true
  completedAt := 1
  handledAt := 2
  failedAt := 3

/-- The rows after its claim. -/
def claimed : Tables := ⟨UniqueTable.empty, .start "worker" 0, none⟩

/-- The `try` of the attempt. -/
abbrev tryOnce (fault : Fault) : Except Exc SourceRetrievalResult × Session :=
  (body plainSerializing .ascii plainUrls (fun _ => 0) oneDesignation (some fault)).exec
    ⟨claimed, claimed⟩

/-- The attempt with its handler. -/
abbrev sourceOnce (fault : Fault) : SourceRetrievalResult × Session :=
  source plainSerializing .ascii plainUrls (fun _ => 0) oneDesignation (some fault)
    ⟨claimed, claimed⟩

/-- A commit that rolls back. -/
theorem agrees_iff_rolledBack :
    Agrees plainSerializing .ascii plainUrls (fun _ => 0) oneDesignation claimed
        (sourceOnce (.commit .rolledBack .connection)).1
        (sourceOnce (.commit .rolledBack .connection)).2 ↔
      Clean plainSerializing .ascii plainUrls oneDesignation claimed.raws
        (some (.commit .rolledBack .connection)) :=
  agrees_iff (by decide) (by decide) rfl
    (Prod.ext (by decide +kernel : (tryOnce (.commit .rolledBack .connection)).1 =
      .error .connection) rfl)

/-- **A completed attempt that is reported as failed.**  Recording the success of the circuit
raises after the commit: the designation is stored under a completed row, and the report counts one
failure.  Where the save raises at its end, the handler commits the designation with a failed
row. -/
theorem completed_reportedFailed :
    (tryOnce (.circuitSuccess .connection)).1 = .error .connection ∧
      (sourceOnce (.circuitSuccess .connection)).1.status = .failed ∧
      (sourceOnce (.circuitSuccess .connection)).2.durable.outcome.status = .completed ∧
      ¬ Agrees plainSerializing .ascii plainUrls (fun _ => 0) oneDesignation claimed
        (sourceOnce (.circuitSuccess .connection)).1
        (sourceOnce (.circuitSuccess .connection)).2 ∧
      (sourceOnce (.save 1 .connection)).2.durable.outcome.status = .failed ∧
      (sourceOnce (.save 1 .connection)).2.durable.raws.values.length = 1 := by
  have hreport : (sourceOnce (.circuitSuccess .connection)).1.status = .failed := by
    decide +kernel
  have hrow : (sourceOnce (.circuitSuccess .connection)).2.durable.outcome.status =
      .completed := by
    decide +kernel
  refine ⟨by decide +kernel, hreport, hrow, fun h => ?_, by decide +kernel, by decide +kernel⟩
  rcases h.status with ⟨hcompleted, -⟩ | ⟨-, hfailed⟩
  · rw [hreport] at hcompleted
    cases hcompleted
  · rw [hrow] at hfailed
    cases hfailed

end Designation

end ProcureSignal.Retrieval.Report
