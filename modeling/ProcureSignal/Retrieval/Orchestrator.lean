/-
# Retrieval orchestrators sharing an ingestion run

`retrieval/orchestrator.py` as a transition system.  Any number of orchestrators (one
for each call of `run`) work on shared tables; each source of a call is an attempt
(`_source`) with a session of its own.  A step is one statement, one commit, or the
local code between two of them; steps of different attempts interleave freely, any
step after a claim may raise, and any attempt may die, which rolls its session back.

* A conditional `UPDATE` that matches takes the row lock and holds it until the session
  commits or rolls back; while another session holds the lock the step is not enabled.
  An `UPDATE` followed at once by its commit is one step.
* Statements see committed rows.  What a session wrote and did not commit is kept in its
  attempt (`pending`, and the phase for the outcome row).
* There is one clock; every reading of it by a call is at most the clock and at least
  the call's previous reading.

`step` runs one label; the `…_eq_some` lemmas say what each label does.
-/
import ProcureSignal.Library.Execution
import ProcureSignal.Retrieval.Audit

namespace ProcureSignal.Retrieval

/-! ## The state -/

/-- One call of `run`: the owner of the orchestrator, the run key, the enabled sources. -/
structure Orchestrator where
  owner : String
  runKey : String
  registryVersion : String
  enabled : List String

/-- `SourceRetrievalResult.status`. -/
inductive ResultStatus
  | completed
  | failed
  | alreadyClaimed
  | leaseLost
  deriving DecidableEq, Repr

/-- `SourceRetrievalResult`. -/
structure SourceRetrievalResult where
  status : ResultStatus
  counts : SourceCounts
  failureCode : Option String
  deriving DecidableEq, Repr

/-- Where an attempt is.  The phases from `fenced` to `completing` hold an open
transaction; they carry the times at which its two leases were checked. -/
inductive SourcePhase
  | idle
  /-- `claim_source` has read the row. -/
  | selected (now : Instant) (existing : Option NewsRetrievalSourceOutcome)
  /-- the take-over matched no row; the insert is next. -/
  | inserting (now : Instant)
  /-- `claim_source` returned `False`. -/
  | unclaimed
  | claimed
  | fetched (counts : SourceCounts)
  | fenced (counts : SourceCounts) (fencedAt : Instant)
  | saved (counts : SourceCounts) (fencedAt : Instant)
  | completing (counts : SourceCounts) (fencedAt completedAt : Instant)
  | committed (counts : SourceCounts)
  /-- in the handler, before the circuit failure is recorded. -/
  | handling (responseBytes : ℕ)
  /-- in the handler, before `fail_source`. -/
  | failing (code : FetchFailureCode) (responseBytes : ℕ)
  | done (result : SourceRetrievalResult)
  | dead
  deriving DecidableEq, Repr

/-- One call of `_source`; `pending` are the ingest hashes inserted and not committed. -/
structure SourceAttempt where
  phase : SourcePhase
  lastNow : Instant
  pending : List String
  deriving DecidableEq, Repr

/-- `RetrievalRunResult.status`. -/
inductive RunResultStatus
  | alreadyCompleted
  | alreadyRunning
  | leaseLost
  | completed
  deriving DecidableEq, Repr

/-- Where a call of `run` is. -/
inductive RunPhase
  | idle
  /-- `_claim` has read the row. -/
  | claiming (now : Instant) (seen : Option NewsRetrievalRun)
  /-- the insert met another row; it is read again. -/
  | conflict (now : Instant)
  | gathering
  | finished (status : RunResultStatus)
  | dead
  deriving DecidableEq, Repr

/-- One call of `run`. -/
structure RunCall where
  phase : RunPhase
  lastNow : Instant
  deriving DecidableEq, Repr

/-- Committed tables, row locks, and the local state of every call and attempt. -/
structure State where
  clock : Instant
  runs : String → Option NewsRetrievalRun
  outcomes : String × String → Option NewsRetrievalSourceOutcome
  raws : List String
  runLock : String → Option (ℕ × String)
  outcomeLock : String × String → Option (ℕ × String)
  calls : ℕ → RunCall
  attempts : ℕ × String → SourceAttempt

/-- No run started; the clock at `t`, any articles stored. -/
def State.initial (t : Instant) (raws : List String) : State where
  clock := t
  runs := fun _ => none
  outcomes := fun _ => none
  raws := raws
  runLock := fun _ => none
  outcomeLock := fun _ => none
  calls := fun _ => ⟨.idle, t⟩
  attempts := fun _ => ⟨.idle, t, []⟩

/-- What happens next; `i` is the call, `src` the source of the attempt. -/
inductive Label
  | tick (t : Instant)
  | readRun (i : ℕ) (now : Instant)
  | insertRun (i : ℕ)
  | rereadRun (i : ℕ)
  | updateRun (i : ℕ)
  | completeRun (i : ℕ) (now : Instant)
  | crashRun (i : ℕ)
  | selectSource (i : ℕ) (src : String) (now : Instant)
  | updateSource (i : ℕ) (src : String)
  | lockedSource (i : ℕ) (src : String)
  | insertSource (i : ℕ) (src : String)
  | rereadSource (i : ℕ) (src : String)
  | fetch (i : ℕ) (src : String) (fetched withinRunDuplicates responseBytes : ℕ)
  | fence (i : ℕ) (src : String) (now : Instant)
  | save (i : ℕ) (src : String) (inserted : List String) (databaseDuplicates errors : ℕ)
  | complete (i : ℕ) (src : String) (now : Instant)
  | commit (i : ℕ) (src : String)
  | finish (i : ℕ) (src : String)
  | raise (i : ℕ) (src : String) (code : FetchFailureCode) (responseBytes : ℕ)
  | circuitFailure (i : ℕ) (src : String)
  | fail (i : ℕ) (src : String) (now : Instant)
  | crash (i : ℕ) (src : String)
  deriving DecidableEq, Repr

/-! ## Writes -/

namespace State

variable (s : State)

/-- Move a call of `run`. -/
def setCall (i : ℕ) (phase : RunPhase) (now : Instant) : State :=
  { s with calls := Function.update s.calls i ⟨phase, now⟩ }

/-- Move a call of `run` that reads no clock. -/
def moveCall (i : ℕ) (phase : RunPhase) : State := s.setCall i phase (s.calls i).lastNow

/-- Move an attempt. -/
def setAttempt (a : ℕ × String) (attempt : SourceAttempt) : State :=
  { s with attempts := Function.update s.attempts a attempt }

/-- Move an attempt that reads no clock and inserts nothing. -/
def moveAttempt (a : ℕ × String) (phase : SourcePhase) : State :=
  s.setAttempt a { s.attempts a with phase := phase }

/-- Commit a run row. -/
def setRun (key : String) (run : NewsRetrievalRun) : State :=
  { s with runs := Function.update s.runs key (some run) }

/-- Commit an outcome row. -/
def setOutcome (key : String × String) (row : NewsRetrievalSourceOutcome) : State :=
  { s with outcomes := Function.update s.outcomes key (some row) }

/-- Take the lock of a run row. -/
def lockRun (key : String) (a : ℕ × String) : State :=
  { s with runLock := Function.update s.runLock key (some a) }

/-- Take the lock of an outcome row. -/
def lockOutcome (key : String × String) (a : ℕ × String) : State :=
  { s with outcomeLock := Function.update s.outcomeLock key (some a) }

/-- End the transaction of an attempt: its locks are free again. -/
def release (a : ℕ × String) : State :=
  { s with
    runLock := fun key => if s.runLock key = some a then none else s.runLock key
    outcomeLock := fun key => if s.outcomeLock key = some a then none else s.outcomeLock key }

/-- Roll an attempt back: what it inserted is gone, its locks are free. -/
def rollback (a : ℕ × String) : State :=
  (s.release a).setAttempt a { s.attempts a with pending := [] }

/-- Commit the articles of an attempt and end its transaction. -/
def commitPending (a : ℕ × String) : State :=
  { s.rollback a with raws := s.raws ++ (s.attempts a).pending }

end State

/-! ## The steps of `_claim` and `run` -/

variable (config : ℕ → Orchestrator)

/-- A reading of the clock by a call whose last reading was `last`. -/
def Reads (s : State) (last now : Instant) : Prop := last ≤ now ∧ now ≤ s.clock

instance (s : State) (last now : Instant) : Decidable (Reads s last now) :=
  inferInstanceAs (Decidable (_ ∧ _))

/-- The `SELECT` of `_claim`. -/
def readRun (i : ℕ) (now : Instant) (s : State) : Option State :=
  if (s.calls i).phase = .idle ∧ Reads s (s.calls i).lastNow now then
    some (s.setCall i (.claiming now (s.runs (config i).runKey)) now)
  else none

/-- The `INSERT` of `_claim`, which another call may have made already. -/
def insertRun (i : ℕ) (s : State) : Option State :=
  match (s.calls i).phase with
  | .claiming now none =>
      match s.runs (config i).runKey with
      | none =>
          some ((s.setRun (config i).runKey
            (.start (config i).owner (config i).registryVersion now)).moveCall i .gathering)
      | some _ => some (s.moveCall i (.conflict now))
  | _ => none

/-- The `SELECT` after a rejected insert. -/
def rereadRun (i : ℕ) (s : State) : Option State :=
  match (s.calls i).phase with
  | .conflict now => some (s.moveCall i (.claiming now (s.runs (config i).runKey)))
  | _ => none

/-- A conditional `UPDATE` of the run row of call `i`: `hit` when the row meets the
condition and is not locked, `miss` when it does not. -/
def updateRunWhere (i : ℕ) (cond : NewsRetrievalRun → Bool)
    (hit : NewsRetrievalRun → Option State) (miss : Option State) (s : State) : Option State :=
  match s.runs (config i).runKey with
  | some run =>
      if cond run then
        if s.runLock (config i).runKey = none then hit run else none
      else miss
  | none => miss

/-- The rest of `_claim`: refuse, renew or take over, as the row read tells. -/
def updateRun (i : ℕ) (s : State) : Option State :=
  match (s.calls i).phase with
  | .claiming now (some seen) =>
      if seen.status = .completed then some (s.moveCall i (.finished .alreadyCompleted))
      else if seen.leaseOwner = some (config i).owner then
        updateRunWhere config i (fun run => run.Renewable (config i).owner)
          (fun run => some ((s.setRun (config i).runKey (run.lease (config i).owner now)).moveCall
            i .gathering))
          (some (s.moveCall i (.finished
            (if (s.runs (config i).runKey).any (fun run => run.status = .completed) then
              .alreadyCompleted else .alreadyRunning)))) s
      else if ∃ e ∈ seen.leaseExpiresAt, now ≤ e then
        some (s.moveCall i (.finished .alreadyRunning))
      else
        updateRunWhere config i (fun run => run.Reclaimable now)
          (fun run => some ((s.setRun (config i).runKey (run.lease (config i).owner now)).moveCall
            i .gathering))
          (some (s.moveCall i (.finished .alreadyRunning))) s
  | _ => none

/-- The result of an attempt that returned. -/
def resultOf (s : State) (i : ℕ) (src : String) : Option SourceRetrievalResult :=
  match (s.attempts (i, src)).phase with
  | .done result => some result
  | _ => none

/-- The sums over the results of a call. -/
def totalCounts (results : List SourceRetrievalResult) : SourceCounts where
  fetched := (results.map (·.counts.fetched)).sum
  inserted := (results.map (·.counts.inserted)).sum
  withinRunDuplicates := (results.map (·.counts.withinRunDuplicates)).sum
  databaseDuplicates := (results.map (·.counts.databaseDuplicates)).sum
  failed := (results.map (·.counts.failed)).sum
  responseBytes := (results.map (·.counts.responseBytes)).sum

/-- The end of `run`, once every enabled source returned: give up when one lost its
lease, else `complete_run`. -/
def completeRun (i : ℕ) (now : Instant) (s : State) : Option State :=
  let results := (config i).enabled.filterMap (resultOf s i)
  if (s.calls i).phase = .gathering ∧ Reads s (s.calls i).lastNow now ∧
      (∀ src ∈ (config i).enabled, (resultOf s i src).isSome) then
    if ∃ result ∈ results, result.status = .leaseLost then
      some (s.setCall i (.finished .leaseLost) now)
    else
      updateRunWhere config i (fun run => run.HeldBy (config i).owner now)
        (fun run => some ((s.setRun (config i).runKey
          (run.complete now (totalCounts results))).setCall i (.finished .completed) now))
        (some (s.setCall i (.finished .leaseLost) now)) s
  else none

/-- The call dies, or an attempt it waits for raised. -/
def crashRun (i : ℕ) (s : State) : Option State :=
  match (s.calls i).phase with
  | .finished _ => none
  | _ => some (s.moveCall i .dead)

/-! ## The steps of `_source` -/

/-- The key of the outcome row of an attempt. -/
def outcomeKey (a : ℕ × String) : String × String := ((config a.1).runKey, a.2)

/-- The `SELECT` of `claim_source`. -/
def selectSource (a : ℕ × String) (now : Instant) (s : State) : Option State :=
  if (s.calls a.1).phase = .gathering ∧ a.2 ∈ (config a.1).enabled ∧
      (s.attempts a).phase = .idle ∧ Reads s (s.calls a.1).lastNow now then
    some (s.setAttempt a ⟨.selected now (s.outcomes (outcomeKey config a)), now, []⟩)
  else none

/-- A conditional `UPDATE` of the outcome row of an attempt. -/
def updateOutcomeWhere (a : ℕ × String) (cond : NewsRetrievalSourceOutcome → Bool)
    (hit : NewsRetrievalSourceOutcome → Option State) (miss : Option State) (s : State) :
    Option State :=
  match s.outcomes (outcomeKey config a) with
  | some row =>
      if cond row then
        if s.outcomeLock (outcomeKey config a) = none then hit row else none
      else miss
  | none => miss

/-- The `UPDATE` of `claim_source`: renew a row read as the owner's own and live, else
take over an expired one. -/
def updateSource (a : ℕ × String) (s : State) : Option State :=
  match (s.attempts a).phase with
  | .selected now existing =>
      if ∃ row ∈ existing, row.HeldBy (config a.1).owner now then
        updateOutcomeWhere config a (fun row => row.Renewable (config a.1).owner)
          (fun row => some ((s.setOutcome (outcomeKey config a) (row.renew now)).moveAttempt a
            .claimed))
          (some (s.moveAttempt a .unclaimed)) s
      else
        updateOutcomeWhere config a (fun row => row.Reclaimable now)
          (fun row => some ((s.setOutcome (outcomeKey config a)
            (row.reclaim (config a.1).owner now)).moveAttempt a .claimed))
          (some (s.moveAttempt a (.inserting now))) s
  | _ => none

/-- The take-over met a locked SQLite database. -/
def lockedSource (a : ℕ × String) (s : State) : Option State :=
  match (s.attempts a).phase with
  | .selected _ _ => some (s.moveAttempt a .unclaimed)
  | _ => none

/-- The `INSERT` of `claim_source`, rejected when the row exists. -/
def insertSource (a : ℕ × String) (s : State) : Option State :=
  match (s.attempts a).phase with
  | .inserting now =>
      match s.outcomes (outcomeKey config a) with
      | none =>
          some ((s.setOutcome (outcomeKey config a) (.start (config a.1).owner now)).moveAttempt a
            .claimed)
      | some _ => some (s.moveAttempt a .unclaimed)
  | _ => none

/-- The result an attempt returns for a row it could not claim. -/
def unclaimedResult : Option NewsRetrievalSourceOutcome → SourceRetrievalResult
  | none => ⟨.alreadyClaimed, .zero, none⟩
  | some row =>
      match row.status with
      | .running => ⟨.alreadyClaimed, .zero, none⟩
      | .completed => ⟨.completed, row.counts, row.failureCode.map (·.value)⟩
      | .failed => ⟨.failed, row.counts, row.failureCode.map (·.value)⟩

/-- The `SELECT` of an attempt that could not claim its row. -/
def rereadSource (a : ℕ × String) (s : State) : Option State :=
  match (s.attempts a).phase with
  | .unclaimed => some (s.moveAttempt a (.done (unclaimedResult (s.outcomes (outcomeKey config a)))))
  | _ => none

/-- The provider returned articles, and the loop and `deduplicate_within_run` ran. -/
def fetch (a : ℕ × String) (fetched withinRunDuplicates responseBytes : ℕ) (s : State) :
    Option State :=
  match (s.attempts a).phase with
  | .claimed =>
      if withinRunDuplicates ≤ fetched then
        some (s.moveAttempt a (.fetched ⟨fetched, 0, withinRunDuplicates, 0, 0, responseBytes⟩))
      else none
  | _ => none

/-- The result of an attempt that lost a lease. -/
def leaseLostResult : SourceRetrievalResult :=
  ⟨.leaseLost, { SourceCounts.zero with failed := 1 }, some "lease_lost"⟩

/-- `fence_run`: its `UPDATE` locks the run row, or the attempt rolls back. -/
def fence (a : ℕ × String) (now : Instant) (s : State) : Option State :=
  match (s.attempts a).phase with
  | .fetched counts =>
      if Reads s (s.attempts a).lastNow now then
        updateRunWhere config a.1 (fun run => run.HeldBy (config a.1).owner now)
          (fun _ => some ((s.lockRun (config a.1).runKey a).setAttempt a
            ⟨.fenced counts now, now, []⟩))
          (some ((s.rollback a).setAttempt a ⟨.done leaseLostResult, now, []⟩)) s
      else none
  | _ => none

/-- `save_articles` without its commit: every article is inserted, a duplicate or an
error. -/
def save (a : ℕ × String) (inserted : List String) (databaseDuplicates errors : ℕ) (s : State) :
    Option State :=
  match (s.attempts a).phase with
  | .fenced counts fencedAt =>
      if inserted.length + databaseDuplicates + errors =
          counts.fetched - counts.withinRunDuplicates then
        some (s.setAttempt a ⟨.saved { counts with
            inserted := inserted.length
            databaseDuplicates := databaseDuplicates
            failed := errors } fencedAt, (s.attempts a).lastNow, inserted⟩)
      else none
  | _ => none

/-- `complete_source` without its commit: its `UPDATE` locks the outcome row, or the
attempt rolls back. -/
def complete (a : ℕ × String) (now : Instant) (s : State) : Option State :=
  match (s.attempts a).phase with
  | .saved counts fencedAt =>
      if Reads s (s.attempts a).lastNow now then
        updateOutcomeWhere config a (fun row => row.HeldBy (config a.1).owner now)
          (fun _ => some ((s.lockOutcome (outcomeKey config a) a).setAttempt a
            { s.attempts a with phase := .completing counts fencedAt now, lastNow := now }))
          (some ((s.rollback a).setAttempt a ⟨.done leaseLostResult, now, []⟩)) s
      else none
  | _ => none

/-- The commit of the articles with the completed outcome row. -/
def commit (a : ℕ × String) (s : State) : Option State :=
  match (s.attempts a).phase, s.outcomes (outcomeKey config a) with
  | .completing counts _ completedAt, some row =>
      some (((s.commitPending a).setOutcome (outcomeKey config a)
        (row.complete completedAt counts)).moveAttempt a (.committed counts))
  | _, _ => none

/-- `record_circuit_success` and the return of a completed attempt. -/
def finish (a : ℕ × String) (s : State) : Option State :=
  match (s.attempts a).phase with
  | .committed counts => some (s.moveAttempt a (.done ⟨.completed, counts, none⟩))
  | _ => none

/-- The handler starts: a parser error is recorded against the circuit first. -/
def handlerPhase (code : FetchFailureCode) (responseBytes : ℕ) : SourcePhase :=
  if code = .parserError then .handling responseBytes else .failing code responseBytes

/-- A step raises.  The transaction stays open, unless it was the commit that raised. -/
def raise (a : ℕ × String) (code : FetchFailureCode) (responseBytes : ℕ) (s : State) :
    Option State :=
  match (s.attempts a).phase with
  | .completing _ _ _ => some ((s.rollback a).moveAttempt a (handlerPhase code responseBytes))
  | .claimed | .fetched _ | .fenced _ _ | .saved _ _ | .committed _ =>
      some (s.moveAttempt a (handlerPhase code responseBytes))
  | _ => none

/-- `record_circuit_failure`, which commits the session. -/
def circuitFailure (a : ℕ × String) (s : State) : Option State :=
  match (s.attempts a).phase with
  | .handling responseBytes =>
      some ((s.commitPending a).moveAttempt a (.failing .parserError responseBytes))
  | _ => none

/-- The result of a failed attempt. -/
def failedResult (code : FetchFailureCode) (responseBytes : ℕ) : SourceRetrievalResult :=
  ⟨.failed, { SourceCounts.zero with failed := 1, responseBytes := responseBytes },
    some code.value⟩

/-- `fail_source`, which commits the session whether or not a row matched. -/
def fail (a : ℕ × String) (now : Instant) (s : State) : Option State :=
  match (s.attempts a).phase with
  | .failing code responseBytes =>
      if Reads s (s.attempts a).lastNow now then
        updateOutcomeWhere config a (fun row => row.HeldBy (config a.1).owner now)
          (fun row => some (((s.commitPending a).setOutcome (outcomeKey config a)
            (row.fail now code responseBytes)).setAttempt a
            ⟨.done (failedResult code responseBytes), now, []⟩))
          (some ((s.commitPending a).setAttempt a
            ⟨.done (failedResult code responseBytes), now, []⟩)) s
      else none
  | _ => none

/-- A started attempt dies; its session is rolled back. -/
def crash (a : ℕ × String) (s : State) : Option State :=
  if (s.attempts a).phase = .idle then none else some ((s.rollback a).moveAttempt a .dead)

/-- Time passes. -/
def tick (t : Instant) (s : State) : Option State :=
  if s.clock ≤ t then some { s with clock := t } else none

/-- One step of the system. -/
def step (s : State) : Label → Option State
  | .tick t => tick t s
  | .readRun i now => readRun config i now s
  | .insertRun i => insertRun config i s
  | .rereadRun i => rereadRun config i s
  | .updateRun i => updateRun config i s
  | .completeRun i now => completeRun config i now s
  | .crashRun i => crashRun i s
  | .selectSource i src now => selectSource config (i, src) now s
  | .updateSource i src => updateSource config (i, src) s
  | .lockedSource i src => lockedSource (i, src) s
  | .insertSource i src => insertSource config (i, src) s
  | .rereadSource i src => rereadSource config (i, src) s
  | .fetch i src fetched withinRunDuplicates responseBytes =>
      fetch (i, src) fetched withinRunDuplicates responseBytes s
  | .fence i src now => fence config (i, src) now s
  | .save i src inserted databaseDuplicates errors =>
      save (i, src) inserted databaseDuplicates errors s
  | .complete i src now => complete config (i, src) now s
  | .commit i src => commit config (i, src) s
  | .finish i src => finish (i, src) s
  | .raise i src code responseBytes => raise (i, src) code responseBytes s
  | .circuitFailure i src => circuitFailure (i, src) s
  | .fail i src now => fail config (i, src) now s
  | .crash i src => crash (i, src) s

/-- Two orchestrators on one run with one enabled source. -/
def twoOwners (i : ℕ) : Orchestrator :=
  ⟨if i = 0 then "first" else "second", "hourly", "v1", ["source"]⟩

end ProcureSignal.Retrieval
