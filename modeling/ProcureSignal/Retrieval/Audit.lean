/-
# Leases and outcomes of retrieval runs

The rows of `news_retrieval_runs` and `news_retrieval_source_outcomes`, and the
conditional updates of `retrieval/audit.py` and `retrieval/orchestrator.py` on one row:
each is a `WHERE` condition (a predicate on the row) and the values it sets (a function
of the row).

A finished outcome row never runs again (`terminal_of_touched`): only rows with
`status = 'running'` meet any of the conditions.
-/
import ProcureSignal.Models

namespace ProcureSignal.Retrieval

/-- `FetchFailureCode`. -/
inductive FetchFailureCode
  | configurationError
  | unsafeUrl
  | networkError
  | httpStatus
  | transientHttpStatus
  | rateLimited
  | unexpectedContentType
  | oversizedResponse
  | tooManyRedirects
  | circuitOpen
  | parserError
  deriving DecidableEq, Repr

/-- The stored value of a failure code. -/
def FetchFailureCode.value : FetchFailureCode → String
  | .configurationError => "configuration_error"
  | .unsafeUrl => "unsafe_url"
  | .networkError => "network_error"
  | .httpStatus => "http_status"
  | .transientHttpStatus => "transient_http_status"
  | .rateLimited => "rate_limited"
  | .unexpectedContentType => "unexpected_content_type"
  | .oversizedResponse => "oversized_response"
  | .tooManyRedirects => "too_many_redirects"
  | .circuitOpen => "circuit_open"
  | .parserError => "parser_error"

/-- The two statuses the orchestrator gives a run row. -/
inductive RunStatus
  | running
  | completed
  deriving DecidableEq, Repr

/-- The statuses of an outcome row. -/
inductive OutcomeStatus
  | running
  | completed
  | failed
  deriving DecidableEq, Repr

/-- `NewsRetrievalRun`, under its unique `run_key`. -/
structure NewsRetrievalRun where
  status : RunStatus
  registryVersion : String
  startedAt : Instant
  finishedAt : Option Instant
  leaseOwner : Option String
  leaseExpiresAt : Option Instant
  attemptedCount : ℕ
  fetchedCount : ℕ
  acceptedCount : ℤ
  insertedCount : ℕ
  duplicateCount : ℕ
  failedCount : ℕ
  deriving DecidableEq, Repr

/-- What one source attempt counted. -/
structure SourceCounts where
  fetched : ℕ
  inserted : ℕ
  withinRunDuplicates : ℕ
  databaseDuplicates : ℕ
  failed : ℕ
  responseBytes : ℕ
  deriving DecidableEq, Repr

/-- No article counted. -/
def SourceCounts.zero : SourceCounts := ⟨0, 0, 0, 0, 0, 0⟩

/-- `NewsRetrievalSourceOutcome`, under its unique pair of run and source. -/
structure NewsRetrievalSourceOutcome where
  status : OutcomeStatus
  startedAt : Instant
  finishedAt : Option Instant
  leaseOwner : Option String
  leaseExpiresAt : Option Instant
  attemptedCount : ℕ
  counts : SourceCounts
  failureCode : Option FetchFailureCode
  deriving DecidableEq, Repr

/-- `LEASE_DURATION`. -/
def leaseDuration : ℤ := minutes 65

/-! ## Run rows -/

namespace NewsRetrievalRun

/-- The row `_claim` inserts. -/
def start (owner registryVersion : String) (now : Instant) : NewsRetrievalRun where
  status := .running
  registryVersion := registryVersion
  startedAt := now
  finishedAt := none
  leaseOwner := some owner
  leaseExpiresAt := some (now + leaseDuration)
  attemptedCount := 1
  fetchedCount := 0
  acceptedCount := 0
  insertedCount := 0
  duplicateCount := 0
  failedCount := 0

/-- The condition of `fence_run` and `complete_run`: running, owned, not expired. -/
def HeldBy (run : NewsRetrievalRun) (owner : String) (now : Instant) : Prop :=
  run.status = .running ∧ run.leaseOwner = some owner ∧ ∃ e ∈ run.leaseExpiresAt, now ≤ e

instance (run : NewsRetrievalRun) (owner : String) (now : Instant) :
    Decidable (run.HeldBy owner now) :=
  inferInstanceAs (Decidable (_ ∧ _ ∧ ∃ e ∈ run.leaseExpiresAt, now ≤ e))

/-- The condition under which `_claim` renews: running and owned, expired or not. -/
def Renewable (run : NewsRetrievalRun) (owner : String) : Prop :=
  run.status = .running ∧ run.leaseOwner = some owner

instance (run : NewsRetrievalRun) (owner : String) : Decidable (run.Renewable owner) :=
  inferInstanceAs (Decidable (_ ∧ _))

/-- The condition under which `_claim` takes a run over: running, no lease or an expired
one. -/
def Reclaimable (run : NewsRetrievalRun) (now : Instant) : Prop :=
  run.status = .running ∧ ∀ e ∈ run.leaseExpiresAt, e < now

instance (run : NewsRetrievalRun) (now : Instant) : Decidable (run.Reclaimable now) :=
  inferInstanceAs (Decidable (_ ∧ ∀ e ∈ run.leaseExpiresAt, e < now))

/-- The values of a renewal or a take-over. -/
def lease (run : NewsRetrievalRun) (owner : String) (now : Instant) : NewsRetrievalRun :=
  { run with
    leaseOwner := some owner
    leaseExpiresAt := some (now + leaseDuration)
    attemptedCount := run.attemptedCount + 1 }

/-- The values of `complete_run`. -/
def complete (run : NewsRetrievalRun) (now : Instant) (counts : SourceCounts) :
    NewsRetrievalRun :=
  { run with
    status := .completed
    finishedAt := some now
    leaseOwner := none
    leaseExpiresAt := none
    fetchedCount := counts.fetched
    acceptedCount := counts.fetched - counts.withinRunDuplicates
    insertedCount := counts.inserted
    duplicateCount := counts.withinRunDuplicates + counts.databaseDuplicates
    failedCount := counts.failed }

@[simp] theorem status_lease (run : NewsRetrievalRun) (owner : String) (now : Instant) :
    (run.lease owner now).status = run.status := rfl

@[simp] theorem status_start (owner registryVersion : String) (now : Instant) :
    (start owner registryVersion now).status = .running := rfl

end NewsRetrievalRun

/-! ## Outcome rows -/

namespace NewsRetrievalSourceOutcome

/-- The row `claim_source` inserts. -/
def start (owner : String) (now : Instant) : NewsRetrievalSourceOutcome where
  status := .running
  startedAt := now
  finishedAt := none
  leaseOwner := some owner
  leaseExpiresAt := some (now + leaseDuration)
  attemptedCount := 1
  counts := .zero
  failureCode := none

/-- The condition of `_update_source`, and of the row `claim_source` takes for its own:
running, owned, not expired. -/
def HeldBy (row : NewsRetrievalSourceOutcome) (owner : String) (now : Instant) : Prop :=
  row.status = .running ∧ row.leaseOwner = some owner ∧ ∃ e ∈ row.leaseExpiresAt, now ≤ e

instance (row : NewsRetrievalSourceOutcome) (owner : String) (now : Instant) :
    Decidable (row.HeldBy owner now) :=
  inferInstanceAs (Decidable (_ ∧ _ ∧ ∃ e ∈ row.leaseExpiresAt, now ≤ e))

/-- The condition of the renewal in `claim_source`. -/
def Renewable (row : NewsRetrievalSourceOutcome) (owner : String) : Prop :=
  row.status = .running ∧ row.leaseOwner = some owner

instance (row : NewsRetrievalSourceOutcome) (owner : String) : Decidable (row.Renewable owner) :=
  inferInstanceAs (Decidable (_ ∧ _))

/-- The condition of the take-over in `claim_source`: running, the lease expired. -/
def Reclaimable (row : NewsRetrievalSourceOutcome) (now : Instant) : Prop :=
  row.status = .running ∧ ∃ e ∈ row.leaseExpiresAt, e < now

instance (row : NewsRetrievalSourceOutcome) (now : Instant) : Decidable (row.Reclaimable now) :=
  inferInstanceAs (Decidable (_ ∧ ∃ e ∈ row.leaseExpiresAt, e < now))

/-- The values of a renewal. -/
def renew (row : NewsRetrievalSourceOutcome) (now : Instant) : NewsRetrievalSourceOutcome :=
  { row with
    leaseExpiresAt := some (now + leaseDuration)
    attemptedCount := row.attemptedCount + 1 }

/-- The values of a take-over. -/
def reclaim (row : NewsRetrievalSourceOutcome) (owner : String) (now : Instant) :
    NewsRetrievalSourceOutcome :=
  { row with
    leaseOwner := some owner
    leaseExpiresAt := some (now + leaseDuration)
    startedAt := now
    attemptedCount := row.attemptedCount + 1 }

/-- The values of `complete_source`. -/
def complete (row : NewsRetrievalSourceOutcome) (now : Instant) (counts : SourceCounts) :
    NewsRetrievalSourceOutcome :=
  { row with
    status := .completed
    finishedAt := some now
    leaseOwner := none
    leaseExpiresAt := none
    counts := counts }

/-- The values of `fail_source`. -/
def fail (row : NewsRetrievalSourceOutcome) (now : Instant) (code : FetchFailureCode)
    (responseBytes : ℕ) : NewsRetrievalSourceOutcome :=
  { row with
    status := .failed
    finishedAt := some now
    leaseOwner := none
    leaseExpiresAt := none
    counts := { row.counts with failed := 1, responseBytes := responseBytes }
    failureCode := some code }

/-- Completed or failed. -/
def Terminal (row : NewsRetrievalSourceOutcome) : Prop := row.status ≠ .running

instance (row : NewsRetrievalSourceOutcome) : Decidable row.Terminal :=
  inferInstanceAs (Decidable (_ ≠ _))

/-- One write to an outcome row: a claim of a running row, or its end. -/
inductive Touched : Option NewsRetrievalSourceOutcome → Option NewsRetrievalSourceOutcome → Prop
  | insert (owner : String) (now : Instant) : Touched none (some (start owner now))
  | renew {row : NewsRetrievalSourceOutcome} {owner : String} (now : Instant)
      (h : row.Renewable owner) : Touched (some row) (some (row.renew now))
  | reclaim {row : NewsRetrievalSourceOutcome} {now : Instant} (owner : String)
      (h : row.Reclaimable now) : Touched (some row) (some (row.reclaim owner now))
  | complete (row : NewsRetrievalSourceOutcome) (now : Instant) (counts : SourceCounts) :
      Touched (some row) (some (row.complete now counts))
  | fail {row : NewsRetrievalSourceOutcome} {owner : String} {now : Instant}
      (h : row.HeldBy owner now) (code : FetchFailureCode) (responseBytes : ℕ) :
      Touched (some row) (some (row.fail now code responseBytes))

/-- **A finished row stays finished.** -/
theorem terminal_of_touched {o o' : Option NewsRetrievalSourceOutcome} (h : Touched o o')
    (ht : ∃ row ∈ o, row.Terminal) : ∃ row ∈ o', row.Terminal := by
  obtain ⟨row, hrow, hterm⟩ := ht
  cases h with
  | insert owner now => cases hrow
  | renew now h =>
      rw [Option.mem_some] at hrow
      exact absurd (hrow ▸ h.1) hterm
  | reclaim owner h =>
      rw [Option.mem_some] at hrow
      exact absurd (hrow ▸ h.1) hterm
  | complete row' now counts => exact ⟨_, rfl, by simp [Terminal, NewsRetrievalSourceOutcome.complete]⟩
  | fail h code responseBytes =>
      exact ⟨_, rfl, by simp [Terminal, NewsRetrievalSourceOutcome.fail]⟩

end NewsRetrievalSourceOutcome

end ProcureSignal.Retrieval
