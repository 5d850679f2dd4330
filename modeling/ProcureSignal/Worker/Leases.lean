/-
# Leases on raw articles

`normalize_articles_task` and `enrich_articles_task` of `worker/tasks.py` on the same raw
rows.  Any number of runs of either task are under way; a step is one query with its
commit, one change of an ORM object, or one commit.

* A commit of ORM objects writes, by primary key, the attributes whose value differs from
  the one loaded (`RawObject.write`).
* Claiming is one transaction: the rows are selected for update, rows other sessions hold
  locked are skipped, and each is leased by a conditional `UPDATE`.
* The conditional updates of `_transition_raw` hold their row locks until the batch
  commits, so each takes effect as if it were executed at the commit.
* There is one clock; a task acts on readings of it that may be old.

The worker that a run of `enrich_articles_task` draws a name for is the number of the run.
-/
import ProcureSignal.Library.Execution
import ProcureSignal.Models

namespace ProcureSignal.Worker

/-! ## Rows -/

/-- `enrichment_status`. -/
inductive EnrichmentStatus
  | normalizationRetry
  | enrichmentRetry
  | deferred
  | processing
  | skipped
  | qualityRejected
  | completed
  deriving DecidableEq, Repr

/-- `NewsArticleRaw`: the time of ingestion and the columns `enrichment_…`. -/
structure RawRow where
  ingestedAt : Instant
  status : Option EnrichmentStatus
  attemptCount : ℕ
  nextAttemptAt : Option Instant
  leaseOwner : Option ℕ
  leaseExpiresAt : Option Instant
  deriving DecidableEq, Repr

/-- A row as ingestion inserts it. -/
def RawRow.ingested (ingestedAt : Instant) : RawRow := ⟨ingestedAt, none, 0, none, none, none⟩

/-- `_claimable(now)`; a comparison with `NULL` does not hold. -/
def RawRow.claimable (now : Instant) (row : RawRow) : Bool :=
  (row.status = none || row.status = some .normalizationRetry ||
    row.status = some .enrichmentRetry || row.status = some .deferred ||
    row.status = some .processing) &&
  (row.nextAttemptAt = none || row.nextAttemptAt.any (· ≤ now)) &&
  (row.leaseOwner = none || row.leaseExpiresAt.any (· ≤ now))

/-- `_ENRICH_MAX_PER_RUN`. -/
def enrichMaxPerRun : ℕ := 20

/-- `_ENRICH_LEASE_MINUTES`. -/
def enrichLeaseMinutes : ℤ := 65

/-- The values of the claim. -/
def RawRow.lease (owner : ℕ) (now : Instant) (row : RawRow) : RawRow :=
  { row with
    status := some .processing
    leaseOwner := some owner
    leaseExpiresAt := some (now + minutes enrichLeaseMinutes) }

/-- `ORDER BY ingested_at DESC`. -/
def newestFirst (rows : List (ℕ × RawRow)) : List (ℕ × RawRow) :=
  rows.insertionSort fun r r' => r'.2.ingestedAt ≤ r.2.ingestedAt

/-! ## ORM objects -/

/-- A loaded row and what the task has made of it. -/
structure RawObject where
  id : ℕ
  loaded : RawRow
  current : RawRow
  deriving DecidableEq, Repr

/-- The row after a flush: a changed attribute is written, any other is left as it is. -/
def RawObject.write (o : RawObject) (row : RawRow) : RawRow where
  ingestedAt := row.ingestedAt
  status := if o.current.status = o.loaded.status then row.status else o.current.status
  attemptCount :=
    if o.current.attemptCount = o.loaded.attemptCount then row.attemptCount
    else o.current.attemptCount
  nextAttemptAt :=
    if o.current.nextAttemptAt = o.loaded.nextAttemptAt then row.nextAttemptAt
    else o.current.nextAttemptAt
  leaseOwner :=
    if o.current.leaseOwner = o.loaded.leaseOwner then row.leaseOwner else o.current.leaseOwner
  leaseExpiresAt :=
    if o.current.leaseExpiresAt = o.loaded.leaseExpiresAt then row.leaseExpiresAt
    else o.current.leaseExpiresAt

/-- What `ArticleNormalizer.normalize` did with an article. -/
inductive Verdict
  | normalized
  | rejected
  | raised
  deriving DecidableEq, Repr

/-- `normalize_batch` on one article. -/
def RawRow.afterNormalize (row : RawRow) (verdict : Verdict) (now : Instant) : RawRow :=
  match verdict with
  | .normalized => row
  | .rejected =>
      { row with
        status := some .qualityRejected
        nextAttemptAt := none
        leaseOwner := none
        leaseExpiresAt := none }
  | .raised =>
      { row with
        status := some .normalizationRetry
        attemptCount := row.attemptCount + 1
        nextAttemptAt := some (now + minutes (min 360 (15 * 2 ^ row.attemptCount)))
        leaseOwner := none
        leaseExpiresAt := none }

/-! ## Conditional updates -/

/-- How `_transition_raw` ends the processing of an article. -/
inductive Outcome
  | completed
  | skipped
  | deferred
  | failed
  deriving DecidableEq, Repr

/-- The values of `_transition_raw`. -/
def RawRow.transition (outcome : Outcome) (now : Instant) (row : RawRow) : RawRow :=
  let released := { row with leaseOwner := none, leaseExpiresAt := none, nextAttemptAt := none }
  match outcome with
  | .completed => { released with status := some .completed }
  | .skipped => { released with status := some .skipped }
  | .deferred =>
      { released with
        status := some .deferred
        nextAttemptAt := some (now + minutes 120)
        attemptCount := row.attemptCount + 1 }
  | .failed =>
      { released with
        status := some .enrichmentRetry
        nextAttemptAt := some (now + minutes 120)
        attemptCount := row.attemptCount + 1 }

/-- The values of `_release_enrichment_claims_after_failure`. -/
def RawRow.release (now : Instant) (row : RawRow) : RawRow :=
  { row with
    status := some .enrichmentRetry
    attemptCount := row.attemptCount + 1
    nextAttemptAt := some (now + minutes 1)
    leaseOwner := none
    leaseExpiresAt := none }

/-! ## The state -/

/-- The rows a run of `enrich_articles_task` has scanned and normalized. -/
structure Progress where
  scanned : List ℕ
  normalized : List ℕ
  deriving DecidableEq, Repr

/-- Where a run of a task is. -/
inductive Phase
  | idle
  /-- In `normalize_batch`: the rows to come and the objects done; a run of
  `enrich_articles_task` has its progress. -/
  | normalizing (progress : Option Progress) (todo : List (ℕ × RawRow)) (objects : List RawObject)
  /-- Before the next claim. -/
  | claiming (progress : Progress)
  /-- The claim is committed, the rows are not read again yet. -/
  | claimed (ids : List ℕ) (progress : Progress)
  /-- In `process_raw_articles`. -/
  | processing (normalized : List ℕ)
  /-- The exception handler, after the rollback. -/
  | failed
  | done
  deriving DecidableEq, Repr

/-- The ORM objects a run has normalized and not committed. -/
def Phase.objects : Phase → List RawObject
  | .normalizing _ _ objects => objects
  | _ => []

/-- Committed rows, the raw articles with a processed row, and the runs of the tasks. -/
structure State where
  clock : Instant
  raws : Table RawRow
  processed : List ℕ
  tasks : ℕ → Phase

/-- No task has started. -/
def State.initial (clock : Instant) (raws : Table RawRow) (processed : List ℕ) : State :=
  ⟨clock, raws, processed, fun _ => .idle⟩

/-- What happens next; `i` is the run of a task, `now` a reading of the clock. -/
inductive Label
  | tick (t : Instant)
  | ingest (ingestedAt : Instant)
  /-- `normalize_articles_task`: `_load_recent_raw_articles`. -/
  | read (i : ℕ) (now : Instant)
  | start (i : ℕ)
  | claim (i : ℕ) (now : Instant) (locked : List ℕ)
  | load (i : ℕ)
  | normalize (i : ℕ) (verdict : Verdict) (now : Instant)
  | commit (i : ℕ)
  | process (i : ℕ)
  | transition (i id : ℕ) (outcome : Outcome) (now : Instant)
  | finish (i : ℕ)
  | fail (i : ℕ)
  | release (i : ℕ) (now : Instant)
  | crash (i : ℕ)
  deriving DecidableEq, Repr

/-- The run that takes the step. -/
def Label.task : Label → Option ℕ
  | .tick _ | .ingest _ => none
  | .read i _ | .start i | .claim i _ _ | .load i | .normalize i _ _ | .commit i | .process i
  | .transition i _ _ _ | .finish i | .fail i | .release i _ | .crash i => some i

/-- A run moves to another phase. -/
def State.move (s : State) (i : ℕ) (phase : Phase) : State :=
  { s with tasks := Function.update s.tasks i phase }

/-! ## Queries -/

/-- `_load_recent_raw_articles` of `normalize_articles_task`. -/
def recentRawArticles (s : State) (now : Instant) : List (ℕ × RawRow) :=
  (newestFirst (s.raws.rows.filter fun r =>
    now - minutes (24 * 60) ≤ r.2.ingestedAt && r.2.claimable now)).take 1000

/-- The selection of `_claim_enrichment_candidates`. -/
def candidateIds (s : State) (now : Instant) (limit : ℕ) (excluded locked : List ℕ) : List ℕ :=
  ((newestFirst (s.raws.rows.filter fun r =>
    r.1 ∉ s.processed && r.2.claimable now && r.1 ∉ locked && r.1 ∉ excluded)).take limit).map (·.1)

/-- The rows a claim reads again after its commit. -/
def claimedRows (s : State) (i : ℕ) (ids : List ℕ) : List (ℕ × RawRow) :=
  newestFirst (s.raws.rows.filter fun r => r.1 ∈ ids && r.2.leaseOwner = some i)

/-- The flush of ORM objects. -/
def writeObjects (raws : Table RawRow) (objects : List RawObject) : Table RawRow :=
  raws.modify fun id row =>
    match objects.find? (·.id = id) with
    | some o => o.write row
    | none => row

/-! ## Steps -/

/-- One step. -/
def step (s : State) : Label → Option State
  | .tick t => if s.clock ≤ t then some { s with clock := t } else none
  | .ingest ingestedAt => some { s with raws := s.raws.insert (.ingested ingestedAt) }
  | .read i now =>
      match s.tasks i with
      | .idle =>
          if now ≤ s.clock then some (s.move i (.normalizing none (recentRawArticles s now) []))
          else none
      | _ => none
  | .start i =>
      match s.tasks i with
      | .idle => some (s.move i (.claiming ⟨[], []⟩))
      | _ => none
  | .claim i now locked =>
      match s.tasks i with
      | .claiming progress =>
          if now ≤ s.clock ∧ progress.normalized.length < enrichMaxPerRun then
            let ids := candidateIds s now (enrichMaxPerRun - progress.normalized.length)
              progress.scanned locked
            some { s.move i (.claimed ids progress) with
              raws := s.raws.update (fun id row => id ∈ ids && row.claimable now) (·.lease i now) }
          else none
      | _ => none
  | .load i =>
      match s.tasks i with
      | .claimed ids progress =>
          if claimedRows s i ids = [] then none
          else some (s.move i (.normalizing (some progress) (claimedRows s i ids) []))
      | _ => none
  | .normalize i verdict now =>
      match s.tasks i with
      | .normalizing progress ((id, row) :: todo) objects =>
          if now ≤ s.clock then
            some (s.move i (.normalizing
              (progress.map fun p => ⟨p.scanned ++ [id],
                if verdict = .normalized then p.normalized ++ [id] else p.normalized⟩)
              todo (objects ++ [⟨id, row, row.afterNormalize verdict now⟩])))
          else none
      | _ => none
  | .commit i =>
      match s.tasks i with
      | .normalizing none [] objects =>
          some { s.move i .done with raws := writeObjects s.raws objects }
      | .normalizing (some progress) [] objects =>
          some { s.move i (.claiming progress) with raws := writeObjects s.raws objects }
      | _ => none
  | .process i =>
      match s.tasks i with
      | .claiming progress =>
          if progress.normalized.length < enrichMaxPerRun then none
          else some (s.move i (.processing progress.normalized))
      | .claimed ids progress =>
          -- nothing was claimed, or every claimed row has been taken over
          if claimedRows s i ids = [] then some (s.move i (.processing progress.normalized))
          else none
      | _ => none
  | .transition i id outcome now =>
      match s.tasks i with
      | .processing normalized =>
          if now ≤ s.clock ∧ id ∈ normalized then
            some { s with
              raws := s.raws.update (fun id' row => id' = id && row.leaseOwner = some i)
                (·.transition outcome now)
              processed :=
                if outcome = .completed ∧ id ∉ s.processed then id :: s.processed else s.processed }
          else none
      | _ => none
  | .finish i =>
      match s.tasks i with
      | .processing _ => some (s.move i .done)
      | _ => none
  | .fail i =>
      match s.tasks i with
      | .normalizing none _ _ => some (s.move i .done)
      | .normalizing (some _) _ _ | .claiming _ | .claimed _ _ | .processing _ =>
          some (s.move i .failed)
      | _ => none
  | .release i now =>
      match s.tasks i with
      | .failed =>
          if now ≤ s.clock then
            some { s.move i .done with
              raws := s.raws.update (fun _ row => row.leaseOwner = some i) (·.release now) }
          else none
      | _ => none
  | .crash i => some (s.move i .done)

end ProcureSignal.Worker
