/-
# A run of `enrich_articles_task`

`enrich_articles_task` of `worker/tasks.py`, from its first claim to the end of its exception
handler: the claim loop of `_normalize_articles`, then `process_raw_articles` on what was
normalized.  The queries and the values written are those of `Worker.Leases`, the batch is
`Enrichment.Pipeline`; no other worker touches the rows.

* The session sees the committed rows and its own changes; a rollback drops the changes.
* An exception can come at any point.  `except Exception` rolls back and releases the claims
  of the run; the handler can fail itself, and an exception that is no `Exception` passes it.
* A claim is one transaction; a batch of articles is normalized and flushed in one step.
-/
import ProcureSignal.Enrichment.Pipeline

namespace ProcureSignal.Worker.EnrichTask

open ProcureSignal.Enrichment
open ProcureSignal.Enrichment.Pipeline (Candidate EnrichmentPipeline Rows)

/-! ## The state -/

/-- `scanned_ids` and `normalized_articles`. -/
structure Scan where
  scanned : List ℕ
  normalized : List Candidate
  deriving DecidableEq, Repr

/-- The ids of `normalized_articles`. -/
def Scan.normalizedIds (scan : Scan) : List ℕ := scan.normalized.map (·.id)

/-- Where the run is. -/
inductive Phase
  /-- At the head of the claim loop. -/
  | claiming
  /-- The claim is committed, the rows are not read again yet. -/
  | claimed (ids : List ℕ)
  /-- After the loop. -/
  | scanned
  | processing (batch : Pipeline.Phase) (run : Pipeline.Run)
  /-- In the exception handler. -/
  | failed
  | returned
  /-- Raised, the claims released. -/
  | raised
  /-- Raised, without the release. -/
  | abandoned

/-- The run has returned, or raised out of its handler. -/
def Phase.handled : Phase → Bool
  | .returned | .raised => true
  | _ => false

/-- The run is over. -/
def Phase.over : Phase → Bool
  | .returned | .raised | .abandoned => true
  | _ => false

/-- Where the run is after a step of the batch. -/
def Phase.ofBatch (b : Pipeline.State) : Phase :=
  match b.phase with
  | .returned _ => .returned
  | .raised => .failed
  | batch => .processing batch b.run

/-- The committed rows, the rows as the session sees them, and the run. -/
structure State where
  clock : Instant
  database : Rows
  session : Rows
  scan : Scan
  phase : Phase

/-- The task draws its `claim_owner`. -/
def State.initial (clock : Instant) (database : Rows) : State where
  clock := clock
  database := database
  session := database
  scan := ⟨[], []⟩
  phase := .claiming

/-- What happens next. -/
inductive Label
  | tick (t : Instant)
  /-- The head of the claim loop, with `_claim_enrichment_candidates` up to its commit. -/
  | claim
  /-- The claimed rows are read and normalized: for each id what `ArticleNormalizer` does, when
  and with which result. -/
  | normalize (verdict : ℕ → Verdict) (now : ℕ → Instant) (article : ℕ → RawArticle)
  /-- The commit after the loop; without the acknowledgement it raises all the same. -/
  | commit (acknowledged : Bool)
  | batch (l : Pipeline.Label)
  /-- An exception outside of `process_raw_articles`. -/
  | fail
  | release
  /-- The run ends without the release. -/
  | abandon

/-! ## Steps -/

/-- The queries of `Worker.Leases` see the rows of the session. -/
def State.rows (s : State) : Worker.State :=
  .initial s.clock s.session.raws s.session.processed.rawIds

/-- The rows `_claim_enrichment_candidates` selects. -/
def State.candidates (limit : ℕ) (s : State) : List ℕ :=
  candidateIds s.rows s.clock (limit - s.scan.normalized.length) s.scan.scanned []

/-- A step of the batch by the run itself; it reads the clock once. -/
def Reads (clock : Instant) : Pipeline.Label → Bool
  | .select nextNow leaseNow => nextNow = clock && leaseNow = clock
  | .article _ now _ => now = clock
  | .settle _ _ now => now = clock
  | .call _ | .commit _ | .raise => true
  | .duplicate _ => false

section Steps

variable (pl : EnrichmentPipeline) (owner limit : ℕ)

/-- The claim. -/
def leaseRows (rows : Rows) (ids : List ℕ) (now : Instant) : Rows :=
  { rows with
    raws := rows.raws.update (fun id row => id ∈ ids && row.claimable now) (·.lease owner now) }

/-- `_release_enrichment_claims_after_failure`. -/
def releaseRows (rows : Rows) (now : Instant) : Rows :=
  { rows with
    raws := rows.raws.update (fun _ row => row.leaseOwner = some owner) (·.release now) }

/-- `normalize_batch` on the ORM objects. -/
def normalizedObjects (batch : List (ℕ × RawRow)) (verdict : ℕ → Verdict)
    (now : ℕ → Instant) : List RawObject :=
  batch.map fun r => ⟨r.1, r.2, r.2.afterNormalize (verdict r.1) (now r.1)⟩

/-- The rows after the flush. -/
def normalizeRows (rows : Rows) (batch : List (ℕ × RawRow)) (verdict : ℕ → Verdict)
    (now : ℕ → Instant) : Rows :=
  { rows with raws := writeObjects rows.raws (normalizedObjects batch verdict now) }

/-- The variables of the loop after `normalize_batch`. -/
def Scan.extend (scan : Scan) (batch : List (ℕ × RawRow)) (verdict : ℕ → Verdict)
    (article : ℕ → RawArticle) : Scan where
  scanned := scan.scanned ++ batch.map (·.1)
  normalized := scan.normalized ++
    (batch.filter fun r => verdict r.1 = .normalized).map fun r => ⟨r.1, article r.1⟩

/-- One step; `limit` is `_ENRICH_MAX_PER_RUN`. -/
def step (s : State) : Label → Option State
  | .tick t => if s.clock ≤ t then some { s with clock := t } else none
  | .claim =>
      match s.phase with
      | .claiming =>
          if s.scan.normalized.length < limit then
            let ids := s.candidates limit
            let rows := leaseRows owner s.session ids s.clock
            some { s with database := rows, session := rows, phase := .claimed ids }
          else some { s with phase := .scanned }
      | _ => none
  | .normalize verdict now article =>
      match s.phase with
      | .claimed ids =>
          let batch := claimedRows s.rows owner ids
          if batch = [] then some { s with phase := .scanned }
          else
            some { s with
              session := normalizeRows s.session batch verdict now
              scan := s.scan.extend batch verdict article
              phase := .claiming }
      | _ => none
  | .commit acknowledged =>
      match s.phase with
      | .scanned =>
          some { s with
            database := s.session
            phase :=
              if !acknowledged then .failed
              else if s.scan.normalized = [] then .returned
              else .processing .start (Pipeline.State.initial pl s.session none).run }
      | _ => none
  | .batch l =>
      match s.phase with
      | .processing batch run =>
          if Reads s.clock l then
            (Pipeline.step pl (some owner) s.scan.normalized ⟨s.database, s.session, batch, run⟩
              l).map fun b =>
                { s with
                  database := b.database
                  session := b.session
                  phase := .ofBatch b }
          else none
      | _ => none
  | .fail =>
      match s.phase with
      | .claiming | .claimed _ | .scanned =>
          some { s with session := s.database, phase := .failed }
      | _ => none
  | .release =>
      match s.phase with
      | .failed =>
          let rows := releaseRows owner s.database s.clock
          some { s with database := rows, session := rows, phase := .raised }
      | _ => none
  | .abandon =>
      match s.phase with
      | .returned | .raised | .abandoned => none
      | _ => some { s with session := s.database, phase := .abandoned }

/-- The rows a step claims. -/
def State.claims (s : State) : Label → List ℕ
  | .claim =>
      match s.phase with
      | .claiming => if s.scan.normalized.length < limit then s.candidates limit else []
      | _ => []
  | _ => []

/-- The rows the run has claimed, in the order of the trace. -/
def claimedIds (tr : List (State × Label)) : List ℕ := tr.flatMap fun x => x.1.claims limit x.2

/-- A step of the claim loop. -/
def Label.loops : Label → Bool
  | .claim | .normalize _ _ _ => true
  | _ => false

end Steps

end ProcureSignal.Worker.EnrichTask
