/-
# The enrichment pipeline

`EnrichmentPipeline.process_raw_articles` of `enrichment/pipeline.py` on one batch of raw
articles.  A step is the selection, what the loop does with an article up to the LLM call,
the call, what the loop does after it, or the commit; an exception can come between any two
of them.

* The batch works in one session, which sees the committed rows and its own changes; an
  exception rolls them back.
* The enricher's client outlives the batch: what it has charged stays charged.
* Tables are given by their unique keys.  Other sessions may insert processed rows.
* The deterministic enricher, the digest of the fingerprint and the validation of cached
  payloads are parameters, as is what the LLM client answers.
* An iteration of the loop reads the clock once.
-/
import ProcureSignal.Enrichment.Budget
import ProcureSignal.Enrichment.Cache
import ProcureSignal.Enrichment.Policy
import ProcureSignal.Worker.Leases

namespace ProcureSignal.Enrichment.Pipeline

open ProcureSignal.Worker (RawRow EnrichmentStatus Outcome)

/-! ## Rows -/

/-- `NewsArticleProcessed` as enrichment writes it. -/
structure ProcessedArticle where
  rawArticleId : ℕ
  normalizedTitle : String
  summary : String
  topLevelCategory : String
  signalTags : List String
  prioritySignal : Option String
  detectedRegions : List String
  detectedSuppliers : List String
  detectedCategories : List String
  llmModel : Option String
  language : String
  processedAt : Instant
  enrichmentMethod : String
  enrichmentReason : String
  enrichmentPolicyVersion : String
  contentFingerprint : String
  deterministicConfidence : Option ℚ
  llmUsed : Bool
  deriving DecidableEq, Repr

/-- `news_articles_processed`, unique in `raw_article_id`. -/
structure ProcessedTable where
  rows : List ProcessedArticle
  unique : (rows.map (·.rawArticleId)).Nodup

/-- The raw articles that have a processed row. -/
def ProcessedTable.rawIds (t : ProcessedTable) : List ℕ := t.rows.map (·.rawArticleId)

/-- `INSERT`; a second row for a raw article is an `IntegrityError`. -/
def ProcessedTable.insert? (t : ProcessedTable) (row : ProcessedArticle) :
    Option ProcessedTable :=
  if h : row.rawArticleId ∈ t.rawIds then none
  else some ⟨t.rows ++ [row], by
    rw [List.map_append, List.map_singleton, List.nodup_append]
    refine ⟨t.unique, List.nodup_singleton _, fun a ha b hb => ?_⟩
    rintro rfl
    exact h (List.mem_singleton.mp hb ▸ ha)⟩

/-- What the pipeline reads and writes. -/
structure Rows where
  raws : Table RawRow
  processed : ProcessedTable
  cache : CacheTable
  spend : SpendTable

/-! ## The pipeline -/

/-- A raw article of the batch: its id and its columns as a `RawArticle`. -/
structure Candidate where
  id : ℕ
  article : RawArticle
  deriving DecidableEq, Repr

/-- `DeterministicAnalysis`. -/
structure DeterministicAnalysis where
  output : EnrichmentOutput
  relevance : ℚ
  confidence : ℚ
  deriving DecidableEq, Repr

/-- `EnrichmentPipeline`: what it is constructed with. -/
structure EnrichmentPipeline where
  policy : ValidPolicy
  tenant : Option String
  /-- `LLM_DAILY_TOKEN_BUDGET` -/
  dailyBudget : Option ℤ
  /-- `llm_client.model` -/
  model : String
  /-- `llm_client_factory is not None` -/
  hasFactory : Bool
  /-- `deterministic_enricher.analyze(article, summary_max_chars)` -/
  analyze : RawArticle → ℤ → Except String DeterministicAnalysis
  unicode : Unicode
  digest : List String → String
  /-- `EnrichmentOutput.model_validate` -/
  validate : EnrichmentOutput → Option EnrichmentOutput

/-- The cache identity of an article. -/
def EnrichmentPipeline.cacheKey (pl : EnrichmentPipeline) (article : RawArticle) : CacheKey :=
  (contentFingerprint pl.unicode pl.digest pl.policy.policyVersion pl.policy.taxonomyVersion
    article, pl.policy.policyVersion, pl.policy.taxonomyVersion)

/-- `_estimated_tokens`. -/
def estimatedTokens (article : RawArticle) : ℕ :=
  let chars := article.title.length + (article.description.getD "").length +
    (article.contentSnippet.getD "").length
  max 1 (chars / 4 + 400)

/-- How an article is counted: a route of the router, or `"failed"`. -/
inductive Method
  | route (route : EnrichmentRoute)
  | failed
  deriving DecidableEq, Repr

/-- The value of `enrichment_method`. -/
def Method.value : Method → String
  | .route r => r.value
  | .failed => "failed"

/-- `EnrichmentMetrics`. -/
structure EnrichmentMetrics where
  cached : ℕ := 0
  deterministic : ℕ := 0
  llm : ℕ := 0
  skipped : ℕ := 0
  deferred : ℕ := 0
  failed : ℕ := 0
  cacheMisses : ℕ := 0
  llmCalls : ℕ := 0
  llmTokens : ℕ := 0
  avoidedLlmCalls : ℕ := 0
  deriving DecidableEq, Repr

/-- `setattr(metrics, method, getattr(metrics, method) + 1)`. -/
def EnrichmentMetrics.bump (m : EnrichmentMetrics) : Method → EnrichmentMetrics
  | .route .cached => { m with cached := m.cached + 1 }
  | .route .deterministic => { m with deterministic := m.deterministic + 1 }
  | .route .llm => { m with llm := m.llm + 1 }
  | .route .skipped => { m with skipped := m.skipped + 1 }
  | .route .deferred => { m with deferred := m.deferred + 1 }
  | .failed => { m with failed := m.failed + 1 }

/-- `EnrichmentRunResult`. -/
structure EnrichmentRunResult where
  saved : ℕ
  metrics : EnrichmentMetrics
  alreadyProcessed : ℕ
  deriving DecidableEq, Repr

/-- The local variables of `process_raw_articles`, and the LLM client: absent, or what it
has charged so far (`total_tokens_used`). -/
structure Run where
  saved : ℕ
  metrics : EnrichmentMetrics
  alreadyProcessed : ℕ
  budget : EnrichmentBudget
  client : Option ℕ

/-! ## The selection -/

/-- The selection of `unavailable_raw_ids`; a comparison with `NULL` does not hold. -/
def Rows.unavailable (rows : Rows) (claimOwner : Option ℕ) (nextNow leaseNow : Instant)
    (id : ℕ) : Bool :=
  (rows.raws.find? id).any fun row =>
    row.status = some .skipped || row.status = some .qualityRejected ||
    row.nextAttemptAt.any (nextNow < ·) ||
    (row.leaseExpiresAt.any (leaseNow < ·) && row.leaseOwner.any (some · ≠ claimOwner))

/-- The loop that fills `articles_to_process` and counts `already_processed`. -/
def selectFrom (unavailable : ℕ → Bool) (seen : List ℕ) : List Candidate → List Candidate × ℕ
  | [] => ([], 0)
  | candidate :: rest =>
      if candidate.id ∈ seen ∨ unavailable candidate.id = true then
        let r := selectFrom unavailable seen rest
        (r.1, r.2 + 1)
      else
        let r := selectFrom unavailable (candidate.id :: seen) rest
        (candidate :: r.1, r.2)

/-! ## One article -/

/-- `_transition_raw`. -/
def transitionRaw (rows : Rows) (claimOwner : Option ℕ) (id : ℕ) (outcome : Outcome)
    (now : Instant) : Rows :=
  { rows with
    raws := rows.raws.update
      (fun id' row => id' = id && claimOwner.all fun owner => row.leaseOwner = some owner)
      (·.transition outcome now) }

/-- The status a counted article without an output is left in. -/
def Method.outcome : Method → Option Outcome
  | .route .skipped => some .skipped
  | .route .deferred => some .deferred
  | .failed => some .failed
  | .route .cached | .route .deterministic | .route .llm => none

section Article

variable (pl : EnrichmentPipeline) (claimOwner : Option ℕ)

/-- `_processed`. -/
def processedArticle (raw : Candidate) (output : EnrichmentOutput) (method : Method)
    (reason : String) (confidence : Option ℚ) (llmUsed : Bool) (now : Instant) :
    ProcessedArticle where
  rawArticleId := raw.id
  normalizedTitle := raw.article.title
  summary := output.summary
  topLevelCategory := output.category
  signalTags := output.signalTags
  prioritySignal := output.prioritySignal
  detectedRegions := output.detectedRegions
  detectedSuppliers := output.detectedSuppliers
  detectedCategories :=
    if output.detectedCategories = [] then [output.category] else output.detectedCategories
  llmModel := if llmUsed then some ("openai/" ++ pl.model) else none
  language := raw.article.language
  processedAt := now
  enrichmentMethod := method.value
  enrichmentReason := reason
  enrichmentPolicyVersion := pl.policy.policyVersion
  contentFingerprint := (pl.cacheKey raw.article).1
  deterministicConfidence := confidence
  llmUsed := llmUsed

/-- `_add_processed` and what is counted after it. -/
def persist (run : Run) (rows : Rows) (row : ProcessedArticle) (method : Method)
    (now : Instant) : Run × Rows :=
  match rows.processed.insert? row with
  | some processed =>
      ({ run with saved := run.saved + 1, metrics := run.metrics.bump method },
        transitionRaw { rows with processed := processed } claimOwner row.rawArticleId
          .completed now)
  | none =>
      ({ run with alreadyProcessed := run.alreadyProcessed + 1 },
        transitionRaw rows claimOwner row.rawArticleId .completed now)

/-- The end of an iteration, from `if output is None`. -/
def conclude (run : Run) (rows : Rows) (raw : Candidate) (analysis : DeterministicAnalysis)
    (method : Method) (reason : String) (output : Option EnrichmentOutput) (llmUsed : Bool)
    (now : Instant) : Run × Rows :=
  match output with
  | none =>
      ({ run with metrics := run.metrics.bump method },
        match method.outcome with
        | some outcome => transitionRaw rows claimOwner raw.id outcome now
        | none => rows)
  | some output =>
      let key := pl.cacheKey raw.article
      let rows :=
        if method = .route .deterministic ∨ method = .route .llm then
          { rows with cache := cachePut rows.cache key output method.value }
        else rows
      persist claimOwner run rows
        (processedArticle pl raw output method reason (some analysis.confidence) llmUsed now)
        method now

/-- `budget_available`. -/
def budgetAvailable (run : Run) (rows : Rows) (estimate : ℕ) (today : Day) : Bool :=
  withinBudget pl.dailyBudget rows.spend ⟨pl.tenant, estimate, 1, none⟩ today &&
  run.budget.callsReserved < run.budget.maxCalls &&
  run.budget.tokensReserved + estimate ≤ run.budget.maxTokens &&
  (run.client.isSome || pl.hasFactory)

/-- `_ensure_llm_client`: the client there is or can be constructed. -/
def ensureLlmClient (client : Option ℕ) (constructed : Bool) : Option ℕ :=
  match client with
  | some tokens => some tokens
  | none => if pl.hasFactory && constructed then some 0 else none

/-- The spend recorded for a call, from `if used`: the day of the check and the day of the
upsert. -/
def recordSpend (spend : SpendTable) (used : ℕ) (checked today : Day) : SpendTable :=
  if used = 0 then spend
  else
    match consume pl.dailyBudget spend ⟨pl.tenant, used, 1, none⟩ checked today with
    | .ok table => table
    | .error _ => consumeOverage spend ⟨pl.tenant, used, 1, none⟩ today

end Article

/-! ## The batch -/

/-- What the enricher returns for an article, and the usage the client reports. -/
structure Response where
  usage : ℕ
  output : Option EnrichmentOutput
  deriving DecidableEq, Repr

/-- Where the batch is. -/
inductive Phase
  | start
  /-- At the head of the loop. -/
  | loop (todo : List Candidate)
  /-- A call is reserved for an article. -/
  | calling (raw : Candidate) (analysis : DeterministicAnalysis) (todo : List Candidate)
  /-- The enricher has returned; `used` is what the client has charged. -/
  | answered (raw : Candidate) (analysis : DeterministicAnalysis)
      (output : Option EnrichmentOutput) (used : ℕ) (todo : List Candidate)
  | returned (result : EnrichmentRunResult)
  | raised
  deriving DecidableEq, Repr

/-- The committed rows, the rows as the session sees them, and the batch. -/
structure State where
  database : Rows
  session : Rows
  phase : Phase
  run : Run

/-- The call of `process_raw_articles`, in a session without changes. -/
def State.initial (pl : EnrichmentPipeline) (database : Rows) (client : Option ℕ) : State where
  database := database
  session := database
  phase := .start
  run := ⟨0, {}, 0, pl.policy.budget, client⟩

/-- What happens next. -/
inductive Label
  | select (nextNow leaseNow : Instant)
  /-- An iteration up to the call; `constructed` : the client factory succeeds. -/
  | article (today : Day) (now : Instant) (constructed : Bool)
  | call (response : Response)
  | settle (checked today : Day) (now : Instant)
  /-- The commit takes effect; without the acknowledgement it raises all the same. -/
  | commit (acknowledged : Bool)
  | raise
  /-- Another session commits a processed row. -/
  | duplicate (row : ProcessedArticle)
  deriving DecidableEq, Repr

section Steps

variable (pl : EnrichmentPipeline) (claimOwner : Option ℕ)

/-- An iteration of the loop up to the LLM call, or to its end. -/
def articleStep (s : State) (raw : Candidate) (todo : List Candidate) (today : Day)
    (now : Instant) (constructed : Bool) : Option State :=
  match cacheGet pl.validate s.session.cache (pl.cacheKey raw.article) with
  | some (output, cache) =>
      let method := Method.route .cached
      let row := processedArticle pl raw output method "compatible_cache_hit" none false now
      let r := persist claimOwner s.run { s.session with cache := cache } row method now
      some { s with run := r.1, session := r.2, phase := .loop todo }
  | none =>
      let run :=
        { s.run with
          metrics := { s.run.metrics with cacheMisses := s.run.metrics.cacheMisses + 1 } }
      match pl.analyze raw.article pl.policy.summaryMaxChars with
      | .error _ => none
      | .ok analysis =>
          let estimate := estimatedTokens raw.article
          let decide := decideRoute pl.policy.toEnrichmentPolicy false analysis.relevance
            analysis.confidence
          let finish (run : Run) (decision : RouteDecision) (output : Option EnrichmentOutput) :=
            let r := conclude pl claimOwner run s.session raw analysis (.route decision.route)
              decision.reason output false now
            some { s with run := r.1, session := r.2, phase := .loop todo }
          match decide (budgetAvailable pl run s.session estimate today) with
          | .error _ => none
          | .ok decision =>
              match decision.route with
              | .deterministic => finish run decision (some analysis.output)
              | .llm =>
                  let run := { run with client := ensureLlmClient pl run.client constructed }
                  match (if run.client.isSome then run.budget.reserve estimate else .ok none) with
                  | .error _ => none
                  | .ok (some budget) =>
                      some { s with
                        run := { run with budget := budget }
                        phase := .calling raw analysis todo }
                  | .ok none =>
                      match decide false with
                      | .error _ => none
                      | .ok decision => finish run decision none
              | .cached | .skipped | .deferred => finish run decision none

/-- An iteration from the accounting of the call to its end. -/
def settleStep (s : State) (raw : Candidate) (analysis : DeterministicAnalysis)
    (output : Option EnrichmentOutput) (used : ℕ) (todo : List Candidate) (checked today : Day)
    (now : Instant) : Option State :=
  match s.run.budget.recordUsage used with
  | .error _ => none
  | .ok budget =>
      let run :=
        { s.run with
          budget := budget
          metrics := { s.run.metrics with llmTokens := s.run.metrics.llmTokens + used } }
      let rows := { s.session with spend := recordSpend pl s.session.spend used checked today }
      let r :=
        match output with
        | some output =>
            conclude pl claimOwner run rows raw analysis (.route .llm) "ambiguous_relevant"
              (some (mergeDeterministicEvidence pl.unicode output analysis.output)) true now
        | none =>
            if analysis.confidence ≥ pl.policy.minFallbackConfidence then
              conclude pl claimOwner run rows raw analysis (.route .deterministic)
                "llm_failure_deterministic_fallback" (some analysis.output) false now
            else conclude pl claimOwner run rows raw analysis .failed "" none false now
      some { s with run := r.1, session := r.2, phase := .loop todo }

/-- The end of `process_raw_articles`. -/
def finalRun (run : Run) : Run :=
  { run with
    metrics :=
      { run.metrics with
        avoidedLlmCalls :=
          run.metrics.cached + run.metrics.deterministic + run.metrics.skipped } }

/-- One step of `process_raw_articles(session, raw_articles)`. -/
def step (rawArticles : List Candidate) (s : State) : Label → Option State
  | .select nextNow leaseNow =>
      match s.phase with
      | .start =>
          let r := selectFrom (s.session.unavailable claimOwner nextNow leaseNow)
            s.session.processed.rawIds rawArticles
          some { s with run := { s.run with alreadyProcessed := r.2 }, phase := .loop r.1 }
      | _ => none
  | .article today now constructed =>
      match s.phase with
      | .loop (raw :: todo) => articleStep pl claimOwner s raw todo today now constructed
      | _ => none
  | .call response =>
      match s.phase with
      | .calling raw analysis todo =>
          let before := s.run.client.getD 0
          let after := before + response.usage
          some { s with
            run := { s.run with
              client := some after
              metrics := { s.run.metrics with llmCalls := s.run.metrics.llmCalls + 1 } }
            phase := .answered raw analysis response.output (after - before) todo }
      | _ => none
  | .settle checked today now =>
      match s.phase with
      | .answered raw analysis output used todo =>
          settleStep pl claimOwner s raw analysis output used todo checked today now
      | _ => none
  | .commit acknowledged =>
      match s.phase with
      | .loop [] =>
          let run := finalRun s.run
          some { s with
            database := s.session
            run := run
            phase :=
              if acknowledged then .returned ⟨run.saved, run.metrics, run.alreadyProcessed⟩
              else .raised }
      | _ => none
  | .raise =>
      match s.phase with
      | .start | .loop _ | .calling _ _ _ | .answered _ _ _ _ _ =>
          some { s with session := s.database, phase := .raised }
      | _ => none
  | .duplicate row =>
      (s.database.processed.insert? row).bind fun committed =>
        (s.session.processed.insert? row).map fun processed =>
          { s with
            database := { s.database with processed := committed }
            session := { s.session with processed := processed } }

end Steps

/-! ## A pipeline to run -/

/-- Empty tables. -/
def Rows.empty : Rows := ⟨Table.empty, ⟨[], List.nodup_nil⟩, fun _ => none, fun _ => none⟩

/-- An output for a title. -/
def sampleOutput (title : String) : EnrichmentOutput :=
  ⟨title ++ " disruption", "automotive", ["tariff"], none, ["Bosch"], ["Germany"],
    ["automotive"]⟩

/-- A pipeline whose deterministic enricher is sure of "rule", finds "noise" irrelevant and
is unsure of everything else. -/
def samplePipeline (policy : ValidPolicy) : EnrichmentPipeline where
  policy := policy
  tenant := none
  dailyBudget := none
  model := "gpt-5.4-nano"
  hasFactory := true
  analyze := fun article _ =>
    .ok ⟨sampleOutput article.title, if article.title = "noise" then 1 / 10 else 9 / 10,
      if article.title = "rule" then 9 / 10 else 4 / 10⟩
  unicode := .ascii
  digest := "|".intercalate
  validate := some

/-- A raw article with a title. -/
def sampleCandidate (id : ℕ) (title : String) : Candidate :=
  ⟨id, ⟨"rss", none, "tariffs", title, none, none, "", none, "", none, 0, "en", none⟩⟩

end ProcureSignal.Enrichment.Pipeline
