/-
# What a step of a batch does

Once for all: how each step changes the local variables, the phase and the spend rows.

* `Counted` : however an iteration of the loop ends, it moves exactly one counter, and
  `saved` moves with the counters of stored articles;
* `Reserved` : an article that is routed to the LLM has one call reserved;
* `Transition.of_step` : the steps.
-/
import ProcureSignal.Enrichment.Pipeline

namespace ProcureSignal.Enrichment.Pipeline

variable {pl : EnrichmentPipeline} {claimOwner : Option ℕ} {rawArticles : List Candidate}
  {s p q t : State} {l : Label}

/-! ## Counters -/

/-- The articles counted under a route or as failed. -/
def EnrichmentMetrics.outcomes (m : EnrichmentMetrics) : ℕ :=
  m.cached + m.deterministic + m.llm + m.skipped + m.deferred + m.failed

/-- The articles counted under a route that stores them. -/
def EnrichmentMetrics.stored (m : EnrichmentMetrics) : ℕ := m.cached + m.deterministic + m.llm

/-- A method whose articles are stored. -/
def Method.stores : Method → Bool
  | .route .cached | .route .deterministic | .route .llm => true
  | .route .skipped | .route .deferred | .failed => false

/-- What the client has charged in its life. -/
def Run.charged (run : Run) : ℕ := run.client.getD 0

/-- One counter moves. -/
@[simp] theorem outcomes_bump (m : EnrichmentMetrics) (k : Method) :
    (m.bump k).outcomes = m.outcomes + 1 := by
  unfold EnrichmentMetrics.bump EnrichmentMetrics.outcomes
  split <;> simp only <;> omega

@[simp] theorem stored_bump (m : EnrichmentMetrics) (k : Method) :
    (m.bump k).stored = m.stored + if k.stores then 1 else 0 := by
  unfold EnrichmentMetrics.bump EnrichmentMetrics.stored Method.stores
  split <;> simp <;> omega

@[simp] theorem llmCalls_bump (m : EnrichmentMetrics) (k : Method) :
    (m.bump k).llmCalls = m.llmCalls := by
  unfold EnrichmentMetrics.bump
  split <;> rfl

/-! ## One iteration -/

/-- The counters, the reservations and the charges of two runs agree. -/
structure Agrees (run run' : Run) : Prop where
  outcomes : run'.metrics.outcomes = run.metrics.outcomes
  stored : run'.metrics.stored = run.metrics.stored
  llmCalls : run'.metrics.llmCalls = run.metrics.llmCalls
  saved : run'.saved = run.saved
  alreadyProcessed : run'.alreadyProcessed = run.alreadyProcessed
  calls : run'.budget.callsReserved = run.budget.callsReserved
  caps : run'.budget.maxCalls = run.budget.maxCalls ∧ run'.budget.maxTokens = run.budget.maxTokens
  charged : run'.charged = run.charged

/-- What an iteration does to the local variables: one article is counted, as saved
exactly when under a route that stores it, and nothing is reserved, called or charged. -/
structure Counted (run run' : Run) : Prop where
  outcomes : run'.metrics.outcomes + run'.alreadyProcessed =
    run.metrics.outcomes + run.alreadyProcessed + 1
  saved : run'.saved + run.metrics.stored = run.saved + run'.metrics.stored
  llmCalls : run'.metrics.llmCalls = run.metrics.llmCalls
  calls : run'.budget.callsReserved = run.budget.callsReserved
  caps : run'.budget.maxCalls = run.budget.maxCalls ∧ run'.budget.maxTokens = run.budget.maxTokens
  charged : run'.charged = run.charged

theorem Counted.of_agrees {run run₁ run' : Run} (h : Agrees run run₁)
    (h' : Counted run₁ run') : Counted run run' where
  outcomes := by rw [h'.outcomes, h.outcomes, h.alreadyProcessed]
  saved := by
    have hsaved := h'.saved
    rwa [h.stored, h.saved] at hsaved
  llmCalls := h'.llmCalls.trans h.llmCalls
  calls := h'.calls.trans h.calls
  caps := ⟨h'.caps.1.trans h.caps.1, h'.caps.2.trans h.caps.2⟩
  charged := h'.charged.trans h.charged

/-- One call is reserved for the article at hand, and nothing is counted. -/
structure Reserved (run run' : Run) : Prop where
  outcomes : run'.metrics.outcomes = run.metrics.outcomes
  stored : run'.metrics.stored = run.metrics.stored
  llmCalls : run'.metrics.llmCalls = run.metrics.llmCalls
  saved : run'.saved = run.saved
  alreadyProcessed : run'.alreadyProcessed = run.alreadyProcessed
  calls : run'.budget.callsReserved = run.budget.callsReserved + 1
  caps : run'.budget.maxCalls = run.budget.maxCalls ∧ run'.budget.maxTokens = run.budget.maxTokens
  charged : run'.charged = run.charged

/-- An article that a row is written for is counted. -/
theorem persist_counted (run : Run) (rows : Rows) (row : ProcessedArticle) {method : Method}
    (now : Instant) (h : method.stores = true) :
    Counted run (persist claimOwner run rows row method now).1 := by
  unfold persist
  split
  · exact ⟨by simp only [outcomes_bump]; omega, by simp [h]; omega, by simp, rfl, ⟨rfl, rfl⟩, rfl⟩
  · exact ⟨(Nat.add_assoc _ _ _).symm, rfl, rfl, rfl, ⟨rfl, rfl⟩, rfl⟩

theorem persist_spend (run : Run) (rows : Rows) (row : ProcessedArticle) (method : Method)
    (now : Instant) : (persist claimOwner run rows row method now).2.spend = rows.spend := by
  unfold persist
  split <;> rfl

/-- The end of an iteration counts its article, when an output goes with a method that
stores it. -/
theorem conclude_counted (run : Run) (rows : Rows) (raw : Candidate)
    (analysis : DeterministicAnalysis) {method : Method} (reason : String)
    {output : Option EnrichmentOutput} (llmUsed : Bool) (now : Instant)
    (h : output.isSome = method.stores) :
    Counted run
      (conclude pl claimOwner run rows raw analysis method reason output llmUsed now).1 := by
  cases output with
  | none =>
      have hstores : method.stores = false := h.symm
      exact ⟨by simp only [conclude, outcomes_bump]; omega, by simp [conclude, hstores],
        by simp [conclude], rfl, ⟨rfl, rfl⟩, rfl⟩
  | some output => exact persist_counted _ _ _ _ h.symm

theorem conclude_spend (run : Run) (rows : Rows) (raw : Candidate)
    (analysis : DeterministicAnalysis) (method : Method) (reason : String)
    (output : Option EnrichmentOutput) (llmUsed : Bool) (now : Instant) :
    (conclude pl claimOwner run rows raw analysis method reason output llmUsed now).2.spend =
      rows.spend := by
  cases output with
  | none =>
      simp only [conclude]
      split <;> rfl
  | some output =>
      simp only [conclude, persist_spend]
      split <;> rfl

/-- What finishing the article `id` does to the rows: its raw row is transitioned, and its
processed row is the only one that can be new; it is there when the raw row is completed. -/
structure Finishes (claimOwner : Option ℕ) (id : ℕ) (rows rows' : Rows) : Prop where
  raws : ∃ outcome now, rows'.raws = (transitionRaw rows claimOwner id outcome now).raws ∧
    (outcome = .completed → id ∈ rows'.processed.rawIds)
  kept : ∀ i ∈ rows.processed.rawIds, i ∈ rows'.processed.rawIds
  added : ∀ i ∈ rows'.processed.rawIds, i ∈ rows.processed.rawIds ∨ i = id

/-- Columns that are not read do not matter. -/
theorem Finishes.of_eq {id : ℕ} {rows rows₁ rows' : Rows} (hraws : rows₁.raws = rows.raws)
    (hprocessed : rows₁.processed = rows.processed) (h : Finishes claimOwner id rows₁ rows') :
    Finishes claimOwner id rows rows' where
  raws := by
    obtain ⟨outcome, now, hraws', hdone⟩ := h.raws
    refine ⟨outcome, now, ?_, hdone⟩
    rw [hraws', transitionRaw, transitionRaw, hraws]
  kept := hprocessed ▸ h.kept
  added := hprocessed ▸ h.added

/-- The raw articles with a row after an insert. -/
theorem ProcessedTable.mem_rawIds_of_insert? {t t' : ProcessedTable} {row : ProcessedArticle}
    (h : t.insert? row = some t') {id : ℕ} :
    id ∈ t'.rawIds ↔ id ∈ t.rawIds ∨ id = row.rawArticleId := by
  unfold insert? at h
  split at h
  · cases h
  · rw [Option.some.injEq] at h
    subst h
    simp [rawIds]

/-- An insert is refused for a raw article that has a row. -/
theorem ProcessedTable.mem_of_insert?_eq_none {t : ProcessedTable} {row : ProcessedArticle}
    (h : t.insert? row = none) : row.rawArticleId ∈ t.rawIds := by
  unfold insert? at h
  split at h
  · assumption
  · cases h

theorem persist_finishes (run : Run) (rows : Rows) {row : ProcessedArticle} {id : ℕ}
    (hid : row.rawArticleId = id) (method : Method) (now : Instant) :
    Finishes claimOwner id rows (persist claimOwner run rows row method now).2 := by
  subst hid
  unfold persist
  split
  · rename_i processed hinsert
    have hmem := @ProcessedTable.mem_rawIds_of_insert? _ _ _ hinsert
    exact ⟨⟨.completed, now, rfl, fun _ => hmem.mpr (Or.inr rfl)⟩,
      fun i hi => hmem.mpr (Or.inl hi), fun i hi => hmem.mp hi⟩
  · rename_i hinsert
    exact ⟨⟨.completed, now, rfl, fun _ => ProcessedTable.mem_of_insert?_eq_none hinsert⟩,
      fun i hi => hi, fun i hi => Or.inl hi⟩

theorem conclude_finishes (run : Run) (rows : Rows) (raw : Candidate)
    (analysis : DeterministicAnalysis) {method : Method} (reason : String)
    {output : Option EnrichmentOutput} (llmUsed : Bool) (now : Instant)
    (h : output.isSome = method.stores) :
    Finishes claimOwner raw.id rows
      (conclude pl claimOwner run rows raw analysis method reason output llmUsed now).2 := by
  cases output with
  | none =>
      have houtcome : ∃ outcome, method.outcome = some outcome ∧ outcome ≠ .completed := by
        revert h
        unfold Method.stores Method.outcome
        split <;> simp
      obtain ⟨outcome, houtcome, hne⟩ := houtcome
      simp only [conclude, houtcome]
      exact ⟨⟨outcome, now, rfl, fun hdone => absurd hdone hne⟩, fun i hi => hi,
        fun i hi => Or.inl hi⟩
  | some output =>
      simp only [conclude]
      refine Finishes.of_eq ?_ ?_ (persist_finishes _ _ (Eq.refl raw.id) _ _)
      · split <;> rfl
      · split <;> rfl

/-- The selection passes on or counts every article. -/
theorem length_selectFrom (unavailable : ℕ → Bool) (seen : List ℕ)
    (candidates : List Candidate) :
    (selectFrom unavailable seen candidates).1.length +
      (selectFrom unavailable seen candidates).2 = candidates.length := by
  induction candidates generalizing seen with
  | nil => rfl
  | cons candidate rest ih =>
      simp only [selectFrom]
      split
      · rw [List.length_cons, ← ih seen]
        exact (Nat.add_assoc _ _ _).symm
      · rw [List.length_cons, List.length_cons, ← ih (candidate.id :: seen)]
        omega

/-! ## The steps -/

/-- A batch that is under way. -/
def Phase.Open : Phase → Prop
  | .start | .loop _ | .calling _ _ _ | .answered _ _ _ _ _ => True
  | .returned _ | .raised => False

/-- The steps, one constructor for each way a step can go. -/
inductive Transition (pl : EnrichmentPipeline) (rawArticles : List Candidate) (s : State) :
    Label → State → Prop
  | select {nextNow leaseNow : Instant} {todo : List Candidate} {already : ℕ} :
      s.phase = .start → todo.length + already = rawArticles.length →
      Transition pl rawArticles s (.select nextNow leaseNow)
        { s with run := { s.run with alreadyProcessed := already }, phase := .loop todo }
  | counted {today : Day} {now : Instant} {constructed : Bool} {raw : Candidate}
      {todo : List Candidate} {run : Run} {rows : Rows} :
      s.phase = .loop (raw :: todo) → Counted s.run run → rows.spend = s.session.spend →
      Transition pl rawArticles s (.article today now constructed)
        { s with run := run, session := rows, phase := .loop todo }
  | reserved {today : Day} {now : Instant} {constructed : Bool} {raw : Candidate}
      {analysis : DeterministicAnalysis} {todo : List Candidate} {run : Run} :
      s.phase = .loop (raw :: todo) → Reserved s.run run →
      Transition pl rawArticles s (.article today now constructed)
        { s with run := run, phase := .calling raw analysis todo }
  | call {response : Response} {raw : Candidate} {analysis : DeterministicAnalysis}
      {todo : List Candidate} : s.phase = .calling raw analysis todo →
      Transition pl rawArticles s (.call response)
        { s with
          run := { s.run with
            client := some (s.run.charged + response.usage)
            metrics := { s.run.metrics with llmCalls := s.run.metrics.llmCalls + 1 } }
          phase := .answered raw analysis response.output response.usage todo }
  | settle {checked today : Day} {now : Instant} {raw : Candidate}
      {analysis : DeterministicAnalysis} {output : Option EnrichmentOutput} {used : ℕ}
      {todo : List Candidate} {run : Run} {rows : Rows} :
      s.phase = .answered raw analysis output used todo → Counted s.run run →
      rows.spend = recordSpend pl s.session.spend used checked today →
      Transition pl rawArticles s (.settle checked today now)
        { s with run := run, session := rows, phase := .loop todo }
  | commit {acknowledged : Bool} : s.phase = .loop [] →
      Transition pl rawArticles s (.commit acknowledged)
        { s with
          database := s.session
          run := finalRun s.run
          phase :=
            if acknowledged then
              .returned ⟨s.run.saved, (finalRun s.run).metrics, s.run.alreadyProcessed⟩
            else .raised }
  | raise : s.phase.Open →
      Transition pl rawArticles s .raise { s with session := s.database, phase := .raised }
  | duplicate {row : ProcessedArticle} {committed processed : ProcessedTable} :
      Transition pl rawArticles s (.duplicate row)
        { s with
          database := { s.database with processed := committed }
          session := { s.session with processed := processed } }

/-- An article that misses the cache: counting the miss changes nothing else. -/
theorem agrees_miss (run : Run) (client : Option ℕ) (h : client.getD 0 = run.client.getD 0) :
    Agrees run { run with
      metrics := { run.metrics with cacheMisses := run.metrics.cacheMisses + 1 }
      client := client } :=
  ⟨rfl, rfl, rfl, rfl, rfl, rfl, ⟨rfl, rfl⟩, h⟩

/-- A new client has charged nothing. -/
theorem getD_ensureLlmClient (pl : EnrichmentPipeline) (client : Option ℕ)
    (constructed : Bool) :
    (ensureLlmClient pl client constructed).getD 0 = client.getD 0 := by
  cases client with
  | some tokens => rfl
  | none =>
      simp only [ensureLlmClient]
      split <;> rfl

/-- An iteration that ends. -/
structure Ends (claimOwner : Option ℕ) (p : State) (raw : Candidate) (todo : List Candidate)
    (spend : SpendTable) (q : State) : Prop where
  eq : q = { p with run := q.run, session := q.session, phase := .loop todo }
  counted : Counted p.run q.run
  spend : q.session.spend = spend
  finishes : Finishes claimOwner raw.id p.session q.session

/-- The end of an iteration by `conclude`. -/
theorem ends_conclude {run : Run} {rows : Rows} {raw : Candidate} {todo : List Candidate}
    {analysis : DeterministicAnalysis} {method : Method} {reason : String}
    {output : Option EnrichmentOutput} {llmUsed : Bool} {now : Instant} {spend : SpendTable}
    (hq : q = { p with
      run := (conclude pl claimOwner run rows raw analysis method reason output llmUsed now).1
      session := (conclude pl claimOwner run rows raw analysis method reason output llmUsed
        now).2
      phase := .loop todo })
    (hrun : Agrees p.run run) (hraws : rows.raws = p.session.raws)
    (hprocessed : rows.processed = p.session.processed) (hspend : rows.spend = spend)
    (h : output.isSome = method.stores) :
    Ends claimOwner p raw todo spend q := by
  subst hq hspend
  exact ⟨rfl, .of_agrees hrun (conclude_counted _ _ _ _ _ _ _ h),
    conclude_spend _ _ _ _ _ _ _ _ _,
    .of_eq hraws hprocessed (conclude_finishes _ _ _ _ _ _ _ h)⟩

/-- What an iteration does before the LLM call: it ends, or it reserves a call. -/
theorem articleStep_cases {raw : Candidate} {todo : List Candidate} {today : Day}
    {now : Instant} {constructed : Bool}
    (h : articleStep pl claimOwner p raw todo today now constructed = some q) :
    Ends claimOwner p raw todo p.session.spend q ∨
      ∃ run analysis, Reserved p.run run ∧
        q = { p with run := run, phase := .calling raw analysis todo } := by
  unfold articleStep at h
  split at h
  · rename_i output cache hget
    simp only [Option.some.injEq] at h
    subst h
    refine Or.inl ⟨rfl, persist_counted _ _ _ _ rfl, persist_spend _ _ _ _ _,
      .of_eq ?_ ?_ (persist_finishes _ _ ?_ _ _)⟩
    all_goals rfl
  · simp only at h
    split at h
    · cases h
    · rename_i analysis hanalysis
      split at h
      · cases h
      · rename_i decision hdecision
        have hagrees := agrees_miss p.run p.run.client rfl
        split at h
        · rename_i hroute
          refine Or.inl (ends_conclude (Option.some.inj h).symm hagrees rfl rfl rfl ?_)
          rw [hroute]
          rfl
        · -- the call is reserved, or the article is routed again as if without budget
          rename_i hroute
          have hclient := agrees_miss p.run _
            (getD_ensureLlmClient pl p.run.client constructed)
          split at h
          · cases h
          · rename_i budget hreserve
            simp only [Option.some.injEq] at h
            subst h
            split at hreserve
            · obtain ⟨hcalls, htokens, hreserved⟩ := EnrichmentBudget.reserve_eq_some hreserve
              refine Or.inr ⟨_, analysis, ?_, rfl⟩
              exact ⟨rfl, rfl, rfl, rfl, rfl, hreserved, ⟨hcalls, htokens⟩, hclient.charged⟩
            · cases hreserve
          · split at h
            · cases h
            · rename_i again hagain
              refine Or.inl (ends_conclude (Option.some.inj h).symm hclient rfl rfl rfl ?_)
              rw [decideRoute_eq_ok hdecision] at hroute
              rw [decideRoute_eq_ok hagain, routingTable_again hroute]
              rfl
        · rename_i hroute
          rw [decideRoute_eq_ok hdecision] at hroute
          exact absurd hroute (routingTable_ne_cached _ _ _ _)
        · rename_i hroute
          refine Or.inl (ends_conclude (Option.some.inj h).symm hagrees rfl rfl rfl ?_)
          rw [hroute]
          rfl
        · rename_i hroute
          refine Or.inl (ends_conclude (Option.some.inj h).symm hagrees rfl rfl rfl ?_)
          rw [hroute]
          rfl

/-- What an iteration does after the LLM call: it ends. -/
theorem settleStep_ends {raw : Candidate} {analysis : DeterministicAnalysis}
    {output : Option EnrichmentOutput} {used : ℕ} {todo : List Candidate} {checked today : Day}
    {now : Instant}
    (h : settleStep pl claimOwner p raw analysis output used todo checked today now = some q) :
    Ends claimOwner p raw todo (recordSpend pl p.session.spend used checked today) q := by
  unfold settleStep at h
  split at h
  · cases h
  · rename_i budget hbudget
    have hagrees : Agrees p.run { p.run with
        budget := budget
        metrics := { p.run.metrics with llmTokens := p.run.metrics.llmTokens + used } } := by
      rw [EnrichmentBudget.recordUsage_eq_ok hbudget]
      exact ⟨rfl, rfl, rfl, rfl, rfl, rfl, ⟨rfl, rfl⟩, rfl⟩
    have hq := (Option.some.inj h).symm
    cases output with
    | some output => exact ends_conclude hq hagrees rfl rfl rfl rfl
    | none =>
        by_cases hfallback : analysis.confidence ≥ pl.policy.minFallbackConfidence
        · simp only [if_pos hfallback] at hq
          exact ends_conclude hq hagrees rfl rfl rfl rfl
        · simp only [if_neg hfallback] at hq
          exact ends_conclude hq hagrees rfl rfl rfl rfl

/-- **Every step is one of them.** -/
theorem Transition.of_step (h : step pl claimOwner rawArticles p l = some q) :
    Transition pl rawArticles p l q := by
  cases l with
  | select nextNow leaseNow =>
      simp only [step] at h
      split at h
      · rename_i hphase
        exact Option.some.inj h ▸ .select hphase (length_selectFrom _ _ _)
      · cases h
  | article today now constructed =>
      simp only [step] at h
      split at h
      · rename_i hphase
        rcases articleStep_cases h with hends | ⟨run, analysis, hreserved, rfl⟩
        · exact hends.eq ▸ .counted hphase hends.counted hends.spend
        · exact .reserved hphase hreserved
      · cases h
  | call response =>
      simp only [step] at h
      split at h
      · rename_i hphase
        rw [Nat.add_sub_cancel_left] at h
        exact Option.some.inj h ▸ .call hphase
      · cases h
  | settle checked today now =>
      simp only [step] at h
      split at h
      · rename_i hphase
        have hends := settleStep_ends h
        exact hends.eq ▸ .settle hphase hends.counted hends.spend
      · cases h
  | commit acknowledged =>
      simp only [step] at h
      split at h
      · rename_i hphase
        exact Option.some.inj h ▸ .commit hphase
      · cases h
  | raise =>
      have hopen : p.phase.Open := by
        cases hphase : p.phase with
        | returned result => simp [step, hphase] at h
        | raised => simp [step, hphase] at h
        | _ => trivial
      have hq : { p with session := p.database, phase := .raised } = q := by
        simp only [step] at h
        split at h
        all_goals first | exact Option.some.inj h | cases h
      exact hq ▸ .raise hopen
  | duplicate row =>
      simp only [step, Option.bind_eq_some_iff, Option.map_eq_some_iff] at h
      obtain ⟨committed, -, processed, -, rfl⟩ := h
      exact .duplicate

end ProcureSignal.Enrichment.Pipeline
