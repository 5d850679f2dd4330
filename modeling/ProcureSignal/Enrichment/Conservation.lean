/-
# Conservation of a batch

Every raw article of a batch is counted exactly once, whatever the cache holds, the policy
allows and the LLM answers; and the run budget bounds what is called and reserved.

* `Conserved` : the invariant of a batch;
* `metrics_conserved` : the metrics that a batch returns.
-/
import ProcureSignal.Enrichment.Transitions

namespace ProcureSignal.Enrichment.Pipeline

variable {pl : EnrichmentPipeline} {claimOwner : Option ℕ} {rawArticles : List Candidate}
  {s p q t : State} {l : Label} {tr : List (State × Label)}

/-! ## The invariant -/

/-- The enricher is invoked. -/
def Label.isCall : Label → Bool
  | .call _ => true
  | _ => false

/-- How often the enricher has been invoked. -/
def callsMade (tr : List (State × Label)) : ℕ := tr.countP (·.2.isCall)

/-- The articles of `n` that are not counted yet. -/
def Phase.remaining (n : ℕ) : Phase → ℕ
  | .start => n
  | .loop todo => todo.length
  | .calling _ _ todo | .answered _ _ _ _ todo => todo.length + 1
  | .returned _ | .raised => 0

/-- The calls that are reserved and not made yet. -/
def Phase.callsToCome : Phase → ℕ
  | .calling _ _ _ => 1
  | _ => 0

/-- The counters of a batch of `n` articles. -/
structure Conserved (pl : EnrichmentPipeline) (n : ℕ) (tr : List (State × Label)) (s : State) :
    Prop where
  counted : s.phase ≠ .raised →
    s.run.metrics.outcomes + s.run.alreadyProcessed + s.phase.remaining n = n
  saved : s.run.saved = s.run.metrics.stored
  calls : s.run.metrics.llmCalls = callsMade tr
  reserved : (s.run.metrics.llmCalls + s.phase.callsToCome : ℤ) ≤ s.run.budget.callsReserved
  caps : s.run.budget.maxCalls = pl.policy.maxLlmCalls ∧
    s.run.budget.maxTokens = pl.policy.maxLlmTokens
  result : ∀ result, s.phase = .returned result →
    result = ⟨s.run.saved, s.run.metrics, s.run.alreadyProcessed⟩

theorem Conserved.initial (pl : EnrichmentPipeline) (n : ℕ) (database : Rows)
    (client : Option ℕ) : Conserved pl n [] (State.initial pl database client) where
  counted := fun _ => Nat.zero_add n
  saved := rfl
  calls := rfl
  reserved := le_rfl
  caps := ⟨rfl, rfl⟩
  result := fun _ hphase => by cases hphase

/-- An iteration that ends keeps the counters. -/
theorem Conserved.of_counted {n : ℕ} (h : Conserved pl n tr p) {run : Run} {rows : Rows}
    {todo : List Candidate} (hrun : Counted p.run run) (hl : l.isCall = false)
    (hphase : p.phase ≠ .raised) (hremaining : p.phase.remaining n = todo.length + 1) :
    Conserved pl n ((p, l) :: tr) { p with run := run, session := rows, phase := .loop todo } where
  counted := fun _ => by
    have hcounted := h.counted hphase
    rw [hremaining] at hcounted
    have hone := hrun.outcomes
    show run.metrics.outcomes + run.alreadyProcessed + todo.length = n
    omega
  saved := by
    have hsaved := hrun.saved
    rw [h.saved] at hsaved
    show run.saved = run.metrics.stored
    omega
  calls := by
    rw [callsMade, List.countP_cons_of_neg (by simp [hl])]
    exact hrun.llmCalls.trans h.calls
  reserved := by
    have hreserved := h.reserved
    show (run.metrics.llmCalls + 0 : ℤ) ≤ run.budget.callsReserved
    rw [hrun.llmCalls, hrun.calls]
    omega
  caps := ⟨hrun.caps.1.trans h.caps.1, hrun.caps.2.trans h.caps.2⟩
  result := fun _ hphase => by cases hphase

/-- Every step keeps the counters. -/
theorem Conserved.step (h : Conserved pl rawArticles.length tr p)
    (hq : Pipeline.step pl claimOwner rawArticles p l = some q) :
    Conserved pl rawArticles.length ((p, l) :: tr) q := by
  cases Transition.of_step hq with
  | @select nextNow leaseNow todo already hphase hlength =>
      have hcounted := h.counted (by rw [hphase]; simp)
      have hreserved := h.reserved
      rw [hphase] at hcounted hreserved
      refine ⟨fun _ => ?_, h.saved, h.calls, hreserved, h.caps, fun _ hreturned => ?_⟩
      · simp only [Phase.remaining] at hcounted ⊢
        omega
      · cases hreturned
  | counted hphase hrun hspend =>
      exact h.of_counted hrun rfl (by rw [hphase]; simp) (by rw [hphase]; rfl)
  | @reserved today now constructed raw analysis todo run hphase hrun =>
      have hcounted := h.counted (by rw [hphase]; simp)
      have hreserved := h.reserved
      rw [hphase] at hcounted hreserved
      refine ⟨fun _ => ?_, ?_, ?_, ?_, ?_, fun _ hreturned => ?_⟩
      · show run.metrics.outcomes + run.alreadyProcessed + (todo.length + 1) = _
        rw [hrun.outcomes, hrun.alreadyProcessed]
        exact hcounted
      · exact hrun.saved.trans (h.saved.trans hrun.stored.symm)
      · exact hrun.llmCalls.trans h.calls
      · show (run.metrics.llmCalls + 1 : ℤ) ≤ run.budget.callsReserved
        rw [hrun.llmCalls, hrun.calls]
        simp only [Phase.callsToCome, Nat.cast_zero] at hreserved
        omega
      · exact ⟨hrun.caps.1.trans h.caps.1, hrun.caps.2.trans h.caps.2⟩
      · cases hreturned
  | @call response raw analysis todo hphase =>
      have hcounted := h.counted (by rw [hphase]; simp)
      have hreserved := h.reserved
      rw [hphase] at hcounted hreserved
      refine ⟨fun _ => hcounted, h.saved, ?_, ?_, h.caps, fun _ hreturned => ?_⟩
      · show p.run.metrics.llmCalls + 1 = _
        rw [callsMade, List.countP_cons_of_pos (by rfl), h.calls]
        rfl
      · simp only [Phase.callsToCome] at hreserved ⊢
        push_cast at hreserved ⊢
        omega
      · cases hreturned
  | settle hphase hrun hspend =>
      exact h.of_counted hrun rfl (by rw [hphase]; simp) (by rw [hphase]; rfl)
  | @commit acknowledged hphase =>
      have hcounted := h.counted (by rw [hphase]; simp)
      have hreserved := h.reserved
      rw [hphase] at hcounted hreserved
      cases acknowledged with
      | true =>
          refine ⟨fun _ => hcounted, h.saved, h.calls, hreserved, h.caps, fun _ hreturned => ?_⟩
          exact (Phase.returned.inj hreturned).symm
      | false =>
          refine ⟨fun hne => absurd rfl hne, h.saved, h.calls, hreserved, h.caps, ?_⟩
          intro _ hreturned
          cases hreturned
  | raise hopen =>
      have hreserved : (p.run.metrics.llmCalls + 0 : ℤ) ≤ p.run.budget.callsReserved :=
        le_trans (by omega) h.reserved
      refine ⟨fun hne => absurd rfl hne, h.saved, h.calls, hreserved, h.caps, ?_⟩
      intro _ hreturned
      cases hreturned
  | duplicate => exact ⟨h.counted, h.saved, h.calls, h.reserved, h.caps, h.result⟩

theorem Conserved.of_execution {G : State → Label → Prop} {database : Rows} {client : Option ℕ}
    (h : Execution (Pipeline.step pl claimOwner rawArticles) G
      (State.initial pl database client) tr t) :
    Conserved pl rawArticles.length tr t :=
  h.traceInvariant (Conserved.initial pl _ database client)
    fun _ _ _ _ hinv _ hq => hinv.step hq

/-! ## The metrics of a batch -/

/-- The budget of a run is within the caps of the policy in every state. -/
theorem Conserved.tokensReserved_le {n : ℕ} (h : Conserved pl n tr s) :
    s.run.budget.tokensReserved ≤ pl.policy.maxLlmTokens :=
  h.caps.2 ▸ s.run.budget.tokens_le

/-- No raw article has two processed rows. -/
theorem ProcessedTable.length_filter_le_one (t : ProcessedTable) (id : ℕ) :
    (t.rows.filter (·.rawArticleId = id)).length ≤ 1 := by
  have hcount : (t.rows.map (·.rawArticleId)).count id ≤ 1 :=
    List.nodup_iff_count_le_one.mp t.unique id
  rw [List.count, List.countP_map, List.countP_eq_length_filter] at hcount
  exact hcount

/-- **Batch conservation.**  When a batch returns, its counters add up to the articles
given, those of stored articles to `saved`; no raw article has two processed rows; the
enricher was invoked `llm_calls` times, within the cap; and at no point were more tokens
reserved than the policy allows. -/
theorem metrics_conserved {database : Rows} {client : Option ℕ} {result : EnrichmentRunResult}
    (h : Execution (Pipeline.step pl claimOwner rawArticles) unguarded
      (State.initial pl database client) tr t) (hret : t.phase = .returned result) :
    result.metrics.cached + result.metrics.deterministic + result.metrics.llm +
        result.metrics.skipped + result.metrics.deferred + result.metrics.failed +
        result.alreadyProcessed = rawArticles.length ∧
      result.saved =
        result.metrics.cached + result.metrics.deterministic + result.metrics.llm ∧
      (∀ id, (t.database.processed.rows.filter (·.rawArticleId = id)).length ≤ 1) ∧
      callsMade tr = result.metrics.llmCalls ∧
      (result.metrics.llmCalls : ℤ) ≤ pl.policy.maxLlmCalls ∧
      t.run.budget.tokensReserved ≤ pl.policy.maxLlmTokens ∧
      ∀ x ∈ tr, x.1.run.budget.tokensReserved ≤ pl.policy.maxLlmTokens := by
  have hinv : Conserved pl rawArticles.length tr t := .of_execution h
  have hresult := hinv.result result hret
  subst hresult
  refine ⟨?_, hinv.saved, t.database.processed.length_filter_le_one, hinv.calls.symm, ?_,
    hinv.tokensReserved_le, ?_⟩
  · have hcounted := hinv.counted (by rw [hret]; simp)
    rw [hret] at hcounted
    exact hcounted
  · have hreserved := hinv.reserved
    have hle := t.run.budget.calls_le
    rw [hinv.caps.1] at hle
    show (t.run.metrics.llmCalls : ℤ) ≤ pl.policy.maxLlmCalls
    omega
  · rintro ⟨p, l⟩ hx
    obtain ⟨tr₁, -, -, -, h₁, -, -, -⟩ := h.exists_of_mem hx
    exact (Conserved.of_execution h₁).tokensReserved_le

/-- Two calls in a run. -/
private def twoCalls : ValidPolicy where
  maxLlmCalls := 2
  valid := by decide +kernel

/-- One article for each exit of the loop, and one of them twice. -/
private def mixed : List Candidate :=
  [sampleCandidate 1 "rule", sampleCandidate 2 "rule", sampleCandidate 3 "llm",
    sampleCandidate 3 "llm", sampleCandidate 4 "broken", sampleCandidate 5 "noise",
    sampleCandidate 6 "late"]

/-- The calls for the third and the fourth article; the second one fails. -/
private def mixedRun : List Label :=
  [.select 0 0, .article 1 0 true, .article 1 0 true, .article 1 0 true,
    .call ⟨17, some (sampleOutput "llm")⟩, .settle 1 1 0, .article 1 0 true, .call ⟨17, none⟩,
    .settle 1 1 0, .article 1 0 true, .article 1 0 true, .commit true]

/-- A batch with every exit. -/
theorem metrics_conserved_mixed :
    ∃ tr t, Execution (Pipeline.step (samplePipeline twoCalls) none mixed) unguarded
        (State.initial (samplePipeline twoCalls) .empty none) tr t ∧
      ∃ result, t.phase = .returned result ∧
        result.metrics.cached + result.metrics.deterministic + result.metrics.llm +
          result.metrics.skipped + result.metrics.deferred + result.metrics.failed +
          result.alreadyProcessed = 7 ∧
        callsMade tr = 2 ∧ result.saved = 3 := by
  obtain ⟨tr, t, hrun, hphase, hcalls⟩ :
      ∃ tr t, Execution (Pipeline.step (samplePipeline twoCalls) none mixed) unguarded
          (State.initial (samplePipeline twoCalls) .empty none) tr t ∧
        t.phase = .returned ⟨3, ⟨1, 1, 1, 1, 1, 1, 5, 2, 34, 3⟩, 1⟩ ∧ callsMade tr = 2 :=
    Execution.exists_of_execute mixedRun (by decide +kernel) (fun _ _ => trivial)
  exact ⟨tr, t, hrun, _, hphase, (metrics_conserved hrun hphase).1, hcalls, rfl⟩

end ProcureSignal.Enrichment.Pipeline
