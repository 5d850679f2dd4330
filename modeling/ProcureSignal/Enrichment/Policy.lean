/-
# Policy, run budget and routing

`EnrichmentPolicy` and `EnrichmentBudget` of `enrichment/policy.py` and the router of
`enrichment/router.py`.  A score is the rational number its `float` denotes.

A budget cannot be built outside its caps: `EnrichmentBudget` carries them as fields, and
`reserve` is the only operation that raises a reservation.
-/
import Mathlib

namespace ProcureSignal.Enrichment

/-! ## The policy -/

/-- `EnrichmentPolicy`: the fields with their defaults. -/
structure EnrichmentPolicy where
  minRelevance : ℚ := 35 / 100
  minDeterministicConfidence : ℚ := 72 / 100
  maxLlmCalls : ℤ := 5
  maxLlmTokens : ℤ := 6000
  summaryMaxChars : ℤ := 420
  policyVersion : String := "cost-v1"
  taxonomyVersion : String := "signals-v1"
  minFallbackConfidence : ℚ := 50 / 100
  deriving DecidableEq, Repr

/-- The check of a score in `__post_init__`. -/
def checkScore (name : String) (value : ℚ) : Except String Unit :=
  if 0 ≤ value ∧ value ≤ 1 then .ok () else .error s!"{name} must be between 0 and 1"

/-- The check of a count in `__post_init__`. -/
def checkCount (name : String) (value : ℤ) : Except String Unit :=
  if value ≤ 0 then .error s!"{name} must be a positive integer" else .ok ()

/-- `EnrichmentPolicy.__post_init__`; the message of the `ValueError`. -/
def EnrichmentPolicy.postInit (p : EnrichmentPolicy) : Except String Unit := do
  checkScore "min_relevance" p.minRelevance
  checkScore "min_deterministic_confidence" p.minDeterministicConfidence
  checkScore "min_fallback_confidence" p.minFallbackConfidence
  if p.minFallbackConfidence > p.minDeterministicConfidence then
    throw "min_fallback_confidence cannot exceed min_deterministic_confidence"
  checkCount "max_llm_calls" p.maxLlmCalls
  checkCount "max_llm_tokens" p.maxLlmTokens
  checkCount "summary_max_chars" p.summaryMaxChars

/-- A policy that its own validation accepts. -/
structure ValidPolicy extends EnrichmentPolicy where
  valid : toEnrichmentPolicy.postInit = .ok ()

/-- The default policy is valid. -/
def ValidPolicy.default : ValidPolicy where
  valid := by decide +kernel

theorem checkScore_eq_ok {name : String} {value : ℚ} :
    checkScore name value = .ok () ↔ 0 ≤ value ∧ value ≤ 1 := by
  unfold checkScore
  split <;> simp_all

theorem checkCount_eq_ok {name : String} {value : ℤ} :
    checkCount name value = .ok () ↔ 0 < value := by
  unfold checkCount
  split <;> simp_all

/-- A sequence of checks passes when each of them does. -/
theorem bind_eq_ok_unit {x : Except String Unit} {f : Unit → Except String Unit} :
    (x >>= f) = .ok () ↔ x = .ok () ∧ f () = .ok () := by
  cases x with
  | error e => simp [bind, Except.bind]
  | ok u => simp [bind, Except.bind]

/-- What the validation accepts. -/
structure EnrichmentPolicy.Accepted (p : EnrichmentPolicy) : Prop where
  relevance : 0 ≤ p.minRelevance ∧ p.minRelevance ≤ 1
  deterministic : 0 ≤ p.minDeterministicConfidence ∧ p.minDeterministicConfidence ≤ 1
  fallback : 0 ≤ p.minFallbackConfidence ∧ p.minFallbackConfidence ≤ 1
  fallback_le : p.minFallbackConfidence ≤ p.minDeterministicConfidence
  calls : 0 < p.maxLlmCalls
  tokens : 0 < p.maxLlmTokens
  chars : 0 < p.summaryMaxChars

/-- **The validation.** -/
theorem EnrichmentPolicy.accepted_of_postInit {p : EnrichmentPolicy}
    (h : p.postInit = .ok ()) : p.Accepted := by
  simp only [postInit, bind_eq_ok_unit, checkScore_eq_ok] at h
  obtain ⟨hrel, hdet, hfall, h⟩ := h
  split at h
  · simp [throw, throwThe, MonadExceptOf.throw, bind, Except.bind] at h
  · rename_i hle
    simp only [bind_eq_ok_unit, checkCount_eq_ok] at h
    exact ⟨hrel, hdet, hfall, not_lt.mp hle, h.1, h.2.1, h.2.2⟩

/-! ## The run budget -/

/-- `EnrichmentBudget`: what a run has reserved and used, within its caps. -/
structure EnrichmentBudget where
  maxCalls : ℤ
  maxTokens : ℤ
  callsReserved : ℤ
  tokensReserved : ℤ
  tokensUsed : ℤ
  calls_le : callsReserved ≤ maxCalls
  tokens_le : tokensReserved ≤ maxTokens

/-- `EnrichmentBudget(policy.max_llm_calls, policy.max_llm_tokens)`, which the check of the
caps accepts. -/
def ValidPolicy.budget (p : ValidPolicy) : EnrichmentBudget where
  maxCalls := p.maxLlmCalls
  maxTokens := p.maxLlmTokens
  callsReserved := 0
  tokensReserved := 0
  tokensUsed := 0
  calls_le := (EnrichmentPolicy.accepted_of_postInit p.valid).calls.le
  tokens_le := (EnrichmentPolicy.accepted_of_postInit p.valid).tokens.le

namespace EnrichmentBudget

/-- `reserve`; without a reservation the answer is `False` and the budget stays. -/
def reserve (b : EnrichmentBudget) (estimated : ℤ) : Except String (Option EnrichmentBudget) :=
  if estimated ≤ 0 then .error "estimated_tokens must be a positive integer"
  else if h : b.callsReserved < b.maxCalls ∧ b.tokensReserved + estimated ≤ b.maxTokens then
    .ok (some { b with
      callsReserved := b.callsReserved + 1
      tokensReserved := b.tokensReserved + estimated
      calls_le := h.1
      tokens_le := h.2 })
  else .ok none

/-- `record_usage`. -/
def recordUsage (b : EnrichmentBudget) (actual : ℤ) : Except String EnrichmentBudget :=
  if actual < 0 then .error "actual_tokens must be a non-negative integer"
  else .ok { b with tokensUsed := b.tokensUsed + actual }

/-- What `reserve` does when it returns `True`. -/
theorem reserve_eq_some {b b' : EnrichmentBudget} {estimated : ℤ}
    (h : b.reserve estimated = .ok (some b')) :
    b'.maxCalls = b.maxCalls ∧ b'.maxTokens = b.maxTokens ∧
      b'.callsReserved = b.callsReserved + 1 := by
  unfold reserve at h
  split at h
  · cases h
  · split at h
    · rw [Except.ok.injEq, Option.some.injEq] at h
      subst h
      exact ⟨rfl, rfl, rfl⟩
    · cases h

/-- Recording usage leaves the reservations as they are. -/
theorem recordUsage_eq_ok {b b' : EnrichmentBudget} {actual : ℤ}
    (h : b.recordUsage actual = .ok b') :
    b' = { b with tokensUsed := b.tokensUsed + actual } := by
  unfold recordUsage at h
  split at h
  · cases h
  · exact (Except.ok.inj h).symm

end EnrichmentBudget

/-! ## The router -/

/-- `EnrichmentRoute`. -/
inductive EnrichmentRoute
  | cached
  | deterministic
  | llm
  | skipped
  | deferred
  deriving DecidableEq, Repr

/-- `EnrichmentRoute.value`. -/
def EnrichmentRoute.value : EnrichmentRoute → String
  | .cached => "cached"
  | .deterministic => "deterministic"
  | .llm => "llm"
  | .skipped => "skipped"
  | .deferred => "deferred"

/-- `RouteDecision`. -/
structure RouteDecision where
  route : EnrichmentRoute
  reason : String
  confidence : ℚ
  deriving DecidableEq, Repr

/-- The routing table, in strict priority order. -/
def routingTable (p : EnrichmentPolicy) (cacheHit : Bool) (relevance confidence : ℚ)
    (budgetAvailable : Bool) : RouteDecision :=
  if cacheHit then ⟨.cached, "compatible_cache_hit", confidence⟩
  else if relevance < p.minRelevance then ⟨.skipped, "below_relevance_threshold", confidence⟩
  else if confidence ≥ p.minDeterministicConfidence then
    ⟨.deterministic, "deterministic_confident", confidence⟩
  else if budgetAvailable then ⟨.llm, "ambiguous_relevant", confidence⟩
  else ⟨.deferred, "llm_budget_exhausted", confidence⟩

/-- `EnrichmentRouter.decide`; a score out of range raises. -/
def decideRoute (p : EnrichmentPolicy) (cacheHit : Bool) (relevance confidence : ℚ)
    (budgetAvailable : Bool) : Except String RouteDecision := do
  checkScore "relevance" relevance
  checkScore "confidence" confidence
  return routingTable p cacheHit relevance confidence budgetAvailable

theorem decideRoute_eq_ok {p : EnrichmentPolicy} {cacheHit : Bool} {relevance confidence : ℚ}
    {budgetAvailable : Bool} {d : RouteDecision}
    (h : decideRoute p cacheHit relevance confidence budgetAvailable = .ok d) :
    d = routingTable p cacheHit relevance confidence budgetAvailable := by
  unfold decideRoute at h
  cases hrel : checkScore "relevance" relevance with
  | error e => simp [hrel, bind, Except.bind] at h
  | ok _ =>
      cases hconf : checkScore "confidence" confidence with
      | error e => simp [hrel, hconf, bind, Except.bind] at h
      | ok _ =>
          simp only [hrel, hconf, bind, Except.bind, pure, Except.pure, Except.ok.injEq] at h
          exact h.symm

/-- The router answers `cached` for a cache hit only. -/
theorem routingTable_ne_cached (p : EnrichmentPolicy) (relevance confidence : ℚ)
    (budgetAvailable : Bool) :
    (routingTable p false relevance confidence budgetAvailable).route ≠ .cached := by
  unfold routingTable
  split_ifs <;> simp_all

/-- An article for the LLM is deferred when it is routed again without a budget. -/
theorem routingTable_again {p : EnrichmentPolicy} {cacheHit budgetAvailable : Bool}
    {relevance confidence : ℚ}
    (h : (routingTable p cacheHit relevance confidence budgetAvailable).route = .llm) :
    (routingTable p cacheHit relevance confidence false).route = .deferred := by
  unfold routingTable at h ⊢
  split_ifs at h ⊢ <;> simp_all

end ProcureSignal.Enrichment
