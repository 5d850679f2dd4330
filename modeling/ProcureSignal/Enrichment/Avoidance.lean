/-
# Calls that are avoided

`metrics.avoided_llm_calls` of `enrichment/pipeline.py` is summed up after the loop from the
counters of the routes.  The history of a batch says what it should be: the articles saved or
skipped, less those that the enricher was invoked for.

A call that fails is paid for all the same.  When the deterministic analysis is sure enough the
article is stored under the route `deterministic`, and counted among the avoided calls.

* `avoided` : the articles of a history that were finished without a call;
* `Tallied` : the counters against the history;
* `avoidedLlmCalls_iff` : the batches whose counter is right.
-/
import ProcureSignal.Enrichment.Conservation

namespace ProcureSignal.Enrichment.Pipeline

variable {pl : EnrichmentPipeline} {claimOwner : Option ℕ} {rawArticles : List Candidate}
  {s p q t : State} {l : Label} {tr : List (State × Label)}

/-! ## The articles of a history -/

/-- The raw article at hand. -/
def Phase.atHand : Phase → Option ℕ
  | .loop (raw :: _) | .calling raw _ _ | .answered raw _ _ _ _ => some raw.id
  | .start | .loop [] | .returned _ | .raised => none

/-- From `p` to `q` the raw article `id` is saved, or an article is skipped. -/
def savesOrSkips (p q : State) (id : ℕ) : Bool :=
  (id ∉ p.session.processed.rawIds && id ∈ q.session.processed.rawIds) ||
    p.run.metrics.skipped < q.run.metrics.skipped

/-- A step inside an iteration of the loop, other than the call. -/
def Label.isIteration : Label → Bool
  | .article _ _ _ | .settle _ _ _ => true
  | .select _ _ | .call _ | .commit _ | .raise | .duplicate _ => false

section History

variable (pl : EnrichmentPipeline) (claimOwner : Option ℕ) (rawArticles : List Candidate)

/-- The article that a step saves or skips. -/
def finishedBy (x : State × Label) : Option ℕ :=
  if x.2.isIteration then
    x.1.phase.atHand.filter fun id =>
      (step pl claimOwner rawArticles x.1 x.2).any fun q => savesOrSkips x.1 q id
  else none

/-- The article that a step invokes the enricher for. -/
def calledBy (x : State × Label) : Option ℕ := if x.2.isCall then x.1.phase.atHand else none

/-- The articles saved or skipped. -/
def finished (tr : List (State × Label)) : Finset ℕ :=
  (tr.filterMap (finishedBy pl claimOwner rawArticles)).toFinset

/-- The articles that the enricher was invoked for. -/
def called (tr : List (State × Label)) : Finset ℕ := (tr.filterMap calledBy).toFinset

/-- The articles saved or skipped without a call. -/
def avoided (tr : List (State × Label)) : Finset ℕ :=
  finished pl claimOwner rawArticles tr \ called tr

/-- A failed call whose article is stored with the deterministic output. -/
def fallsBack (x : State × Label) : Bool :=
  match x.1.phase, x.2 with
  | .answered raw analysis none _ _, .settle _ _ _ =>
      pl.policy.minFallbackConfidence ≤ analysis.confidence &&
        raw.id ∉ x.1.session.processed.rawIds
  | _, _ => false

end History

theorem finished_cons (x : State × Label) (tr : List (State × Label)) :
    finished pl claimOwner rawArticles (x :: tr) =
      (finishedBy pl claimOwner rawArticles x).toFinset ∪
        finished pl claimOwner rawArticles tr := by
  unfold finished
  rw [List.filterMap_cons]
  cases finishedBy pl claimOwner rawArticles x with
  | none => simp
  | some id => simp

theorem called_cons (x : State × Label) (tr : List (State × Label)) :
    called (x :: tr) = (calledBy x).toFinset ∪ called tr := by
  unfold called
  rw [List.filterMap_cons]
  cases calledBy x with
  | none => simp
  | some id => simp

/-! ## The counters of an iteration -/

/-- The sum behind `avoided_llm_calls`. -/
def EnrichmentMetrics.avoidable (m : EnrichmentMetrics) : ℕ :=
  m.cached + m.deterministic + m.skipped

/-- A method that the sum counts. -/
def Method.avoids : Method → Bool
  | .route .cached | .route .deterministic | .route .skipped => true
  | .route .llm | .route .deferred | .failed => false

theorem avoidable_bump (m : EnrichmentMetrics) (k : Method) :
    (m.bump k).avoidable = m.avoidable + if k.avoids then 1 else 0 := by
  unfold EnrichmentMetrics.bump EnrichmentMetrics.avoidable Method.avoids
  split <;> simp <;> omega

theorem skipped_bump (m : EnrichmentMetrics) (k : Method) :
    (m.bump k).skipped = m.skipped + if k = .route .skipped then 1 else 0 := by
  unfold EnrichmentMetrics.bump
  split <;> simp

/-- An iteration ends with `method`: the counter moves, unless the article is to be stored and
has a row already; and a stored article has a row. -/
structure Concludes (p q : State) (raw : Candidate) (todo : List Candidate) (method : Method) :
    Prop where
  phase : q.phase = .loop todo
  avoidable : q.run.metrics.avoidable = p.run.metrics.avoidable +
    if method.avoids ∧ ¬ (method.stores ∧ raw.id ∈ p.session.processed.rawIds) then 1 else 0
  skipped : q.run.metrics.skipped = p.run.metrics.skipped +
    if method = .route .skipped then 1 else 0
  llmCalls : q.run.metrics.llmCalls = p.run.metrics.llmCalls
  saved : raw.id ∈ q.session.processed.rawIds ↔
    raw.id ∈ p.session.processed.rawIds ∨ method.stores

/-- What ends an iteration saves or skips its article exactly when the sum counts it, the LLM
apart. -/
theorem Concludes.savesOrSkips_eq {raw : Candidate} {todo : List Candidate} {method : Method}
    (h : Concludes p q raw todo method) (hllm : method ≠ .route .llm) :
    savesOrSkips p q raw.id =
      decide (method.avoids ∧ ¬ (method.stores ∧ raw.id ∈ p.session.processed.rawIds)) := by
  have hskipped := h.skipped
  have hsaved := h.saved
  unfold savesOrSkips
  rw [Bool.eq_iff_iff]
  cases method with
  | failed => simp_all [Method.avoids, Method.stores]
  | route route => cases route <;> simp_all [Method.avoids, Method.stores]

/-- Writing the row of an article. -/
theorem concludes_persist {run : Run} {rows : Rows} {row : ProcessedArticle} {raw : Candidate}
    {todo : List Candidate} {method : Method} {now : Instant}
    (hq : q = { p with
      run := (persist claimOwner run rows row method now).1
      session := (persist claimOwner run rows row method now).2
      phase := .loop todo })
    (hid : row.rawArticleId = raw.id) (havoidable : run.metrics.avoidable = p.run.metrics.avoidable)
    (hskipped : run.metrics.skipped = p.run.metrics.skipped)
    (hcalls : run.metrics.llmCalls = p.run.metrics.llmCalls)
    (hprocessed : rows.processed = p.session.processed) (hstores : method.stores = true) :
    Concludes p q raw todo method := by
  have hne : method ≠ .route .skipped := by rintro rfl; cases hstores
  subst hq
  cases hinsert : rows.processed.insert? row with
  | none =>
      have hmem := ProcessedTable.mem_of_insert?_eq_none hinsert
      rw [hprocessed] at hmem
      refine ⟨rfl, ?_, ?_, ?_, ?_⟩ <;> simp only [persist, hinsert]
      · rw [hid] at hmem
        simpa [hmem, hstores, hid] using havoidable
      · rw [if_neg hne]
        exact hskipped
      · exact hcalls
      · rw [hid] at hmem
        simp [hid, hmem, transitionRaw, hprocessed]
  | some processed =>
      have hmem : row.rawArticleId ∉ p.session.processed.rawIds := by
        rw [← hprocessed]
        intro hmem
        simp [ProcessedTable.insert?, hmem] at hinsert
      have hnew : row.rawArticleId ∈ processed.rawIds :=
        (ProcessedTable.mem_rawIds_of_insert? hinsert).mpr (Or.inr rfl)
      refine ⟨rfl, ?_, ?_, ?_, ?_⟩ <;> simp only [persist, hinsert]
      · rw [hid] at hmem
        simp [avoidable_bump, havoidable, hmem]
      · rw [skipped_bump, hskipped]
      · rw [llmCalls_bump, hcalls]
      · rw [hid] at hnew
        simp [hid, hnew, hstores, transitionRaw]

/-- The end of an iteration by `conclude`. -/
theorem concludes_conclude {run : Run} {rows : Rows} {raw : Candidate} {todo : List Candidate}
    {analysis : DeterministicAnalysis} {method : Method} {reason : String}
    {output : Option EnrichmentOutput} {llmUsed : Bool} {now : Instant}
    (hq : q = { p with
      run := (conclude pl claimOwner run rows raw analysis method reason output llmUsed now).1
      session := (conclude pl claimOwner run rows raw analysis method reason output llmUsed
        now).2
      phase := .loop todo })
    (havoidable : run.metrics.avoidable = p.run.metrics.avoidable)
    (hskipped : run.metrics.skipped = p.run.metrics.skipped)
    (hcalls : run.metrics.llmCalls = p.run.metrics.llmCalls)
    (hprocessed : rows.processed = p.session.processed) (h : output.isSome = method.stores) :
    Concludes p q raw todo method := by
  cases output with
  | none =>
      have hstores : method.stores = false := h.symm
      have hsame : (conclude pl claimOwner run rows raw analysis method reason none llmUsed
          now).2.processed = p.session.processed := by
        rw [← hprocessed]
        simp only [conclude]
        split <;> rfl
      subst hq
      refine ⟨rfl, ?_, ?_, ?_, ?_⟩
      · simp [conclude, avoidable_bump, havoidable, hstores]
      · simp [conclude, skipped_bump, hskipped]
      · simp [conclude, hcalls]
      · simp only [hsame, hstores, Bool.false_eq_true, or_false]
  | some output =>
      refine concludes_persist hq rfl havoidable hskipped hcalls ?_ h.symm
      rw [← hprocessed]
      split <;> rfl

/-- Before the call an iteration ends, by another method than the LLM, or a call is
reserved. -/
theorem articleStep_concludes {raw : Candidate} {todo : List Candidate} {today : Day}
    {now : Instant} {constructed : Bool}
    (h : articleStep pl claimOwner p raw todo today now constructed = some q) :
    (∃ method, method ≠ .route .llm ∧ Concludes p q raw todo method) ∨
      ∃ analysis, q.phase = .calling raw analysis todo ∧ q.session = p.session ∧
        q.run.metrics.avoidable = p.run.metrics.avoidable ∧
        q.run.metrics.skipped = p.run.metrics.skipped ∧
        q.run.metrics.llmCalls = p.run.metrics.llmCalls := by
  unfold articleStep at h
  split at h
  · -- a cache hit
    refine Or.inl ⟨.route .cached, by simp, ?_⟩
    exact concludes_persist (Option.some.inj h).symm rfl rfl rfl rfl rfl rfl
  · simp only at h
    split at h
    · cases h
    · split at h
      · cases h
      · rename_i decision hdecision
        split at h
        · rename_i hroute
          refine Or.inl ⟨.route decision.route, by simp [hroute], ?_⟩
          refine concludes_conclude (Option.some.inj h).symm rfl rfl rfl rfl ?_
          rw [hroute]
          rfl
        · -- the call is reserved, or the article is routed again as if without budget
          rename_i hroute
          split at h
          · cases h
          · have hq := Option.some.inj h
            subst hq
            exact Or.inr ⟨_, rfl, rfl, rfl, rfl, rfl⟩
          · split at h
            · cases h
            · rename_i again hagain
              rw [decideRoute_eq_ok hdecision] at hroute
              have hdeferred : again.route = .deferred := by
                rw [decideRoute_eq_ok hagain, routingTable_again hroute]
              refine Or.inl ⟨.route again.route, by simp [hdeferred], ?_⟩
              refine concludes_conclude (Option.some.inj h).symm rfl rfl rfl rfl ?_
              rw [hdeferred]
              rfl
        · rename_i hroute
          rw [decideRoute_eq_ok hdecision] at hroute
          exact absurd hroute (routingTable_ne_cached _ _ _ _)
        · rename_i hroute
          refine Or.inl ⟨.route decision.route, by simp [hroute], ?_⟩
          refine concludes_conclude (Option.some.inj h).symm rfl rfl rfl rfl ?_
          rw [hroute]
          rfl
        · rename_i hroute
          refine Or.inl ⟨.route decision.route, by simp [hroute], ?_⟩
          refine concludes_conclude (Option.some.inj h).symm rfl rfl rfl rfl ?_
          rw [hroute]
          rfl

/-- After the call an iteration ends: by the LLM, by the deterministic fallback, or as
failed. -/
theorem settleStep_concludes {raw : Candidate} {analysis : DeterministicAnalysis}
    {output : Option EnrichmentOutput} {used : ℕ} {todo : List Candidate} {checked today : Day}
    {now : Instant}
    (h : settleStep pl claimOwner p raw analysis output used todo checked today now = some q) :
    Concludes p q raw todo
      (if output.isSome then .route .llm
      else if pl.policy.minFallbackConfidence ≤ analysis.confidence then .route .deterministic
      else .failed) := by
  unfold settleStep at h
  split at h
  · cases h
  · have hq := (Option.some.inj h).symm
    cases output with
    | some output => exact concludes_conclude hq rfl rfl rfl rfl rfl
    | none =>
        by_cases hfallback : pl.policy.minFallbackConfidence ≤ analysis.confidence
        · simp only [ge_iff_le, if_pos hfallback] at hq
          simp only [Option.isSome_none, Bool.false_eq_true, if_false, if_pos hfallback]
          exact concludes_conclude hq rfl rfl rfl rfl rfl
        · simp only [ge_iff_le, if_neg hfallback] at hq
          simp only [Option.isSome_none, Bool.false_eq_true, if_false, if_neg hfallback]
          exact concludes_conclude hq rfl rfl rfl rfl rfl

/-! ## Articles that are still to come -/

/-- The articles to come: different from each other and from those seen so far. -/
def Unseen (seen : Finset ℕ) (todo : List Candidate) : Prop :=
  (todo.map (·.id)).Nodup ∧ ∀ raw ∈ todo, raw.id ∉ seen

theorem Unseen.head {seen : Finset ℕ} {raw : Candidate} {todo : List Candidate}
    (h : Unseen seen (raw :: todo)) : raw.id ∉ seen :=
  h.2 raw (List.mem_cons_self ..)

/-- Seeing the first article leaves the others unseen. -/
theorem Unseen.tail {seen seen' : Finset ℕ} {raw : Candidate} {todo : List Candidate}
    (h : Unseen seen (raw :: todo)) (hsub : seen' ⊆ insert raw.id seen) : Unseen seen' todo := by
  obtain ⟨hnodup, hseen⟩ := h
  rw [List.map_cons, List.nodup_cons] at hnodup
  refine ⟨hnodup.2, fun other hother hmem => ?_⟩
  rcases Finset.mem_insert.mp (hsub hmem) with heq | hin
  · exact hnodup.1 (heq ▸ List.mem_map_of_mem hother)
  · exact hseen other (List.mem_cons_of_mem _ hother) hin

/-- The selection takes every article once. -/
theorem nodup_selectFrom (unavailable : ℕ → Bool) (seen : List ℕ) (candidates : List Candidate) :
    ((selectFrom unavailable seen candidates).1.map (·.id)).Nodup ∧
      ∀ raw ∈ (selectFrom unavailable seen candidates).1, raw.id ∉ seen := by
  induction candidates generalizing seen with
  | nil => exact ⟨List.nodup_nil, fun raw hraw => absurd hraw List.not_mem_nil⟩
  | cons candidate rest ih =>
      simp only [selectFrom]
      split
      · exact ih seen
      · rename_i hnew
        obtain ⟨hnodup, hseen⟩ := ih (candidate.id :: seen)
        refine ⟨?_, fun raw hraw => ?_⟩
        · rw [List.map_cons, List.nodup_cons]
          refine ⟨fun hmem => ?_, hnodup⟩
          obtain ⟨raw, hraw, heq⟩ := List.mem_map.mp hmem
          exact hseen raw hraw (heq ▸ List.mem_cons_self ..)
        · rcases List.mem_cons.mp hraw with rfl | hrest
          · exact fun hmem => hnew (Or.inl hmem)
          · exact fun hmem => hseen raw hrest (List.mem_cons_of_mem _ hmem)

/-- What is at hand is unseen until it is called, and what is to come is unseen. -/
def Fresh (finished called : Finset ℕ) : Phase → Prop
  | .start => finished = ∅ ∧ called = ∅
  | .loop todo => Unseen (finished ∪ called) todo
  | .calling raw _ todo => Unseen (finished ∪ called) (raw :: todo)
  | .answered raw _ _ _ todo =>
      raw.id ∈ called ∧ raw.id ∉ todo.map (·.id) ∧ Unseen (finished ∪ called) todo
  | .returned _ | .raised => True

/-- The articles of `n` that can still be avoided or called. -/
def Phase.toCome (n : ℕ) : Phase → ℕ
  | .start => n
  | .loop todo | .answered _ _ _ _ todo => todo.length
  | .calling _ _ todo => todo.length + 1
  | .returned _ | .raised => 0

/-! ## The invariant -/

/-- The counters of a batch against its history: the sum is what was avoided and, beside it,
what fell back. -/
structure Tallied (pl : EnrichmentPipeline) (claimOwner : Option ℕ)
    (rawArticles : List Candidate) (tr : List (State × Label)) (s : State) : Prop where
  tally : s.run.metrics.avoidable =
    (avoided pl claimOwner rawArticles tr).card + tr.countP (fallsBack pl)
  fresh : Fresh (finished pl claimOwner rawArticles tr) (called tr) s.phase
  bound : s.run.metrics.llmCalls + (avoided pl claimOwner rawArticles tr).card +
    s.phase.toCome rawArticles.length ≤ rawArticles.length
  closed : ∀ result, s.phase = .returned result →
    s.run.metrics.avoidedLlmCalls = s.run.metrics.avoidable

theorem Tallied.initial (pl : EnrichmentPipeline) (claimOwner : Option ℕ)
    (rawArticles : List Candidate) (database : Rows) (client : Option ℕ) :
    Tallied pl claimOwner rawArticles [] (State.initial pl database client) where
  tally := rfl
  fresh := ⟨rfl, rfl⟩
  bound := le_of_eq (Nat.zero_add _)
  closed := fun _ hphase => by cases hphase

/-- A step that neither finishes an article nor calls for one keeps the tally. -/
theorem Tallied.of_quiet (h : Tallied pl claimOwner rawArticles tr p)
    (hfinished : finishedBy pl claimOwner rawArticles (p, l) = none)
    (hcalled : calledBy (p, l) = none) (hback : fallsBack pl (p, l) = false)
    (havoidable : q.run.metrics.avoidable = p.run.metrics.avoidable)
    (hcalls : q.run.metrics.llmCalls = p.run.metrics.llmCalls)
    (hfresh : Fresh (finished pl claimOwner rawArticles tr) (called tr) q.phase)
    (hcome : q.phase.toCome rawArticles.length ≤ p.phase.toCome rawArticles.length)
    (hclosed : ∀ result, q.phase = .returned result →
      q.run.metrics.avoidedLlmCalls = q.run.metrics.avoidable) :
    Tallied pl claimOwner rawArticles ((p, l) :: tr) q := by
  have hfinished' : finished pl claimOwner rawArticles ((p, l) :: tr) =
      finished pl claimOwner rawArticles tr := by
    rw [finished_cons, hfinished]
    exact Finset.empty_union _
  have hcalled' : called ((p, l) :: tr) = called tr := by
    rw [called_cons, hcalled]
    exact Finset.empty_union _
  have hbound := h.bound
  rw [avoided] at hbound
  refine ⟨?_, ?_, ?_, hclosed⟩
  · rw [avoided, hfinished', hcalled', List.countP_cons_of_neg (by simp [hback]), havoidable]
    exact h.tally
  · rw [hfinished', hcalled']
    exact hfresh
  · rw [avoided, hfinished', hcalled', hcalls]
    omega

/-- The article of a step that ends an iteration. -/
theorem finishedBy_eq {id : ℕ} (hiteration : l.isIteration = true)
    (hhand : p.phase.atHand = some id) (hq : step pl claimOwner rawArticles p l = some q) :
    finishedBy pl claimOwner rawArticles (p, l) =
      if savesOrSkips p q id then some id else none := by
  simp only [finishedBy, hiteration, hhand, hq]
  cases hfinished : savesOrSkips p q id <;> simp [hfinished]

/-- An iteration that ends without a call keeps the tally. -/
theorem Tallied.of_article (h : Tallied pl claimOwner rawArticles tr p) {raw : Candidate}
    {todo : List Candidate} {today : Day} {now : Instant} {constructed : Bool} {method : Method}
    (hphase : p.phase = .loop (raw :: todo))
    (hq : step pl claimOwner rawArticles p (.article today now constructed) = some q)
    (hllm : method ≠ .route .llm) (hends : Concludes p q raw todo method) :
    Tallied pl claimOwner rawArticles ((p, .article today now constructed) :: tr) q := by
  have hfresh := h.fresh
  have hbound := h.bound
  rw [hphase] at hfresh hbound
  have hnew : raw.id ∉ finished pl claimOwner rawArticles tr ∪ called tr := Unseen.head hfresh
  have hcalled : called ((p, Label.article today now constructed) :: tr) = called tr := by
    rw [called_cons]
    exact Finset.empty_union _
  have hcount : ((p, Label.article today now constructed) :: tr).countP (fallsBack pl) =
      tr.countP (fallsBack pl) :=
    List.countP_cons_of_neg (by simp [fallsBack, hphase])
  have hfinished := finishedBy_eq (p := p) (l := .article today now constructed) rfl
    (by rw [hphase]; rfl) hq
  have hsum := hends.avoidable
  have hdone := hends.savesOrSkips_eq hllm
  have hclosed : ∀ result, q.phase = .returned result →
      q.run.metrics.avoidedLlmCalls = q.run.metrics.avoidable := by
    intro result hreturned
    rw [hends.phase] at hreturned
    cases hreturned
  rw [Finset.mem_union, not_or] at hnew
  by_cases hmoves : method.avoids ∧ ¬ (method.stores ∧ raw.id ∈ p.session.processed.rawIds)
  · -- the article is one of those that are avoided
    rw [if_pos hmoves] at hsum
    have hcond : savesOrSkips p q raw.id = true := by
      rw [hdone]
      exact decide_eq_true hmoves
    rw [hcond, if_pos rfl] at hfinished
    have hinsert : finished pl claimOwner rawArticles
        ((p, .article today now constructed) :: tr) =
        insert raw.id (finished pl claimOwner rawArticles tr) := by
      rw [finished_cons, hfinished, Option.toFinset_some, Finset.insert_eq]
    have hcard : (avoided pl claimOwner rawArticles
        ((p, .article today now constructed) :: tr)).card =
        (avoided pl claimOwner rawArticles tr).card + 1 := by
      rw [avoided, hinsert, hcalled, Finset.insert_sdiff_of_notMem _ hnew.2,
        Finset.card_insert_of_notMem (fun hmem => hnew.1 (Finset.mem_sdiff.mp hmem).1)]
      rfl
    refine ⟨?_, ?_, ?_, hclosed⟩
    · rw [hsum, h.tally, hcard, hcount]
      omega
    · rw [hends.phase, hinsert, hcalled]
      refine Unseen.tail hfresh ?_
      rw [Finset.insert_union]
    · rw [hends.phase, hends.llmCalls, hcard]
      simp only [Phase.toCome, List.length_cons] at hbound ⊢
      omega
  · rw [if_neg hmoves] at hsum
    have hcond : savesOrSkips p q raw.id = false := by
      rw [hdone]
      exact decide_eq_false hmoves
    rw [hcond, if_neg Bool.false_ne_true] at hfinished
    have hsame : finished pl claimOwner rawArticles
        ((p, .article today now constructed) :: tr) = finished pl claimOwner rawArticles tr := by
      rw [finished_cons, hfinished]
      exact Finset.empty_union _
    refine ⟨?_, ?_, ?_, hclosed⟩
    · rw [hsum, h.tally, avoided, avoided, hsame, hcalled, hcount]
      rfl
    · rw [hends.phase, hsame, hcalled]
      exact Unseen.tail hfresh (Finset.subset_insert _ _)
    · rw [hends.phase, hends.llmCalls, avoided, hsame, hcalled]
      simp only [Phase.toCome, List.length_cons] at hbound ⊢
      rw [avoided] at hbound
      omega

/-- An iteration that ends after a call tallies the fallback only. -/
theorem Tallied.of_settle (h : Tallied pl claimOwner rawArticles tr p) {raw : Candidate}
    {analysis : DeterministicAnalysis} {output : Option EnrichmentOutput} {used : ℕ}
    {todo : List Candidate} {checked today : Day} {now : Instant}
    (hphase : p.phase = .answered raw analysis output used todo)
    (hq : step pl claimOwner rawArticles p (.settle checked today now) = some q) :
    Tallied pl claimOwner rawArticles ((p, .settle checked today now) :: tr) q := by
  have hends := settleStep_concludes (by simpa only [step, hphase] using hq)
  have hfresh := h.fresh
  have hbound := h.bound
  rw [hphase] at hfresh hbound
  obtain ⟨hmade, hlast, hcome⟩ := hfresh
  have hcalled : called ((p, Label.settle checked today now) :: tr) = called tr := by
    rw [called_cons]
    exact Finset.empty_union _
  have hfinished := finishedBy_eq (p := p) (l := .settle checked today now) rfl
    (by rw [hphase]; rfl) hq
  -- the article at hand has been called, so that it does not count as avoided
  have hsub : finished pl claimOwner rawArticles ((p, .settle checked today now) :: tr) ⊆
      insert raw.id (finished pl claimOwner rawArticles tr) := by
    rw [finished_cons, hfinished]
    split
    · rw [Option.toFinset_some, Finset.insert_eq]
    · rw [Option.toFinset_none, Finset.empty_union]
      exact Finset.subset_insert _ _
  have hsame : avoided pl claimOwner rawArticles ((p, .settle checked today now) :: tr) =
      avoided pl claimOwner rawArticles tr := by
    rw [avoided, avoided, hcalled]
    refine Finset.Subset.antisymm (fun id hid => ?_) (Finset.sdiff_subset_sdiff ?_ (le_refl _))
    · obtain ⟨hin, hout⟩ := Finset.mem_sdiff.mp hid
      rcases Finset.mem_insert.mp (hsub hin) with rfl | hold
      · exact absurd hmade hout
      · exact Finset.mem_sdiff.mpr ⟨hold, hout⟩
    · rw [finished_cons]
      exact Finset.subset_union_right
  have hcount : ((p, Label.settle checked today now) :: tr).countP (fallsBack pl) =
      tr.countP (fallsBack pl) +
        if fallsBack pl (p, .settle checked today now) then 1 else 0 :=
    List.countP_cons
  have hsum := hends.avoidable
  refine ⟨?_, ?_, ?_, fun result hreturned => ?_⟩
  · rw [hsum, h.tally, hsame, hcount, Nat.add_assoc]
    congr 2
    refine if_congr ?_ rfl rfl
    cases output with
    | some output => simp [Method.avoids, fallsBack, hphase]
    | none =>
        by_cases hfallback : pl.policy.minFallbackConfidence ≤ analysis.confidence
        · simp [Method.avoids, Method.stores, fallsBack, hphase, hfallback]
        · simp [Method.avoids, fallsBack, hphase, hfallback]
  · rw [hends.phase, hcalled]
    refine ⟨hcome.1, fun other hother hmem => ?_⟩
    rcases Finset.mem_union.mp hmem with hin | hin
    · rcases Finset.mem_insert.mp (hsub hin) with heq | hold
      · exact hlast (heq ▸ List.mem_map_of_mem hother)
      · exact hcome.2 other hother (Finset.mem_union_left _ hold)
    · exact hcome.2 other hother (Finset.mem_union_right _ hin)
  · rw [hends.phase, hends.llmCalls, hsame]
    exact hbound
  · rw [hends.phase] at hreturned
    cases hreturned

/-- A call keeps the tally: its article has not been finished. -/
theorem Tallied.of_call (h : Tallied pl claimOwner rawArticles tr p) {raw : Candidate}
    {analysis : DeterministicAnalysis} {todo : List Candidate} {response : Response}
    (hphase : p.phase = .calling raw analysis todo)
    (hq : step pl claimOwner rawArticles p (.call response) = some q) :
    Tallied pl claimOwner rawArticles ((p, .call response) :: tr) q := by
  simp only [step, hphase, Option.some.injEq] at hq
  subst hq
  have hfresh := h.fresh
  have hbound := h.bound
  rw [hphase] at hfresh hbound
  have hnew := Unseen.head hfresh
  rw [Finset.mem_union, not_or] at hnew
  have hfinished : finished pl claimOwner rawArticles ((p, .call response) :: tr) =
      finished pl claimOwner rawArticles tr := by
    rw [finished_cons]
    exact Finset.empty_union _
  have hcalled : called ((p, Label.call response) :: tr) = insert raw.id (called tr) := by
    rw [called_cons, calledBy, hphase, Finset.insert_eq]
    rfl
  have hsame : avoided pl claimOwner rawArticles ((p, .call response) :: tr) =
      avoided pl claimOwner rawArticles tr := by
    rw [avoided, hfinished, hcalled, Finset.sdiff_insert_of_notMem hnew.1]
    rfl
  refine ⟨?_, ⟨?_, ?_, ?_⟩, ?_, fun _ hreturned => by cases hreturned⟩
  · rw [hsame, List.countP_cons_of_neg (by simp [fallsBack, hphase])]
    exact h.tally
  · rw [hcalled]
    exact Finset.mem_insert_self ..
  · exact (List.nodup_cons.mp hfresh.1).1
  · rw [hfinished, hcalled, Finset.union_insert]
    exact Unseen.tail hfresh (le_refl _)
  · rw [hsame]
    simp only [Phase.toCome] at hbound ⊢
    omega

/-- Every step keeps the tally. -/
theorem Tallied.step (h : Tallied pl claimOwner rawArticles tr p)
    (hq : Pipeline.step pl claimOwner rawArticles p l = some q) :
    Tallied pl claimOwner rawArticles ((p, l) :: tr) q := by
  have hfresh := h.fresh
  cases l with
  | select nextNow leaseNow =>
      simp only [Pipeline.step] at hq
      split at hq
      · rename_i hphase
        rw [hphase] at hfresh
        obtain ⟨hfinished, hcalled⟩ := hfresh
        have hlength := length_selectFrom (p.session.unavailable claimOwner nextNow leaseNow)
          p.session.processed.rawIds rawArticles
        obtain rfl := Option.some.inj hq
        refine h.of_quiet rfl rfl (by simp [fallsBack]) rfl rfl ?_ ?_ fun _ hreturned => by
          cases hreturned
        · rw [hfinished, hcalled]
          exact ⟨(nodup_selectFrom _ _ _).1, fun _ _ => by simp⟩
        · rw [hphase]
          simp only [Phase.toCome]
          omega
      · cases hq
  | article today now constructed =>
      have hstep := hq
      simp only [Pipeline.step] at hstep
      split at hstep
      · rename_i raw todo hphase
        rcases articleStep_concludes hstep with ⟨method, hllm, hends⟩ |
          ⟨analysis, hcalling, hsession, havoidable, hskipped, hcalls⟩
        · exact h.of_article hphase hq hllm hends
        · rw [hphase] at hfresh
          have hquiet : savesOrSkips p q raw.id = false := by
            simp [savesOrSkips, hsession, hskipped]
          have hnone := finishedBy_eq (l := .article today now constructed) rfl
            (by rw [hphase]; rfl) hq
          rw [hquiet] at hnone
          refine h.of_quiet hnone rfl (by simp [fallsBack, hphase]) havoidable hcalls ?_ ?_
            fun _ hreturned => ?_
          · rw [hcalling]
            exact hfresh
          · rw [hcalling, hphase]
            exact le_refl _
          · rw [hcalling] at hreturned
            cases hreturned
      · cases hstep
  | call response =>
      have hstep := hq
      simp only [Pipeline.step] at hstep
      split at hstep
      · rename_i hphase
        exact h.of_call hphase hq
      · cases hstep
  | settle checked today now =>
      have hstep := hq
      simp only [Pipeline.step] at hstep
      split at hstep
      · rename_i hphase
        exact h.of_settle hphase hq
      · cases hstep
  | commit acknowledged =>
      simp only [Pipeline.step] at hq
      split at hq
      · obtain rfl := Option.some.inj hq
        refine h.of_quiet rfl rfl (by simp [fallsBack]) rfl rfl ?_ ?_ fun _ _ => rfl
        · cases acknowledged <;> trivial
        · cases acknowledged <;> exact Nat.zero_le _
      · cases hq
  | raise =>
      have hraised : q.phase = .raised ∧ q.run = p.run := by
        simp only [Pipeline.step] at hq
        split at hq
        all_goals first | exact Option.some.inj hq ▸ ⟨rfl, rfl⟩ | cases hq
      refine h.of_quiet rfl rfl (by simp [fallsBack]) (by rw [hraised.2]) (by rw [hraised.2]) ?_ ?_
        fun _ hreturned => ?_
      · rw [hraised.1]
        trivial
      · rw [hraised.1]
        exact Nat.zero_le _
      · rw [hraised.1] at hreturned
        cases hreturned
  | duplicate row =>
      simp only [Pipeline.step, Option.bind_eq_some_iff, Option.map_eq_some_iff] at hq
      obtain ⟨committed, -, processed, -, rfl⟩ := hq
      exact h.of_quiet rfl rfl (by simp [fallsBack]) rfl rfl hfresh (le_refl _) h.closed

theorem Tallied.of_execution {G : State → Label → Prop} {database : Rows} {client : Option ℕ}
    (h : Execution (Pipeline.step pl claimOwner rawArticles) G
      (State.initial pl database client) tr t) :
    Tallied pl claimOwner rawArticles tr t :=
  h.traceInvariant (Tallied.initial pl _ _ database client)
    fun _ _ _ _ hinv _ hq => hinv.step hq

/-! ## The counter of a batch -/

/-- **When the counter is right.**  When a batch returns, `avoided_llm_calls` is the number of
articles saved or skipped without a call, and together with the calls at most the number of
articles given, exactly when no failed call has been stored with the deterministic output. -/
theorem avoidedLlmCalls_iff {database : Rows} {client : Option ℕ} {result : EnrichmentRunResult}
    (h : Execution (Pipeline.step pl claimOwner rawArticles) unguarded
      (State.initial pl database client) tr t) (hret : t.phase = .returned result) :
    (result.metrics.avoidedLlmCalls = (avoided pl claimOwner rawArticles tr).card ∧
        result.metrics.llmCalls + result.metrics.avoidedLlmCalls ≤ rawArticles.length) ↔
      ∀ x ∈ tr, fallsBack pl x = false := by
  have hinv : Tallied pl claimOwner rawArticles tr t := .of_execution h
  have hsum := hinv.closed result hret
  obtain rfl := (Conserved.of_execution h).result result hret
  have hbound := hinv.bound
  rw [hinv.tally] at hsum
  have hnone : tr.countP (fallsBack pl) = 0 ↔ ∀ x ∈ tr, fallsBack pl x = false := by
    simp [List.countP_eq_zero]
  rw [← hnone]
  show t.run.metrics.avoidedLlmCalls = _ ∧
    t.run.metrics.llmCalls + t.run.metrics.avoidedLlmCalls ≤ _ ↔ _
  rw [hsum]
  constructor
  · rintro ⟨hcard, -⟩
    omega
  · intro hzero
    exact ⟨by omega, by omega⟩

/-- A pipeline whose deterministic enricher is between the two thresholds for every article. -/
private def halfSure : EnrichmentPipeline :=
  { samplePipeline .default with
    analyze := fun article _ => .ok ⟨sampleOutput article.title, 9 / 10, 6 / 10⟩ }

/-- The call for the only article of a batch. -/
private def oneCall (output : Option EnrichmentOutput) : List Label :=
  [.select 0 0, .article 1 0 true, .call ⟨17, output⟩, .settle 1 1 0, .commit true]

/-- A batch whose only call succeeds. -/
theorem avoidedLlmCalls_iff_answered :
    ∃ tr t, Execution (Pipeline.step halfSure none [sampleCandidate 1 "tariffs"]) unguarded
        (State.initial halfSure .empty none) tr t ∧
      ∃ result, t.phase = .returned result ∧
        result.metrics.avoidedLlmCalls =
          (avoided halfSure none [sampleCandidate 1 "tariffs"] tr).card ∧
        result.metrics.llmCalls + result.metrics.avoidedLlmCalls ≤ 1 := by
  obtain ⟨tr, t, hrun, hphase, hback⟩ :
      ∃ tr t, Execution (Pipeline.step halfSure none [sampleCandidate 1 "tariffs"]) unguarded
          (State.initial halfSure .empty none) tr t ∧
        t.phase = .returned ⟨1, ⟨0, 0, 1, 0, 0, 0, 1, 1, 17, 0⟩, 0⟩ ∧
        ∀ x ∈ tr, fallsBack halfSure x = false :=
    Execution.exists_of_execute (oneCall (some (sampleOutput "tariffs"))) (by decide +kernel)
      (fun _ _ => trivial)
  exact ⟨tr, t, hrun, _, hphase, (avoidedLlmCalls_iff hrun hphase).mpr hback⟩

/-- The only call of a batch fails and is paid for: it is counted as made and as avoided. -/
theorem avoidedLlmCalls_paid :
    ∃ tr t, Execution (Pipeline.step halfSure none [sampleCandidate 1 "tariffs"]) unguarded
        (State.initial halfSure .empty none) tr t ∧
      ∃ result, t.phase = .returned result ∧
        result.metrics.avoidedLlmCalls ≠
          (avoided halfSure none [sampleCandidate 1 "tariffs"] tr).card ∧
        ¬ result.metrics.llmCalls + result.metrics.avoidedLlmCalls ≤ 1 := by
  obtain ⟨tr, t, hrun, hphase, havoided⟩ :
      ∃ tr t, Execution (Pipeline.step halfSure none [sampleCandidate 1 "tariffs"]) unguarded
          (State.initial halfSure .empty none) tr t ∧
        t.phase = .returned ⟨1, ⟨0, 1, 0, 0, 0, 0, 1, 1, 17, 1⟩, 0⟩ ∧
        (avoided halfSure none [sampleCandidate 1 "tariffs"] tr).card = 0 :=
    Execution.exists_of_execute (oneCall none) (by decide +kernel) (fun _ _ => trivial)
  refine ⟨tr, t, hrun, _, hphase, ?_, by decide⟩
  rw [havoided]
  decide

end ProcureSignal.Enrichment.Pipeline
