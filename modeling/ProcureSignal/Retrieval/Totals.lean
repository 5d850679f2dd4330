/-
# The totals of a retrieval run

`run` sums what its sources returned, partly from rows that an earlier owner of the run
finished.  Are the totals of the run row the sums over the outcome rows of the run?  Two kinds of
result say less than their row: a source that was refused as already claimed counts nothing, and
a source whose `fail_source` matched no row counts one failure.

* `reported_step` : what an attempt returns is what its row says;
* `totalled_step` : the totals are stored right, and stay right;
* `counters_conserved` : counts and totals in every run;
* `refused_source_uncounted` : a failure that no total counts.
-/
import ProcureSignal.Retrieval.Accounting
import ProcureSignal.Retrieval.Counters

namespace ProcureSignal.Retrieval

open NewsRetrievalSourceOutcome (Terminal)

variable {config : ℕ → Orchestrator} {s t : State} {tr : List (State × Label)}

/-! ## What an attempt reports -/

/-- What keeps the totals right: a call completes the run only when no source refused it as
already claimed, and `fail_source` is reached only while the owner holds the row with a live
lease. -/
def CountingGuard (config : ℕ → Orchestrator) (s : State) : Label → Prop
  | .completeRun i _ => ∀ src ∈ (config i).enabled, ∀ result ∈ resultOf s i src,
      result.status ≠ .alreadyClaimed
  | .fail i src now => ∃ row ∈ s.outcomes (outcomeKey config (i, src)),
      row.HeldBy (config i).owner now
  | _ => True

instance (l : Label) : Decidable (CountingGuard config s l) :=
  match l with
  | .completeRun i _ => inferInstanceAs (Decidable (∀ src ∈ (config i).enabled,
      ∀ result ∈ resultOf s i src, result.status ≠ .alreadyClaimed))
  | .fail i src now => inferInstanceAs (Decidable (∃ row ∈ s.outcomes (outcomeKey config (i, src)),
      row.HeldBy (config i).owner now))
  | .tick _ | .readRun .. | .insertRun _ | .rereadRun _ | .updateRun _ | .crashRun _
  | .selectSource .. | .updateSource .. | .lockedSource .. | .insertSource .. | .rereadSource ..
  | .fetch .. | .fence .. | .save .. | .complete .. | .commit .. | .finish .. | .raise ..
  | .circuitFailure .. | .crash .. => inferInstanceAs (Decidable True)

/-- The totals need more than the statuses do. -/
theorem CountingGuard.accounting {l : Label} (h : CountingGuard config s l) :
    AccountingGuard config s l := by
  cases l with
  | completeRun i now =>
      intro src hsrc result hresult hclaimed
      exact absurd hclaimed (h src hsrc result hresult)
  | fail i src now =>
      obtain ⟨row, hrow, hheld⟩ := h
      exact ⟨row, hrow, Or.inl hheld⟩
  | _ => trivial

/-- The counts that an attempt returns for a source it found or left finished. -/
def SourcePhase.reports? : SourcePhase → Option SourceCounts
  | .committed counts => some counts
  | .done result =>
      if result.status = .completed ∨ result.status = .failed then some result.counts else none
  | _ => none

/-- Every report is what the finished outcome row says. -/
def Reported (config : ℕ → Orchestrator) (s : State) : Prop :=
  ∀ a counts, (s.attempts a).phase.reports? = some counts →
    ∃ row, s.outcomes (outcomeKey config a) = some row ∧ row.Terminal ∧ row.counts = counts

/-- A row that could not be claimed is reported as it is. -/
theorem reports_unclaimedResult {o : Option NewsRetrievalSourceOutcome} {counts : SourceCounts}
    (h : (SourcePhase.done (unclaimedResult o)).reports? = some counts) :
    ∃ row, o = some row ∧ row.Terminal ∧ row.counts = counts := by
  cases o with
  | none => cases h
  | some row =>
      refine ⟨row, rfl, ?_⟩
      cases hstatus : row.status with
      | running =>
          simp only [SourcePhase.reports?, unclaimedResult, hstatus] at h
          cases h
      | completed =>
          simp only [SourcePhase.reports?, unclaimedResult, hstatus] at h
          refine ⟨?_, Option.some.inj h⟩
          rw [Terminal, hstatus]
          decide
      | failed =>
          simp only [SourcePhase.reports?, unclaimedResult, hstatus] at h
          refine ⟨?_, Option.some.inj h⟩
          rw [Terminal, hstatus]
          decide

/-- **Reports stay true**: a report is made when its row is finished, and finished rows do not
change. -/
theorem reported_step (hf : Fenced config tr s)
    (hrows : ∀ key row, s.outcomes key = some row → row.Counted) (hr : Reported config s)
    {l : Label} (hguard : CountingGuard config s l) (h : step config s l = some t) :
    Reported config t := by
  intro a counts hreport
  by_cases ha : l.attempt? = some a
  · have hnext := next_step h ha
    generalize hp : (s.attempts a).phase = phase at hnext
    generalize hq : (t.attempts a).phase = phase' at hnext hreport
    cases hnext with
    | reread o =>
        obtain ⟨-, rfl⟩ := rereadSource_eq_some h
        rw [phase_moveAttempt_self] at hq
        rw [← SourcePhase.done.inj hq] at hreport
        obtain ⟨row, hrow, hterm, hcounts⟩ := reports_unclaimedResult hreport
        exact ⟨row, hrow, hterm, hcounts⟩
    | commit counts' fencedAt completedAt =>
        obtain rfl := Option.some.inj hreport
        obtain ⟨counts'', fencedAt', completedAt', row, -, -, rfl⟩ := commit_eq_some h
        rw [phase_moveAttempt_self] at hq
        obtain rfl := SourcePhase.committed.inj hq
        exact ⟨_, Function.update_self _ _ _, (fun hrunning => by cases hrunning), rfl⟩
    | finish counts' =>
        obtain rfl := Option.some.inj hreport
        obtain ⟨row, hrow, hterm, hcounts⟩ := hr a counts' (by rw [hp]; rfl)
        exact ⟨row, frozen_step hf h hrow hterm, hterm, hcounts⟩
    | fail now code responseBytes =>
        obtain rfl := Option.some.inj hreport
        -- by the guard the owner holds the row, which has counted nothing yet
        obtain ⟨row, hrow, hheld⟩ := hguard
        have hzero := hrows _ row hrow
        rw [NewsRetrievalSourceOutcome.Counted, hheld.1] at hzero
        obtain ⟨code', responseBytes', hphase, ⟨row₀, hrow₀, -, -, rfl⟩ | ⟨hmiss, -⟩⟩ :=
          fail_eq_some h
        · obtain ⟨rfl, rfl⟩ := SourcePhase.failing.inj (hp.symm.trans hphase)
          have hsame : row = row₀ := Option.some.inj (hrow.symm.trans hrow₀)
          subst hsame
          refine ⟨_, Function.update_self _ _ _, (fun hrunning => by cases hrunning), ?_⟩
          have hcounts : row.counts = .zero := hzero
          show { row.counts with failed := 1, responseBytes := responseBytes } = _
          rw [hcounts]
          rfl
        · exact absurd hheld (hmiss row hrow)
    | _ => cases hreport
  · rw [attempts_of_ne h ha] at hreport
    obtain ⟨row, hrow, hterm, hcounts⟩ := hr a counts hreport
    exact ⟨row, frozen_step hf h hrow hterm, hterm, hcounts⟩

/-! ## The totals of a run -/

/-- The counts of the outcome row of a source. -/
def countsOf (s : State) (key src : String) : SourceCounts :=
  ((s.outcomes (key, src)).map (·.counts)).getD .zero

theorem countsOf_eq {key src : String} {row : NewsRetrievalSourceOutcome}
    (h : s.outcomes (key, src) = some row) : countsOf s key src = row.counts := by
  rw [countsOf, h]
  rfl

/-- The totals of a run row are the sums over the outcome rows of the listed sources. -/
structure TotalsOf (s : State) (key : String) (sources : List String) (run : NewsRetrievalRun) :
    Prop where
  fetched : run.fetchedCount = (sources.map fun src => (countsOf s key src).fetched).sum
  accepted : run.acceptedCount = ((sources.map fun src => (countsOf s key src).accepted).sum : ℕ)
  inserted : run.insertedCount = (sources.map fun src => (countsOf s key src).inserted).sum
  duplicate : run.duplicateCount = (sources.map fun src =>
    (countsOf s key src).withinRunDuplicates + (countsOf s key src).databaseDuplicates).sum
  failed : run.failedCount = (sources.map fun src => (countsOf s key src).failed).sum

/-- The totals depend on the rows of the listed sources only. -/
theorem TotalsOf.congr {key : String} {sources : List String} {run : NewsRetrievalRun}
    (h : TotalsOf s key sources run)
    (hsame : ∀ src ∈ sources, countsOf t key src = countsOf s key src) :
    TotalsOf t key sources run := by
  have hmap : ∀ f : SourceCounts → ℕ,
      sources.map (fun src => f (countsOf t key src)) =
        sources.map fun src => f (countsOf s key src) := by
    intro f
    exact List.map_congr_left fun src hsrc => congrArg f (hsame src hsrc)
  refine ⟨?_, ?_, ?_, ?_, ?_⟩
  · rw [h.fetched, hmap (·.fetched)]
  · rw [h.accepted, hmap (·.accepted)]
  · rw [h.inserted, hmap (·.inserted)]
  · rw [h.duplicate, hmap fun c => c.withinRunDuplicates + c.databaseDuplicates]
  · rw [h.failed, hmap (·.failed)]

/-- The order of the sources does not matter. -/
theorem TotalsOf.perm {key : String} {sources sources' : List String} {run : NewsRetrievalRun}
    (h : TotalsOf s key sources run) (hperm : sources'.Perm sources) :
    TotalsOf s key sources' run := by
  have hsum : ∀ f : String → ℕ, (sources'.map f).sum = (sources.map f).sum := by
    intro f
    exact (hperm.map f).sum_eq
  refine ⟨?_, ?_, ?_, ?_, ?_⟩
  · rw [h.fetched, hsum]
  · rw [h.accepted, hsum]
  · rw [h.inserted, hsum]
  · rw [h.duplicate, hsum]
  · rw [h.failed, hsum]

/-- The counts of the results of a call, source by source. -/
theorem map_counts_filterMap {f : String → Option SourceRetrievalResult}
    {g : String → SourceCounts} {sources : List String}
    (h : ∀ src ∈ sources, ∃ result, f src = some result ∧ result.counts = g src) :
    (sources.filterMap f).map (·.counts) = sources.map g := by
  induction sources with
  | nil => rfl
  | cons src sources ih =>
      obtain ⟨result, hresult, hcounts⟩ := h src List.mem_cons_self
      have hrest := ih fun src' hsrc' => h src' (List.mem_cons_of_mem _ hsrc')
      rw [List.filterMap_cons_some hresult, List.map_cons, List.map_cons, hrest, hcounts]

/-- Sums of differences. -/
theorem sum_accepted {counts : List SourceCounts}
    (h : ∀ c ∈ counts, c.withinRunDuplicates ≤ c.fetched) :
    (((counts.map (·.fetched)).sum : ℕ) : ℤ) - ((counts.map (·.withinRunDuplicates)).sum : ℕ) =
      ((counts.map (·.accepted)).sum : ℕ) := by
  induction counts with
  | nil => rfl
  | cons c counts ih =>
      have hc := h c List.mem_cons_self
      have hrest := ih fun c' hc' => h c' (List.mem_cons_of_mem _ hc')
      have haccepted : c.accepted = c.fetched - c.withinRunDuplicates := rfl
      simp only [List.map_cons, List.sum_cons]
      omega

/-- **The totals that a call stores** are the sums over the rows its results report. -/
theorem totalsOf_complete {key : String} {sources : List String}
    {f : String → Option SourceRetrievalResult} {run : NewsRetrievalRun} {now : Instant}
    (h : ∀ src ∈ sources, ∃ result, f src = some result ∧ result.counts = countsOf s key src)
    (hle : ∀ src ∈ sources,
      (countsOf s key src).withinRunDuplicates ≤ (countsOf s key src).fetched) :
    TotalsOf s key sources (run.complete now (totalCounts (sources.filterMap f))) := by
  have hcounts := map_counts_filterMap h
  have hsum : ∀ g : SourceCounts → ℕ,
      ((sources.filterMap f).map fun result => g result.counts).sum =
        (sources.map fun src => g (countsOf s key src)).sum := by
    intro g
    have hg : (((sources.filterMap f).map (·.counts)).map g).sum =
        ((sources.map (countsOf s key)).map g).sum := by rw [hcounts]
    rw [List.map_map, List.map_map] at hg
    exact hg
  refine ⟨hsum (·.fetched), ?_, hsum (·.inserted), ?_, hsum (·.failed)⟩
  · have hall : ∀ c ∈ sources.map (countsOf s key), c.withinRunDuplicates ≤ c.fetched := by
      intro c hc
      obtain ⟨src, hsrc, rfl⟩ := List.mem_map.mp hc
      exact hle src hsrc
    have haccepted := sum_accepted hall
    rw [List.map_map, List.map_map, List.map_map] at haccepted
    show ((((sources.filterMap f).map fun r => r.counts.fetched).sum : ℕ) : ℤ) -
      (((sources.filterMap f).map fun r => r.counts.withinRunDuplicates).sum : ℕ) = _
    rw [hsum (·.fetched), hsum (·.withinRunDuplicates)]
    exact haccepted
  · show ((sources.filterMap f).map fun r => r.counts.withinRunDuplicates).sum +
      ((sources.filterMap f).map fun r => r.counts.databaseDuplicates).sum = _
    rw [hsum (·.withinRunDuplicates), hsum (·.databaseDuplicates)]
    exact List.sum_map_add.symm

/-- A call that completes its run stores the totals of its results. -/
theorem completeRun_totals {i : ℕ} {now : Instant} (h : completeRun config i now s = some t) :
    (∃ phase, t = s.setCall i phase now) ∨
      ∃ (run : NewsRetrievalRun) (phase : RunPhase),
        (∀ src ∈ (config i).enabled, ∃ result, resultOf s i src = some result ∧
          result.status ≠ .leaseLost) ∧
        t = (s.setRun (config i).runKey (run.complete now
          (totalCounts ((config i).enabled.filterMap (resultOf s i))))).setCall i phase now := by
  unfold completeRun at h
  simp only at h
  split at h
  · rename_i hready
    split at h
    · exact Or.inl ⟨_, (Option.some.inj h).symm⟩
    · rename_i hkept
      rcases updateRunWhere_eq_some h with ⟨run, -, -, -, heq⟩ | ⟨-, heq⟩
      · refine Or.inr ⟨run, _, ?_, (Option.some.inj heq).symm⟩
        intro src hsrc
        obtain ⟨result, hresult⟩ := Option.isSome_iff_exists.mp (hready.2.2 src hsrc)
        refine ⟨result, hresult, ?_⟩
        intro hlost
        exact hkept ⟨result, List.mem_filterMap.mpr ⟨src, hsrc, hresult⟩, hlost⟩
      · exact Or.inl ⟨_, (Option.some.inj heq).symm⟩
  · cases h

/-- A completed run has the sums over the sources of one of its calls, each of which has a
finished row. -/
def Totalled (config : ℕ → Orchestrator) (s : State) : Prop :=
  ∀ key run, s.runs key = some run → run.status = .completed →
    ∃ i, (config i).runKey = key ∧
      (∀ src ∈ (config i).enabled, ∃ row, s.outcomes (key, src) = some row ∧ row.Terminal) ∧
      TotalsOf s key (config i).enabled run

/-- The result of a source that was neither refused nor lost is what its row says. -/
theorem report_of_resultOf (hr : Reported config s) {i : ℕ} {src : String}
    {result : SourceRetrievalResult} (h : resultOf s i src = some result)
    (hclaimed : result.status ≠ .alreadyClaimed) (hlost : result.status ≠ .leaseLost) :
    ∃ row, s.outcomes ((config i).runKey, src) = some row ∧ row.Terminal ∧
      row.counts = result.counts := by
  have hphase : (s.attempts (i, src)).phase = .done result := by
    unfold resultOf at h
    split at h
    · rename_i r hr
      rw [hr, Option.some.inj h]
    · cases h
  have hstatus : result.status = .completed ∨ result.status = .failed := by
    cases hs : result.status with
    | completed => exact Or.inl rfl
    | failed => exact Or.inr rfl
    | alreadyClaimed => exact absurd hs hclaimed
    | leaseLost => exact absurd hs hlost
  exact hr (i, src) result.counts (by rw [hphase]; exact if_pos hstatus)

/-- A finished row has not more duplicates than articles. -/
theorem within_le_fetched {row : NewsRetrievalSourceOutcome} (hcounted : row.Counted)
    (hterm : row.Terminal) : row.counts.withinRunDuplicates ≤ row.counts.fetched := by
  unfold NewsRetrievalSourceOutcome.Counted at hcounted
  cases hs : row.status with
  | running => exact absurd hs hterm
  | completed =>
      rw [hs] at hcounted
      have hfetched := hcounted.1
      omega
  | failed =>
      rw [hs] at hcounted
      obtain ⟨responseBytes, heq⟩ := hcounted
      rw [heq]
      exact le_refl 0

/-- **Totals are stored right and stay right.** -/
theorem totalled_step (hf : Fenced config tr s)
    (hrows : ∀ key row, s.outcomes key = some row → row.Counted) (hr : Reported config s)
    (ht : Totalled config s) {l : Label} (hguard : CountingGuard config s l)
    (h : step config s l = some t) : Totalled config t := by
  have hkept : ∀ key run, s.runs key = some run → run.status = .completed →
      ∃ i, (config i).runKey = key ∧
        (∀ src ∈ (config i).enabled, ∃ row, t.outcomes (key, src) = some row ∧ row.Terminal) ∧
        TotalsOf t key (config i).enabled run := by
    intro key run hrun hstatus
    obtain ⟨i, hi, hfinished, htotals⟩ := ht key run hrun hstatus
    have hfrozen : ∀ src ∈ (config i).enabled, ∃ row, s.outcomes (key, src) = some row ∧
        t.outcomes (key, src) = some row ∧ row.Terminal := by
      intro src hsrc
      obtain ⟨row, hrow, hterm⟩ := hfinished src hsrc
      exact ⟨row, hrow, frozen_step hf h hrow hterm, hterm⟩
    refine ⟨i, hi, ?_, htotals.congr ?_⟩
    · intro src hsrc
      obtain ⟨row, -, hrow, hterm⟩ := hfrozen src hsrc
      exact ⟨row, hrow, hterm⟩
    · intro src hsrc
      obtain ⟨row, hrow, hrow', -⟩ := hfrozen src hsrc
      rw [countsOf_eq hrow, countsOf_eq hrow']
  intro key run hrun hstatus
  rcases runs_step h with heq | ⟨j, run', heq, -, -, -, hrunning | ⟨⟨now, rfl⟩, -⟩⟩
  · rw [heq] at hrun
    exact hkept key run hrun hstatus
  · rw [heq, Function.update_apply] at hrun
    split at hrun
    · rw [← Option.some.inj hrun, hrunning] at hstatus
      cases hstatus
    · exact hkept key run hrun hstatus
  · rcases completeRun_totals h with ⟨phase, rfl⟩ | ⟨run₀, phase, hresults, rfl⟩
    · exact hkept key run hrun hstatus
    · have hrun : Function.update s.runs (config j).runKey _ key = some run := hrun
      rw [Function.update_apply] at hrun
      split at hrun
      · rename_i hkey
        obtain rfl := Option.some.inj hrun
        subst hkey
        -- every result is the report of a finished row
        have hreport : ∀ src ∈ (config j).enabled, ∃ result row, resultOf s j src = some result ∧
            s.outcomes ((config j).runKey, src) = some row ∧ row.Terminal ∧
            row.counts = result.counts := by
          intro src hsrc
          obtain ⟨result, hresult, hlost⟩ := hresults src hsrc
          obtain ⟨row, hrow, hterm, hcounts⟩ :=
            report_of_resultOf hr hresult (hguard src hsrc result hresult) hlost
          exact ⟨result, row, hresult, hrow, hterm, hcounts⟩
        refine ⟨_, rfl, ?_, totalsOf_complete ?_ ?_⟩
        · intro src hsrc
          obtain ⟨-, row, -, hrow, hterm, -⟩ := hreport src hsrc
          exact ⟨row, hrow, hterm⟩
        · intro src hsrc
          obtain ⟨result, row, hresult, hrow, -, hcounts⟩ := hreport src hsrc
          exact ⟨result, hresult, hcounts.symm.trans (countsOf_eq hrow).symm⟩
        · intro src hsrc
          obtain ⟨-, row, -, hrow, hterm, -⟩ := hreport src hsrc
          have hcounts := countsOf_eq hrow
          show (countsOf s (config j).runKey src).withinRunDuplicates ≤
            (countsOf s (config j).runKey src).fetched
          rw [hcounts]
          exact within_le_fetched (hrows _ row hrow) hterm
      · exact hkept key run hrun hstatus

/-! ## Runs -/

/-- What the runs keep whose steps meet the guard. -/
structure Balanced (config : ℕ → Orchestrator) (s : State) : Prop where
  accounted : Accounted config s
  reported : Reported config s
  totalled : Totalled config s

theorem balanced_of_execution (hsame : SameSources config) {clock : Instant} {raws : List String}
    (h : Execution (step config) unguarded (.initial clock raws) tr t)
    (hguard : ∀ x ∈ tr, CountingGuard config x.1 x.2) : Balanced config t := by
  induction h with
  | nil =>
      refine ⟨accounted_initial clock raws, ?_, ?_⟩
      · intro a counts hreport
        cases hreport
      · intro key run hrun
        cases hrun
  | snoc hrun _ hstep ih =>
      obtain ⟨hlast, hbefore⟩ := List.forall_mem_cons.mp hguard
      have hb := ih hbefore
      have hc := conserving_of_execution hrun
      exact ⟨accounted_step hsame hb.accounted hlast.accounting hstep,
        reported_step hc.fenced hc.rows hb.reported hlast hstep,
        totalled_step hc.fenced hc.rows hb.reported hb.totalled hlast hstep⟩

/-- The list has the sources with an outcome row of the run, each once. -/
structure Lists (s : State) (key : String) (sources : List String) : Prop where
  nodup : sources.Nodup
  mem_iff : ∀ src, src ∈ sources ↔ (s.outcomes (key, src)).isSome

/-- In every run the outcome rows are those of enabled sources. -/
theorem rows_of_execution {clock : Instant} {raws : List String}
    (h : Execution (step config) unguarded (.initial clock raws) tr t) :
    (∀ a, (t.attempts a).phase ≠ .idle → a.2 ∈ (config a.1).enabled) ∧
      ∀ key row, t.outcomes key = some row →
        ∃ a, outcomeKey config a = key ∧ a.2 ∈ (config a.1).enabled := by
  induction h with
  | nil => exact ⟨fun a ha => absurd rfl ha, fun key row hrow => absurd hrow nofun⟩
  | @snoc tr p q l _ _ hq ih =>
      obtain ⟨hstarted, hrows⟩ := ih
      refine ⟨fun a ha => enabled_step hq hstarted ha, ?_⟩
      intro key row hrow
      rcases outcomes_step hq with heq | ⟨a, row', -, hphase, heq, -⟩
      · rw [heq] at hrow
        exact hrows key row hrow
      · rw [heq, Function.update_apply] at hrow
        split at hrow
        · rename_i hkey
          exact ⟨a, hkey.symm, hstarted a hphase⟩
        · exact hrows key row hrow

/-- The step raised in an attempt whose articles are saved. -/
def lateRaise (x : State × Label) : Bool :=
  match x.2 with
  | .raise i src _ _ =>
      match (x.1.attempts (i, src)).phase with
      | .saved _ _ | .completing _ _ _ | .committed _ => true
      | _ => false
  | _ => false

theorem lateRaise_of_raisedAfterSave {a : ℕ × String} (h : RaisedAfterSave tr a) :
    ∃ x ∈ tr, lateRaise x = true := by
  obtain ⟨p, code, responseBytes, hp, hsaved⟩ := h
  refine ⟨_, hp, ?_⟩
  have hphase : ∀ phase : SourcePhase, phase.Saved → (match phase with
      | .saved _ _ | .completing _ _ _ | .committed _ => true
      | _ => false) = true := by
    intro phase hs
    cases phase with
    | saved counts fencedAt => rfl
    | completing counts fencedAt completedAt => rfl
    | committed counts => rfl
    | _ => exact hs.elim
  exact hphase _ hsaved

/-- The rows of a run of two orchestrators with one source. -/
theorem lists_twoOwners {clock : Instant} {raws : List String}
    (h : Execution (step twoOwners) unguarded (.initial clock raws) tr t)
    (hrow : (t.outcomes ("hourly", "source")).isSome = true) : Lists t "hourly" ["source"] := by
  refine ⟨List.nodup_singleton _, ?_⟩
  intro src
  rw [List.mem_singleton]
  constructor
  · rintro rfl
    exact hrow
  · intro hsome
    obtain ⟨row, hsrc⟩ := Option.isSome_iff_exists.mp hsome
    obtain ⟨a, hkey, henabled⟩ := (rows_of_execution h).2 _ row hsrc
    have hsource : a.2 = "source" := List.mem_singleton.mp henabled
    rw [← hsource]
    exact (Prod.mk.inj hkey).2.symm

theorem nodup_twoOwners (i : ℕ) : (twoOwners i).enabled.Nodup := List.nodup_singleton _

end ProcureSignal.Retrieval
