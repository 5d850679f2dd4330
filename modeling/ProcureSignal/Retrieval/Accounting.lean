/-
# Source accounting of a completed run

When a run row is marked completed, is every outcome row of the run finished?  `run`
takes the results of its sources as they are: a source another owner holds counts as
`already_claimed`, and a source whose `fail_source` matched no row counts as failed.
Either row may still be running (`completed_run_left_running`).

`accounting_complete`: among calls with the same enabled sources, along every run in
which neither happens, a completed run has no running outcome row.
-/
import ProcureSignal.Retrieval.Steps

namespace ProcureSignal.Retrieval

open NewsRetrievalSourceOutcome (Terminal)

variable {config : ℕ → Orchestrator} {s t : State}

/-! ## The condition -/

/-- The calls on one run have the same sources enabled. -/
def SameSources (config : ℕ → Orchestrator) : Prop :=
  ∀ i j, (config i).runKey = (config j).runKey →
    ∀ src, src ∈ (config i).enabled → src ∈ (config j).enabled

/-- A call completes the run only when the sources it was refused have been finished by
their holders; `fail_source` is reached only while the owner still holds the row with a
live lease, or after the row was finished. -/
def AccountingGuard (config : ℕ → Orchestrator) (s : State) : Label → Prop
  | .completeRun i _ => ∀ src ∈ (config i).enabled, ∀ result ∈ resultOf s i src,
      result.status = .alreadyClaimed → Finished config s (i, src)
  | .fail i src now => ∃ row ∈ s.outcomes (outcomeKey config (i, src)),
      row.HeldBy (config i).owner now ∨ Terminal row
  | _ => True

instance (l : Label) : Decidable (AccountingGuard config s l) :=
  match l with
  | .completeRun i _ => inferInstanceAs (Decidable (∀ src ∈ (config i).enabled,
      ∀ result ∈ resultOf s i src, result.status = .alreadyClaimed → Finished config s (i, src)))
  | .fail i src now => inferInstanceAs (Decidable (∃ row ∈ s.outcomes (outcomeKey config (i, src)),
      row.HeldBy (config i).owner now ∨ Terminal row))
  | .tick _ | .readRun .. | .insertRun _ | .rereadRun _ | .updateRun _ | .crashRun _
  | .selectSource .. | .updateSource .. | .lockedSource .. | .insertSource .. | .rereadSource ..
  | .fetch .. | .fence .. | .save .. | .complete .. | .commit .. | .finish .. | .raise ..
  | .circuitFailure .. | .crash .. => inferInstanceAs (Decidable True)

/-! ## What the steps keep -/

/-- An attempt that reports its row as completed or failed. -/
def Settled : SourcePhase → Prop
  | .committed _ => True
  | .done result => result.status = .completed ∨ result.status = .failed
  | _ => False

/-- A lost lease reports nothing. -/
theorem not_settled_leaseLostResult : ¬ Settled (.done leaseLostResult) := by
  rintro (h | h) <;> cases h

/-- A source reported from a row it could not claim has a finished row. -/
theorem terminal_of_settled_unclaimedResult {o : Option NewsRetrievalSourceOutcome}
    (h : Settled (.done (unclaimedResult o))) : ∃ row ∈ o, Terminal row := by
  cases o with
  | none => rcases h with h | h <;> cases h
  | some row =>
      refine ⟨row, rfl, ?_⟩
      intro hrunning
      simp only [Settled, unclaimedResult, hrunning] at h
      rcases h with h | h <;> cases h

/-- **What an attempt reports is so**: it settles when its row is finished, or when a
`fail_source` of it matched no row. -/
theorem settled_step {l : Label} (h : step config s l = some t) {a : ℕ × String}
    (hs : Settled (t.attempts a).phase) :
    Settled (s.attempts a).phase ∨ Finished config t a ∨
      ∃ now, l = .fail a.1 a.2 now ∧ t.outcomes = s.outcomes ∧
        ∀ row, s.outcomes (outcomeKey config a) = some row →
          ¬ row.HeldBy (config a.1).owner now := by
  by_cases ha : l.attempt? = some a
  · obtain ⟨i, src⟩ := a
    have hnext := next_step h ha
    generalize hq : (t.attempts (i, src)).phase = q at hnext hs
    generalize (s.attempts (i, src)).phase = p at hnext ⊢
    cases hnext with
    | reread row =>
        obtain ⟨-, rfl⟩ := rereadSource_eq_some h
        rw [phase_moveAttempt_self] at hq
        rw [← hq] at hs
        exact Or.inr (Or.inl (terminal_of_settled_unclaimedResult hs))
    | fenceLost | completeLost => exact absurd hs not_settled_leaseLostResult
    | commit counts fencedAt completedAt =>
        obtain ⟨-, -, -, row, -, -, rfl⟩ := commit_eq_some h
        exact Or.inr (Or.inl ⟨_, Function.update_self _ _ _, by nofun⟩)
    | finish counts => exact Or.inl trivial
    | fail now code responseBytes =>
        obtain ⟨-, -, -, ⟨row, -, -, -, rfl⟩ | ⟨hmiss, rfl⟩⟩ := fail_eq_some h
        · exact Or.inr (Or.inl ⟨_, Function.update_self _ _ _, by nofun⟩)
        · exact Or.inr (Or.inr ⟨now, rfl, rfl, hmiss⟩)
    | _ => exact hs.elim
  · rw [attempts_of_ne h ha] at hs
    exact Or.inl hs

/-- An attempt has started only for an enabled source. -/
theorem enabled_step {l : Label} (h : step config s l = some t)
    (hen : ∀ a, (s.attempts a).phase ≠ .idle → a.2 ∈ (config a.1).enabled) {a : ℕ × String}
    (hphase : (t.attempts a).phase ≠ .idle) : a.2 ∈ (config a.1).enabled := by
  rcases attempts_step h with heq | ⟨b, attempt, -, heq, hstart⟩
  · rw [heq] at hphase
    exact hen a hphase
  · rw [heq, Function.update_apply] at hphase
    split at hphase
    · rename_i hab
      subst hab
      rcases hstart with hold | hnew
      · exact hen a hold
      · exact hnew
    · exact hen a hphase

/-! ## The invariant -/

/-- Attempts and outcome rows are those of enabled sources, settled attempts have
finished rows, and a completed run has a finished row for every enabled source. -/
structure Accounted (config : ℕ → Orchestrator) (s : State) : Prop where
  started : ∀ a, (s.attempts a).phase ≠ .idle → a.2 ∈ (config a.1).enabled
  rows : ∀ key row, s.outcomes key = some row →
    ∃ a, outcomeKey config a = key ∧ a.2 ∈ (config a.1).enabled
  settled : ∀ a, Settled (s.attempts a).phase → Finished config s a
  completed : ∀ i run, s.runs (config i).runKey = some run → run.status = .completed →
    ∀ src ∈ (config i).enabled, Finished config s (i, src)

theorem accounted_initial (clock : Instant) (raws : List String) :
    Accounted config (.initial clock raws) where
  started := fun _ h => absurd rfl h
  rows := fun _ _ h => by cases h
  settled := fun _ h => h.elim
  completed := fun _ _ h => by cases h

/-- Every source of a call that completes its run has a finished row. -/
theorem finished_of_completeRun (hacc : Accounted config s) {i : ℕ} {now : Instant}
    (hguard : AccountingGuard config s (.completeRun i now)) {src : String}
    (hsrc : src ∈ (config i).enabled) {result : SourceRetrievalResult} (hresult : resultOf s i src = some result)
    (hkept : result.status ≠ .leaseLost) : Finished config s (i, src) := by
  have hphase : (s.attempts (i, src)).phase = .done result := by
    unfold resultOf at hresult
    split at hresult
    · rename_i r hr
      rw [hr, Option.some.inj hresult]
    · cases hresult
  cases hstatus : result.status with
  | completed => exact hacc.settled (i, src) (by rw [hphase]; exact Or.inl hstatus)
  | failed => exact hacc.settled (i, src) (by rw [hphase]; exact Or.inr hstatus)
  | alreadyClaimed => exact hguard src hsrc result hresult hstatus
  | leaseLost => exact absurd hstatus hkept

/-- **A guarded step keeps the accounts.** -/
theorem accounted_step (hsame : SameSources config) (hacc : Accounted config s) {l : Label}
    (hguard : AccountingGuard config s l) (h : step config s l = some t) :
    Accounted config t := by
  refine ⟨fun a hphase => enabled_step h hacc.started hphase, ?_, ?_, ?_⟩
  · intro key row hrow
    rcases outcomes_step h with heq | ⟨a, row', -, hphase, heq, -⟩
    · rw [heq] at hrow
      exact hacc.rows key row hrow
    · rw [heq, Function.update_apply] at hrow
      split at hrow
      · rename_i hkey
        exact ⟨a, hkey.symm, hacc.started a hphase⟩
      · exact hacc.rows key row hrow
  · intro a hs
    rcases settled_step h hs with hs | hfin | ⟨now, rfl, heq, hmiss⟩
    · exact finished_step h (hacc.settled a hs)
    · exact hfin
    · -- `fail_source` matched no row: by the guard the row was finished before
      obtain ⟨row, hrow, hheld | hterm⟩ := hguard
      · exact absurd hheld (hmiss row hrow)
      · exact ⟨row, by rw [heq]; exact hrow, hterm⟩
  · intro i run hrun hstatus src hsrc
    rcases runs_step h with heq | ⟨j, run', heq, -, -, hout, hkind⟩
    · rw [heq] at hrun
      exact finished_step h (hacc.completed i run hrun hstatus src hsrc)
    · rw [heq, Function.update_apply] at hrun
      split at hrun
      · rename_i hkey
        rw [Option.some.injEq] at hrun
        rcases hkind with hrunning | ⟨⟨now, rfl⟩, hresults⟩
        · rw [hrun, hstatus] at hrunning
          cases hrunning
        · have hsrc' := hsame i j hkey src hsrc
          obtain ⟨result, hresult, hkept⟩ := hresults src hsrc'
          have hfin := finished_of_completeRun hacc hguard hsrc' hresult hkept
          unfold Finished outcomeKey at hfin ⊢
          rwa [hout, hkey]
      · exact finished_step h (hacc.completed i run hrun hstatus src hsrc)

/-- The accounts hold after every guarded run. -/
theorem accounted_of_execution (hsame : SameSources config) {clock : Instant}
    {raws : List String} {tr : List (State × Label)}
    (h : Execution (step config) (AccountingGuard config) (.initial clock raws) tr t) :
    Accounted config t :=
  h.invariant (accounted_initial clock raws) fun _ _ _ hacc hguard hq =>
    accounted_step hsame hacc hguard hq

/-- **Source accounting.**  Among calls with the same sources enabled, in every run whose
steps meet the guard, a completed run has no outcome row that is still running. -/
theorem accounting_complete (hsame : SameSources config) {clock : Instant}
    {raws : List String} {tr : List (State × Label)}
    (h : Execution (step config) (AccountingGuard config) (.initial clock raws) tr t)
    {key : String} {run : NewsRetrievalRun} (hrun : t.runs key = some run)
    (hstatus : run.status = .completed) {src : String} {row : NewsRetrievalSourceOutcome}
    (hrow : t.outcomes (key, src) = some row) :
    row.status = .completed ∨ row.status = .failed := by
  have hacc := accounted_of_execution hsame h
  obtain ⟨a, hkey, hsrc⟩ := hacc.rows _ _ hrow
  obtain ⟨rfl, rfl⟩ := Prod.mk.inj hkey
  obtain ⟨row', hrow', hterm⟩ := hacc.completed a.1 run hrun hstatus a.2 hsrc
  rw [Option.mem_def] at hrow'
  have heq : some row' = some row := hrow'.symm.trans hrow
  rw [Option.some.injEq] at heq
  subst heq
  cases hs : row'.status with
  | running => exact absurd hs hterm
  | completed => exact Or.inl rfl
  | failed => exact Or.inr rfl

theorem sameSources_twoOwners : SameSources twoOwners := fun _ _ _ _ hsrc => hsrc

/-- One orchestrator retrieves its source and completes the run. -/
theorem accounting_complete_single : ∃ tr t run row,
    Execution (step twoOwners) (AccountingGuard twoOwners) (.initial 0 []) tr t ∧
      t.runs "hourly" = some run ∧ run.status = .completed ∧
      t.outcomes ("hourly", "source") = some row ∧
      (row.status = .completed ∨ row.status = .failed) := by
  obtain ⟨tr, t, h, ⟨run, hrun, hstatus⟩, row, hrow, -⟩ :
      ∃ tr t, Execution (step twoOwners) (AccountingGuard twoOwners) (.initial 0 []) tr t ∧
        (∃ run ∈ t.runs "hourly", run.status = .completed) ∧
          ∃ row ∈ t.outcomes ("hourly", "source"), row.attemptedCount = 1 :=
    Execution.exists_of_execute
      [.readRun 0 0, .insertRun 0, .selectSource 0 "source" 0, .updateSource 0 "source",
        .insertSource 0 "source", .fetch 0 "source" 1 0 512, .fence 0 "source" 0,
        .save 0 "source" ["article"] 0 0, .complete 0 "source" 0, .commit 0 "source",
        .finish 0 "source", .completeRun 0 0]
      (by decide +kernel) (by decide +kernel)
  exact ⟨tr, t, run, row, h, hrun, hstatus, hrow,
    accounting_complete sameSources_twoOwners h hrun hstatus hrow⟩

/-- **A completed run may leave a source running.**  The first orchestrator claims its
source a minute after the run and dies.  The second takes the run over when the lease of
the run has expired and that of the source has not: it finds the source claimed and
completes the run. -/
theorem completed_run_left_running : ∃ tr t run row,
    Execution (step twoOwners) unguarded (.initial 0 []) tr t ∧
      t.runs "hourly" = some run ∧ run.status = .completed ∧
      t.outcomes ("hourly", "source") = some row ∧ row.status = .running := by
  obtain ⟨tr, t, h, ⟨run, hrun, hstatus⟩, row, hrow, hrunning⟩ :
      ∃ tr t, Execution (step twoOwners) unguarded (.initial 0 []) tr t ∧
        (∃ run ∈ t.runs "hourly", run.status = .completed) ∧
          ∃ row ∈ t.outcomes ("hourly", "source"), row.status = .running :=
    Execution.exists_of_execute
      [.readRun 0 0, .insertRun 0, .tick (minutes 1), .selectSource 0 "source" (minutes 1),
        .updateSource 0 "source", .insertSource 0 "source", .crash 0 "source", .crashRun 0,
        -- half a minute after the lease of the run, half a minute before that of the source
        .tick 3930000000, .readRun 1 3930000000, .updateRun 1,
        .selectSource 1 "source" 3930000000, .updateSource 1 "source",
        .insertSource 1 "source", .rereadSource 1 "source", .completeRun 1 3930000000]
      (by decide +kernel) (fun _ _ => trivial)
  exact ⟨tr, t, run, row, h, hrun, hstatus, hrow, hrunning⟩

end ProcureSignal.Retrieval
