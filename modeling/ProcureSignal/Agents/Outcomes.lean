/-
# The outcomes of analyses

A run that was created is to end as completed or failed, with a reason where it failed and
with an evidence check where it is completed.

* `honest_iff` : **it does exactly when nothing raises in the analysis**.
-/
import ProcureSignal.Agents.Evidence

namespace ProcureSignal.Agents

open Retrieval (Json)

variable {P : Python} {db : Database} {runId : ℕ} {s : State}

/-- The row of a run tells how it ended. -/
structure Honest (after : Database) (runId : ℕ) (run : AgentRun) : Prop where
  terminal : run.status = .completed ∨ run.status = .failed
  reason : run.status = .failed → run.failureReason ≠ none
  checked : run.status = .completed → ∃ step ∈ after.steps.values,
    step.runId = runId ∧ step.payload.isEvidenceCheck = true

/-- An analysis that returns leaves an honest row. -/
theorem Returns.honest {env : Environment} {organizationId : ℕ}
    (h : Returns P db runId env organizationId s) :
    ∃ run, s.committed.runs.find? runId = some run ∧ Honest s.committed runId run := by
  rcases h with ⟨hfailed, -⟩ | ⟨n, turn, hchecked⟩
  · obtain ⟨run, hrow, hstatus, hreason⟩ := hfailed.row
    refine ⟨run, hrow, Or.inr hstatus, fun _ => hreason rfl, fun hcompleted => ?_⟩
    rw [hstatus] at hcompleted
    cases hcompleted
  · obtain ⟨run, hrow, hstatus⟩ := hchecked.row
    refine ⟨run, hrow, Or.inl hstatus, fun hfailed => ?_, fun _ => ?_⟩
    · rw [hstatus] at hfailed
      cases hfailed
    · obtain ⟨_, _, _, _, _, -, -, -, -, step, hstep, hid, hpayload⟩ := hchecked.kept
      exact ⟨step, hstep, hid, by rw [hpayload]; rfl⟩

/-- An exception leaves a row that is not honest. -/
theorem Raises.not_honest (h : Raises db runId s) {run : AgentRun}
    (hrun : s.committed.runs.find? runId = some run) : ¬Honest s.committed runId run := by
  intro hhonest
  rcases h with hrunning | hcompleted
  · obtain ⟨row, hrow, hstatus, -⟩ := hrunning.row
    obtain rfl := Option.some.inj (hrow.symm.trans hrun)
    rcases hhonest.terminal with hend | hend
    · rw [hstatus] at hend
      cases hend
    · rw [hstatus] at hend
      cases hend
  · obtain ⟨row, hrow, hstatus, -⟩ := hcompleted.row
    obtain rfl := Option.some.inj (hrow.symm.trans hrun)
    obtain ⟨step, hstep, hid, hcheck⟩ := hhonest.checked hstatus
    rw [hcompleted.unchecked step hstep hid] at hcheck
    cases hcheck

/-- **Honest outcomes.**  After an analysis that created a run row, the row is there and tells
how the run ended exactly when nothing raised. -/
theorem honest_iff (P : Python) (db : Database) (hdb : db.StepsHaveRuns) (env : Environment)
    (organizationId userId : ℕ) (supplierPublicId publicId : String)
    (outcome : Except State State) (h : analyseSupplier P env organizationId userId
      supplierPublicId publicId db = some outcome) :
    (∃ run, (left outcome).committed.runs.find? db.runs.nextId = some run ∧
      Honest (left outcome).committed db.runs.nextId run) ↔ env.Graceful P organizationId := by
  have hmeets := analyseSupplier_meets hdb h
  cases outcome with
  | ok s => exact iff_of_true hmeets.2.honest hmeets.1
  | error s =>
      refine iff_of_false ?_ hmeets.1
      rintro ⟨run, hrun, hhonest⟩
      exact hmeets.2.not_honest hrun hhonest

theorem honest_iff_halfInvented : ∃ outcome,
    analyseSupplier (decodingTo halfInvented) (oneLook halfInventedText) 1 7 "acme" "run-1"
      oneSupplier = some outcome ∧
    ∃ run, (left outcome).committed.runs.find? 1 = some run ∧
      Honest (left outcome).committed 1 run := by
  have hsome : (analyseSupplier (decodingTo halfInvented) (oneLook halfInventedText) 1 7 "acme"
      "run-1" oneSupplier).isSome = true := rfl
  obtain ⟨outcome, h⟩ := Option.isSome_iff_exists.mp hsome
  exact ⟨outcome, h, (honest_iff _ _ oneSupplier_stepsHaveRuns _ 1 7 "acme" "run-1" outcome h).mpr
    halfInvented_graceful⟩

/-- A client that raises at the first request. -/
def unreachable : Environment := { oneLook "" with respond := fun _ => none }

/-- The run of a client that raises is left as running. -/
theorem left_running : ∃ outcome,
    analyseSupplier (decodingTo .null) unreachable 1 7 "acme" "run-1" oneSupplier =
      some outcome ∧
    ∃ run, (left outcome).committed.runs.find? 1 = some run ∧ run.status = .running ∧
      ¬Honest (left outcome).committed 1 run := by
  have hsome : (analyseSupplier (decodingTo .null) unreachable 1 7 "acme" "run-1"
      oneSupplier).isSome = true := rfl
  obtain ⟨outcome, h⟩ := Option.isSome_iff_exists.mp hsome
  cases h
  refine ⟨_, rfl, newRun unreachable "run-1" 1 7 "acme", rfl, rfl, fun hhonest => ?_⟩
  rcases hhonest.terminal with hend | hend
  · cases hend
  · cases hend

end ProcureSignal.Agents
