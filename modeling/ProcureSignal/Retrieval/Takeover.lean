/-
# A run can always be finished

Whatever the calls of `run` that share a run key have done, and wherever they were left, a call that
starts afterwards can finish the run: the sessions of the dead are rolled back, their leases run
out, and `_claim` and `claim_source` take over what is left.

* `Orderly`, `orderly_of_execution` : who holds locks and leases in a reachable state;
* `exists_served` : one source, whatever its provider does;
* `run_recoverable` : **no reachable state is a dead end for a run**.
-/
import ProcureSignal.Retrieval.Steps

namespace ProcureSignal.Retrieval

variable {config : ℕ → Orchestrator} {s t : State}

/-! ## Reachable states -/

/-- An attempt that has started does not start again. -/
theorem Next.ne_idle {i : ℕ} {src : String} {l : Label} {phase phase' : SourcePhase}
    (h : Next i src l phase phase') : phase' ≠ .idle := by
  cases h <;> simp

/-- The clock and a call after a step: the call is where it was, or started, with a reading of the
clock of its own. -/
def CallMoved (s t : State) (i : ℕ) : Prop :=
  s.clock ≤ t.clock ∧ (t.calls i = s.calls i ∨ (t.calls i).phase ≠ .idle ∧
    ((t.calls i).lastNow = (s.calls i).lastNow ∨ (t.calls i).lastNow ≤ s.clock))

theorem callMoved_setCall {i : ℕ} {phase : RunPhase} {now : Instant} (hphase : phase ≠ .idle)
    (hnow : now = (s.calls i).lastNow ∨ now ≤ s.clock) (j : ℕ) :
    CallMoved s (s.setCall i phase now) j := by
  refine ⟨le_rfl, ?_⟩
  by_cases hj : j = i
  · subst hj
    have hcall : (s.setCall j phase now).calls j = ⟨phase, now⟩ := Function.update_self _ _ _
    rw [hcall]
    exact .inr ⟨hphase, hnow⟩
  · exact .inl (Function.update_of_ne hj _ _)

theorem callMoved_moveCall {i : ℕ} {phase : RunPhase} (hphase : phase ≠ .idle) (j : ℕ) :
    CallMoved s (s.moveCall i phase) j := callMoved_setCall hphase (.inl rfl) j

/-- **One step** moves one call, and none back to its start. -/
theorem callMoved_step {l : Label} (h : step config s l = some t) (j : ℕ) : CallMoved s t j := by
  cases hl : l.attempt? with
  | some a =>
      cases writes_of_step h with
      | call hnone | run hnone =>
          rw [hl] at hnone
          cases hnone
      | _ => exact ⟨le_rfl, .inl rfl⟩
  | none =>
      cases l with
      | tick t' =>
          obtain ⟨hle, rfl⟩ := tick_eq_some h
          exact ⟨hle, .inl rfl⟩
      | readRun i now =>
          rw [step, readRun] at h
          split_ifs at h with hready
          cases h
          exact callMoved_setCall (by simp) (.inr hready.2.2) j
      | insertRun i =>
          rw [step, insertRun] at h
          split at h
          · split at h
            · cases h
              exact callMoved_moveCall (s := s.setRun _ _) (by simp) j
            · cases h
              exact callMoved_moveCall (by simp) j
          · cases h
      | rereadRun i =>
          rw [step, rereadRun] at h
          split at h
          · cases h
            exact callMoved_moveCall (by simp) j
          · cases h
      | updateRun i =>
          rw [step, updateRun] at h
          split at h
          · split at h
            · cases h
              exact callMoved_moveCall (by simp) j
            · split at h
              · rcases updateRunWhere_eq_some h with ⟨run, -, -, -, heq⟩ | ⟨-, heq⟩
                · cases heq
                  exact callMoved_moveCall (s := s.setRun _ _) (by simp) j
                · cases heq
                  exact callMoved_moveCall (by simp) j
              · split at h
                · cases h
                  exact callMoved_moveCall (by simp) j
                · rcases updateRunWhere_eq_some h with ⟨run, -, -, -, heq⟩ | ⟨-, heq⟩
                  · cases heq
                    exact callMoved_moveCall (s := s.setRun _ _) (by simp) j
                  · cases heq
                    exact callMoved_moveCall (by simp) j
          · cases h
      | completeRun i now =>
          rw [step, completeRun] at h
          split_ifs at h with hready hlost
          · cases h
            exact callMoved_setCall (by simp) (.inr hready.2.1.2) j
          · rcases updateRunWhere_eq_some h with ⟨run, -, -, -, heq⟩ | ⟨-, heq⟩
            · cases heq
              exact callMoved_setCall (s := s.setRun _ _) (by simp) (.inr hready.2.1.2) j
            · cases heq
              exact callMoved_setCall (by simp) (.inr hready.2.1.2) j
      | crashRun i =>
          rw [step, crashRun] at h
          split at h
          · cases h
          · cases h
            exact callMoved_moveCall (by simp) j
      | _ => cases hl

/-- The locks are held by attempts that have started, an attempt of a call that has not started has
not either, no call has read a later time than the clock's, and what is running is leased. -/
structure Orderly (s : State) : Prop where
  runHolder : ∀ key a, s.runLock key = some a → (s.attempts a).phase ≠ .idle
  outcomeHolder : ∀ key a, s.outcomeLock key = some a → (s.attempts a).phase ≠ .idle
  unstarted : ∀ a, (s.calls a.1).phase = .idle → (s.attempts a).phase = .idle
  lastNow_le : ∀ i, (s.calls i).lastNow ≤ s.clock
  leased : ∀ key row, s.outcomes key = some row → row.status = .running →
    ∃ e, row.leaseExpiresAt = some e

theorem orderly_initial (clock : Instant) (raws : List String) :
    Orderly (.initial clock raws) where
  runHolder _ _ hlock := by cases hlock
  outcomeHolder _ _ hlock := by cases hlock
  unstarted _ _ := rfl
  lastNow_le _ := le_rfl
  leased _ _ hrow := by cases hrow

/-- Started is started. -/
theorem started_step {l : Label} (h : step config s l = some t) {a : ℕ × String}
    (hstarted : (s.attempts a).phase ≠ .idle ∨ l.attempt? = some a) :
    (t.attempts a).phase ≠ .idle := by
  by_cases ha : l.attempt? = some a
  · exact (next_step h ha).ne_idle
  · rw [attempts_of_ne h ha]
    exact hstarted.resolve_right ha

/-- A running row that was written is leased. -/
theorem leased_of_touched {o : Option NewsRetrievalSourceOutcome} {row : NewsRetrievalSourceOutcome}
    (h : NewsRetrievalSourceOutcome.Touched o (some row)) (hrunning : row.status = .running) :
    ∃ e, row.leaseExpiresAt = some e := by
  cases h with
  | complete | fail => cases hrunning
  | _ => exact ⟨_, rfl⟩

theorem orderly_step (hs : Orderly s) {l : Label} (h : step config s l = some t) : Orderly t := by
  refine ⟨fun key a hlock => ?_, fun key a hlock => ?_, fun a hidle => ?_, fun i => ?_,
    fun key row hrow hrunning => ?_⟩
  · refine started_step h ?_
    rcases locks_step h with ⟨hrun, -⟩ | ⟨b, hb, hlocks⟩
    · exact .inl (hs.runHolder key a (hrun ▸ hlock))
    · cases hlocks with
      | release hrun _ =>
          rw [hrun, State.release] at hlock
          dsimp only at hlock
          split_ifs at hlock
          exact .inl (hs.runHolder key a hlock)
      | run key' _ hrun _ =>
          rw [hrun] at hlock
          by_cases hkey : key = key'
          · rw [hkey, Function.update_self] at hlock
            exact .inr (hb.trans hlock)
          · rw [Function.update_of_ne hkey] at hlock
            exact .inl (hs.runHolder key a hlock)
      | outcome _ _ hrun _ => exact .inl (hs.runHolder key a (hrun ▸ hlock))
  · refine started_step h ?_
    rcases locks_step h with ⟨-, houtcome⟩ | ⟨b, hb, hlocks⟩
    · exact .inl (hs.outcomeHolder key a (houtcome ▸ hlock))
    · cases hlocks with
      | release _ houtcome =>
          rw [houtcome, State.release] at hlock
          dsimp only at hlock
          split_ifs at hlock
          exact .inl (hs.outcomeHolder key a hlock)
      | run _ _ _ houtcome => exact .inl (hs.outcomeHolder key a (houtcome ▸ hlock))
      | outcome key' _ _ houtcome =>
          rw [houtcome] at hlock
          by_cases hkey : key = key'
          · rw [hkey, Function.update_self] at hlock
            exact .inr (hb.trans hlock)
          · rw [Function.update_of_ne hkey] at hlock
            exact .inl (hs.outcomeHolder key a hlock)
  · -- only an attempt of a call that gathers starts
    have hbefore : (s.calls a.1).phase = .idle := by
      rcases (callMoved_step h a.1).2 with heq | ⟨hne, -⟩
      · rw [← heq]
        exact hidle
      · exact absurd hidle hne
    by_cases ha : l.attempt? = some a
    · have hphase := hs.unstarted a hbefore
      have hnext := next_step h ha
      rw [hphase] at hnext
      generalize (t.attempts a).phase = phase at hnext ⊢
      cases hnext with
      | select now existing =>
          rw [step, selectSource] at h
          split_ifs at h with hready
          rw [hready.1] at hbefore
          cases hbefore
      | raise _ _ htrying | raiseParserError _ _ htrying => exact absurd rfl htrying.ne_idle
      | crash hne => exact absurd rfl hne
    · rw [attempts_of_ne h ha]
      exact hs.unstarted a hbefore
  · obtain ⟨hclock, heq | ⟨-, heq | hle⟩⟩ := callMoved_step h i
    · rw [heq]
      exact (hs.lastNow_le i).trans hclock
    · rw [heq]
      exact (hs.lastNow_le i).trans hclock
    · exact hle.trans hclock
  · rcases outcomes_step h with heq | ⟨a, row', -, -, heq, htouched, -⟩
    · exact hs.leased key row (heq ▸ hrow) hrunning
    · rw [heq] at hrow
      by_cases hkey : key = outcomeKey config a
      · rw [hkey, Function.update_self, Option.some.injEq] at hrow
        rw [← hrow] at hrunning ⊢
        exact leased_of_touched htouched hrunning
      · rw [Function.update_of_ne hkey] at hrow
        exact hs.leased key row hrow hrunning

theorem orderly_of_execution {clock : Instant} {raws : List String} {tr : List (State × Label)}
    (h : Execution (step config) unguarded (.initial clock raws) tr s) : Orderly s :=
  h.invariant (orderly_initial clock raws) fun _ _ _ hp _ hstep => orderly_step hp hstep

/-! ## One source -/

/-- What the provider of a source does. -/
inductive Answer
  | raises (code : FetchFailureCode) (responseBytes : ℕ)
  | returns (inserted : List String)
      (withinRunDuplicates databaseDuplicates errors responseBytes : ℕ)

/-- Steps of one call, while time passes and attempts of other calls die. -/
def Alone (i : ℕ) (_ : State) : Label → Prop
  | .tick _ => True
  | .crash j _ => j ≠ i
  | .crashRun _ | .lockedSource _ _ => False
  | .readRun j _ | .insertRun j | .rereadRun j | .updateRun j | .completeRun j _
  | .selectSource j _ _ | .updateSource j _ | .insertSource j _ | .rereadSource j _
  | .fetch j _ _ _ _ | .fence j _ _ | .save j _ _ _ _ | .complete j _ _ | .commit j _ | .finish j _
  | .raise j _ _ _ | .circuitFailure j _ | .fail j _ _ => j = i

/-- A call gathers its sources under a lease of its own, at a fixed time. -/
structure Ready (config : ℕ → Orchestrator) (i : ℕ) (T : Instant) (s : State) : Prop where
  clock : s.clock = T
  call : s.calls i = ⟨.gathering, T⟩
  run : ∃ run, s.runs (config i).runKey = some run ∧ run.HeldBy (config i).owner T
  runLock : s.runLock (config i).runKey = none

/-- A call serves one of its sources: the attempt, the row and the two locks are as given, and the
rest is as it was at `s₀`. -/
structure Serving (config : ℕ → Orchestrator) (i : ℕ) (src : String) (s₀ : State)
    (attempt : SourceAttempt) (row : Option NewsRetrievalSourceOutcome)
    (runLock outcomeLock : Option (ℕ × String)) (s : State) : Prop where
  clock : s.clock = s₀.clock
  call : s.calls i = s₀.calls i
  runs : s.runs = s₀.runs
  attempt_eq : s.attempts (i, src) = attempt
  row_eq : s.outcomes (outcomeKey config (i, src)) = row
  runLock_eq : s.runLock (config i).runKey = runLock
  outcomeLock_eq : s.outcomeLock (outcomeKey config (i, src)) = outcomeLock
  others : ∀ src' ≠ src, s.attempts (i, src') = s₀.attempts (i, src') ∧
    s.outcomes (outcomeKey config (i, src')) = s₀.outcomes (outcomeKey config (i, src')) ∧
    (s₀.outcomeLock (outcomeKey config (i, src')) = none →
      s.outcomeLock (outcomeKey config (i, src')) = none)

section Serving

variable {i : ℕ} {src : String} {T : Instant} {s₀ : State} {attempt : SourceAttempt}
  {row : Option NewsRetrievalSourceOutcome} {runLock outcomeLock : Option (ℕ × String)}

theorem outcomeKey_ne {src' : String} (hne : src' ≠ src) :
    outcomeKey config (i, src') ≠ outcomeKey config (i, src) := fun heq =>
  hne (Prod.mk.inj heq).2

theorem Serving.setAttempt (h : Serving config i src s₀ attempt row runLock outcomeLock s)
    (attempt' : SourceAttempt) :
    Serving config i src s₀ attempt' row runLock outcomeLock (s.setAttempt (i, src) attempt') where
  clock := h.clock
  call := h.call
  runs := h.runs
  attempt_eq := Function.update_self _ _ _
  row_eq := h.row_eq
  runLock_eq := h.runLock_eq
  outcomeLock_eq := h.outcomeLock_eq
  others src' hne := by
    refine ⟨?_, (h.others src' hne).2⟩
    rw [← (h.others src' hne).1]
    exact Function.update_of_ne (fun heq => hne (Prod.mk.inj heq).2) _ _

theorem Serving.setOutcome (h : Serving config i src s₀ attempt row runLock outcomeLock s)
    (row' : NewsRetrievalSourceOutcome) :
    Serving config i src s₀ attempt (some row') runLock outcomeLock
      (s.setOutcome (outcomeKey config (i, src)) row') where
  clock := h.clock
  call := h.call
  runs := h.runs
  attempt_eq := h.attempt_eq
  row_eq := Function.update_self _ _ _
  runLock_eq := h.runLock_eq
  outcomeLock_eq := h.outcomeLock_eq
  others src' hne := by
    obtain ⟨hattempt, hrow, hlock⟩ := h.others src' hne
    refine ⟨hattempt, ?_, hlock⟩
    rw [← hrow]
    exact Function.update_of_ne (outcomeKey_ne hne) _ _

theorem Serving.lockRun (h : Serving config i src s₀ attempt row runLock outcomeLock s) :
    Serving config i src s₀ attempt row (some (i, src)) outcomeLock
      (s.lockRun (config i).runKey (i, src)) where
  clock := h.clock
  call := h.call
  runs := h.runs
  attempt_eq := h.attempt_eq
  row_eq := h.row_eq
  runLock_eq := Function.update_self _ _ _
  outcomeLock_eq := h.outcomeLock_eq
  others := h.others

theorem Serving.lockOutcome (h : Serving config i src s₀ attempt row runLock outcomeLock s) :
    Serving config i src s₀ attempt row runLock (some (i, src))
      (s.lockOutcome (outcomeKey config (i, src)) (i, src)) where
  clock := h.clock
  call := h.call
  runs := h.runs
  attempt_eq := h.attempt_eq
  row_eq := h.row_eq
  runLock_eq := h.runLock_eq
  outcomeLock_eq := Function.update_self _ _ _
  others src' hne := by
    obtain ⟨hattempt, hrow, hlock⟩ := h.others src' hne
    refine ⟨hattempt, hrow, fun hnone => ?_⟩
    rw [← hlock hnone]
    exact Function.update_of_ne (outcomeKey_ne hne) _ _

/-- The end of a transaction, with or without its articles. -/
theorem Serving.commitPending (h : Serving config i src s₀ attempt row runLock outcomeLock s)
    (hrun : ∀ a ∈ runLock, a = (i, src)) (houtcome : ∀ a ∈ outcomeLock, a = (i, src)) :
    Serving config i src s₀ { attempt with pending := [] } row none none
      (s.commitPending (i, src)) where
  clock := h.clock
  call := h.call
  runs := h.runs
  attempt_eq := by
    rw [← h.attempt_eq]
    exact Function.update_self _ _ _
  row_eq := h.row_eq
  runLock_eq := by
    change (if s.runLock (config i).runKey = some (i, src) then none else
      s.runLock (config i).runKey) = none
    rw [h.runLock_eq]
    cases runLock with
    | none => simp
    | some a => simp [hrun a rfl]
  outcomeLock_eq := by
    change (if s.outcomeLock (outcomeKey config (i, src)) = some (i, src) then none else
      s.outcomeLock (outcomeKey config (i, src))) = none
    rw [h.outcomeLock_eq]
    cases outcomeLock with
    | none => simp
    | some a => simp [houtcome a rfl]
  others src' hne := by
    obtain ⟨hattempt, hrow, hlock⟩ := h.others src' hne
    refine ⟨?_, hrow, fun hnone => ?_⟩
    · rw [← hattempt]
      exact Function.update_of_ne (fun heq => hne (Prod.mk.inj heq).2) _ _
    · change (if s.outcomeLock (outcomeKey config (i, src')) = some (i, src) then none else
        s.outcomeLock (outcomeKey config (i, src'))) = none
      rw [hlock hnone]
      rfl

theorem Serving.moveAttempt (h : Serving config i src s₀ attempt row runLock outcomeLock s)
    (phase : SourcePhase) :
    Serving config i src s₀ { attempt with phase := phase } row runLock outcomeLock
      (s.moveAttempt (i, src) phase) := by
  rw [State.moveAttempt, h.attempt_eq]
  exact h.setAttempt _

/-- A call takes a step, which leads to such a state. -/
def Leads (config : ℕ → Orchestrator) (i : ℕ) (s : State) (P : State → Prop) : Prop :=
  ∃ tr t, Execution (step config) (Alone i) s tr t ∧ P t

theorem Leads.now {P : State → Prop} (h : P s) : Leads config i s P := ⟨[], s, .nil, h⟩

theorem Leads.step {P : State → Prop} {l : Label} (h : Retrieval.step config s l = some t)
    (hl : Alone i s l) (hP : Leads config i t P) : Leads config i s P := by
  obtain ⟨tr, u, hrun, hu⟩ := hP
  exact ⟨_, u, (Execution.nil.snoc hl h).trans hrun, hu⟩

theorem Leads.trans {P Q : State → Prop} (h : Leads config i s P)
    (hP : ∀ t, P t → Leads config i t Q) : Leads config i s Q := by
  obtain ⟨tr, t, hrun, ht⟩ := h
  obtain ⟨tr', u, hrun', hu⟩ := hP t ht
  exact ⟨_, u, hrun.trans hrun', hu⟩

/-- The row is finished and the attempt has returned, without a lost lease. -/
def Served (config : ℕ → Orchestrator) (i : ℕ) (src : String) (s₀ s : State) : Prop :=
  ∃ result row' lastNow, result.status ≠ .leaseLost ∧
    NewsRetrievalSourceOutcome.Terminal row' ∧
    Serving config i src s₀ ⟨.done result, lastNow, []⟩ (some row') none none s

theorem Ready.reads (hready : Ready config i T s₀)
    (h : Serving config i src s₀ attempt row runLock outcomeLock s) : Reads s T T := by
  rw [Reads, h.clock, hready.clock]
  exact ⟨le_rfl, le_rfl⟩

/-- `fail_source` ends the handler of an exception. -/
theorem leads_failing (hready : Ready config i T s₀) {row : NewsRetrievalSourceOutcome}
    (hheld : row.HeldBy (config i).owner T) {code : FetchFailureCode} {responseBytes : ℕ}
    (h : Serving config i src s₀ ⟨.failing code responseBytes, T, []⟩ (some row) none none s) :
    Leads config i s (Served config i src s₀) := by
  have hstep : step config s (.fail i src T) = some (((s.commitPending (i, src)).setOutcome
      (outcomeKey config (i, src)) (row.fail T code responseBytes)).setAttempt (i, src)
        ⟨.done (failedResult code responseBytes), T, []⟩) := by
    rw [step, fail, h.attempt_eq]
    dsimp only
    rw [if_pos (hready.reads h), updateOutcomeWhere, h.row_eq]
    dsimp only
    rw [if_pos (decide_eq_true hheld), if_pos h.outcomeLock_eq]
  refine .step hstep rfl (.now ⟨_, _, _, ?_, ?_,
    ((h.commitPending (by simp) (by simp)).setOutcome _).setAttempt _⟩)
  · simp [failedResult]
  · simp [NewsRetrievalSourceOutcome.Terminal, NewsRetrievalSourceOutcome.fail]

/-- What `save_articles` stored is committed with the end of the row. -/
theorem leads_saved (hready : Ready config i T s₀) {row : NewsRetrievalSourceOutcome}
    (hheld : row.HeldBy (config i).owner T) {counts : SourceCounts} {pending : List String}
    (h : Serving config i src s₀ ⟨.saved counts T, T, pending⟩ (some row) (some (i, src)) none s) :
    Leads config i s (Served config i src s₀) := by
  have hcomplete : step config s (.complete i src T) = some ((s.lockOutcome
      (outcomeKey config (i, src)) (i, src)).setAttempt (i, src)
        ⟨.completing counts T T, T, pending⟩) := by
    rw [step, complete, h.attempt_eq]
    dsimp only
    rw [if_pos (hready.reads h), updateOutcomeWhere, h.row_eq]
    dsimp only
    rw [if_pos (decide_eq_true hheld), if_pos h.outcomeLock_eq]
  refine .step hcomplete rfl ?_
  replace h := h.lockOutcome.setAttempt ⟨.completing counts T T, T, pending⟩
  generalize (s.lockOutcome (outcomeKey config (i, src)) (i, src)).setAttempt (i, src)
    ⟨.completing counts T T, T, pending⟩ = s₁ at h ⊢
  have hcommit : step config s₁ (.commit i src) = some (((s₁.commitPending (i, src)).setOutcome
      (outcomeKey config (i, src)) (row.complete T counts)).moveAttempt (i, src)
        (.committed counts)) := by
    rw [step, commit, h.attempt_eq, h.row_eq]
  refine .step hcommit rfl ?_
  replace h := ((h.commitPending (by simp) (by simp)).setOutcome
    (row.complete T counts)).moveAttempt (.committed counts)
  generalize ((s₁.commitPending (i, src)).setOutcome (outcomeKey config (i, src))
    (row.complete T counts)).moveAttempt (i, src) (.committed counts) = s₂ at h ⊢
  have hfinish : step config s₂ (.finish i src) = some (s₂.moveAttempt (i, src)
      (.done ⟨.completed, counts, none⟩)) := by
    rw [step, finish, h.attempt_eq]
  refine .step hfinish rfl (.now ⟨_, _, _, ?_, ?_, h.moveAttempt _⟩)
  · simp
  · simp [NewsRetrievalSourceOutcome.Terminal, NewsRetrievalSourceOutcome.complete]

/-- The provider answers, and the row gets its end. -/
theorem leads_claimed (hready : Ready config i T s₀) {row : NewsRetrievalSourceOutcome}
    (hheld : row.HeldBy (config i).owner T)
    (h : Serving config i src s₀ ⟨.claimed, T, []⟩ (some row) none none s) (answer : Answer) :
    Leads config i s (Served config i src s₀) := by
  cases answer with
  | raises code responseBytes =>
      have hraise : step config s (.raise i src code responseBytes) =
          some (s.moveAttempt (i, src) (handlerPhase code responseBytes)) := by
        rw [step, raise, h.attempt_eq]
      refine .step hraise rfl ?_
      replace h := h.moveAttempt (handlerPhase code responseBytes)
      generalize s.moveAttempt (i, src) (handlerPhase code responseBytes) = s₁ at h ⊢
      unfold handlerPhase at h
      split_ifs at h
      · have hcircuit : step config s₁ (.circuitFailure i src) = some ((s₁.commitPending
            (i, src)).moveAttempt (i, src) (.failing .parserError responseBytes)) := by
          rw [step, circuitFailure, h.attempt_eq]
        exact .step hcircuit rfl (leads_failing hready hheld
          ((h.commitPending (by simp) (by simp)).moveAttempt _))
      · exact leads_failing hready hheld h
  | returns inserted withinRunDuplicates databaseDuplicates errors responseBytes =>
      obtain ⟨run, hrun, hrunHeld⟩ := hready.run
      let fetched := inserted.length + databaseDuplicates + errors + withinRunDuplicates
      let counts : SourceCounts := ⟨fetched, 0, withinRunDuplicates, 0, 0, responseBytes⟩
      have hfetch : step config s (.fetch i src fetched withinRunDuplicates responseBytes) =
          some (s.moveAttempt (i, src) (.fetched counts)) := by
        rw [step, fetch, h.attempt_eq]
        exact if_pos (Nat.le_add_left _ _)
      refine .step hfetch rfl ?_
      replace h := h.moveAttempt (.fetched counts)
      generalize s.moveAttempt (i, src) (.fetched counts) = s₁ at h ⊢
      have hfence : step config s₁ (.fence i src T) = some ((s₁.lockRun (config i).runKey
          (i, src)).setAttempt (i, src) ⟨.fenced counts T, T, []⟩) := by
        rw [step, fence, h.attempt_eq]
        dsimp only
        rw [if_pos (hready.reads h), updateRunWhere, h.runs, hrun]
        dsimp only
        rw [if_pos (decide_eq_true hrunHeld), if_pos h.runLock_eq]
      refine .step hfence rfl ?_
      replace h := h.lockRun.setAttempt ⟨.fenced counts T, T, []⟩
      generalize (s₁.lockRun (config i).runKey (i, src)).setAttempt (i, src)
        ⟨.fenced counts T, T, []⟩ = s₂ at h ⊢
      have hsave : step config s₂ (.save i src inserted databaseDuplicates errors) =
          some (s₂.setAttempt (i, src) ⟨.saved { counts with
            inserted := inserted.length
            databaseDuplicates := databaseDuplicates
            failed := errors } T, T, inserted⟩) := by
        rw [step, save, h.attempt_eq]
        exact if_pos (Nat.add_sub_cancel _ _).symm
      exact .step hsave rfl (leads_saved hready hheld (h.setAttempt _))

/-- A row that nobody works on: it is finished, or its lease has run out. -/
def Idle (row : Option NewsRetrievalSourceOutcome) (T : Instant) : Prop :=
  ∀ r ∈ row, r.Terminal ∨ r.Reclaimable T

/-- **One source**, whatever its provider does: a finished row is left, and another one gets its
end. -/
theorem leads_served (hready : Ready config i T s) (hsrc : src ∈ (config i).enabled)
    (hidle : (s.attempts (i, src)).phase = .idle)
    (hlock : s.outcomeLock (outcomeKey config (i, src)) = none)
    (hrow : Idle (s.outcomes (outcomeKey config (i, src))) T) (answer : Answer) :
    Leads config i s (Served config i src s) := by
  have h : Serving config i src s (s.attempts (i, src)) (s.outcomes (outcomeKey config (i, src)))
      none none s :=
    ⟨rfl, rfl, rfl, rfl, rfl, hready.runLock, hlock, fun _ _ => ⟨rfl, rfl, id⟩⟩
  generalize hexisting : s.outcomes (outcomeKey config (i, src)) = existing at hrow h
  have hselect : step config s (.selectSource i src T) =
      some (s.setAttempt (i, src) ⟨.selected T existing, T, []⟩) := by
    rw [step, selectSource, if_pos, hexisting]
    exact ⟨by rw [hready.call], hsrc, hidle, by rw [hready.call]; exact hready.reads h⟩
  refine .step hselect rfl ?_
  replace h := h.setAttempt ⟨.selected T existing, T, []⟩
  generalize s.setAttempt (i, src) ⟨.selected T existing, T, []⟩ = s₁ at h ⊢
  have hnotHeld : ¬∃ r ∈ existing, r.HeldBy (config i).owner T := by
    rintro ⟨r, hr, hrunning, -, e, he, hle⟩
    rcases hrow r hr with hterminal | ⟨-, e', he', hlt⟩
    · exact hterminal hrunning
    · rw [Option.mem_def.mp he] at he'
      cases he'
      exact absurd hlt (not_lt.mpr hle)
  -- the take-over, if there is something to take over
  by_cases hexpired : ∃ r ∈ existing, r.Reclaimable T
  · obtain ⟨r, rfl, hreclaimable⟩ := hexpired
    have hupdate : step config s₁ (.updateSource i src) = some ((s₁.setOutcome
        (outcomeKey config (i, src)) (r.reclaim (config i).owner T)).moveAttempt (i, src)
          .claimed) := by
      rw [step, updateSource, h.attempt_eq]
      dsimp only
      rw [if_neg hnotHeld, updateOutcomeWhere, h.row_eq]
      dsimp only
      rw [if_pos (decide_eq_true hreclaimable), if_pos h.outcomeLock_eq]
    have hheld : (r.reclaim (config i).owner T).HeldBy (config i).owner T :=
      ⟨hreclaimable.1, rfl, _, rfl, le_add_of_nonneg_right (by decide)⟩
    exact .step hupdate rfl (leads_claimed hready hheld ((h.setOutcome _).moveAttempt _) answer)
  · have hupdate : step config s₁ (.updateSource i src) =
        some (s₁.moveAttempt (i, src) (.inserting T)) := by
      rw [step, updateSource, h.attempt_eq]
      dsimp only
      rw [if_neg hnotHeld, updateOutcomeWhere, h.row_eq]
      cases existing with
      | none => rfl
      | some r =>
          dsimp only
          rw [if_neg]
          exact fun hreclaimable => hexpired ⟨r, rfl, of_decide_eq_true hreclaimable⟩
    refine .step hupdate rfl ?_
    replace h := h.moveAttempt (.inserting T)
    generalize s₁.moveAttempt (i, src) (.inserting T) = s₂ at h ⊢
    cases existing with
    | none =>
        have hinsert : step config s₂ (.insertSource i src) = some ((s₂.setOutcome
            (outcomeKey config (i, src)) (.start (config i).owner T)).moveAttempt (i, src)
              .claimed) := by
          rw [step, insertSource, h.attempt_eq, h.row_eq]
        have hheld : (NewsRetrievalSourceOutcome.start (config i).owner T).HeldBy
            (config i).owner T :=
          ⟨rfl, rfl, _, rfl, le_add_of_nonneg_right (by decide)⟩
        exact .step hinsert rfl (leads_claimed hready hheld ((h.setOutcome _).moveAttempt _) answer)
    | some r =>
        have hterminal : r.Terminal := (hrow r rfl).resolve_right fun hreclaimable =>
          hexpired ⟨r, rfl, hreclaimable⟩
        have hinsert : step config s₂ (.insertSource i src) =
            some (s₂.moveAttempt (i, src) .unclaimed) := by
          rw [step, insertSource, h.attempt_eq, h.row_eq]
        refine .step hinsert rfl ?_
        replace h := h.moveAttempt .unclaimed
        generalize s₂.moveAttempt (i, src) .unclaimed = s₃ at h ⊢
        have hreread : step config s₃ (.rereadSource i src) =
            some (s₃.moveAttempt (i, src) (.done (unclaimedResult (some r)))) := by
          rw [step, rereadSource, h.attempt_eq, h.row_eq]
        refine .step hreread rfl (.now ⟨_, _, _, ?_, hterminal, h.moveAttempt _⟩)
        unfold unclaimedResult
        dsimp only
        split <;> simp

/-- An attempt has returned without a lost lease, and its row is finished. -/
def Gathered (config : ℕ → Orchestrator) (i : ℕ) (s : State) (src : String) : Prop :=
  (∃ result, resultOf s i src = some result ∧ result.status ≠ .leaseLost) ∧
    Finished config s (i, src)

theorem Served.gathered (h : Served config i src s₀ s) : Gathered config i s src := by
  obtain ⟨result, row, lastNow, hresult, hterminal, h⟩ := h
  refine ⟨⟨result, ?_, hresult⟩, row, h.row_eq, hterminal⟩
  rw [resultOf, h.attempt_eq]

theorem Served.ready (h : Served config i src s₀ s) (hready : Ready config i T s₀) :
    Ready config i T s := by
  obtain ⟨result, row, lastNow, -, -, h⟩ := h
  exact ⟨h.clock.trans hready.clock, h.call.trans hready.call, h.runs ▸ hready.run, h.runLock_eq⟩

/-- Everything that `leads_served` asks of a source. -/
structure Servable (config : ℕ → Orchestrator) (i : ℕ) (T : Instant) (s : State) (src : String) :
    Prop where
  enabled : src ∈ (config i).enabled
  idle : (s.attempts (i, src)).phase = .idle
  lock : s.outcomeLock (outcomeKey config (i, src)) = none
  row : Idle (s.outcomes (outcomeKey config (i, src))) T

/-- **All sources** of a call. -/
theorem leads_gathered (answers : String → Answer) {srcs : List String} (hnodup : srcs.Nodup)
    (hready : Ready config i T s) (hservable : ∀ src ∈ srcs, Servable config i T s src) :
    Leads config i s fun t => Ready config i T t ∧ (∀ src ∈ srcs, Gathered config i t src) ∧
      ∀ src ∉ srcs, Gathered config i s src → Gathered config i t src := by
  induction srcs generalizing s with
  | nil => exact .now ⟨hready, fun src hsrc => absurd hsrc List.not_mem_nil, fun _ _ h => h⟩
  | cons src srcs ih =>
      obtain ⟨hfirst, hrest⟩ := List.forall_mem_cons.mp hservable
      obtain ⟨hnotMem, hnodup⟩ := List.nodup_cons.mp hnodup
      refine (leads_served hready hfirst.enabled hfirst.idle hfirst.lock hfirst.row
        (answers src)).trans fun s₁ hserved => ?_
      have hothers : ∀ src' ≠ src, s₁.attempts (i, src') = s.attempts (i, src') ∧
          s₁.outcomes (outcomeKey config (i, src')) = s.outcomes (outcomeKey config (i, src')) ∧
          (s.outcomeLock (outcomeKey config (i, src')) = none →
            s₁.outcomeLock (outcomeKey config (i, src')) = none) := by
        obtain ⟨result, row, lastNow, -, -, h⟩ := hserved
        exact h.others
      have hgathered : ∀ src' ≠ src, Gathered config i s src' → Gathered config i s₁ src' := by
        intro src' hne hgathered
        obtain ⟨hattempt, hrow, -⟩ := hothers src' hne
        unfold Gathered resultOf Finished at hgathered ⊢
        rw [hattempt, hrow]
        exact hgathered
      obtain ⟨tr, t, hrun, hready', hall, hkept⟩ := ih hnodup (hserved.ready hready)
        fun src' hsrc' => by
          have hne : src' ≠ src := fun heq => hnotMem (heq ▸ hsrc')
          obtain ⟨henabled, hidle, hlock, hrow⟩ := hrest src' hsrc'
          obtain ⟨hattempt, houtcome, hfree⟩ := hothers src' hne
          exact ⟨henabled, hattempt ▸ hidle, hfree hlock, houtcome ▸ hrow⟩
      refine ⟨tr, t, hrun, hready', List.forall_mem_cons.mpr
        ⟨hkept src hnotMem hserved.gathered, hall⟩, fun src' hsrc' hbefore => ?_⟩
      rw [List.mem_cons, not_or] at hsrc'
      exact hkept src' hsrc'.2 (hgathered src' hsrc'.1 hbefore)

/-- The end of a call that has gathered all its sources. -/
theorem leads_completed (hready : Ready config i T s)
    (hall : ∀ src ∈ (config i).enabled, Gathered config i s src) :
    Leads config i s fun t => (t.calls i).phase = .finished .completed ∧
      (∃ run ∈ t.runs (config i).runKey, run.status = .completed) ∧
      ∀ src ∈ (config i).enabled, Finished config t (i, src) := by
  obtain ⟨run, hrun, hheld⟩ := hready.run
  have hresults : ∀ src ∈ (config i).enabled, (resultOf s i src).isSome := by
    intro src hsrc
    obtain ⟨result, hresult, -⟩ := (hall src hsrc).1
    rw [hresult]
    rfl
  have hkept : ¬∃ result ∈ (config i).enabled.filterMap (resultOf s i),
      result.status = .leaseLost := by
    rintro ⟨result, hmem, hlost⟩
    obtain ⟨src, hsrc, hresult⟩ := List.mem_filterMap.mp hmem
    obtain ⟨result', hresult', hne⟩ := (hall src hsrc).1
    rw [hresult, Option.some.injEq] at hresult'
    exact hne (hresult' ▸ hlost)
  have hreads : Reads s (s.calls i).lastNow T := by
    rw [hready.call, Reads, hready.clock]
    exact ⟨le_rfl, le_rfl⟩
  have hcomplete : step config s (.completeRun i T) = some ((s.setRun (config i).runKey
      (run.complete T (totalCounts ((config i).enabled.filterMap (resultOf s i))))).setCall i
        (.finished .completed) T) := by
    rw [step, completeRun, if_pos ⟨by rw [hready.call], hreads, hresults⟩, if_neg hkept,
      updateRunWhere, hrun]
    dsimp only
    rw [if_pos (decide_eq_true hheld), if_pos hready.runLock]
  refine .step hcomplete rfl (.now ⟨?_, ⟨_, Function.update_self _ _ _, rfl⟩,
    fun src hsrc => (hall src hsrc).2⟩)
  rw [show ((s.setRun (config i).runKey _).setCall i (.finished .completed) T).calls i =
    ⟨.finished .completed, T⟩ from Function.update_self _ _ _]

end Serving

/-! ## Taking over -/

section Takeover

variable {i : ℕ} {T : Instant}

/-- Locks are freed, and no row and no call changes. -/
structure Freed (s t : State) : Prop where
  calls : t.calls = s.calls
  runs : t.runs = s.runs
  outcomes : t.outcomes = s.outcomes
  runLock : ∀ key, s.runLock key = none → t.runLock key = none
  outcomeLock : ∀ key, s.outcomeLock key = none → t.outcomeLock key = none

theorem Freed.refl (s : State) : Freed s s := ⟨rfl, rfl, rfl, fun _ => id, fun _ => id⟩

theorem Freed.trans {u : State} (h : Freed s t) (h' : Freed t u) : Freed s u where
  calls := h'.calls.trans h.calls
  runs := h'.runs.trans h.runs
  outcomes := h'.outcomes.trans h.outcomes
  runLock key hfree := h'.runLock key (h.runLock key hfree)
  outcomeLock key hfree := h'.outcomeLock key (h.outcomeLock key hfree)

/-- An attempt that holds a lock dies, and its session is rolled back. -/
theorem leads_crash (hs : Orderly s) (hi : (s.calls i).phase = .idle) {a : ℕ × String}
    (hstarted : (s.attempts a).phase ≠ .idle) :
    Leads config i s fun t => Orderly t ∧ Freed s t ∧
      (∀ key, s.runLock key = some a → t.runLock key = none) ∧
      ∀ key, s.outcomeLock key = some a → t.outcomeLock key = none := by
  have hcrash : step config s (.crash a.1 a.2) = some ((s.rollback a).moveAttempt a .dead) := by
    rw [step, crash, if_neg hstarted]
  have hne : a.1 ≠ i := fun heq => hstarted (hs.unstarted a (heq ▸ hi))
  refine .step hcrash hne (.now ⟨orderly_step hs hcrash, ⟨rfl, rfl, rfl, fun key hfree => ?_,
    fun key hfree => ?_⟩, fun key hlock => if_pos hlock, fun key hlock => if_pos hlock⟩)
  · change (if s.runLock key = some a then none else s.runLock key) = none
    rw [hfree]
    rfl
  · change (if s.outcomeLock key = some a then none else s.outcomeLock key) = none
    rw [hfree]
    rfl

theorem leads_runLock (hs : Orderly s) (hi : (s.calls i).phase = .idle) (key : String) :
    Leads config i s fun t => Orderly t ∧ Freed s t ∧ t.runLock key = none := by
  cases hlock : s.runLock key with
  | none => exact .now ⟨hs, .refl s, hlock⟩
  | some a =>
      refine (leads_crash hs hi (hs.runHolder key a hlock)).trans ?_
      rintro t ⟨ht, hfreed, hrun, -⟩
      exact .now ⟨ht, hfreed, hrun key hlock⟩

theorem leads_outcomeLocks (hs : Orderly s) (hi : (s.calls i).phase = .idle)
    (keys : List (String × String)) :
    Leads config i s fun t => Orderly t ∧ Freed s t ∧ ∀ key ∈ keys, t.outcomeLock key = none := by
  induction keys generalizing s with
  | nil => exact .now ⟨hs, .refl s, fun key hkey => absurd hkey List.not_mem_nil⟩
  | cons key keys ih =>
      have hfirst : Leads config i s fun t => Orderly t ∧ Freed s t ∧ t.outcomeLock key = none := by
        cases hlock : s.outcomeLock key with
        | none => exact .now ⟨hs, .refl s, hlock⟩
        | some a =>
            refine (leads_crash hs hi (hs.outcomeHolder key a hlock)).trans ?_
            rintro t ⟨ht, hfreed, -, houtcome⟩
            exact .now ⟨ht, hfreed, houtcome key hlock⟩
      refine hfirst.trans ?_
      rintro t ⟨ht, hfreed, hkey⟩
      refine (ih ht (hfreed.calls ▸ hi)).trans ?_
      rintro u ⟨hu, hfreed', hkeys⟩
      exact .now ⟨hu, hfreed.trans hfreed',
        List.forall_mem_cons.mpr ⟨hfreed'.outcomeLock key hkey, hkeys⟩⟩

/-- A time after all of the given ones. -/
theorem exists_later (start : Instant) (l : List Instant) : ∃ T, start ≤ T ∧ ∀ e ∈ l, e < T := by
  induction l with
  | nil => exact ⟨start, le_rfl, fun e he => absurd he List.not_mem_nil⟩
  | cons e l ih =>
      obtain ⟨T, hstart, hl⟩ := ih
      refine ⟨max T (e + 1), hstart.trans (le_max_left _ _), List.forall_mem_cons.mpr ⟨?_, ?_⟩⟩
      · exact lt_of_lt_of_le (lt_add_one e) (le_max_right _ _)
      · exact fun e' he' => lt_of_lt_of_le (hl e' he') (le_max_left _ _)

/-- `_claim` inserts the row, renews its lease or takes it over, unless the run is completed. -/
theorem leads_ready (hs : Orderly s) (hi : (s.calls i).phase = .idle) (hclock : s.clock = T)
    (hlock : s.runLock (config i).runKey = none)
    (hexpired : ∀ run ∈ s.runs (config i).runKey, ∀ e ∈ run.leaseExpiresAt, e < T) :
    Leads config i s fun t =>
      (∃ run ∈ s.runs (config i).runKey, run.status = .completed) ∧
        (t.calls i).phase = .finished .alreadyCompleted ∨
      Ready config i T t ∧ t.attempts = s.attempts ∧ t.outcomes = s.outcomes ∧
        t.outcomeLock = s.outcomeLock := by
  have hread : step config s (.readRun i T) =
      some (s.setCall i (.claiming T (s.runs (config i).runKey)) T) := by
    rw [step, readRun, if_pos ⟨hi, hclock ▸ hs.lastNow_le i, hclock.ge⟩]
  refine .step hread rfl ?_
  have hcall : (s.setCall i (.claiming T (s.runs (config i).runKey)) T).calls i =
      ⟨.claiming T (s.runs (config i).runKey), T⟩ := Function.update_self _ _ _
  generalize hs₁ : s.setCall i (.claiming T (s.runs (config i).runKey)) T = s₁ at hcall ⊢
  have hruns : s₁.runs = s.runs := by rw [← hs₁]; rfl
  have hsame : s₁.clock = T ∧ s₁.runLock (config i).runKey = none ∧ s₁.attempts = s.attempts ∧
      s₁.outcomes = s.outcomes ∧ s₁.outcomeLock = s.outcomeLock := by
    rw [← hs₁]
    exact ⟨hclock, hlock, rfl, rfl, rfl⟩
  have hgathering : ∀ run : NewsRetrievalRun, run.HeldBy (config i).owner T →
      Ready config i T ((s₁.setRun (config i).runKey run).moveCall i .gathering) := by
    intro run hheld
    refine ⟨hsame.1, ?_, ⟨run, Function.update_self _ _ _, hheld⟩, hsame.2.1⟩
    have hlast : (s₁.calls i).lastNow = T := by rw [hcall]
    rw [← hlast]
    exact Function.update_self _ _ _
  have hleased : (0 : ℤ) ≤ leaseDuration := by decide
  cases hrow : s.runs (config i).runKey with
  | none =>
      have hinsert : step config s₁ (.insertRun i) = some ((s₁.setRun (config i).runKey
          (.start (config i).owner (config i).registryVersion T)).moveCall i .gathering) := by
        rw [step, insertRun, hcall, hrow]
        dsimp only
        rw [hruns, hrow]
      refine .step hinsert rfl (.now (.inr ⟨hgathering _ ⟨rfl, rfl, _, rfl, ?_⟩, hsame.2.2⟩))
      exact le_add_of_nonneg_right hleased
  | some run =>
      have hnotLive : ¬∃ e ∈ run.leaseExpiresAt, T ≤ e := by
        rintro ⟨e, he, hle⟩
        exact absurd (hexpired run hrow e he) (not_lt.mpr hle)
      cases hstatus : run.status with
      | completed =>
          have hdone : step config s₁ (.updateRun i) =
              some (s₁.moveCall i (.finished .alreadyCompleted)) := by
            rw [step, updateRun, hcall, hrow]
            dsimp only
            rw [if_pos hstatus]
          refine .step hdone rfl (.now (.inl ⟨⟨run, rfl, hstatus⟩, ?_⟩))
          rw [State.moveCall, show (s₁.setCall i (.finished .alreadyCompleted)
            (s₁.calls i).lastNow).calls i = ⟨.finished .alreadyCompleted, (s₁.calls i).lastNow⟩
            from Function.update_self _ _ _]
      | running =>
          have hupdate : step config s₁ (.updateRun i) = some ((s₁.setRun (config i).runKey
              (run.lease (config i).owner T)).moveCall i .gathering) := by
            rw [step, updateRun, hcall, hrow]
            dsimp only
            rw [if_neg (by rw [hstatus]; simp)]
            by_cases howner : run.leaseOwner = some (config i).owner
            · rw [if_pos howner, updateRunWhere, hruns, hrow]
              dsimp only
              rw [if_pos (decide_eq_true ⟨hstatus, howner⟩), if_pos hsame.2.1]
            · rw [if_neg howner, if_neg hnotLive, updateRunWhere, hruns, hrow]
              dsimp only
              rw [if_pos (decide_eq_true ⟨hstatus, hexpired run hrow⟩), if_pos hsame.2.1]
          refine .step hupdate rfl (.now (.inr ⟨hgathering _ ⟨hstatus, rfl, _, rfl, ?_⟩,
            hsame.2.2⟩))
          exact le_add_of_nonneg_right hleased

/-- The leases of a run and of its sources. -/
def leases (config : ℕ → Orchestrator) (i : ℕ) (s : State) : List Instant :=
  (s.runs (config i).runKey).toList.flatMap (·.leaseExpiresAt.toList) ++
    (config i).enabled.flatMap fun src =>
      (s.outcomes (outcomeKey config (i, src))).toList.flatMap (·.leaseExpiresAt.toList)

/-- Once its leases have run out, a running row can be taken over. -/
theorem Orderly.idle_row (hs : Orderly s) {src : String} (hsrc : src ∈ (config i).enabled)
    (hlater : ∀ e ∈ leases config i s, e < T) :
    Idle (s.outcomes (outcomeKey config (i, src))) T := by
  intro row hrow
  cases hstatus : row.status with
  | running =>
      obtain ⟨e, he⟩ := hs.leased _ row hrow hstatus
      refine .inr ⟨hstatus, e, he, hlater e (List.mem_append_right _ ?_)⟩
      refine List.mem_flatMap.mpr ⟨src, hsrc, List.mem_flatMap.mpr ⟨row, ?_, ?_⟩⟩
      · exact Option.mem_toList.mpr hrow
      · exact Option.mem_toList.mpr he
  | completed | failed =>
      refine .inl ?_
      rw [NewsRetrievalSourceOutcome.Terminal, hstatus]
      simp

end Takeover

/-- The first owner has inserted articles and locked both rows when it stops. -/
def stopped : List Label :=
  [.readRun 0 0, .insertRun 0, .selectSource 0 "source" 0, .updateSource 0 "source",
    .insertSource 0 "source", .fetch 0 "source" 1 0 64, .fence 0 "source" 0,
    .save 0 "source" ["9f86d0"] 0 0, .complete 0 "source" 0]

end ProcureSignal.Retrieval
