/-
# What each step of a retrieval run does

Inversion lemmas for the steps of `Retrieval.Orchestrator`: the state a label leads to,
with the conditions under which it does.  Later modules use these and never unfold a
step.

* `Writes`, `writes_of_step` : **what a step writes**;
* `outcomes_step` : the outcome rows change one at a time, as `Touched` says;
* `runs_step` : the run rows change one at a time, and only while running;
* `attempts_step` : a label moves its own attempt only;
* `next_step` : how it moves it, along the control flow `Next` of `_source`;
* `locks_step`, `raws_step`, `pending_step` : who takes and frees a lock, and where
  articles go.
-/
import ProcureSignal.Retrieval.Orchestrator

namespace ProcureSignal.Retrieval

variable {config : ℕ → Orchestrator} {s t : State}

/-! ## Conditional updates -/

/-- A conditional update of the run row hit a free row, or missed. -/
theorem updateRunWhere_eq_some {i : ℕ} {cond : NewsRetrievalRun → Bool}
    {hit : NewsRetrievalRun → Option State} {miss : Option State}
    (h : updateRunWhere config i cond hit miss s = some t) :
    (∃ run, s.runs (config i).runKey = some run ∧ cond run = true ∧
        s.runLock (config i).runKey = none ∧ hit run = some t) ∨
      ((∀ run, s.runs (config i).runKey = some run → cond run = false) ∧ miss = some t) := by
  unfold updateRunWhere at h
  split at h
  · rename_i run hrun
    split at h
    · rename_i hcond
      split at h
      · rename_i hfree
        exact Or.inl ⟨run, hrun, hcond, hfree, h⟩
      · cases h
    · rename_i hcond
      refine Or.inr ⟨?_, h⟩
      intro run' hrun'
      rw [hrun, Option.some.injEq] at hrun'
      rw [← hrun']
      simpa using hcond
  · rename_i hnone
    refine Or.inr ⟨?_, h⟩
    intro run hrun
    rw [hnone] at hrun
    cases hrun

/-- A conditional update of an outcome row hit a free row, or missed. -/
theorem updateOutcomeWhere_eq_some {a : ℕ × String} {cond : NewsRetrievalSourceOutcome → Bool}
    {hit : NewsRetrievalSourceOutcome → Option State} {miss : Option State}
    (h : updateOutcomeWhere config a cond hit miss s = some t) :
    (∃ row, s.outcomes (outcomeKey config a) = some row ∧ cond row = true ∧
        s.outcomeLock (outcomeKey config a) = none ∧ hit row = some t) ∨
      ((∀ row, s.outcomes (outcomeKey config a) = some row → cond row = false) ∧
        miss = some t) := by
  unfold updateOutcomeWhere at h
  split at h
  · rename_i row hrow
    split at h
    · rename_i hcond
      split at h
      · rename_i hfree
        exact Or.inl ⟨row, hrow, hcond, hfree, h⟩
      · cases h
    · rename_i hcond
      refine Or.inr ⟨?_, h⟩
      intro row' hrow'
      rw [hrow, Option.some.injEq] at hrow'
      rw [← hrow']
      simpa using hcond
  · rename_i hnone
    refine Or.inr ⟨?_, h⟩
    intro row hrow
    rw [hnone] at hrow
    cases hrow

/-! ## Calls of `run` -/

/-- Time passes and nothing else. -/
theorem tick_eq_some {t' : Instant} (h : tick t' s = some t) :
    s.clock ≤ t' ∧ t = { s with clock := t' } := by
  unfold tick at h
  split at h
  · rename_i hle
    exact ⟨hle, (Option.some.inj h).symm⟩
  · cases h

/-- The `SELECT` of `_claim` moves the call only. -/
theorem readRun_eq_some {i : ℕ} {now : Instant} (h : readRun config i now s = some t) :
    ∃ phase, t = s.setCall i phase now := by
  unfold readRun at h
  split at h
  · exact ⟨_, (Option.some.inj h).symm⟩
  · cases h

/-- The insert of `_claim` starts a run where there was none, or writes nothing. -/
theorem insertRun_eq_some {i : ℕ} (h : insertRun config i s = some t) :
    (∃ phase, t = s.moveCall i phase) ∨
      ∃ run phase, s.runs (config i).runKey = none ∧ run.status = .running ∧
        t = (s.setRun (config i).runKey run).moveCall i phase := by
  unfold insertRun at h
  split at h
  · split at h
    · rename_i hnone
      exact Or.inr ⟨_, _, hnone, rfl, (Option.some.inj h).symm⟩
    · exact Or.inl ⟨_, (Option.some.inj h).symm⟩
  · cases h

/-- Reading the row again moves the call only. -/
theorem rereadRun_eq_some {i : ℕ} (h : rereadRun config i s = some t) :
    ∃ phase, t = s.moveCall i phase := by
  unfold rereadRun at h
  split at h
  · exact ⟨_, (Option.some.inj h).symm⟩
  · cases h

/-- The rest of `_claim` leases a free running row anew, or writes nothing. -/
theorem updateRun_eq_some {i : ℕ} (h : updateRun config i s = some t) :
    (∃ phase, t = s.moveCall i phase) ∨
      ∃ run run' phase, s.runs (config i).runKey = some run ∧ run.status = .running ∧
        s.runLock (config i).runKey = none ∧ run'.status = .running ∧
        t = (s.setRun (config i).runKey run').moveCall i phase := by
  unfold updateRun at h
  split at h
  · split at h
    · exact Or.inl ⟨_, (Option.some.inj h).symm⟩
    · split at h
      · rcases updateRunWhere_eq_some h with ⟨run, hrun, hcond, hfree, heq⟩ | ⟨-, heq⟩
        · have hstatus := (of_decide_eq_true hcond).1
          exact Or.inr ⟨run, run.lease _ _, _, hrun, hstatus, hfree, hstatus,
            (Option.some.inj heq).symm⟩
        · exact Or.inl ⟨_, (Option.some.inj heq).symm⟩
      · split at h
        · exact Or.inl ⟨_, (Option.some.inj h).symm⟩
        · rcases updateRunWhere_eq_some h with ⟨run, hrun, hcond, hfree, heq⟩ | ⟨-, heq⟩
          · have hstatus := (of_decide_eq_true hcond).1
            exact Or.inr ⟨run, run.lease _ _, _, hrun, hstatus, hfree, hstatus,
            (Option.some.inj heq).symm⟩
          · exact Or.inl ⟨_, (Option.some.inj heq).symm⟩
  · cases h

/-- The end of a call: nothing is written, or every enabled source returned, none of them
`lease_lost`, and the run row it holds is completed. -/
theorem completeRun_eq_some {i : ℕ} {now : Instant} (h : completeRun config i now s = some t) :
    (∃ phase, t = s.setCall i phase now) ∨
      ∃ run counts phase, s.runs (config i).runKey = some run ∧
        run.HeldBy (config i).owner now ∧ s.runLock (config i).runKey = none ∧
        (∀ src ∈ (config i).enabled, ∃ result, resultOf s i src = some result ∧
          result.status ≠ .leaseLost) ∧
        t = (s.setRun (config i).runKey (run.complete now counts)).setCall i phase now := by
  unfold completeRun at h
  simp only at h
  split at h
  · rename_i hready
    split at h
    · exact Or.inl ⟨_, (Option.some.inj h).symm⟩
    · rename_i hkept
      rcases updateRunWhere_eq_some h with ⟨run, hrun, hcond, hfree, heq⟩ | ⟨-, heq⟩
      · refine Or.inr ⟨run, _, _, hrun, of_decide_eq_true hcond, hfree, ?_,
          (Option.some.inj heq).symm⟩
        intro src hsrc
        obtain ⟨result, hresult⟩ := Option.isSome_iff_exists.mp (hready.2.2 src hsrc)
        refine ⟨result, hresult, ?_⟩
        intro hlost
        exact hkept ⟨result, List.mem_filterMap.mpr ⟨src, hsrc, hresult⟩, hlost⟩
      · exact Or.inl ⟨_, (Option.some.inj heq).symm⟩
  · cases h

/-- A call that dies writes nothing. -/
theorem crashRun_eq_some {i : ℕ} (h : crashRun i s = some t) :
    ∃ phase, t = s.moveCall i phase := by
  unfold crashRun at h
  split at h
  · cases h
  · exact ⟨_, (Option.some.inj h).symm⟩

/-! ## Attempts -/

/-- The `SELECT` of `claim_source` starts the attempt of an enabled source. -/
theorem selectSource_eq_some {a : ℕ × String} {now : Instant}
    (h : selectSource config a now s = some t) :
    a.2 ∈ (config a.1).enabled ∧ (s.attempts a).phase = .idle ∧
      t = s.setAttempt a ⟨.selected now (s.outcomes (outcomeKey config a)), now, []⟩ := by
  unfold selectSource at h
  split at h
  · rename_i hready
    exact ⟨hready.2.1, hready.2.2.1, (Option.some.inj h).symm⟩
  · cases h

/-- The claim of a source row: the attempt moves on, or leases a free running row. -/
theorem updateSource_eq_some {a : ℕ × String} (h : updateSource config a s = some t) :
    ∃ now existing, (s.attempts a).phase = .selected now existing ∧
      (t = s.moveAttempt a .unclaimed ∨ t = s.moveAttempt a (.inserting now) ∨
        ∃ row row', s.outcomes (outcomeKey config a) = some row ∧
          s.outcomeLock (outcomeKey config a) = none ∧
          NewsRetrievalSourceOutcome.Touched (some row) (some row') ∧
          t = (s.setOutcome (outcomeKey config a) row').moveAttempt a .claimed) := by
  unfold updateSource at h
  split at h
  · rename_i now existing hphase
    refine ⟨now, existing, hphase, ?_⟩
    split at h
    · rcases updateOutcomeWhere_eq_some h with ⟨row, hrow, hcond, hfree, heq⟩ | ⟨-, heq⟩
      · exact Or.inr (Or.inr ⟨row, _, hrow, hfree, .renew now (of_decide_eq_true hcond),
          (Option.some.inj heq).symm⟩)
      · exact Or.inl (Option.some.inj heq).symm
    · rcases updateOutcomeWhere_eq_some h with ⟨row, hrow, hcond, hfree, heq⟩ | ⟨-, heq⟩
      · exact Or.inr (Or.inr ⟨row, _, hrow, hfree,
          .reclaim (config a.1).owner (of_decide_eq_true hcond), (Option.some.inj heq).symm⟩)
      · exact Or.inr (Or.inl (Option.some.inj heq).symm)
  · cases h

/-- A locked database leaves the source unclaimed. -/
theorem lockedSource_eq_some {a : ℕ × String} (h : lockedSource a s = some t) :
    ∃ now existing, (s.attempts a).phase = .selected now existing ∧
      t = s.moveAttempt a .unclaimed := by
  unfold lockedSource at h
  split at h
  · rename_i now existing hphase
    exact ⟨now, existing, hphase, (Option.some.inj h).symm⟩
  · cases h

/-- The insert of `claim_source`: a new running row, or another one was there. -/
theorem insertSource_eq_some {a : ℕ × String} (h : insertSource config a s = some t) :
    ∃ now, (s.attempts a).phase = .inserting now ∧
      (t = s.moveAttempt a .unclaimed ∨
        (s.outcomes (outcomeKey config a) = none ∧
          t = (s.setOutcome (outcomeKey config a) (.start (config a.1).owner now)).moveAttempt a
            .claimed)) := by
  unfold insertSource at h
  split at h
  · rename_i now hphase
    refine ⟨now, hphase, ?_⟩
    split at h
    · rename_i hnone
      exact Or.inr ⟨hnone, (Option.some.inj h).symm⟩
    · exact Or.inl (Option.some.inj h).symm
  · cases h

/-- An attempt without a claim returns what the row says. -/
theorem rereadSource_eq_some {a : ℕ × String} (h : rereadSource config a s = some t) :
    (s.attempts a).phase = .unclaimed ∧
      t = s.moveAttempt a (.done (unclaimedResult (s.outcomes (outcomeKey config a)))) := by
  unfold rereadSource at h
  split at h
  · rename_i hphase
    exact ⟨hphase, (Option.some.inj h).symm⟩
  · cases h

/-- Fetching writes nothing. -/
theorem fetch_eq_some {a : ℕ × String} {fetched withinRunDuplicates responseBytes : ℕ}
    (h : fetch a fetched withinRunDuplicates responseBytes s = some t) :
    (s.attempts a).phase = .claimed ∧ ∃ counts, t = s.moveAttempt a (.fetched counts) := by
  unfold fetch at h
  split at h
  · rename_i hphase
    split at h
    · exact ⟨hphase, _, (Option.some.inj h).symm⟩
    · cases h
  · cases h

/-- **The fence**: the attempt holds the run row of its owner with a live lease, or it
rolls back. -/
theorem fence_eq_some {a : ℕ × String} {now : Instant} (h : fence config a now s = some t) :
    ∃ counts, (s.attempts a).phase = .fetched counts ∧
      ((∃ run, s.runs (config a.1).runKey = some run ∧ run.HeldBy (config a.1).owner now ∧
          s.runLock (config a.1).runKey = none ∧
          t = (s.lockRun (config a.1).runKey a).setAttempt a ⟨.fenced counts now, now, []⟩) ∨
        t = (s.rollback a).setAttempt a ⟨.done leaseLostResult, now, []⟩) := by
  unfold fence at h
  split at h
  · rename_i counts hphase
    refine ⟨counts, hphase, ?_⟩
    split at h
    · rcases updateRunWhere_eq_some h with ⟨run, hrun, hcond, hfree, heq⟩ | ⟨-, heq⟩
      · exact Or.inl ⟨run, hrun, of_decide_eq_true hcond, hfree, (Option.some.inj heq).symm⟩
      · exact Or.inr (Option.some.inj heq).symm
    · cases h
  · cases h

/-- Saving keeps the articles in the attempt's transaction. -/
theorem save_eq_some {a : ℕ × String} {inserted : List String} {databaseDuplicates errors : ℕ}
    (h : save a inserted databaseDuplicates errors s = some t) :
    ∃ counts fencedAt counts', (s.attempts a).phase = .fenced counts fencedAt ∧
      t = s.setAttempt a ⟨.saved counts' fencedAt, (s.attempts a).lastNow, inserted⟩ := by
  unfold save at h
  split at h
  · rename_i counts fencedAt hphase
    split at h
    · exact ⟨counts, fencedAt, _, hphase, (Option.some.inj h).symm⟩
    · cases h
  · cases h

/-- **The outcome update**: the attempt holds the outcome row of its owner with a live
lease, or it rolls back. -/
theorem complete_eq_some {a : ℕ × String} {now : Instant}
    (h : complete config a now s = some t) :
    ∃ counts fencedAt, (s.attempts a).phase = .saved counts fencedAt ∧
      ((∃ row, s.outcomes (outcomeKey config a) = some row ∧ row.HeldBy (config a.1).owner now ∧
          s.outcomeLock (outcomeKey config a) = none ∧
          t = (s.lockOutcome (outcomeKey config a) a).setAttempt a
            { s.attempts a with phase := .completing counts fencedAt now, lastNow := now }) ∨
        t = (s.rollback a).setAttempt a ⟨.done leaseLostResult, now, []⟩) := by
  unfold complete at h
  split at h
  · rename_i counts fencedAt hphase
    refine ⟨counts, fencedAt, hphase, ?_⟩
    split at h
    · rcases updateOutcomeWhere_eq_some h with ⟨row, hrow, hcond, hfree, heq⟩ | ⟨-, heq⟩
      · exact Or.inl ⟨row, hrow, of_decide_eq_true hcond, hfree, (Option.some.inj heq).symm⟩
      · exact Or.inr (Option.some.inj heq).symm
    · cases h
  · cases h

/-- **The commit**: articles and completed row at once. -/
theorem commit_eq_some {a : ℕ × String} (h : commit config a s = some t) :
    ∃ counts fencedAt completedAt row,
      (s.attempts a).phase = .completing counts fencedAt completedAt ∧
      s.outcomes (outcomeKey config a) = some row ∧
      t = ((s.commitPending a).setOutcome (outcomeKey config a)
        (row.complete completedAt counts)).moveAttempt a (.committed counts) := by
  unfold commit at h
  split at h
  · rename_i counts fencedAt completedAt row hphase hrow
    exact ⟨counts, fencedAt, completedAt, row, hphase, hrow, (Option.some.inj h).symm⟩
  · cases h

/-- A completed attempt returns. -/
theorem finish_eq_some {a : ℕ × String} (h : finish a s = some t) :
    ∃ counts, (s.attempts a).phase = .committed counts ∧
      t = s.moveAttempt a (.done ⟨.completed, counts, none⟩) := by
  unfold finish at h
  split at h
  · rename_i counts hphase
    exact ⟨counts, hphase, (Option.some.inj h).symm⟩
  · cases h

/-- Inside the `try` of `_source`. -/
def SourcePhase.Trying : SourcePhase → Prop
  | .claimed | .fetched _ | .fenced _ _ | .saved _ _ | .completing _ _ _ | .committed _ => True
  | _ => False

theorem SourcePhase.Trying.ne_idle {phase : SourcePhase} (h : phase.Trying) : phase ≠ .idle := by
  rintro rfl
  exact h

/-- An exception enters the handler; one of the commit has rolled the session back. -/
theorem raise_eq_some {a : ℕ × String} {code : FetchFailureCode} {responseBytes : ℕ}
    (h : raise a code responseBytes s = some t) :
    (s.attempts a).phase.Trying ∧
      (t = s.moveAttempt a (handlerPhase code responseBytes) ∨
        t = (s.rollback a).moveAttempt a (handlerPhase code responseBytes)) := by
  unfold raise at h
  split at h
  · rename_i hphase
    exact ⟨by rw [hphase]; trivial, Or.inr (Option.some.inj h).symm⟩
  · rename_i hphase
    exact ⟨by rw [hphase]; trivial, Or.inl (Option.some.inj h).symm⟩
  · rename_i hphase
    exact ⟨by rw [hphase]; trivial, Or.inl (Option.some.inj h).symm⟩
  · rename_i hphase
    exact ⟨by rw [hphase]; trivial, Or.inl (Option.some.inj h).symm⟩
  · rename_i hphase
    exact ⟨by rw [hphase]; trivial, Or.inl (Option.some.inj h).symm⟩
  · rename_i hphase
    exact ⟨by rw [hphase]; trivial, Or.inl (Option.some.inj h).symm⟩
  · cases h

/-- Recording a circuit failure commits what the session holds. -/
theorem circuitFailure_eq_some {a : ℕ × String} (h : circuitFailure a s = some t) :
    ∃ responseBytes, (s.attempts a).phase = .handling responseBytes ∧
      t = (s.commitPending a).moveAttempt a (.failing .parserError responseBytes) := by
  unfold circuitFailure at h
  split at h
  · rename_i responseBytes hphase
    exact ⟨responseBytes, hphase, (Option.some.inj h).symm⟩
  · cases h

/-- **`fail_source`**: the row the owner holds is failed, or no row is; the attempt
returns `failed` in both cases. -/
theorem fail_eq_some {a : ℕ × String} {now : Instant} (h : fail config a now s = some t) :
    ∃ code responseBytes, (s.attempts a).phase = .failing code responseBytes ∧
      ((∃ row, s.outcomes (outcomeKey config a) = some row ∧ row.HeldBy (config a.1).owner now ∧
          s.outcomeLock (outcomeKey config a) = none ∧
          t = ((s.commitPending a).setOutcome (outcomeKey config a)
            (row.fail now code responseBytes)).setAttempt a
              ⟨.done (failedResult code responseBytes), now, []⟩) ∨
        ((∀ row, s.outcomes (outcomeKey config a) = some row →
            ¬ row.HeldBy (config a.1).owner now) ∧
          t = (s.commitPending a).setAttempt a
            ⟨.done (failedResult code responseBytes), now, []⟩)) := by
  unfold fail at h
  split at h
  · rename_i code responseBytes hphase
    refine ⟨code, responseBytes, hphase, ?_⟩
    split at h
    · rcases updateOutcomeWhere_eq_some h with ⟨row, hrow, hcond, hfree, heq⟩ | ⟨hmiss, heq⟩
      · exact Or.inl ⟨row, hrow, of_decide_eq_true hcond, hfree, (Option.some.inj heq).symm⟩
      · refine Or.inr ⟨?_, (Option.some.inj heq).symm⟩
        intro row hrow
        exact of_decide_eq_false (hmiss row hrow)
    · cases h
  · cases h

/-- A started attempt that dies is rolled back. -/
theorem crash_eq_some {a : ℕ × String} (h : crash a s = some t) :
    (s.attempts a).phase ≠ .idle ∧ t = (s.rollback a).moveAttempt a .dead := by
  unfold crash at h
  split at h
  · cases h
  · rename_i hphase
    exact ⟨hphase, (Option.some.inj h).symm⟩

/-! ## Phases after a write -/

/-- A write to an attempt. -/
theorem attempts_setAttempt_self (s : State) (a : ℕ × String) (attempt : SourceAttempt) :
    (s.setAttempt a attempt).attempts a = attempt := Function.update_self _ _ _

/-- The phase of an attempt just written. -/
theorem phase_setAttempt_self (s : State) (a : ℕ × String) (attempt : SourceAttempt) :
    ((s.setAttempt a attempt).attempts a).phase = attempt.phase := by
  rw [attempts_setAttempt_self]

/-- The phase of an attempt just moved. -/
theorem phase_moveAttempt_self (s : State) (a : ℕ × String) (phase : SourcePhase) :
    ((s.moveAttempt a phase).attempts a).phase = phase := phase_setAttempt_self s a _

/-- A move keeps what is pending. -/
theorem pending_moveAttempt_self (s : State) (a : ℕ × String) (phase : SourcePhase) :
    ((s.moveAttempt a phase).attempts a).pending = (s.attempts a).pending := by
  rw [State.moveAttempt, attempts_setAttempt_self]

/-- After a rollback nothing is pending. -/
theorem pending_rollback_self (s : State) (a : ℕ × String) :
    ((s.rollback a).attempts a).pending = [] := by
  rw [State.rollback, attempts_setAttempt_self]

/-! ## The control flow of an attempt -/

/-- The attempt a label is about. -/
def Label.attempt? : Label → Option (ℕ × String)
  | .selectSource i src _ | .updateSource i src | .lockedSource i src | .insertSource i src
  | .rereadSource i src | .fetch i src _ _ _ | .fence i src _ | .save i src _ _ _
  | .complete i src _ | .commit i src | .finish i src | .raise i src _ _ | .circuitFailure i src
  | .fail i src _ | .crash i src => some (i, src)
  | _ => none

/-- A step of `claim_source` that may write. -/
def Label.Claims : Label → Prop
  | .updateSource _ _ | .insertSource _ _ => True
  | _ => False

/-- A step that commits what the session of its attempt holds. -/
def Label.Stores : Label → Prop
  | .commit _ _ | .circuitFailure _ _ | .fail _ _ _ => True
  | _ => False

/-- How the labels of an attempt move it. -/
inductive Next (i : ℕ) (src : String) : Label → SourcePhase → SourcePhase → Prop
  | select (now : Instant) (existing : Option NewsRetrievalSourceOutcome) :
      Next i src (.selectSource i src now) .idle (.selected now existing)
  | notRenewed (now : Instant) (existing : Option NewsRetrievalSourceOutcome) :
      Next i src (.updateSource i src) (.selected now existing) .unclaimed
  | notTakenOver (now : Instant) (existing : Option NewsRetrievalSourceOutcome) :
      Next i src (.updateSource i src) (.selected now existing) (.inserting now)
  | claim (now : Instant) (existing : Option NewsRetrievalSourceOutcome) :
      Next i src (.updateSource i src) (.selected now existing) .claimed
  | locked (now : Instant) (existing : Option NewsRetrievalSourceOutcome) :
      Next i src (.lockedSource i src) (.selected now existing) .unclaimed
  | notInserted (now : Instant) : Next i src (.insertSource i src) (.inserting now) .unclaimed
  | insert (now : Instant) : Next i src (.insertSource i src) (.inserting now) .claimed
  | reread (row : Option NewsRetrievalSourceOutcome) :
      Next i src (.rereadSource i src) .unclaimed (.done (unclaimedResult row))
  | fetch (fetched withinRunDuplicates responseBytes : ℕ) (counts : SourceCounts) :
      Next i src (.fetch i src fetched withinRunDuplicates responseBytes) .claimed
        (.fetched counts)
  | fence (now : Instant) (counts : SourceCounts) :
      Next i src (.fence i src now) (.fetched counts) (.fenced counts now)
  | fenceLost (now : Instant) (counts : SourceCounts) :
      Next i src (.fence i src now) (.fetched counts) (.done leaseLostResult)
  | save (inserted : List String) (databaseDuplicates errors : ℕ) (counts counts' : SourceCounts)
      (fencedAt : Instant) :
      Next i src (.save i src inserted databaseDuplicates errors) (.fenced counts fencedAt)
        (.saved counts' fencedAt)
  | complete (now : Instant) (counts : SourceCounts) (fencedAt : Instant) :
      Next i src (.complete i src now) (.saved counts fencedAt) (.completing counts fencedAt now)
  | completeLost (now : Instant) (counts : SourceCounts) (fencedAt : Instant) :
      Next i src (.complete i src now) (.saved counts fencedAt) (.done leaseLostResult)
  | commit (counts : SourceCounts) (fencedAt completedAt : Instant) :
      Next i src (.commit i src) (.completing counts fencedAt completedAt) (.committed counts)
  | finish (counts : SourceCounts) :
      Next i src (.finish i src) (.committed counts) (.done ⟨.completed, counts, none⟩)
  | raiseParserError (code : FetchFailureCode) (responseBytes : ℕ) {phase : SourcePhase}
      (htrying : phase.Trying) :
      Next i src (.raise i src code responseBytes) phase (.handling responseBytes)
  | raise (code : FetchFailureCode) (responseBytes : ℕ) {phase : SourcePhase}
      (htrying : phase.Trying) :
      Next i src (.raise i src code responseBytes) phase (.failing code responseBytes)
  | circuitFailure (responseBytes : ℕ) :
      Next i src (.circuitFailure i src) (.handling responseBytes)
        (.failing .parserError responseBytes)
  | fail (now : Instant) (code : FetchFailureCode) (responseBytes : ℕ) :
      Next i src (.fail i src now) (.failing code responseBytes)
        (.done (failedResult code responseBytes))
  | crash {phase : SourcePhase} (hphase : phase ≠ .idle) :
      Next i src (.crash i src) phase .dead

/-- The handler of an exception, as a move. -/
theorem next_handlerPhase {i : ℕ} {src : String} (code : FetchFailureCode) (responseBytes : ℕ)
    {phase : SourcePhase} (htrying : phase.Trying) :
    Next i src (.raise i src code responseBytes) phase (handlerPhase code responseBytes) := by
  unfold handlerPhase
  split
  · exact .raiseParserError _ _ htrying
  · exact .raise _ _ htrying

/-! ## What a step writes -/

/-- The label moves its attempt, which it starts only for an enabled source; only `save_articles`
adds to what is pending. -/
structure Moves (config : ℕ → Orchestrator) (s : State) (l : Label) (a : ℕ × String)
    (attempt : SourceAttempt) : Prop where
  attempt_eq : l.attempt? = some a
  started : (s.attempts a).phase ≠ .idle ∨ a.2 ∈ (config a.1).enabled
  next : Next a.1 a.2 l (s.attempts a).phase attempt.phase
  pending : attempt.pending ≠ [] → (s.attempts a).pending ≠ [] ∨
    ∃ inserted databaseDuplicates errors, l = .save a.1 a.2 inserted databaseDuplicates errors

/-- A started attempt that keeps or drops what is pending. -/
theorem Moves.of_phase {l : Label} {a : ℕ × String} {attempt : SourceAttempt} {phase : SourcePhase}
    (ha : l.attempt? = some a) (hphase : (s.attempts a).phase = phase) (hne : phase ≠ .idle)
    (hnext : Next a.1 a.2 l phase attempt.phase)
    (hpending : attempt.pending = (s.attempts a).pending ∨ attempt.pending = []) :
    Moves config s l a attempt where
  attempt_eq := ha
  started := Or.inl (hphase ▸ hne)
  next := hphase ▸ hnext
  pending hsome := by
    rcases hpending with heq | hnil
    · exact Or.inl (heq ▸ hsome)
    · exact absurd hnil hsome

/-- **What a step writes**: the rows of one call or of one attempt, its locks and its articles. -/
inductive Writes (config : ℕ → Orchestrator) (s : State) (l : Label) : State → Prop
  | call {clock : Instant} {calls : ℕ → RunCall} (hl : l.attempt? = none) :
      Writes config s l { s with clock := clock, calls := calls }
  | run {i : ℕ} {run' : NewsRetrievalRun} {calls : ℕ → RunCall} (hl : l.attempt? = none)
      (hfree : ∀ run, s.runs (config i).runKey = some run →
        run.status = .running ∧ s.runLock (config i).runKey = none)
      (hstatus : run'.status = .running ∨ ((∃ now, l = .completeRun i now) ∧
        ∀ src ∈ (config i).enabled, ∃ result, resultOf s i src = some result ∧
          result.status ≠ .leaseLost)) :
      Writes config s l { s.setRun (config i).runKey run' with calls := calls }
  | move {a : ℕ × String} {attempt : SourceAttempt} (hmoves : Moves config s l a attempt) :
      Writes config s l (s.setAttempt a attempt)
  | claim {a : ℕ × String} {attempt : SourceAttempt} {row : NewsRetrievalSourceOutcome}
      (hmoves : Moves config s l a attempt) (hphase : (s.attempts a).phase ≠ .idle)
      (htouched : NewsRetrievalSourceOutcome.Touched (s.outcomes (outcomeKey config a)) (some row))
      (hclaims : l.Claims) (hfree : s.outcomes (outcomeKey config a) = none ∨
        s.outcomeLock (outcomeKey config a) = none) :
      Writes config s l ((s.setOutcome (outcomeKey config a) row).setAttempt a attempt)
  | lockRun {a : ℕ × String} {attempt : SourceAttempt} (hmoves : Moves config s l a attempt)
      (hfree : s.runLock (config a.1).runKey = none) :
      Writes config s l ((s.lockRun (config a.1).runKey a).setAttempt a attempt)
  | lockOutcome {a : ℕ × String} {attempt : SourceAttempt} (hmoves : Moves config s l a attempt)
      (hfree : s.outcomeLock (outcomeKey config a) = none) :
      Writes config s l ((s.lockOutcome (outcomeKey config a) a).setAttempt a attempt)
  | rollback {a : ℕ × String} {attempt : SourceAttempt} (hmoves : Moves config s l a attempt) :
      Writes config s l ((s.rollback a).setAttempt a attempt)
  | store {a : ℕ × String} {attempt : SourceAttempt} (hmoves : Moves config s l a attempt)
      (hstores : l.Stores) : Writes config s l ((s.commitPending a).setAttempt a attempt)
  | storeRow {a : ℕ × String} {attempt : SourceAttempt} {row : NewsRetrievalSourceOutcome}
      (hmoves : Moves config s l a attempt) (hphase : (s.attempts a).phase ≠ .idle)
      (htouched : NewsRetrievalSourceOutcome.Touched (s.outcomes (outcomeKey config a)) (some row))
      (hstores : l.Stores)
      (hfree : l = .commit a.1 a.2 ∨ s.outcomeLock (outcomeKey config a) = none) :
      Writes config s l
        (((s.commitPending a).setOutcome (outcomeKey config a) row).setAttempt a attempt)

/-- **Every step** writes one of these. -/
theorem writes_of_step {l : Label} (h : step config s l = some t) : Writes config s l t := by
  cases l with
  | tick t' => obtain ⟨-, rfl⟩ := tick_eq_some h; exact .call rfl
  | readRun i now => obtain ⟨phase, rfl⟩ := readRun_eq_some h; exact .call rfl
  | insertRun i =>
      rcases insertRun_eq_some h with ⟨phase, rfl⟩ | ⟨run, phase, hnone, hstatus, rfl⟩
      · exact .call rfl
      · refine .run rfl (fun run₀ hrun₀ => ?_) (Or.inl hstatus)
        rw [hnone] at hrun₀
        cases hrun₀
  | rereadRun i => obtain ⟨phase, rfl⟩ := rereadRun_eq_some h; exact .call rfl
  | updateRun i =>
      rcases updateRun_eq_some h with
        ⟨phase, rfl⟩ | ⟨run, run', phase, hrun, hstatus, hfree, hstatus', rfl⟩
      · exact .call rfl
      · refine .run rfl (fun run₀ hrun₀ => ?_) (Or.inl hstatus')
        rw [hrun, Option.some.injEq] at hrun₀
        exact ⟨hrun₀ ▸ hstatus, hfree⟩
  | completeRun i now =>
      rcases completeRun_eq_some h with
        ⟨phase, rfl⟩ | ⟨run, counts, phase, hrun, hheld, hfree, hresults, rfl⟩
      · exact .call rfl
      · refine .run rfl (fun run₀ hrun₀ => ?_) (Or.inr ⟨⟨now, rfl⟩, hresults⟩)
        rw [hrun, Option.some.injEq] at hrun₀
        exact ⟨hrun₀ ▸ hheld.1, hfree⟩
  | crashRun i => obtain ⟨phase, rfl⟩ := crashRun_eq_some h; exact .call rfl
  | selectSource i src now =>
      obtain ⟨hsrc, hphase, rfl⟩ := selectSource_eq_some h
      exact .move ⟨rfl, Or.inr hsrc, hphase ▸ .select _ _, fun hsome => absurd rfl hsome⟩
  | updateSource i src =>
      obtain ⟨now, existing, hphase, rfl | rfl | ⟨row, row', hrow, hfree, htouched, rfl⟩⟩ :=
        updateSource_eq_some h
      · exact .move (.of_phase rfl hphase nofun (.notRenewed _ _) (Or.inl rfl))
      · exact .move (.of_phase rfl hphase nofun (.notTakenOver _ _) (Or.inl rfl))
      · exact .claim (.of_phase rfl hphase nofun (.claim _ _) (Or.inl rfl)) (by rw [hphase]; nofun)
          (by rwa [hrow]) trivial (Or.inr hfree)
  | lockedSource i src =>
      obtain ⟨now, existing, hphase, rfl⟩ := lockedSource_eq_some h
      exact .move (.of_phase rfl hphase nofun (.locked _ _) (Or.inl rfl))
  | insertSource i src =>
      obtain ⟨now, hphase, rfl | ⟨hnone, rfl⟩⟩ := insertSource_eq_some h
      · exact .move (.of_phase rfl hphase nofun (.notInserted _) (Or.inl rfl))
      · exact .claim (.of_phase rfl hphase nofun (.insert _) (Or.inl rfl)) (by rw [hphase]; nofun)
          (by rw [hnone]; exact .insert _ _) trivial (Or.inl hnone)
  | rereadSource i src =>
      obtain ⟨hphase, rfl⟩ := rereadSource_eq_some h
      exact .move (.of_phase rfl hphase nofun (.reread _) (Or.inl rfl))
  | fetch i src fetched withinRunDuplicates responseBytes =>
      obtain ⟨hphase, counts, rfl⟩ := fetch_eq_some h
      exact .move (.of_phase rfl hphase nofun (.fetch _ _ _ _) (Or.inl rfl))
  | fence i src now =>
      obtain ⟨counts, hphase, ⟨run, -, -, hfree, rfl⟩ | rfl⟩ := fence_eq_some h
      · exact .lockRun (.of_phase rfl hphase nofun (.fence _ _) (Or.inr rfl)) hfree
      · exact .rollback (.of_phase rfl hphase nofun (.fenceLost _ _) (Or.inr rfl))
  | save i src inserted databaseDuplicates errors =>
      obtain ⟨counts, fencedAt, counts', hphase, rfl⟩ := save_eq_some h
      exact .move ⟨rfl, Or.inl (by rw [hphase]; nofun), hphase ▸ .save _ _ _ _ _ _,
        fun _ => Or.inr ⟨_, _, _, rfl⟩⟩
  | complete i src now =>
      obtain ⟨counts, fencedAt, hphase, ⟨row, -, -, hfree, rfl⟩ | rfl⟩ := complete_eq_some h
      · exact .lockOutcome (.of_phase rfl hphase nofun (.complete _ _ _) (Or.inl rfl)) hfree
      · exact .rollback (.of_phase rfl hphase nofun (.completeLost _ _ _) (Or.inr rfl))
  | commit i src =>
      obtain ⟨counts, fencedAt, completedAt, row, hphase, hrow, rfl⟩ := commit_eq_some h
      exact .storeRow (.of_phase rfl hphase nofun (.commit _ _ _)
        (Or.inr (pending_rollback_self s (i, src)))) (by rw [hphase]; nofun)
        (by rw [hrow]; exact .complete _ _ _) trivial (Or.inl rfl)
  | finish i src =>
      obtain ⟨counts, hphase, rfl⟩ := finish_eq_some h
      exact .move (.of_phase rfl hphase nofun (.finish _) (Or.inl rfl))
  | raise i src code responseBytes =>
      obtain ⟨htrying, rfl | rfl⟩ := raise_eq_some h
      · exact .move (.of_phase rfl rfl htrying.ne_idle (next_handlerPhase _ _ htrying)
          (Or.inl rfl))
      · exact .rollback (.of_phase rfl rfl htrying.ne_idle (next_handlerPhase _ _ htrying)
          (Or.inr (pending_rollback_self s (i, src))))
  | circuitFailure i src =>
      obtain ⟨responseBytes, hphase, rfl⟩ := circuitFailure_eq_some h
      exact .store (.of_phase rfl hphase nofun (.circuitFailure _)
        (Or.inr (pending_rollback_self s (i, src)))) trivial
  | fail i src now =>
      obtain ⟨code, responseBytes, hphase, ⟨row, hrow, hheld, hfree, rfl⟩ | ⟨-, rfl⟩⟩ :=
        fail_eq_some h
      · exact .storeRow (.of_phase rfl hphase nofun (.fail _ _ _) (Or.inr rfl))
          (by rw [hphase]; nofun) (by rw [hrow]; exact .fail hheld _ _) trivial (Or.inr hfree)
      · exact .store (.of_phase rfl hphase nofun (.fail _ _ _) (Or.inr rfl)) trivial
  | crash i src =>
      obtain ⟨hphase, rfl⟩ := crash_eq_some h
      exact .rollback (.of_phase rfl rfl hphase (.crash hphase)
        (Or.inr (pending_rollback_self s (i, src))))

/-- What a label does to its own attempt. -/
theorem moves_of_step {l : Label} (h : step config s l = some t) {a : ℕ × String}
    (ha : l.attempt? = some a) : Moves config s l a (t.attempts a) := by
  cases writes_of_step h with
  | call hl | run hl => cases hl.symm.trans ha
  | move hmoves | claim hmoves | lockRun hmoves | lockOutcome hmoves | rollback hmoves
  | store hmoves | storeRow hmoves =>
      obtain rfl := Option.some_inj.mp (hmoves.attempt_eq.symm.trans ha)
      rwa [attempts_setAttempt_self]

/-! ## Tables and attempts -/

/-- **Outcome rows change one at a time**, by the attempt the row belongs to; only its
commit writes a row that is locked. -/
theorem outcomes_step {l : Label} (h : step config s l = some t) :
    t.outcomes = s.outcomes ∨
      ∃ a row, l.attempt? = some a ∧ (s.attempts a).phase ≠ .idle ∧
        t.outcomes = Function.update s.outcomes (outcomeKey config a) (some row) ∧
        NewsRetrievalSourceOutcome.Touched (s.outcomes (outcomeKey config a)) (some row) ∧
        (l.Claims ∨ l.Stores) ∧
        (l = .commit a.1 a.2 ∨ s.outcomes (outcomeKey config a) = none ∨
          s.outcomeLock (outcomeKey config a) = none) := by
  cases writes_of_step h with
  | call | run | move | lockRun | lockOutcome | rollback | store => exact Or.inl rfl
  | claim hmoves hphase htouched hclaims hfree =>
      exact Or.inr ⟨_, _, hmoves.attempt_eq, hphase, rfl, htouched, Or.inl hclaims, Or.inr hfree⟩
  | storeRow hmoves hphase htouched hstores hfree =>
      exact Or.inr ⟨_, _, hmoves.attempt_eq, hphase, rfl, htouched, Or.inr hstores,
        hfree.imp_right Or.inr⟩

/-- The outcome row of an attempt exists and is finished. -/
def Finished (config : ℕ → Orchestrator) (s : State) (a : ℕ × String) : Prop :=
  ∃ row ∈ s.outcomes (outcomeKey config a), NewsRetrievalSourceOutcome.Terminal row

instance (a : ℕ × String) : Decidable (Finished config s a) :=
  inferInstanceAs (Decidable (∃ row ∈ s.outcomes (outcomeKey config a),
    NewsRetrievalSourceOutcome.Terminal row))

/-- A finished row stays finished. -/
theorem terminal_step {l : Label} (h : step config s l = some t) {key : String × String}
    (hfin : ∃ row ∈ s.outcomes key, NewsRetrievalSourceOutcome.Terminal row) :
    ∃ row ∈ t.outcomes key, NewsRetrievalSourceOutcome.Terminal row := by
  rcases outcomes_step h with heq | ⟨b, row, -, -, heq, htouched, -⟩
  · rwa [heq]
  · rw [heq]
    by_cases hkey : key = outcomeKey config b
    · rw [hkey, Function.update_self]
      rw [hkey] at hfin
      exact NewsRetrievalSourceOutcome.terminal_of_touched htouched hfin
    · rwa [Function.update_of_ne hkey]

theorem finished_step {l : Label} (h : step config s l = some t) {a : ℕ × String}
    (hfin : Finished config s a) : Finished config t a := terminal_step h hfin

/-- **Run rows change one at a time**, only while running and unlocked; a row is completed
by a call whose enabled sources all returned without losing a lease. -/
theorem runs_step {l : Label} (h : step config s l = some t) :
    t.runs = s.runs ∨
      ∃ i run', t.runs = Function.update s.runs (config i).runKey (some run') ∧
        (∀ run, s.runs (config i).runKey = some run →
          run.status = .running ∧ s.runLock (config i).runKey = none) ∧
        t.attempts = s.attempts ∧ t.outcomes = s.outcomes ∧
        (run'.status = .running ∨
          ((∃ now, l = .completeRun i now) ∧
            ∀ src ∈ (config i).enabled, ∃ result, resultOf s i src = some result ∧
              result.status ≠ .leaseLost)) := by
  cases writes_of_step h with
  | run hl hfree hstatus => exact Or.inr ⟨_, _, rfl, hfree, rfl, rfl, hstatus⟩
  | _ => exact Or.inl rfl

/-- **A label moves its own attempt only**, and starts it only for an enabled source. -/
theorem attempts_step {l : Label} (h : step config s l = some t) :
    t.attempts = s.attempts ∨
      ∃ a attempt, l.attempt? = some a ∧ t.attempts = Function.update s.attempts a attempt ∧
        ((s.attempts a).phase ≠ .idle ∨ a.2 ∈ (config a.1).enabled) := by
  -- rolled back and moved, an attempt is written twice
  have htwice : ∀ (a : ℕ × String) (attempt : SourceAttempt),
      Function.update (s.rollback a).attempts a attempt = Function.update s.attempts a attempt :=
    fun a attempt => Function.update_idem _ _ _
  cases writes_of_step h with
  | call | run => exact Or.inl rfl
  | move hmoves | claim hmoves | lockRun hmoves | lockOutcome hmoves =>
      exact Or.inr ⟨_, _, hmoves.attempt_eq, rfl, hmoves.started⟩
  | rollback hmoves | store hmoves | storeRow hmoves =>
      exact Or.inr ⟨_, _, hmoves.attempt_eq, htwice _ _, hmoves.started⟩

/-- A label leaves the attempts of other calls and sources alone. -/
theorem attempts_of_ne {l : Label} (h : step config s l = some t) {a : ℕ × String}
    (ha : l.attempt? ≠ some a) : t.attempts a = s.attempts a := by
  rcases attempts_step h with heq | ⟨b, attempt, hb, heq, -⟩
  · rw [heq]
  · have hab : a ≠ b := by
      rintro rfl
      exact ha hb
    rw [heq, Function.update_of_ne hab]

/-- **A label moves its attempt along the control flow.** -/
theorem next_step {l : Label} (h : step config s l = some t) {a : ℕ × String}
    (ha : l.attempt? = some a) :
    Next a.1 a.2 l (s.attempts a).phase (t.attempts a).phase :=
  (moves_of_step h ha).next

/-! ## Locks and articles -/

/-- The locks are those of `s`, or of `s` after the transaction of `a` ended, or `a` took
one that was free. -/
inductive Locks (s t : State) (a : ℕ × String) : Prop
  | release (hrun : t.runLock = (s.release a).runLock)
      (houtcome : t.outcomeLock = (s.release a).outcomeLock)
  | run (key : String) (hfree : s.runLock key = none)
      (hrun : t.runLock = Function.update s.runLock key (some a))
      (houtcome : t.outcomeLock = s.outcomeLock)
  | outcome (key : String × String) (hfree : s.outcomeLock key = none)
      (hrun : t.runLock = s.runLock)
      (houtcome : t.outcomeLock = Function.update s.outcomeLock key (some a))

/-- **A lock is taken free and freed by its holder.** -/
theorem locks_step {l : Label} (h : step config s l = some t) :
    (t.runLock = s.runLock ∧ t.outcomeLock = s.outcomeLock) ∨
      ∃ a, l.attempt? = some a ∧ Locks s t a := by
  cases writes_of_step h with
  | call | run | move | claim => exact Or.inl ⟨rfl, rfl⟩
  | lockRun hmoves hfree => exact Or.inr ⟨_, hmoves.attempt_eq, .run _ hfree rfl rfl⟩
  | lockOutcome hmoves hfree => exact Or.inr ⟨_, hmoves.attempt_eq, .outcome _ hfree rfl rfl⟩
  | rollback hmoves | store hmoves | storeRow hmoves =>
      exact Or.inr ⟨_, hmoves.attempt_eq, .release rfl rfl⟩

/-- What another attempt does leaves a run lock with its holder. -/
theorem runLock_of_ne {l : Label} (h : step config s l = some t) {b : ℕ × String} {key : String}
    (hb : l.attempt? ≠ some b) (hlock : s.runLock key = some b) : t.runLock key = some b := by
  rcases locks_step h with ⟨hrun, -⟩ | ⟨a, ha, hlocks⟩
  · rw [hrun, hlock]
  · have hne : ¬ some b = some a := by
      intro heq
      exact hb (ha.trans heq.symm)
    cases hlocks with
    | release hrun houtcome =>
        rw [hrun]
        show (if s.runLock key = some a then none else s.runLock key) = some b
        rw [hlock, if_neg hne]
    | run key' hfree hrun houtcome =>
        have hkey : key ≠ key' := by
          rintro rfl
          rw [hlock] at hfree
          cases hfree
        rw [hrun, Function.update_of_ne hkey, hlock]
    | outcome key' hfree hrun houtcome => rw [hrun, hlock]

/-- What another attempt does leaves an outcome lock with its holder. -/
theorem outcomeLock_of_ne {l : Label} (h : step config s l = some t) {b : ℕ × String}
    {key : String × String} (hb : l.attempt? ≠ some b) (hlock : s.outcomeLock key = some b) :
    t.outcomeLock key = some b := by
  rcases locks_step h with ⟨-, houtcome⟩ | ⟨a, ha, hlocks⟩
  · rw [houtcome, hlock]
  · have hne : ¬ some b = some a := by
      intro heq
      exact hb (ha.trans heq.symm)
    cases hlocks with
    | release hrun houtcome =>
        rw [houtcome]
        show (if s.outcomeLock key = some a then none else s.outcomeLock key) = some b
        rw [hlock, if_neg hne]
    | run key' hfree hrun houtcome => rw [houtcome, hlock]
    | outcome key' hfree hrun houtcome =>
        have hkey : key ≠ key' := by
          rintro rfl
          rw [hlock] at hfree
          cases hfree
        rw [houtcome, Function.update_of_ne hkey, hlock]

/-- A locked run row is not written. -/
theorem runs_of_lock {l : Label} (h : step config s l = some t) {b : ℕ × String} {key : String}
    {run : NewsRetrievalRun} (hlock : s.runLock key = some b) (hrun : s.runs key = some run) :
    t.runs key = some run := by
  rcases runs_step h with heq | ⟨i, run', heq, hfree, -⟩
  · rw [heq, hrun]
  · have hkey : key ≠ (config i).runKey := by
      rintro rfl
      have hnone := (hfree run hrun).2
      rw [hlock] at hnone
      cases hnone
    rw [heq, Function.update_of_ne hkey, hrun]

/-- A locked outcome row is written by its holder only. -/
theorem outcomes_of_lock {l : Label} (h : step config s l = some t) {b : ℕ × String}
    {key : String × String} {row : NewsRetrievalSourceOutcome}
    (hlock : s.outcomeLock key = some b) (hrow : s.outcomes key = some row)
    (hcommit : ∀ a : ℕ × String, l = .commit a.1 a.2 → outcomeKey config a ≠ key) :
    t.outcomes key = some row := by
  rcases outcomes_step h with heq | ⟨a, row', -, -, heq, -, -, hwhy⟩
  · rw [heq, hrow]
  · have hkey : key ≠ outcomeKey config a := by
      rintro rfl
      rcases hwhy with hl | hnone | hfree
      · exact hcommit a hl rfl
      · rw [hrow] at hnone
        cases hnone
      · rw [hlock] at hfree
        cases hfree
    rw [heq, Function.update_of_ne hkey, hrow]

/-- **Articles are stored by a commit of an attempt**: the one of its outcome row, or one
of its exception handler. -/
theorem raws_step {l : Label} (h : step config s l = some t) :
    t.raws = s.raws ∨
      ∃ i src, t.raws = s.raws ++ (s.attempts (i, src)).pending ∧
        l.attempt? = some (i, src) ∧ l.Stores := by
  cases writes_of_step h with
  | store hmoves hstores => exact Or.inr ⟨_, _, rfl, hmoves.attempt_eq, hstores⟩
  | storeRow hmoves _ _ hstores => exact Or.inr ⟨_, _, rfl, hmoves.attempt_eq, hstores⟩
  | _ => exact Or.inl rfl

/-- Only `save_articles` adds to what is pending. -/
theorem pending_step {l : Label} (h : step config s l = some t) {a : ℕ × String}
    (hpending : (t.attempts a).pending ≠ []) :
    (s.attempts a).pending ≠ [] ∨
      ∃ inserted databaseDuplicates errors,
        l = .save a.1 a.2 inserted databaseDuplicates errors := by
  by_cases ha : l.attempt? = some a
  · exact (moves_of_step h ha).pending hpending
  · rw [attempts_of_ne h ha] at hpending
    exact Or.inl hpending

end ProcureSignal.Retrieval
