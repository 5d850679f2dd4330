/-
# Fenced persistence

`_source` stores articles inside one transaction: `fence_run` locks the run row of a
live lease, `save_articles` inserts, `complete_source` locks the outcome row of a live
lease, and one commit ends it.  From the locks: while the transaction is open neither row
changes (`Fenced`), so the commit turns a running outcome row into a completed one, and a
second commit for the same run and source finds no running row.

`persistence_fenced` says so of every run, whatever expires, dies or is taken over.  An
attempt in which a step after the fetch raised is out of its scope: `fail_source` and
`record_circuit_failure` commit the session that holds the articles.
-/
import ProcureSignal.Retrieval.Steps

namespace ProcureSignal.Retrieval

open NewsRetrievalSourceOutcome (Terminal)

variable {config : ℕ → Orchestrator} {s t : State} {tr : List (State × Label)}

/-! ## The open transaction -/

/-- The time at which the open transaction checked the run lease. -/
def SourcePhase.fencedAt? : SourcePhase → Option Instant
  | .fenced _ fencedAt | .saved _ fencedAt | .completing _ fencedAt _ => some fencedAt
  | _ => none

/-- The time at which the open transaction checked the source lease. -/
def SourcePhase.completedAt? : SourcePhase → Option Instant
  | .completing _ _ completedAt => some completedAt
  | _ => none

/-- `fence_run` of the attempt found its owner with a live run lease at `fencedAt`, and
the attempt has kept the row locked. -/
def RunFenced (config : ℕ → Orchestrator) (tr : List (State × Label)) (s : State)
    (a : ℕ × String) (fencedAt : Instant) : Prop :=
  s.runLock (config a.1).runKey = some a ∧
    ∃ run, s.runs (config a.1).runKey = some run ∧ run.HeldBy (config a.1).owner fencedAt ∧
      ∃ p, (p, .fence a.1 a.2 fencedAt) ∈ tr ∧ p.runs (config a.1).runKey = some run

/-- `complete_source` of the attempt found its owner with a live source lease at
`completedAt`, and the attempt has kept the row locked. -/
def OutcomeFenced (config : ℕ → Orchestrator) (tr : List (State × Label)) (s : State)
    (a : ℕ × String) (completedAt : Instant) : Prop :=
  s.outcomeLock (outcomeKey config a) = some a ∧
    ∃ row, s.outcomes (outcomeKey config a) = some row ∧
      row.HeldBy (config a.1).owner completedAt ∧
      ∃ p, (p, .complete a.1 a.2 completedAt) ∈ tr ∧ p.outcomes (outcomeKey config a) = some row

/-- Every open transaction has the rows it checked. -/
structure Fenced (config : ℕ → Orchestrator) (tr : List (State × Label)) (s : State) : Prop where
  run : ∀ a, ∀ fencedAt ∈ (s.attempts a).phase.fencedAt?, RunFenced config tr s a fencedAt
  outcome : ∀ a, ∀ completedAt ∈ (s.attempts a).phase.completedAt?,
    OutcomeFenced config tr s a completedAt

theorem fenced_initial (clock : Instant) (raws : List String) :
    Fenced config [] (.initial clock raws) where
  run := fun _ _ h => by cases h
  outcome := fun _ _ h => by cases h

/-- The steps of other attempts leave a fenced run row fenced. -/
theorem runFenced_of_ne {l : Label} (h : step config s l = some t) {a : ℕ × String}
    {fencedAt : Instant} (ha : l.attempt? ≠ some a) (hf : RunFenced config tr s a fencedAt) :
    RunFenced config ((s, l) :: tr) t a fencedAt := by
  obtain ⟨hlock, run, hrun, hheld, p, hmem, hp⟩ := hf
  exact ⟨runLock_of_ne h ha hlock, run, runs_of_lock h hlock hrun, hheld, p,
    List.mem_cons_of_mem _ hmem, hp⟩

/-- The steps of other attempts leave a fenced outcome row fenced. -/
theorem outcomeFenced_of_ne (hf : Fenced config tr s) {l : Label} (h : step config s l = some t)
    {a : ℕ × String} {completedAt : Instant} (ha : l.attempt? ≠ some a)
    (hc : OutcomeFenced config tr s a completedAt) :
    OutcomeFenced config ((s, l) :: tr) t a completedAt := by
  obtain ⟨hlock, row, hrow, hheld, p, hmem, hp⟩ := hc
  refine ⟨outcomeLock_of_ne h ha hlock, row, outcomes_of_lock h hlock hrow ?_, hheld, p,
    List.mem_cons_of_mem _ hmem, hp⟩
  -- a commit holds the lock of its own row
  rintro b rfl hkey
  obtain ⟨counts, fencedAt, completedAt', -, hphase, -, -⟩ := commit_eq_some h
  have hlock' := (hf.outcome b completedAt' (by rw [hphase]; rfl)).1
  rw [hkey, hlock, Option.some.injEq] at hlock'
  exact ha (congrArg some hlock'.symm)

/-- **Transactions stay fenced.**  Rows and lock come with the fence and the outcome
update; in between only the phase moves. -/
theorem fenced_step (hf : Fenced config tr s) {l : Label} (h : step config s l = some t) :
    Fenced config ((s, l) :: tr) t := by
  constructor
  · intro a fencedAt hphase
    by_cases ha : l.attempt? = some a
    · have hnext := next_step h ha
      generalize hp : (s.attempts a).phase = phase at hnext
      generalize hq : (t.attempts a).phase = phase' at hnext hphase
      cases hnext with
      | fence now counts =>
          cases hphase
          obtain ⟨counts', -, ⟨run, hrun, hheld, -, rfl⟩ | rfl⟩ := fence_eq_some h
          · exact ⟨Function.update_self _ _ _, run, hrun, hheld, s, List.mem_cons_self, hrun⟩
          · rw [phase_setAttempt_self] at hq
            cases hq
      | save inserted databaseDuplicates errors counts counts' fencedAt' =>
          cases hphase
          obtain ⟨-, -, -, -, rfl⟩ := save_eq_some h
          obtain ⟨hlock, run, hrun, hheld, p, hmem, hpr⟩ := hf.run a fencedAt (by rw [hp]; rfl)
          exact ⟨hlock, run, hrun, hheld, p, List.mem_cons_of_mem _ hmem, hpr⟩
      | complete now counts fencedAt' =>
          cases hphase
          obtain ⟨-, -, -, ⟨row, -, -, -, rfl⟩ | rfl⟩ := complete_eq_some h
          · obtain ⟨hlock, run, hrun, hheld, p, hmem, hpr⟩ := hf.run a fencedAt (by rw [hp]; rfl)
            exact ⟨hlock, run, hrun, hheld, p, List.mem_cons_of_mem _ hmem, hpr⟩
          · rw [phase_setAttempt_self] at hq
            cases hq
      | _ => cases hphase
    · rw [attempts_of_ne h ha] at hphase
      exact runFenced_of_ne h ha (hf.run a fencedAt hphase)
  · intro a completedAt hphase
    by_cases ha : l.attempt? = some a
    · have hnext := next_step h ha
      generalize (s.attempts a).phase = phase at hnext
      generalize hq : (t.attempts a).phase = phase' at hnext hphase
      cases hnext with
      | complete now counts fencedAt =>
          cases hphase
          obtain ⟨-, -, -, ⟨row, hrow, hheld, -, rfl⟩ | rfl⟩ := complete_eq_some h
          · exact ⟨Function.update_self _ _ _, row, hrow, hheld, s, List.mem_cons_self, hrow⟩
          · rw [phase_setAttempt_self] at hq
            cases hq
      | _ => cases hphase
    · rw [attempts_of_ne h ha] at hphase
      exact outcomeFenced_of_ne hf h ha (hf.outcome a completedAt hphase)

/-! ## One commit for a run and a source -/

/-- The label commits the articles of the given run and source. -/
def Label.CommitsTo (config : ℕ → Orchestrator) (key : String × String) : Label → Prop
  | .commit i src => outcomeKey config (i, src) = key
  | _ => False

instance (key : String × String) : DecidablePred (Label.CommitsTo config key)
  | .commit i src => inferInstanceAs (Decidable (outcomeKey config (i, src) = key))
  | .tick _ | .readRun .. | .insertRun _ | .rereadRun _ | .updateRun _ | .completeRun .. | .crashRun _
  | .selectSource .. | .updateSource .. | .lockedSource .. | .insertSource .. | .rereadSource ..
  | .fetch .. | .fence .. | .save .. | .complete .. | .finish .. | .raise .. | .circuitFailure ..
  | .fail .. | .crash .. => inferInstanceAs (Decidable False)

/-- How often articles of a run and source were committed. -/
def commitCount (config : ℕ → Orchestrator) (key : String × String)
    (tr : List (State × Label)) : ℕ :=
  tr.countP fun x => decide (x.2.CommitsTo config key)

/-- At most one commit, and after it the row is finished. -/
def CommittedOnce (config : ℕ → Orchestrator) (tr : List (State × Label)) (s : State) : Prop :=
  ∀ key, commitCount config key tr ≤ 1 ∧
    (commitCount config key tr ≠ 0 → ∃ row ∈ s.outcomes key, Terminal row)

/-- A commit finds its row running and leaves it completed. -/
theorem committedOnce_step (hf : Fenced config tr s) (honce : CommittedOnce config tr s)
    {l : Label} (h : step config s l = some t) : CommittedOnce config ((s, l) :: tr) t := by
  intro key
  obtain ⟨hle, hterm⟩ := honce key
  by_cases hl : l.CommitsTo config key
  · have hcount : commitCount config key ((s, l) :: tr) = commitCount config key tr + 1 :=
      List.countP_cons_of_pos (decide_eq_true hl)
    cases l with
    | commit i src =>
        obtain ⟨counts, fencedAt, completedAt, row, hphase, hrow, rfl⟩ := commit_eq_some h
        obtain ⟨-, row', hrow', hheld, -⟩ := hf.outcome (i, src) completedAt (by rw [hphase]; rfl)
        have hkey : outcomeKey config (i, src) = key := hl
        subst hkey
        have hzero : commitCount config (outcomeKey config (i, src)) tr = 0 := by
          by_contra hne
          obtain ⟨row'', hrow'', hfin⟩ := hterm hne
          rw [Option.mem_def, hrow', Option.some.injEq] at hrow''
          subst hrow''
          exact hfin hheld.1
        refine ⟨by omega, fun _ => ⟨_, Function.update_self _ _ _, by nofun⟩⟩
    | _ => exact hl.elim
  · have hcount : commitCount config key ((s, l) :: tr) = commitCount config key tr :=
      List.countP_cons_of_neg (by simpa using hl)
    rw [hcount]
    exact ⟨hle, fun hne => terminal_step h (hterm hne)⟩

/-! ## Articles of an open transaction -/

/-- A step of the attempt after its fetch raised. -/
def RaisedAfterFetch (tr : List (State × Label)) (a : ℕ × String) : Prop :=
  ∃ p code responseBytes, (p, .raise a.1 a.2 code responseBytes) ∈ tr ∧
    (p.attempts a).phase ≠ .claimed

/-- The articles of the attempt are inserted and not committed. -/
def SourcePhase.Holds : SourcePhase → Prop
  | .saved _ _ | .completing _ _ _ => True
  | _ => False

/-- What is inserted and not committed is in an open transaction, or in that of an attempt
that raised. -/
def Pending (tr : List (State × Label)) (s : State) : Prop :=
  ∀ a, (s.attempts a).pending ≠ [] → (s.attempts a).phase.Holds ∨ RaisedAfterFetch tr a

theorem RaisedAfterFetch.mono {tr' : List (State × Label)} {a : ℕ × String}
    (hsub : ∀ x ∈ tr, x ∈ tr') (hr : RaisedAfterFetch tr a) : RaisedAfterFetch tr' a := by
  obtain ⟨p, code, responseBytes, hmem, hphase⟩ := hr
  exact ⟨p, code, responseBytes, hsub _ hmem, hphase⟩

theorem pending_next (hp : Pending tr s) {l : Label} (h : step config s l = some t) :
    Pending ((s, l) :: tr) t := by
  intro a hpending
  by_cases ha : l.attempt? = some a
  · have hnext := next_step h ha
    rcases pending_step h hpending with hold | ⟨inserted, databaseDuplicates, errors, rfl⟩
    · rcases hp a hold with hholds | hraised
      · generalize hphase : (s.attempts a).phase = phase at hnext hholds
        generalize hphase' : (t.attempts a).phase = phase' at hnext ⊢
        have hraise : ∀ code responseBytes, l = .raise a.1 a.2 code responseBytes →
            RaisedAfterFetch ((s, l) :: tr) a := by
          rintro code responseBytes rfl
          refine ⟨s, code, responseBytes, List.mem_cons_self, ?_⟩
          intro hclaimed
          rw [← hphase, hclaimed] at hholds
          exact hholds
        cases hnext with
        | complete now counts fencedAt => exact Or.inl trivial
        | completeLost now counts fencedAt =>
            obtain ⟨counts', fencedAt', -, ⟨row, -, -, -, rfl⟩ | rfl⟩ := complete_eq_some h
            · rw [phase_setAttempt_self] at hphase'
              cases hphase'
            · exact absurd (congrArg SourceAttempt.pending (attempts_setAttempt_self _ a _)) hpending
        | commit counts fencedAt completedAt =>
            obtain ⟨counts', fencedAt', completedAt', row, -, -, rfl⟩ := commit_eq_some h
            rw [pending_moveAttempt_self] at hpending
            exact absurd (pending_rollback_self s a) hpending
        | raiseParserError code responseBytes htrying => exact Or.inr (hraise _ _ rfl)
        | raise code responseBytes htrying => exact Or.inr (hraise _ _ rfl)
        | crash hne =>
            obtain ⟨-, rfl⟩ := crash_eq_some h
            rw [pending_moveAttempt_self] at hpending
            exact absurd (pending_rollback_self s a) hpending
        | _ => exact hholds.elim
      · exact Or.inr (hraised.mono fun _ => List.mem_cons_of_mem _)
    · obtain ⟨counts, fencedAt, counts', -, rfl⟩ := save_eq_some h
      rw [phase_setAttempt_self]
      exact Or.inl trivial
  · rw [attempts_of_ne h ha] at hpending ⊢
    rcases hp a hpending with hholds | hraised
    · exact Or.inl hholds
    · exact Or.inr (hraised.mono fun _ => List.mem_cons_of_mem _)

/-! ## Attempts that lost a lease -/

/-- The label is the `fence_run` or the `complete_source` of the attempt, and finds no row
its owner holds. -/
def LeaseMissed (config : ℕ → Orchestrator) (s : State) (a : ℕ × String) (l : Label) : Prop :=
  ∃ now,
    (l = .fence a.1 a.2 now ∧ ∀ run, s.runs (config a.1).runKey = some run →
      ¬ run.HeldBy (config a.1).owner now) ∨
    (l = .complete a.1 a.2 now ∧ ∀ row, s.outcomes (outcomeKey config a) = some row →
      ¬ row.HeldBy (config a.1).owner now)

theorem LeaseMissed.attempt {a : ℕ × String} {l : Label} (hm : LeaseMissed config s a l) :
    l.attempt? = some a := by
  obtain ⟨now, ⟨rfl, -⟩ | ⟨rfl, -⟩⟩ := hm <;> rfl

/-- A missed lease rolls the attempt back and ends it. -/
theorem eq_of_leaseMissed {l : Label} (h : step config s l = some t) {a : ℕ × String}
    (hm : LeaseMissed config s a l) :
    ∃ now, t = (s.rollback a).setAttempt a ⟨.done leaseLostResult, now, []⟩ := by
  obtain ⟨now, ⟨rfl, hno⟩ | ⟨rfl, hno⟩⟩ := hm
  · obtain ⟨counts, -, ⟨run, hrun, hheld, -⟩ | heq⟩ := fence_eq_some h
    · exact absurd hheld (hno run hrun)
    · exact ⟨now, heq⟩
  · obtain ⟨counts, fencedAt, -, ⟨row, hrow, hheld, -⟩ | heq⟩ := complete_eq_some h
    · exact absurd hheld (hno row hrow)
    · exact ⟨now, heq⟩

/-- Past the point where the session was committed, or could only be committed by the
handler. -/
def SourcePhase.Late : SourcePhase → Prop
  | .committed _ | .handling _ | .failing _ _ | .dead => True
  | .done result => result.status ≠ .leaseLost
  | _ => False

/-- Late phases lead to late phases. -/
theorem late_next {i : ℕ} {src : String} {l : Label} {phase phase' : SourcePhase}
    (h : Next i src l phase phase') (hlate : phase.Late) : phase'.Late := by
  cases h with
  | finish counts => exact nofun
  | raiseParserError code responseBytes htrying => trivial
  | raise code responseBytes htrying => trivial
  | circuitFailure responseBytes => trivial
  | fail now code responseBytes => exact nofun
  | crash hphase => trivial
  | _ => exact hlate.elim

/-- After a commit of the session the phase is late. -/
theorem late_of_stores {i : ℕ} {src : String} {l : Label} {phase phase' : SourcePhase}
    (h : Next i src l phase phase') (hstores : l.Stores) : phase'.Late := by
  cases h with
  | commit counts fencedAt completedAt => trivial
  | circuitFailure responseBytes => trivial
  | fail now code responseBytes => exact nofun
  | _ => exact hstores.elim

/-- The leases are checked before any late phase. -/
theorem not_late_of_leaseMissed {l : Label} {a : ℕ × String} {phase phase' : SourcePhase}
    (h : Next a.1 a.2 l phase phase') (hm : LeaseMissed config s a l) : ¬ phase.Late := by
  obtain ⟨now, ⟨rfl, -⟩ | ⟨rfl, -⟩⟩ := hm
  · cases h <;> exact id
  · cases h <;> exact id

/-- An attempt that returned or died can only die, and stores nothing. -/
theorem dead_of_ended {i : ℕ} {src : String} {l : Label} {phase phase' : SourcePhase}
    (h : Next i src l phase phase') (hend : phase = .done leaseLostResult ∨ phase = .dead) :
    phase' = .dead ∧ ¬ l.Stores := by
  cases h with
  | raiseParserError code responseBytes htrying => rcases hend with rfl | rfl <;> exact htrying.elim
  | raise code responseBytes htrying => rcases hend with rfl | rfl <;> exact htrying.elim
  | crash hphase => exact ⟨rfl, id⟩
  | _ => rcases hend with hend | hend <;> cases hend

/-- The session of the attempt was committed with what it held. -/
def Stored (tr : List (State × Label)) (a : ℕ × String) : Prop :=
  ∃ x ∈ tr, x.2.attempt? = some a ∧ x.2.Stores

/-- The attempt found the run lease or the source lease lost. -/
def LeaseLost (config : ℕ → Orchestrator) (tr : List (State × Label)) (a : ℕ × String) : Prop :=
  ∃ x ∈ tr, LeaseMissed config x.1 a x.2

/-- An attempt that lost a lease has returned, and nothing of it was stored. -/
structure Parted (config : ℕ → Orchestrator) (tr : List (State × Label)) (s : State) : Prop where
  stored : ∀ a, Stored tr a → (s.attempts a).phase.Late
  lost : ∀ a, LeaseLost config tr a →
    (s.attempts a).phase = .done leaseLostResult ∨ (s.attempts a).phase = .dead
  apart : ∀ a, Stored tr a → ¬ LeaseLost config tr a

theorem parted_initial (clock : Instant) (raws : List String) :
    Parted config [] (.initial clock raws) where
  stored := fun _ ⟨_, hx, _⟩ => by cases hx
  lost := fun _ ⟨_, hx, _⟩ => by cases hx
  apart := fun _ ⟨_, hx, _⟩ => by cases hx

/-- Storing starts from a phase inside the transaction or the handler, losing a lease from
one before; neither leads back. -/
theorem parted_step (hp : Parted config tr s) {l : Label} (h : step config s l = some t) :
    Parted config ((s, l) :: tr) t := by
  have hstored : ∀ {a}, Stored ((s, l) :: tr) a → Stored tr a ∨ (l.attempt? = some a ∧ l.Stores) := by
    rintro a ⟨x, hx, hxa⟩
    rcases List.mem_cons.mp hx with rfl | hx
    · exact Or.inr hxa
    · exact Or.inl ⟨x, hx, hxa⟩
  have hlost : ∀ {a}, LeaseLost config ((s, l) :: tr) a →
      LeaseLost config tr a ∨ LeaseMissed config s a l := by
    rintro a ⟨x, hx, hm⟩
    rcases List.mem_cons.mp hx with rfl | hx
    · exact Or.inr hm
    · exact Or.inl ⟨x, hx, hm⟩
  refine ⟨?_, ?_, ?_⟩
  · intro a hs
    by_cases ha : l.attempt? = some a
    · have hnext := next_step h ha
      rcases hstored hs with hs | ⟨-, hstores⟩
      · exact late_next hnext (hp.stored a hs)
      · exact late_of_stores hnext hstores
    · rw [attempts_of_ne h ha]
      rcases hstored hs with hs | ⟨hown, -⟩
      · exact hp.stored a hs
      · exact absurd hown ha
  · intro a hl
    rcases hlost hl with hl | hm
    · by_cases ha : l.attempt? = some a
      · exact Or.inr (dead_of_ended (next_step h ha) (hp.lost a hl)).1
      · rw [attempts_of_ne h ha]
        exact hp.lost a hl
    · obtain ⟨now, rfl⟩ := eq_of_leaseMissed h hm
      exact Or.inl (phase_setAttempt_self _ _ _)
  · intro a hs hl
    rcases hstored hs with hs | ⟨ha, hstores⟩
    · rcases hlost hl with hl | hm
      · exact hp.apart a hs hl
      · exact not_late_of_leaseMissed (next_step h hm.attempt) hm (hp.stored a hs)
    · rcases hlost hl with hl | ⟨now, ⟨rfl, -⟩ | ⟨rfl, -⟩⟩
      · exact (dead_of_ended (next_step h ha) (hp.lost a hl)).2 hstores
      · exact hstores
      · exact hstores

/-! ## The run -/

/-- What holds along every run. -/
structure Persistence (config : ℕ → Orchestrator) (tr : List (State × Label)) (s : State) :
    Prop where
  fenced : Fenced config tr s
  once : CommittedOnce config tr s
  pending : Pending tr s
  parted : Parted config tr s

theorem persistence_of_execution {clock : Instant} {raws : List String}
    (h : Execution (step config) unguarded (.initial clock raws) tr t) :
    Persistence config tr t := by
  refine h.traceInvariant (I := Persistence config) ?_ ?_
  · refine ⟨fenced_initial clock raws, ?_, fun _ hne => absurd rfl hne, parted_initial clock raws⟩
    intro key
    exact ⟨Nat.zero_le 1, fun hne => absurd rfl hne⟩
  · intro tr p l q hp _ hq
    exact ⟨fenced_step hp.fenced hq, committedOnce_step hp.fenced hp.once hq,
      pending_next hp.pending hq, parted_step hp.parted hq⟩

/-- The step from `s` to `t` is the commit of an attempt that `fence_run` found with a live
run lease and `complete_source` with a live source lease, both rows locked since; it stores
the articles and completes the running outcome row. -/
def FencedCommit (config : ℕ → Orchestrator) (tr : List (State × Label)) (s t : State)
    (a : ℕ × String) : Prop :=
  ∃ fencedAt completedAt counts row,
    RunFenced config tr s a fencedAt ∧ OutcomeFenced config tr s a completedAt ∧
      s.outcomes (outcomeKey config a) = some row ∧ row.status = .running ∧
      t.outcomes = Function.update s.outcomes (outcomeKey config a)
        (some (row.complete completedAt counts)) ∧
      t.raws = s.raws ++ (s.attempts a).pending

/-- A commit label makes a fenced commit. -/
theorem fencedCommit_step (hf : Fenced config tr s) {a : ℕ × String}
    (h : step config s (.commit a.1 a.2) = some t) : FencedCommit config tr s t a := by
  obtain ⟨counts, fencedAt, completedAt, row, hphase, hrow, rfl⟩ := commit_eq_some h
  have hout := hf.outcome a completedAt (by rw [hphase]; rfl)
  refine ⟨fencedAt, completedAt, counts, row, hf.run a fencedAt (by rw [hphase]; rfl), hout,
    hrow, ?_, rfl, rfl⟩
  obtain ⟨-, row', hrow', hheld, -⟩ := hout
  rw [hrow, Option.some.injEq] at hrow'
  exact hrow' ▸ hheld.1

theorem FencedCommit.mono {tr' : List (State × Label)} {a : ℕ × String}
    (hsub : ∀ x ∈ tr, x ∈ tr') (h : FencedCommit config tr s t a) :
    FencedCommit config tr' s t a := by
  obtain ⟨fencedAt, completedAt, counts, row, ⟨hlock, run, hrun, hheld, p, hmem, hp⟩,
    ⟨hlock', row', hrow', hheld', p', hmem', hp'⟩, hrest⟩ := h
  exact ⟨fencedAt, completedAt, counts, row, ⟨hlock, run, hrun, hheld, p, hsub _ hmem, hp⟩,
    ⟨hlock', row', hrow', hheld', p', hsub _ hmem', hp'⟩, hrest⟩

/-- A step that stores articles is a commit, or its attempt raised after the fetch. -/
theorem commit_of_raws_ne (hp : Pending tr s) {l : Label} (h : step config s l = some t)
    (hne : t.raws ≠ s.raws) :
    ∃ a, l.attempt? = some a ∧ (l = .commit a.1 a.2 ∨ RaisedAfterFetch tr a) := by
  rcases raws_step h with heq | ⟨i, src, heq, ha, hstores⟩
  · exact absurd heq hne
  · refine ⟨(i, src), ha, ?_⟩
    have hpending : (s.attempts (i, src)).pending ≠ [] := by
      intro hnil
      rw [hnil, List.append_nil] at heq
      exact hne heq
    have hnext := next_step h ha
    rcases hp (i, src) hpending with hholds | hraised
    · generalize (s.attempts (i, src)).phase = phase at hnext hholds
      generalize (t.attempts (i, src)).phase = phase' at hnext
      cases hnext with
      | commit counts fencedAt completedAt => exact Or.inl rfl
      | circuitFailure responseBytes => exact hholds.elim
      | fail now code responseBytes => exact hholds.elim
      | _ => exact hstores.elim
    · exact Or.inr hraised

/-- **Fenced persistence.**  Along every run, with any expiries, crashes and take-overs:

* for a run and a source there is at most one commit;
* every commit is fenced: it stores its articles and completes the running outcome row at
  once, in a transaction that found, and locked, a live run lease and a live source lease;
* no other step stores articles, but for attempts in which a step after the fetch raised;
* where an attempt finds one of its leases lost, the step writes nothing; no step of the
  attempt stores an article, and none but its claim writes an outcome row. -/
theorem persistence_fenced {clock : Instant} {raws : List String}
    (h : Execution (step config) unguarded (.initial clock raws) tr t) :
    (∀ key, commitCount config key tr ≤ 1) ∧
      (∀ p q a, (p, .commit a.1 a.2) ∈ tr → step config p (.commit a.1 a.2) = some q →
        FencedCommit config tr p q a) ∧
      (∀ p l q, (p, l) ∈ tr → step config p l = some q → q.raws ≠ p.raws →
        ∃ a, l.attempt? = some a ∧ (l = .commit a.1 a.2 ∨ RaisedAfterFetch tr a)) ∧
      ∀ a, LeaseLost config tr a →
        (∀ p l q, (p, l) ∈ tr → LeaseMissed config p a l → step config p l = some q →
          q.runs = p.runs ∧ q.outcomes = p.outcomes ∧ q.raws = p.raws) ∧
        ∀ p l q, (p, l) ∈ tr → l.attempt? = some a → step config p l = some q →
          q.raws = p.raws ∧ (l.Claims ∨ q.outcomes = p.outcomes) := by
  have hp := persistence_of_execution h
  refine ⟨fun key => (hp.once key).1, ?_, ?_, ?_⟩
  · intro p q a hmem hq
    obtain ⟨tr₁, tr₂, q', rfl, h₁, -, -, -⟩ := h.exists_of_mem hmem
    refine (fencedCommit_step (persistence_of_execution h₁).fenced hq).mono ?_
    intro x hx
    exact List.mem_append_right _ (List.mem_cons_of_mem _ hx)
  · intro p l q hmem hq hne
    obtain ⟨tr₁, tr₂, q', rfl, h₁, -, -, -⟩ := h.exists_of_mem hmem
    obtain ⟨a, ha, hl | hraised⟩ :=
      commit_of_raws_ne (persistence_of_execution h₁).pending hq hne
    · exact ⟨a, ha, Or.inl hl⟩
    · refine ⟨a, ha, Or.inr (hraised.mono ?_)⟩
      intro x hx
      exact List.mem_append_right _ (List.mem_cons_of_mem _ hx)
  · intro a hlost
    have hnot : ∀ p l, (p, l) ∈ tr → l.attempt? = some a → ¬ l.Stores :=
      fun p l hmem ha hstores => hp.parted.apart a ⟨(p, l), hmem, ha, hstores⟩ hlost
    constructor
    · intro p l q hmem hm hq
      obtain ⟨now, rfl⟩ := eq_of_leaseMissed hq hm
      exact ⟨rfl, rfl, rfl⟩
    · intro p l q hmem ha hq
      constructor
      · rcases raws_step hq with heq | ⟨i, src, -, ha', hstores⟩
        · exact heq
        · exact absurd hstores (hnot p l hmem ha)
      · rcases outcomes_step hq with heq | ⟨b, row, -, -, -, -, hclaims | hstores, -⟩
        · exact Or.inr heq
        · exact Or.inl hclaims
        · exact absurd hstores (hnot p l hmem ha)

/-- The first owner fetches until both its leases expire; the second takes run and source
over and commits; the first finds its lease lost. -/
theorem persistence_fenced_takeover : ∃ tr t,
    Execution (step twoOwners) unguarded (.initial 0 []) tr t ∧
      commitCount twoOwners ("hourly", "source") tr = 1 ∧ t.raws = ["article"] ∧
      LeaseLost twoOwners tr (0, "source") ∧
      ∀ p l q, (p, l) ∈ tr → l.attempt? = some (0, "source") → step twoOwners p l = some q →
        q.raws = p.raws ∧ (l.Claims ∨ q.outcomes = p.outcomes) := by
  obtain ⟨tr, t, h, hcount, hraws, x, hx, hfence, hmiss⟩ :
      ∃ tr t, Execution (step twoOwners) unguarded (.initial 0 []) tr t ∧
        0 < commitCount twoOwners ("hourly", "source") tr ∧ t.raws = ["article"] ∧
        ∃ x ∈ tr, x.2 = .fence 0 "source" (minutes 66) ∧
          ∀ run ∈ x.1.runs "hourly", ¬ run.HeldBy "first" (minutes 66) :=
    Execution.exists_of_execute
      [.readRun 0 0, .insertRun 0, .selectSource 0 "source" 0, .updateSource 0 "source",
        .insertSource 0 "source", .fetch 0 "source" 1 0 512,
        .tick (minutes 66), .readRun 1 (minutes 66), .updateRun 1,
        .selectSource 1 "source" (minutes 66), .updateSource 1 "source",
        .fetch 1 "source" 1 0 512, .fence 1 "source" (minutes 66),
        .save 1 "source" ["article"] 0 0, .complete 1 "source" (minutes 66),
        .commit 1 "source", .fence 0 "source" (minutes 66)]
      (by decide +kernel) (fun _ _ => trivial)
  have hlost : LeaseLost twoOwners tr (0, "source") := ⟨x, hx, minutes 66, Or.inl ⟨hfence, hmiss⟩⟩
  obtain ⟨honce, -, -, hparted⟩ := persistence_fenced h
  exact ⟨tr, t, h, Nat.le_antisymm (honce _) hcount, hraws, hlost, (hparted _ hlost).2⟩

end ProcureSignal.Retrieval
