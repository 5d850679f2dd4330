/-
# The transcript of the loop

`run_loop` for any catalogue, dispatcher and step ceiling, with what it does as seen from outside:
the budget checks, the requests and the turns that come back, the calls that are dispatched, and at
every commit what the tables hold and what the run has added to the ledger.

* `Transcribed` : what holds of such a history;
* `Tracks` : the invariant of the loop between two statements;
* `loop_transcribed` : **every history of the loop is transcribed**;
* `runLoop_eq_loop` : with the tool catalogue and its dispatcher this is the loop of an analysis.
-/
import ProcureSignal.Agents.Evidence
import ProcureSignal.Enrichment.DurableSpend

namespace ProcureSignal.Agents.Transcript

open Retrieval (Json)
open Enrichment (Day Request SpendTable withinBudget consume consumeOverage increment)
open Enrichment.Pipeline (spentOn spentOn_increment)

/-! ## The loop -/

/-- `ESTIMATED_TOKENS_PER_TURN`. -/
def estimatedTokensPerTurn : ℤ := 4000

/-- What `run_loop` is given, and what it meets. -/
structure Setting where
  tools : List Tool
  maxSteps : ℤ
  /-- `client.respond`, by the number of the turn; an exception is `none` -/
  respond : ℕ → Option AgentTurn
  /-- the dispatcher, by turn and by position in the turn -/
  dispatch : ℕ → ℕ → String → List (String × Json) → ToolAnswer
  /-- what the dispatcher collects of a result -/
  collect : Json → List String
  /-- `LLM_DAILY_TOKEN_BUDGET` -/
  dailyBudget : Option ℤ
  /-- the ledger as the session sees it before a turn, and when the turn is charged -/
  before : ℕ → SpendTable
  charging : ℕ → SpendTable
  /-- the days of the check before a turn, of the check of `consume`, and of the upsert -/
  checkedOn : ℕ → Day
  consumedOn : ℕ → Day
  today : ℕ → Day
  /-- whether the statements that charge a turn go through -/
  charged : ℕ → Bool
  finishedAt : Instant

/-- An upsert of the ledger, with its day. -/
abbrev Upsert := Request × Day

/-- The ledger after upserts. -/
def upserted (upserts : List Upsert) (table : SpendTable) : SpendTable :=
  upserts.foldl (fun t u => increment t u.1 u.2) table

/-- What the loop does. -/
inductive Event
  | checked (granted : Bool)
  | requested
  | received (turn : AgentTurn)
  | dispatched (name : String) (arguments : List (String × Json))
  /-- a commit: the tables after it, and the upserts of the run so far -/
  | committed (db : Database) (upserts : List Upsert)

/-- The loop while it runs. -/
structure Loop where
  state : State
  upserts : List Upsert
  log : List Event

namespace Loop

/-- Something happens. -/
def saw (l : Loop) (e : Event) : Loop := { l with log := l.log ++ [e] }

/-- Statements that end in a commit. -/
def committing (l : Loop) (x : Except State State) : Except Loop Loop :=
  match x with
  | .ok s => .ok ({ l with state := s }.saw (.committed s.committed l.upserts))
  | .error s => .error { l with state := s }

/-- `_record`. -/
def record (l : Loop) (payload : StepPayload) (toolName : Option String) : Except Loop Loop :=
  l.committing (l.state.record payload toolName)

/-- `_finish`. -/
def finish (l : Loop) (status : RunStatus) (reason : Option String) (now : Instant) :
    Except Loop Loop :=
  l.committing (l.state.finish status reason now)

end Loop

variable (P : Python) (E : Setting)

/-- The budget check before a turn. -/
def Setting.granted (n : ℕ) : Bool :=
  withinBudget E.dailyBudget (E.before n) ⟨none, estimatedTokensPerTurn, 1, none⟩ (E.checkedOn n)

/-- What a turn adds to the ledger: `consume`, or `consume_overage` where that refuses. -/
def Setting.spend (n : ℕ) (spent : ℤ) : List Upsert :=
  if spent = 0 then []
  else
    let request : Request := ⟨none, spent, 1, none⟩
    match consume E.dailyBudget (E.charging n) request (E.consumedOn n) (E.today n) with
    | .ok _ => [(request, E.today n)]
    | .error _ => [({ request with calls := 1 }, E.today n)]

namespace Loop

/-- `_charge`. -/
def charge (l : Loop) (n : ℕ) (turn : AgentTurn) : Except Loop Loop :=
  match l.state.charge (E.charged n) turn with
  | .ok s => .ok { l with
      state := s
      upserts := l.upserts ++ E.spend n (turn.promptTokens + turn.completionTokens) }
  | .error s => .error { l with state := s }

/-- `_run_tool`, in turn `n` at position `j`. -/
def runTool (l : Loop) (n j : ℕ) (call : ToolCall) : Loop × Json × String :=
  if call.name ∉ E.tools.map (·.name) then
    let message := "unknown tool " ++ P.repr call.name ++ "; use only the tools provided"
    (l, .object [("error", .string message)], message)
  else
    let l := l.saw (.dispatched call.name call.arguments)
    match E.dispatch n j call.name call.arguments with
    | .result v =>
        ({ l with state := { l.state with verified := l.state.verified ++ E.collect v } }, v,
          P.dumps v)
    | .raised transactionAborted =>
        let message := "tool " ++ P.repr call.name ++ " failed"
        ({ l with state := { l.state with aborted := l.state.aborted || transactionAborted } },
          .object [("error", .string message)], message)

/-- An item of the conversation. -/
def said (l : Loop) (message : Message) : Loop :=
  { l with state := { l.state with conversation := l.state.conversation ++ [message] } }

/-- `ordinal += 1`. -/
def next (l : Loop) : Loop := { l with state := { l.state with ordinal := l.state.ordinal + 1 } }

/-- One call of a turn. -/
def performCall (l : Loop) (n j : ℕ) (call : ToolCall) : Except Loop Loop := do
  let l ← (l.said (.functionCall call.callId call.name (P.dumps (.object call.arguments)))).record
    (.toolCall call.callId call.arguments) (some call.name)
  let (l, stored, reply) := l.next.runTool P E n j call
  let l ← (l.said (.functionCallOutput call.callId reply)).record (.toolResult stored)
    (some call.name)
  return l.next

end Loop

/-- The calls of turn `n` from a position on. -/
def performCalls (n : ℕ) : ℕ → List ToolCall → Loop → Except Loop Loop
  | _, [], l => .ok l
  | j, call :: calls, l => do
      let l ← l.performCall P E n j call
      performCalls n (j + 1) calls l

/-- The loop with the number of turns that are left and the number of the turn that comes. -/
def loop : ℕ → ℕ → Loop → Except Loop (Loop × String)
  | 0, _, l => do
      let l ← l.finish .failed (some "step_ceiling") E.finishedAt
      return (l, "")
  | left + 1, n, l =>
      let l := l.saw (.checked (E.granted n))
      if E.granted n = false then do
        let l ← l.finish .failed (some "budget_exhausted") E.finishedAt
        return (l, "")
      else
        let l := l.saw .requested
        match E.respond n with
        | none => .error l
        | some turn => do
            let l ← (l.saw (.received turn)).charge E n turn
            if turn.toolCalls = [] then
              let l ← l.record (.modelMessage turn.reply) none
              let l ← l.finish .completed none E.finishedAt
              return (l, turn.reply)
            else
              let l ← performCalls P E n 0 turn.toolCalls l
              loop left (n + 1) l

/-- `run_loop`. -/
def runLoop (s : State) (opening : String) : Except Loop (Loop × String) :=
  loop P E E.maxSteps.toNat 0
    ⟨{ s with conversation := [.user opening], ordinal := 0 }, [], []⟩

/-! ## What a history shows -/

/-- The step is of kind `tool_call`. -/
def isToolCall : StepPayload → Bool
  | .toolCall _ _ => true
  | _ => false

/-- The step is of kind `tool_result`. -/
def isToolResult : StepPayload → Bool
  | .toolResult _ => true
  | _ => false

/-- The steps of a run, in the order in which they were inserted. -/
def stepsOf (db : Database) (runId : ℕ) : List AgentStep :=
  db.steps.values.filter fun step => step.runId = runId

/-- Behind every call stands the result of the same tool, unless it is the last step. -/
def Paired (steps : List AgentStep) : Prop :=
  ∀ i call result, steps[i]? = some call → isToolCall call.payload = true →
    steps[i + 1]? = some result →
      isToolResult result.payload = true ∧ result.toolName = call.toolName

/-- The turns that came back. -/
def turns (log : List Event) : List AgentTurn :=
  log.filterMap fun e => match e with
    | .received turn => some turn
    | _ => none

/-- The prompt tokens of the turns that came back. -/
def promptTokens (log : List Event) : ℤ := ((turns log).map (·.promptTokens)).sum

/-- The completion tokens of the turns that came back. -/
def completionTokens (log : List Event) : ℤ := ((turns log).map (·.completionTokens)).sum

/-- The number of turns that were requested. -/
def requests (log : List Event) : ℕ :=
  log.countP fun e => match e with
    | .requested => true
    | _ => false

/-- What a commit shows, behind a history. -/
structure Aligned (E : Setting) (runId : ℕ) (log : List Event) (db : Database)
    (upserts : List Upsert) : Prop where
  ordinals : (stepsOf db runId).map (·.ordinal) = List.range (stepsOf db runId).length
  paired : Paired (stepsOf db runId)
  row : ∃ run, db.runs.find? runId = some run ∧ run.stepCount = (stepsOf db runId).length ∧
    run.promptTokens = promptTokens log ∧ run.completionTokens = completionTokens log
  ledger : ∀ days table, (∀ n < E.maxSteps.toNat, E.today n ∈ days) →
    spentOn none days (upserted upserts table) =
      spentOn none days table + (promptTokens log + completionTokens log)

/-- A history of the loop: at every commit the tables, the counts and the ledger are aligned, no
more turns are requested than the ceiling allows, each right behind a check that grants it, and only
names of the catalogue are dispatched. -/
structure Transcribed (E : Setting) (runId : ℕ) (log : List Event) : Prop where
  committed : ∀ past db upserts future, log = past ++ .committed db upserts :: future →
    Aligned E runId past db upserts
  bounded : requests log ≤ E.maxSteps.toNat
  checked : ∀ past future, log = past ++ .requested :: future →
    past.getLast? = some (.checked true)
  dispatched : ∀ name arguments, .dispatched name arguments ∈ log → name ∈ E.tools.map (·.name)

/-! ## One event more -/

section Event

variable {E} {runId : ℕ} {log : List Event} {e : Event}

/-- Where an event of a history with one more stands. -/
theorem concat_eq_append_cons {past future : List Event} {x : Event}
    (h : log ++ [e] = past ++ x :: future) :
    (past = log ∧ x = e) ∨ ∃ rest, log = past ++ x :: rest := by
  rcases List.eq_nil_or_concat future with rfl | ⟨rest, y, rfl⟩
  · obtain ⟨hpast, hx⟩ := List.append_inj' h rfl
    exact Or.inl ⟨hpast.symm, (List.singleton_inj.mp hx).symm⟩
  · right
    rw [List.concat_eq_append, ← List.cons_append, ← List.append_assoc] at h
    exact ⟨rest, (List.append_inj' h rfl).1⟩

/-- **One event more.** -/
theorem Transcribed.concat (h : Transcribed E runId log)
    (hcommitted : ∀ db upserts, e = .committed db upserts → Aligned E runId log db upserts)
    (hrequested : e = .requested →
      log.getLast? = some (.checked true) ∧ requests log < E.maxSteps.toNat)
    (hdispatched : ∀ name arguments, e = .dispatched name arguments →
      name ∈ E.tools.map (·.name)) :
    Transcribed E runId (log ++ [e]) := by
  refine ⟨fun past db upserts future heq => ?_, ?_, fun past future heq => ?_,
    fun name arguments hmem => ?_⟩
  · rcases concat_eq_append_cons heq with ⟨rfl, he⟩ | ⟨rest, hlog⟩
    · exact hcommitted db upserts he.symm
    · exact h.committed past db upserts rest hlog
  · rw [requests, List.countP_append, ← requests, List.countP_singleton]
    split_ifs with hmatch
    · cases e with
      | requested => exact (hrequested rfl).2
      | _ => cases hmatch
    · exact h.bounded
  · rcases concat_eq_append_cons heq with ⟨rfl, he⟩ | ⟨rest, hlog⟩
    · exact (hrequested he.symm).1
    · exact h.checked past rest hlog
  · rcases List.mem_append.mp hmem with hmem | hmem
    · exact h.dispatched name arguments hmem
    · exact hdispatched name arguments (List.mem_singleton.mp hmem).symm

end Event

/-! ## The invariant -/

section Counts

variable (log : List Event) (e : Event)

/-- What an event adds to the turns that came back. -/
theorem turns_concat : turns (log ++ [e]) = turns log ++ turns [e] := List.filterMap_append

theorem promptTokens_concat :
    promptTokens (log ++ [e]) = promptTokens log + promptTokens [e] := by
  rw [promptTokens, turns_concat, List.map_append, List.sum_append]
  rfl

theorem completionTokens_concat :
    completionTokens (log ++ [e]) = completionTokens log + completionTokens [e] := by
  rw [completionTokens, turns_concat, List.map_append, List.sum_append]
  rfl

theorem requests_concat : requests (log ++ [e]) = requests log + requests [e] :=
  List.countP_append

end Counts

/-- One step more. -/
theorem Paired.concat {steps : List AgentStep} (h : Paired steps) {step : AgentStep}
    (hlast : ∀ call, steps.getLast? = some call → isToolCall call.payload = true →
      isToolResult step.payload = true ∧ step.toolName = call.toolName) :
    Paired (steps ++ [step]) := by
  intro i call result hcall hkind hresult
  have hlt : i + 1 < (steps ++ [step]).length := (List.getElem?_eq_some_iff.mp hresult).1
  rw [List.length_append, List.length_singleton] at hlt
  rw [List.getElem?_append_left (by omega)] at hcall
  rcases Nat.lt_or_ge (i + 1) steps.length with hinside | hend
  · rw [List.getElem?_append_left hinside] at hresult
    exact h i call result hcall hkind hresult
  · -- the new step is the one behind the call
    obtain rfl : i = steps.length - 1 := by omega
    rw [List.getElem?_append_right hend, show steps.length - 1 + 1 - steps.length = 0 by omega,
      List.getElem?_cons_zero, Option.some.injEq] at hresult
    rw [← hresult]
    refine hlast call ?_ hkind
    rw [List.getLast?_eq_getElem?]
    exact hcall

/-- The steps of a run after a commit. -/
theorem stepsOf_flush (db : Database) (runId : ℕ) (run : AgentRun) (added : List Added) :
    stepsOf (db.flush runId run added) runId =
      stepsOf db runId ++ (added.filterMap Added.step?).filter fun step => step.runId = runId := by
  rw [stepsOf, Database.steps_flush, List.filter_append]
  rfl

/-- The loop between two statements: nothing is pending, the run has `n` steps, and the history so
far is transcribed. -/
structure Tracks (E : Setting) (runId n : ℕ) (l : Loop) : Prop where
  id : l.state.runId = runId
  added : l.state.added = []
  row : ∃ run, l.state.committed.runs.find? runId = some run
  ordinals : (stepsOf l.state.committed runId).map (·.ordinal) = List.range n
  paired : Paired (stepsOf l.state.committed runId)
  stepCount : l.state.run.stepCount = n
  prompt : l.state.run.promptTokens = promptTokens l.log
  completion : l.state.run.completionTokens = completionTokens l.log
  ledger : ∀ days table, (∀ n < E.maxSteps.toNat, E.today n ∈ days) →
    spentOn none days (upserted l.upserts table) =
      spentOn none days table + (promptTokens l.log + completionTokens l.log)
  transcribed : Transcribed E runId l.log

section Step

variable {E} {runId n : ℕ} {l : Loop}

/-- **A commit** of the run object with the steps that are pending. -/
theorem Tracks.commit (h : Tracks E runId n l) (run : AgentRun) (steps : List AgentStep)
    {m : ℕ} (hordinals : List.range n ++ steps.map (·.ordinal) = List.range m)
    (hid : ∀ step ∈ steps, step.runId = runId)
    (hpaired : Paired (stepsOf l.state.committed runId ++ steps)) (hcount : run.stepCount = m)
    (hprompt : run.promptTokens = l.state.run.promptTokens)
    (hcompletion : run.completionTokens = l.state.run.completionTokens) {s : State}
    (hs : s = { l.state with
      run := run
      committed := l.state.committed.flush runId run (steps.map .step)
      added := [] }) :
    Tracks E runId m ({ l with state := s }.saw (.committed s.committed l.upserts)) ∧
      stepsOf s.committed runId = stepsOf l.state.committed runId ++ steps := by
  subst hs
  obtain ⟨old, hold⟩ := h.row
  have hrow : (l.state.committed.flush runId run (steps.map .step)).runs.find? runId =
      some run := by
    rw [Database.find?_flush, hold, Option.map_some, if_pos rfl]
  have hsteps : stepsOf (l.state.committed.flush runId run (steps.map .step)) runId =
      stepsOf l.state.committed runId ++ steps := by
    rw [stepsOf_flush, List.filterMap_map]
    congr 1
    have hsome : steps.filterMap (Added.step? ∘ Added.step) = steps := List.filterMap_some
    rw [hsome, List.filter_eq_self]
    exact fun step hstep => decide_eq_true (hid step hstep)
  have hrange : (stepsOf (l.state.committed.flush runId run (steps.map .step)) runId).map
      (·.ordinal) = List.range m := by
    rw [hsteps, List.map_append, h.ordinals, hordinals]
  have hlength := congrArg List.length hrange
  rw [List.length_map, List.length_range] at hlength
  refine ⟨⟨h.id, rfl, ⟨run, hrow⟩, hrange, by rw [← hsteps] at hpaired; exact hpaired, hcount,
    ?_, ?_, fun days table hdays => ?_, ?_⟩, hsteps⟩
  · show run.promptTokens = _
    rw [Loop.saw, promptTokens_concat, hprompt, h.prompt]
    exact (Int.add_zero _).symm
  · show run.completionTokens = _
    rw [Loop.saw, completionTokens_concat, hcompletion, h.completion]
    exact (Int.add_zero _).symm
  · rw [Loop.saw, promptTokens_concat, completionTokens_concat]
    exact (h.ledger days table hdays).trans (by simp [promptTokens, completionTokens, turns])
  · refine h.transcribed.concat (fun db upserts heq => ?_) nofun nofun
    obtain ⟨rfl, rfl⟩ := Event.committed.inj heq
    refine ⟨?_, by rw [← hsteps] at hpaired; exact hpaired, ⟨run, hrow, ?_, ?_, ?_⟩, h.ledger⟩
    · rw [hrange, hlength]
    · rw [hcount, hlength]
    · rw [hprompt, h.prompt]
    · rw [hcompletion, h.completion]

/-- `_record`. -/
theorem Tracks.record (h : Tracks E runId n l) (hordinal : l.state.ordinal = n)
    {payload : StepPayload} {toolName : Option String}
    (hlast : ∀ call, (stepsOf l.state.committed runId).getLast? = some call →
      isToolCall call.payload = true →
        isToolResult payload = true ∧ toolName = call.toolName) :
    Leaves (l.record payload toolName)
      (fun l' => Tracks E runId (n + 1) l' ∧ l'.state.ordinal = n ∧
        (stepsOf l'.state.committed runId).getLast? = some ⟨runId, n, toolName, payload⟩ ∧
        requests l'.log = requests l.log)
      (fun l' => Transcribed E runId l'.log) := by
  obtain rfl := h.id
  obtain rfl := hordinal
  rw [Loop.record, State.record, State.commit]
  split_ifs
  · obtain ⟨htracks, hsteps⟩ := h.commit { l.state.run with stepCount := l.state.ordinal + 1 }
      [⟨l.state.runId, l.state.ordinal, toolName, payload⟩] (by rw [List.range_succ]; rfl)
      (List.forall_mem_singleton.mpr rfl) (h.paired.concat hlast) rfl rfl rfl rfl
    have hadded : l.state.added ++
        [Added.step ⟨l.state.runId, l.state.ordinal, toolName, payload⟩] =
          [⟨l.state.runId, l.state.ordinal, toolName, payload⟩].map Added.step := by
      rw [h.added]
      rfl
    rw [hadded]
    refine ⟨htracks, rfl, ?_, (requests_concat _ _).trans (Nat.add_zero _)⟩
    exact (congrArg List.getLast? hsteps).trans List.getLast?_concat
  · exact h.transcribed

/-- `_finish`. -/
theorem Tracks.finish (h : Tracks E runId n l) (status : RunStatus) (reason : Option String)
    (now : Instant) :
    Leaves (l.finish status reason now) (fun l' => Transcribed E runId l'.log)
      (fun l' => Transcribed E runId l'.log) := by
  obtain rfl := h.id
  rw [Loop.finish, State.finish, State.commit]
  split_ifs
  · have hadded : l.state.added = ([] : List AgentStep).map Added.step := h.added
    rw [hadded]
    exact (h.commit { l.state.run with
      status := status, failureReason := reason, finishedAt := some now } []
      (List.append_nil _) (List.forall_mem_nil _) (by rw [List.append_nil]; exact h.paired)
      h.stepCount rfl rfl rfl).1.transcribed
  · exact h.transcribed

/-- An event that changes no table and is no turn. -/
theorem Tracks.saw (h : Tracks E runId n l) {e : Event} (hturns : turns [e] = [])
    (htranscribed : Transcribed E runId (l.log ++ [e])) : Tracks E runId n (l.saw e) := by
  have hprompt : promptTokens (l.log ++ [e]) = promptTokens l.log := by
    rw [promptTokens, turns_concat, hturns, List.append_nil]
    rfl
  have hcompletion : completionTokens (l.log ++ [e]) = completionTokens l.log := by
    rw [completionTokens, turns_concat, hturns, List.append_nil]
    rfl
  refine ⟨h.id, h.added, h.row, h.ordinals, h.paired, h.stepCount, ?_, ?_,
    fun days table hdays => ?_, htranscribed⟩
  · exact h.prompt.trans hprompt.symm
  · exact h.completion.trans hcompletion.symm
  · rw [Loop.saw, hprompt, hcompletion]
    exact h.ledger days table hdays

/-- What a turn adds to the ledger. -/
theorem spentOn_spend {days : Finset Day} {n : ℕ} (hday : E.today n ∈ days) (spent : ℤ)
    (table : SpendTable) :
    spentOn none days (upserted (E.spend n spent) table) = spentOn none days table + spent := by
  rw [Setting.spend]
  split_ifs with hspent
  · rw [hspent, add_zero]
    rfl
  · dsimp only
    split
    · exact @spentOn_increment days ⟨none, spent, 1, none⟩ _ rfl hday table
    · exact @spentOn_increment days ⟨none, spent, 1, none⟩ _ rfl hday table

/-- `_charge` of a turn that came back. -/
theorem Tracks.charge (h : Tracks E runId n l) {m : ℕ} (hm : m < E.maxSteps.toNat)
    (turn : AgentTurn) :
    Leaves ((l.saw (.received turn)).charge E m turn)
      (fun l' => Tracks E runId n l' ∧ l'.state.ordinal = l.state.ordinal ∧
        l'.state.committed = l.state.committed ∧ requests l'.log = requests l.log)
      (fun l' => Transcribed E runId l'.log) := by
  have htranscribed : Transcribed E runId (l.log ++ [.received turn]) :=
    h.transcribed.concat nofun nofun nofun
  rw [Loop.charge, State.charge]
  dsimp only
  split_ifs
  · refine ⟨⟨h.id, h.added, h.row, h.ordinals, h.paired, h.stepCount, ?_, ?_,
      fun days table hdays => ?_, htranscribed⟩, rfl, rfl,
      (requests_concat _ _).trans (Nat.add_zero _)⟩
    · rw [Loop.saw, promptTokens_concat, ← h.prompt]
      simp [promptTokens, turns]
    · rw [Loop.saw, completionTokens_concat, ← h.completion]
      simp [completionTokens, turns]
    · have hupserted : ∀ u v, upserted (u ++ v) table = upserted v (upserted u table) := fun u v =>
        List.foldl_append
      rw [hupserted, spentOn_spend (hdays m hm), Loop.saw, promptTokens_concat,
        completionTokens_concat, h.ledger days table hdays]
      simp [promptTokens, completionTokens, turns]
      ring
  · exact htranscribed

/-- `_run_tool` adds no step and dispatches only what the catalogue has. -/
theorem Tracks.runTool (h : Tracks E runId n l) (m j : ℕ) (call : ToolCall) :
    ∃ l' stored reply, l.runTool P E m j call = (l', stored, reply) ∧ Tracks E runId n l' ∧
      l'.state.ordinal = l.state.ordinal ∧ l'.state.committed = l.state.committed ∧
        requests l'.log = requests l.log := by
  rw [Loop.runTool]
  split_ifs with hknown
  · have hsaw : Tracks E runId n (l.saw (.dispatched call.name call.arguments)) := by
      refine h.saw rfl (h.transcribed.concat nofun nofun fun name arguments heq => ?_)
      obtain ⟨rfl, -⟩ := Event.dispatched.inj heq
      exact hknown
    have hrequests : requests (l.log ++ [.dispatched call.name call.arguments]) = requests l.log :=
      (requests_concat _ _).trans (Nat.add_zero _)
    dsimp only
    split
    · exact ⟨_, _, _, rfl, ⟨hsaw.id, hsaw.added, hsaw.row, hsaw.ordinals, hsaw.paired,
        hsaw.stepCount, hsaw.prompt, hsaw.completion, hsaw.ledger, hsaw.transcribed⟩, rfl, rfl,
        hrequests⟩
    · exact ⟨_, _, _, rfl, ⟨hsaw.id, hsaw.added, hsaw.row, hsaw.ordinals, hsaw.paired,
        hsaw.stepCount, hsaw.prompt, hsaw.completion, hsaw.ledger, hsaw.transcribed⟩, rfl, rfl,
        hrequests⟩
  · exact ⟨l, _, _, rfl, h, rfl, rfl, rfl⟩

/-- The loop between two calls, after `k` requests: no call is without its result. -/
structure Ready (E : Setting) (runId k : ℕ) (l : Loop) : Prop where
  tracks : Tracks E runId l.state.ordinal l
  closed : ∀ last, (stepsOf l.state.committed runId).getLast? = some last →
    isToolCall last.payload = false
  count : requests l.log = k

/-- **One call.** -/
theorem Ready.performCall {k : ℕ} (h : Ready E runId k l) (m j : ℕ) (call : ToolCall) :
    Leaves (l.performCall P E m j call) (Ready E runId k)
      (fun l' => Transcribed E runId l'.log) := by
  obtain ⟨htracks, hclosed, hrequests⟩ := h
  have hsaid : ∀ {k : ℕ} {l : Loop} (message : Message), Tracks E runId k l →
      Tracks E runId k (l.said message) := fun message h =>
    ⟨h.id, h.added, h.row, h.ordinals, h.paired, h.stepCount, h.prompt, h.completion, h.ledger,
      h.transcribed⟩
  rw [Loop.performCall]
  refine ((hsaid _ htracks).record rfl fun last hlast hkind => ?_).bind ?_
  · rw [hclosed last hlast] at hkind
    exact absurd hkind Bool.false_ne_true
  · rintro l₁ ⟨htracks₁, hordinal₁, hlast₁, hrequests₁⟩
    have hnext : Tracks E runId (l.state.ordinal + 1) l₁.next :=
      ⟨htracks₁.id, htracks₁.added, htracks₁.row, htracks₁.ordinals, htracks₁.paired,
        htracks₁.stepCount, htracks₁.prompt, htracks₁.completion, htracks₁.ledger,
        htracks₁.transcribed⟩
    obtain ⟨l₂, stored, reply, hrun, htracks₂, hordinal₂, hcommitted₂, hrequests₂⟩ :=
      hnext.runTool P m j call
    have hordinal : l₂.state.ordinal = l.state.ordinal + 1 := by
      rw [hordinal₂]
      exact congrArg (· + 1) hordinal₁
    rw [hrun]
    refine ((hsaid (.functionCallOutput call.callId reply) htracks₂).record hordinal
      fun last hlast _ => ?_).bind ?_
    · -- the step before the result is its call
      have hcommitted : stepsOf (l₂.said (.functionCallOutput call.callId reply)).state.committed
          runId = stepsOf l₁.state.committed runId := congrArg (stepsOf · runId) hcommitted₂
      rw [hcommitted, hlast₁, Option.some.injEq] at hlast
      exact ⟨rfl, by rw [← hlast]⟩
    · rintro l₃ ⟨htracks₃, hordinal₃, hlast₃, hrequests₃⟩
      refine ⟨⟨htracks₃.id, htracks₃.added, htracks₃.row, ?_, htracks₃.paired, ?_,
        htracks₃.prompt, htracks₃.completion, htracks₃.ledger, htracks₃.transcribed⟩,
        fun last hlast => ?_, ?_⟩
      · show _ = List.range (l₃.state.ordinal + 1)
        rw [hordinal₃]
        exact htracks₃.ordinals
      · show _ = l₃.state.ordinal + 1
        rw [hordinal₃]
        exact htracks₃.stepCount
      · have hlast' : (stepsOf l₃.state.committed runId).getLast? = some last := hlast
        rw [hlast₃, Option.some.injEq] at hlast'
        rw [← hlast']
        rfl
      · exact hrequests₃.trans (hrequests₂.trans (hrequests₁.trans hrequests))

/-- The calls of a turn. -/
theorem Ready.performCalls {k : ℕ} (h : Ready E runId k l) (m j : ℕ) (calls : List ToolCall) :
    Leaves (performCalls P E m j calls l) (Ready E runId k)
      (fun l' => Transcribed E runId l'.log) := by
  induction calls generalizing j l with
  | nil => exact h
  | cons call calls ih => exact (h.performCall P m j call).bind fun l' hl' => ih hl' (j + 1)

/-- The events before a turn that comes back. -/
theorem Ready.requested {k : ℕ} (h : Ready E runId k l) (hk : k < E.maxSteps.toNat) {m : ℕ}
    (hgranted : E.granted m = true) :
    Tracks E runId l.state.ordinal ((l.saw (.checked (E.granted m))).saw .requested) ∧
      requests ((l.saw (.checked (E.granted m))).saw .requested).log = k + 1 := by
  have hchecked : requests (l.log ++ [.checked (E.granted m)]) = k :=
    (requests_concat _ _).trans h.count
  have htranscribed : Transcribed E runId (l.log ++ [.checked (E.granted m)]) :=
    h.tracks.transcribed.concat nofun nofun nofun
  refine ⟨(h.tracks.saw rfl htranscribed).saw rfl ?_, ?_⟩
  · refine htranscribed.concat nofun (fun _ => ?_) nofun
    exact ⟨by rw [List.getLast?_concat, hgranted], hchecked.symm ▸ hk⟩
  · exact (requests_concat _ _).trans (by rw [Loop.saw, hchecked]; rfl)

/-- **The loop**, with as many turns left as the ceiling allows. -/
theorem Ready.loop {left k : ℕ} (h : Ready E runId k l) (hk : k + left = E.maxSteps.toNat) :
    Leaves (loop P E left k l) (fun r => Transcribed E runId r.1.log)
      (fun l' => Transcribed E runId l'.log) := by
  induction left generalizing k l with
  | zero => exact (h.tracks.finish _ _ _).bind fun _ hl => hl
  | succ left ih =>
      rw [Transcript.loop]
      dsimp only
      split_ifs with hrefused
      · have hsaw : Tracks E runId l.state.ordinal (l.saw (.checked (E.granted k))) :=
          h.tracks.saw rfl (h.tracks.transcribed.concat nofun nofun nofun)
        exact (hsaw.finish _ _ _).bind fun _ hl => hl
      · obtain ⟨htracks, hrequests⟩ := h.requested (by omega) (Bool.not_eq_false _ ▸ hrefused)
        cases E.respond k with
        | none => exact htracks.transcribed
        | some turn =>
            refine (htracks.charge (by omega) turn).bind ?_
            rintro l₁ ⟨htracks₁, hordinal₁, hcommitted₁, hrequests₁⟩
            have hready : Ready E runId (k + 1) l₁ := by
              refine ⟨by rw [hordinal₁]; exact htracks₁, ?_, hrequests₁.trans hrequests⟩
              rw [hcommitted₁]
              exact h.closed
            split_ifs
            · refine (hready.tracks.record rfl fun last hlast hkind => ?_).bind
                fun l₂ hl₂ => (hl₂.1.finish _ _ _).bind fun _ hl => hl
              rw [hready.closed last hlast] at hkind
              exact absurd hkind Bool.false_ne_true
            · exact (hready.performCalls P k 0 turn.toolCalls).bind fun l₂ hl₂ =>
                ih hl₂ (by omega)

end Step

/-! ## Every history -/

/-- A run that has not begun: its row is there, without steps and without tokens. -/
structure Fresh (s : State) : Prop where
  row : ∃ run, s.committed.runs.find? s.runId = some run
  steps : stepsOf s.committed s.runId = []
  added : s.added = []
  stepCount : s.run.stepCount = 0
  promptTokens : s.run.promptTokens = 0
  completionTokens : s.run.completionTokens = 0

variable {P E}

/-- The history that a loop leaves, however it ends. -/
def history : Except Loop (Loop × String) → List Event
  | .ok r => r.1.log
  | .error l => l.log

/-- **Every history of the loop is transcribed**, whatever the turns are, however the calls end, and
wherever an exception leaves it. -/
theorem loop_transcribed {s : State} (h : Fresh s) (opening : String) :
    Transcribed E s.runId (history (runLoop P E s opening)) := by
  have hready : Ready E s.runId 0
      ⟨{ s with conversation := [.user opening], ordinal := 0 }, [], []⟩ := by
    refine ⟨⟨rfl, h.added, h.row, ?_, ?_, h.stepCount, h.promptTokens, h.completionTokens,
      fun days table _ => (add_zero _).symm, ?_⟩, fun last hlast => ?_, rfl⟩
    · exact congrArg (List.map (·.ordinal)) h.steps
    · intro i call result hcall
      have hnone : ([] : List AgentStep)[i]? = some call := h.steps ▸ hcall
      cases hnone
    · exact ⟨fun past _ _ _ heq => absurd heq (by simp), Nat.zero_le _,
        fun past _ heq => absurd heq (by simp), fun _ _ hmem => absurd hmem List.not_mem_nil⟩
    · have hnone : ([] : List AgentStep).getLast? = some last := h.steps ▸ hlast
      cases hnone
  have hloop := hready.loop P (Nat.zero_add _)
  rw [runLoop]
  cases hrun : loop P E E.maxSteps.toNat 0
      ⟨{ s with conversation := [.user opening], ordinal := 0 }, [], []⟩ with
  | ok r =>
      rw [hrun] at hloop
      exact hloop
  | error l =>
      rw [hrun] at hloop
      exact hloop

/-! ## The loop of an analysis -/

section Analysis

variable (env : Environment) (organizationId : ℕ)

/-- What `analyse_supplier` gives to `run_loop`; a ledger with nothing or everything of the day
spent answers the check as the environment does. -/
def analysis : Setting where
  tools := toolCatalogue
  maxSteps := maxSteps
  respond := env.respond
  dispatch n j name arguments := Agents.dispatch (env.handlers n j) name arguments organizationId
  collect := eventKeysIn
  dailyBudget := none
  before n _ := if env.withinBudget n then none else some ⟨500000, 0⟩
  charging _ _ := none
  checkedOn _ := 0
  consumedOn _ := 0
  today _ := 0
  charged := env.charged
  finishedAt := env.finishedAt

theorem granted_analysis (n : ℕ) :
    (analysis env organizationId).granted n = env.withinBudget n := by
  have hledger : (analysis env organizationId).before n = fun _ =>
      if env.withinBudget n then none else some ⟨500000, 0⟩ := rfl
  rw [Setting.granted, hledger]
  cases env.withinBudget n <;> rfl

/-- A computation of the loop as one of the state alone. -/
def erased {α β : Type} (r : α → β) (x : Except Loop α) : Except State β :=
  (x.mapError Loop.state).map r

theorem erased_bind {α β γ δ : Type} {r : α → β} {r' : γ → δ} {x : Except Loop α}
    {y : Except State β} {f : α → Except Loop γ} {g : β → Except State δ} (hx : erased r x = y)
    (hf : ∀ a, erased r' (f a) = g (r a)) : erased r' (x >>= f) = y >>= g := by
  subst hx
  cases x with
  | ok a => exact hf a
  | error l => rfl

theorem erased_committing (l : Loop) (x : Except State State) :
    erased Loop.state (l.committing x) = x := by
  cases x <;> rfl

variable (P)

theorem erased_charge (l : Loop) (n : ℕ) (turn : AgentTurn) :
    erased Loop.state (l.charge (analysis env organizationId) n turn) =
      l.state.charge (env.charged n) turn := by
  have hcharged : (analysis env organizationId).charged n = env.charged n := rfl
  rw [Loop.charge, hcharged]
  cases l.state.charge (env.charged n) turn <;> rfl

/-- A tool is run alike. -/
theorem runTool_analysis (l : Loop) (n j : ℕ) (call : ToolCall) :
    ∃ l' stored reply, l.runTool P (analysis env organizationId) n j call = (l', stored, reply) ∧
      l.state.runTool P (env.handlers n j) organizationId call = (l'.state, stored, reply) := by
  have hknown : (analysis env organizationId).tools.map (·.name) = knownTools := rfl
  have hdispatch : (analysis env organizationId).dispatch n j call.name call.arguments =
      Agents.dispatch (env.handlers n j) call.name call.arguments organizationId := rfl
  rw [Loop.runTool, State.runTool, State.boundDispatch, hknown, hdispatch]
  by_cases hname : call.name ∉ knownTools
  · rw [if_pos hname, if_pos hname]
    exact ⟨_, _, _, rfl, rfl⟩
  · rw [if_neg hname, if_neg hname]
    cases Agents.dispatch (env.handlers n j) call.name call.arguments organizationId with
    | result v => exact ⟨_, _, _, rfl, rfl⟩
    | raised transactionAborted => exact ⟨_, _, _, rfl, rfl⟩

theorem erased_performCall (l : Loop) (n j : ℕ) (call : ToolCall) :
    erased Loop.state (l.performCall P (analysis env organizationId) n j call) =
      l.state.performCall P (env.handlers n j) organizationId call := by
  rw [Loop.performCall, State.performCall]
  refine erased_bind (erased_committing _ _) fun l₁ => ?_
  obtain ⟨l₂, stored, reply, hloop, hstate⟩ :=
    runTool_analysis P env organizationId l₁.next n j call
  rw [hloop]
  have hstate' : State.runTool P { l₁.state with ordinal := l₁.state.ordinal + 1 }
      (env.handlers n j) organizationId call = (l₂.state, stored, reply) := hstate
  rw [hstate']
  exact erased_bind (erased_committing _ _) fun l₃ => rfl

theorem erased_performCalls (n j : ℕ) (calls : List ToolCall) (l : Loop) :
    erased Loop.state (performCalls P (analysis env organizationId) n j calls l) =
      Agents.performCalls P (env.handlers n) organizationId j calls l.state := by
  induction calls generalizing j l with
  | nil => rfl
  | cons call calls ih =>
      exact erased_bind (erased_performCall P env organizationId l n j call) fun l' => ih (j + 1) l'

/-- **The loop of an analysis** is the loop with the tool catalogue and its dispatcher, without its
history. -/
theorem runLoop_eq_loop (left n : ℕ) (l : Loop) :
    erased (Prod.map Loop.state id) (loop P (analysis env organizationId) left n l) =
      Agents.runLoop P env organizationId left n l.state := by
  induction left generalizing n l with
  | zero => exact erased_bind (erased_committing _ _) fun _ => rfl
  | succ left ih =>
      have hrespond : (analysis env organizationId).respond n = env.respond n := rfl
      rw [loop, Agents.runLoop, granted_analysis, hrespond]
      dsimp only
      split_ifs
      · exact erased_bind (erased_committing _ _) fun _ => rfl
      · cases env.respond n with
        | none => rfl
        | some turn =>
            refine erased_bind (erased_charge env organizationId _ n turn) fun l₁ => ?_
            split_ifs
            · exact erased_bind (erased_committing _ _) fun l₂ =>
                erased_bind (erased_committing _ _) fun _ => rfl
            · exact erased_bind (erased_performCalls P env organizationId n 0 _ l₁) fun l₂ =>
                ih (n + 1) l₂

end Analysis

/-- A run that `analyse_supplier` has created is fresh. -/
theorem fresh_begin {db : Database} (hdb : db.StepsHaveRuns) (P : Python) (env : Environment)
    (publicId : String) (organizationId userId : ℕ) (supplierPublicId : String)
    (supplier : Supplier) :
    Fresh (State.begin P db (newRun env publicId organizationId userId supplierPublicId)
      supplier) where
  row := ⟨newRun env publicId organizationId userId supplierPublicId, by
    show (db.runs.insert _).find? db.runs.nextId = some _
    rw [Table.find?_insert, if_pos rfl]⟩
  steps := by
    refine List.filter_eq_nil_iff.mpr fun step hstep hid => ?_
    obtain ⟨run, hrun⟩ := hdb step hstep
    rw [of_decide_eq_true hid] at hrun
    exact absurd (hrun.symm.trans (Table.find?_nextId db.runs)) nofun
  added := rfl
  stepCount := rfl
  promptTokens := rfl
  completionTokens := rfl

/-- A client that asks for a tool and for one that the catalogue does not have, with one step. -/
def probing : Setting :=
  { analysis (oneLook "") 1 with
    maxSteps := 1
    respond := fun _ => some ⟨none, [⟨"call-0", "list_risk_events", []⟩,
      ⟨"call-1", "delete_supplier", []⟩], 10, 5⟩ }

/-- The run that it is asked in. -/
def probed : State :=
  State.begin (decodingTo .null) oneSupplier (newRun (oneLook "") "run-1" 1 1 "acme")
    ⟨"acme", "Acme", "acme", none, none, true⟩

/-- The history of that run is transcribed. -/
theorem probed_transcribed :
    Transcribed probing probed.runId (history (runLoop (decodingTo .null) probing probed "")) :=
  loop_transcribed (fresh_begin oneSupplier_stepsHaveRuns _ _ _ _ _ _ _) ""

end ProcureSignal.Agents.Transcript
