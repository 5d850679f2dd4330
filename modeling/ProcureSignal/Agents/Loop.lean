/-
# The bounded loop

`run_loop` of `agents/loop.py`: every turn asks the daily budget, then the model, charges the
answer, and either finishes with the text of the answer or performs the tool calls one after
another, each recorded before and after.

* `Environment` is what the loop does not control: the budget, the client, the handlers.
  The client answers by the number of the request, whatever the conversation was.
* `bound_dispatch` is the closure of `agents/analysis.py`, which collects the event keys.
-/
import ProcureSignal.Agents.Tools
import ProcureSignal.Library.Outcome

namespace ProcureSignal.Agents

open Retrieval (Json)

/-! ## The environment -/

/-- `AgentTurn`. -/
structure AgentTurn where
  text : Option String
  toolCalls : List ToolCall
  promptTokens : ℤ
  completionTokens : ℤ

/-- `turn.text or ""`. -/
def AgentTurn.reply (turn : AgentTurn) : String := turn.text.getD ""

/-- What the loop meets. -/
structure Environment where
  clientName : String
  /-- `within_budget` before a turn -/
  withinBudget : ℕ → Bool
  /-- `client.respond`; an exception is `none` -/
  respond : ℕ → Option AgentTurn
  /-- whether the statements that charge a turn go through -/
  charged : ℕ → Bool
  /-- the handlers, by turn and by position in the turn -/
  handlers : ℕ → ℕ → Handlers
  startedAt : Instant
  finishedAt : Instant

/-- `MAX_STEPS`. -/
def maxSteps : ℕ := 8

/-! ## Event keys -/

mutual

/-- `event_keys_in`: every `event_key` anywhere in a value. -/
def eventKeysIn : Json → List String
  | .object fields =>
      (match get fields "event_key" with
        | .string key => if key = "" then [] else [key]
        | _ => []) ++ eventKeysInFields fields
  | .array items => eventKeysInItems items
  | _ => []

def eventKeysInItems : List Json → List String
  | [] => []
  | item :: items => eventKeysIn item ++ eventKeysInItems items

def eventKeysInFields : List (String × Json) → List String
  | [] => []
  | (_, value) :: fields => eventKeysIn value ++ eventKeysInFields fields

end

/-- The text occurs as an `event_key` in the value. -/
inductive HasEventKey (key : String) : Json → Prop
  | own {fields : List (String × Json)} :
      get fields "event_key" = .string key → key ≠ "" → HasEventKey key (.object fields)
  | field {fields : List (String × Json)} {name : String} {value : Json} :
      (name, value) ∈ fields → HasEventKey key value → HasEventKey key (.object fields)
  | item {items : List Json} {item : Json} :
      item ∈ items → HasEventKey key item → HasEventKey key (.array items)

/-! ## One turn -/

/-- `_record`: the step is committed before anything else happens. -/
def State.record (s : State) (payload : StepPayload) (toolName : Option String) :
    Except State State :=
  State.commit { s with
    added := s.added ++ [.step ⟨s.runId, s.ordinal, toolName, payload⟩]
    run := { s.run with stepCount := s.ordinal + 1 } }

/-- `_finish`. -/
def State.finish (s : State) (status : RunStatus) (reason : Option String) (now : Instant) :
    Except State State :=
  State.commit { s with
    run := { s.run with status := status, failureReason := reason, finishedAt := some now } }

/-- `_charge`; the statements are skipped where nothing was spent. -/
def State.charge (s : State) (charged : Bool) (turn : AgentTurn) : Except State State :=
  let spent := turn.promptTokens + turn.completionTokens
  if spent = 0 ∨ charged = true then
    .ok { s with run := { s.run with
      promptTokens := s.run.promptTokens + turn.promptTokens
      completionTokens := s.run.completionTokens + turn.completionTokens } }
  else .error s

/-- `bound_dispatch`: the organization is the caller's; a value that is returned adds its
event keys to what counts as evidence. -/
def State.boundDispatch (s : State) (handlers : Handlers) (organizationId : ℕ)
    (call : ToolCall) : State × ToolAnswer :=
  match dispatch handlers call.name call.arguments organizationId with
  | .result v =>
      ({ s with verified := s.verified ++ eventKeysIn v }, .result v)
  | .raised transactionAborted =>
      ({ s with aborted := s.aborted || transactionAborted }, .raised transactionAborted)

/-- `_run_tool`: what to store and what to tell the model. -/
def State.runTool (P : Python) (s : State) (handlers : Handlers) (organizationId : ℕ)
    (call : ToolCall) : State × Json × String :=
  if call.name ∉ knownTools then
    let message := "unknown tool " ++ P.repr call.name ++ "; use only the tools provided"
    (s, .object [("error", .string message)], message)
  else
    match s.boundDispatch handlers organizationId call with
    | (s', .result v) => (s', v, P.dumps v)
    | (s', .raised _) =>
        let message := "tool " ++ P.repr call.name ++ " failed"
        (s', .object [("error", .string message)], message)

/-- The call is written into the transcript, run, and its result written after it. -/
def State.performCall (P : Python) (s : State) (handlers : Handlers) (organizationId : ℕ)
    (call : ToolCall) : Except State State := do
  let s ← State.record { s with
      conversation := s.conversation ++
        [.functionCall call.callId call.name (P.dumps (.object call.arguments))] }
    (.toolCall call.callId call.arguments) (some call.name)
  let (s, stored, reply) :=
    State.runTool P { s with ordinal := s.ordinal + 1 } handlers organizationId call
  let s ← State.record { s with
      conversation := s.conversation ++ [.functionCallOutput call.callId reply] }
    (.toolResult stored) (some call.name)
  return { s with ordinal := s.ordinal + 1 }

/-- The calls of one turn; `position` counts them. -/
def performCalls (P : Python) (handlers : ℕ → Handlers) (organizationId : ℕ) :
    ℕ → List ToolCall → State → Except State State
  | _, [], s => .ok s
  | position, call :: calls, s => do
      let s ← s.performCall P (handlers position) organizationId call
      performCalls P handlers organizationId (position + 1) calls s

/-- `run_loop`, with the number of turns that are left and the number of the turn that comes;
the text is the answer of the model. -/
def runLoop (P : Python) (env : Environment) (organizationId : ℕ) :
    ℕ → ℕ → State → Except State (State × String)
  | 0, _, s => do
      let s ← s.finish .failed (some "step_ceiling") env.finishedAt
      return (s, "")
  | left + 1, n, s =>
      if env.withinBudget n = false then do
        let s ← s.finish .failed (some "budget_exhausted") env.finishedAt
        return (s, "")
      else
        match env.respond n with
        | none => .error s
        | some turn => do
            let s ← s.charge (env.charged n) turn
            if turn.toolCalls = [] then
              let s ← s.record (.modelMessage turn.reply) none
              let s ← s.finish .completed none env.finishedAt
              return (s, turn.reply)
            else
              let s ← performCalls P (env.handlers n) organizationId 0 turn.toolCalls s
              runLoop P env organizationId left (n + 1) s

/-! ## The keys a walk finds -/

mutual

theorem mem_eventKeysIn {key : String} : ∀ v : Json, key ∈ eventKeysIn v ↔ HasEventKey key v
  | .object fields => by
      rw [eventKeysIn, List.mem_append, mem_eventKeysInFields fields]
      constructor
      · rintro (h | ⟨name, value, hmem, hvalue⟩)
        · split at h
          · rename_i own hown
            split_ifs at h with hempty
            · cases h
            · obtain rfl := List.mem_singleton.mp h
              exact .own hown hempty
          · cases h
        · exact .field hmem hvalue
      · intro h
        cases h with
        | own hown hempty =>
            left
            rw [hown]
            dsimp only
            rw [if_neg hempty]
            exact List.mem_singleton_self _
        | field hmem hvalue => exact Or.inr ⟨_, _, hmem, hvalue⟩
  | .array items => by
      rw [eventKeysIn, mem_eventKeysInItems items]
      constructor
      · rintro ⟨item, hmem, hitem⟩
        exact .item hmem hitem
      · intro h
        cases h with
        | item hmem hitem => exact ⟨_, hmem, hitem⟩
  | .null => iff_of_false (by simp [eventKeysIn]) (fun h => nomatch h)
  | .bool _ => iff_of_false (by simp [eventKeysIn]) (fun h => nomatch h)
  | .number _ => iff_of_false (by simp [eventKeysIn]) (fun h => nomatch h)
  | .string _ => iff_of_false (by simp [eventKeysIn]) (fun h => nomatch h)

theorem mem_eventKeysInItems {key : String} :
    ∀ items : List Json, key ∈ eventKeysInItems items ↔ ∃ item ∈ items, HasEventKey key item
  | [] => by simp [eventKeysInItems]
  | item :: items => by
      rw [eventKeysInItems, List.mem_append, mem_eventKeysIn item, mem_eventKeysInItems items,
        List.exists_mem_cons_iff]

theorem mem_eventKeysInFields {key : String} :
    ∀ fields : List (String × Json), key ∈ eventKeysInFields fields ↔
      ∃ name value, (name, value) ∈ fields ∧ HasEventKey key value
  | [] => by simp [eventKeysInFields]
  | (name, value) :: fields => by
      rw [eventKeysInFields, List.mem_append, mem_eventKeysIn value, mem_eventKeysInFields fields]
      constructor
      · rintro (h | ⟨name', value', hmem, h⟩)
        · exact ⟨name, value, List.mem_cons_self, h⟩
        · exact ⟨name', value', List.mem_cons_of_mem _ hmem, h⟩
      · rintro ⟨name', value', hmem, h⟩
        rcases List.mem_cons.mp hmem with heq | hmem
        · obtain ⟨-, rfl⟩ := Prod.mk.inj heq
          exact Or.inl h
        · exact Or.inr ⟨name', value', hmem, h⟩

end

end ProcureSignal.Agents
