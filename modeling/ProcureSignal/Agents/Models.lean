/-
# The records of an analysis

The tables of `models/agents.py`, the session in which `agents/loop.py` and
`agents/analysis.py` write them, and the JSON values that pass between the model, the tools
and the tables.

* Every exception carries the state it left, so that what is committed can be read off.
* A row is checked against its columns when it is flushed; the ordinals of a run count up, so
  the constraints that make them unique have nothing to refuse.
-/
import ProcureSignal.Models
import ProcureSignal.Retrieval.Ingest

namespace ProcureSignal.Agents

open Retrieval (Json)

/-! ## JSON values in Python -/

/-- What `json.loads` does when it does not return: a `JSONDecodeError`, or another exception
(`RecursionError`, or the `ValueError` of an integer with too many digits). -/
inductive LoadsError
  | jsonDecodeError
  | other
  deriving DecidableEq, Repr

/-- What the analysis uses of the standard library. -/
structure Python where
  unicode : Unicode
  /-- `json.loads` -/
  loads : String → Except LoadsError Json
  /-- `json.dumps` -/
  dumps : Json → String
  /-- `str` of a value that is not text -/
  str : Json → String
  /-- `repr` of a text -/
  repr : String → String

/-- `str(value)`. -/
def Python.text (P : Python) : Json → String
  | .string s => s
  | v => P.str v

/-- `mapping.get(key)`. -/
def get (fields : List (String × Json)) (key : String) : Json :=
  ((fields.find? fun f => f.1 = key).map (·.2)).getD .null

/-- `for x in value or []`: the items of a list, the keys of a mapping, the characters of a
text; another value that is true raises a `TypeError`. -/
def iterate (v : Json) : Option (List Json) :=
  if v.truthy then
    match v with
    | .array items => some items
    | .object fields => some (fields.map fun f => .string f.1)
    | .string s => some (s.toList.map fun c => .string (String.singleton c))
    | _ => none
  else some []

/-- `(value or [])[:n]`: only a list and a text can be sliced. -/
def sliced (n : ℕ) (v : Json) : Option (List Json) :=
  if v.truthy then
    match v with
    | .array items => some (items.take n)
    | .string s => some ((s.toList.take n).map fun c => .string (String.singleton c))
    | _ => none
  else some []

/-- `isinstance(value, str)`. -/
def asString : Json → Option String
  | .string s => some s
  | _ => none

/-! ## Tables -/

/-- `RUN_STATUSES`. -/
inductive RunStatus
  | running
  | completed
  | failed
  deriving DecidableEq, Repr

/-- `AgentRun`. -/
structure AgentRun where
  publicId : String
  organizationId : ℕ
  requestedByUserId : ℕ
  supplierPublicId : String
  status : RunStatus
  model : String
  stepCount : ℕ
  promptTokens : ℤ
  completionTokens : ℤ
  startedAt : Instant
  finishedAt : Option Instant
  failureReason : Option String

/-- The payload of a step; its constructor is the column `kind` (`STEP_KINDS`). -/
inductive StepPayload
  | modelMessage (text : String)
  | toolCall (callId : String) (arguments : List (String × Json))
  | toolResult (stored : Json)
  | evidenceCheck (verified dropped findings : List String)

/-- The step is of kind `evidence_check`. -/
def StepPayload.isEvidenceCheck : StepPayload → Bool
  | .evidenceCheck _ _ _ => true
  | _ => false

/-- `AgentStep`. -/
structure AgentStep where
  runId : ℕ
  ordinal : ℕ
  toolName : Option String
  payload : StepPayload

/-- `RECOMMENDATION_STATUSES`. -/
inductive RecommendationStatus
  | proposed
  | approved
  | rejected
  deriving DecidableEq, Repr

/-- `AgentRecommendation`. -/
structure AgentRecommendation where
  runId : ℕ
  ordinal : ℕ
  title : String
  rationale : String
  evidenceEventKeys : List String
  status : RecommendationStatus
  decidedByUserId : Option ℕ
  decidedAt : Option Instant
  decisionNote : Option String
  deriving DecidableEq, Repr

/-- The tables that an analysis reads and writes. -/
structure Database where
  suppliers : Table Supplier
  runs : Table AgentRun
  steps : Table AgentStep
  recommendations : Table AgentRecommendation

/-- The foreign key of `agent_steps`: every step belongs to a run. -/
def Database.StepsHaveRuns (db : Database) : Prop :=
  ∀ step ∈ db.steps.values, ∃ run, db.runs.find? step.runId = some run

/-! ## The session -/

/-- A text that a column of the given length takes. -/
def fitsText (limit : Option ℕ) (s : String) : Bool := (Json.string s).fits limit false

/-- The columns take the step: `tool_name` is a `String(100)`. -/
def AgentStep.storable (step : AgentStep) : Bool := step.toolName.all (fitsText (some 100))

/-- The columns take the recommendation. -/
def AgentRecommendation.storable (r : AgentRecommendation) : Bool :=
  fitsText (some 300) r.title && fitsText none r.rationale

/-- A row added to the session and not flushed. -/
inductive Added
  | step (row : AgentStep)
  | recommendation (row : AgentRecommendation)

namespace Added

/-- The columns take the row. -/
def storable : Added → Bool
  | step row => row.storable
  | recommendation row => row.storable

/-- The row, where it is a step. -/
def step? : Added → Option AgentStep
  | step row => some row
  | recommendation _ => none

/-- The row, where it is a recommendation. -/
def recommendation? : Added → Option AgentRecommendation
  | step _ => none
  | recommendation row => some row

end Added

/-- `INSERT` of an added row. -/
def Database.insert (db : Database) : Added → Database
  | .step row => { db with steps := db.steps.insert row }
  | .recommendation row => { db with recommendations := db.recommendations.insert row }

/-- The flush of a session: the run's row takes the values of the object, the added rows are
inserted. -/
def Database.flush (db : Database) (runId : ℕ) (run : AgentRun) (added : List Added) :
    Database :=
  added.foldl Database.insert
    { db with runs := db.runs.modify fun i r => if i = runId then run else r }

namespace Database

variable (db : Database) (runId : ℕ) (run : AgentRun) (added : List Added)

/-- A flush writes the run's row and no other run. -/
theorem find?_flush (i : ℕ) : (db.flush runId run added).runs.find? i =
    (db.runs.find? i).map fun r => if i = runId then run else r := by
  have hruns : ∀ (l : List Added) (d : Database), (l.foldl insert d).runs = d.runs := by
    intro l
    induction l with
    | nil => exact fun _ => rfl
    | cons row l ih =>
        intro d
        rw [List.foldl_cons, ih]
        cases row <;> rfl
  rw [flush, hruns]
  exact Table.find?_modify _ _ i

/-- The steps after a flush. -/
theorem steps_flush : (db.flush runId run added).steps.values =
    db.steps.values ++ added.filterMap Added.step? := by
  have hsteps : ∀ (l : List Added) (d : Database), (l.foldl insert d).steps.values =
      d.steps.values ++ l.filterMap Added.step? := by
    intro l
    induction l with
    | nil => exact fun _ => (List.append_nil _).symm
    | cons row l ih =>
        intro d
        rw [List.foldl_cons, ih]
        cases row with
        | step row =>
            rw [insert, Table.values_insert, List.append_assoc]
            rfl
        | recommendation row => rfl
  exact hsteps added _

/-- The recommendations after a flush. -/
theorem recommendations_flush : (db.flush runId run added).recommendations.values =
    db.recommendations.values ++ added.filterMap Added.recommendation? := by
  have hrows : ∀ (l : List Added) (d : Database), (l.foldl insert d).recommendations.values =
      d.recommendations.values ++ l.filterMap Added.recommendation? := by
    intro l
    induction l with
    | nil => exact fun _ => (List.append_nil _).symm
    | cons row l ih =>
        intro d
        rw [List.foldl_cons, ih]
        cases row with
        | step row => rfl
        | recommendation row =>
            rw [insert, Table.values_insert, List.append_assoc]
            rfl
  exact hrows added _

end Database

/-- A tool call of the model, with arguments as `_arguments` left them. -/
structure ToolCall where
  callId : String
  name : String
  arguments : List (String × Json)

/-- An item of the conversation. -/
inductive Message
  | user (content : String)
  | functionCall (callId name arguments : String)
  | functionCallOutput (callId output : String)

/-- An analysis while it runs: what is committed, the run object with the rows added to the
session, whether the transaction has been aborted by the database, and the local variables
of the loop and of the closure that dispatches. -/
structure State where
  committed : Database
  runId : ℕ
  run : AgentRun
  added : List Added
  aborted : Bool
  conversation : List Message
  ordinal : ℕ
  verified : List String

/-- `await session.commit()`. -/
def State.commit (s : State) : Except State State :=
  if s.aborted = false ∧ ∀ row ∈ s.added, row.storable = true then
    .ok { s with committed := s.committed.flush s.runId s.run s.added, added := [] }
  else .error s

/-- The state in which an analysis left, normally or not. -/
def left : Except State State → State
  | .ok s => s
  | .error s => s

end ProcureSignal.Agents
