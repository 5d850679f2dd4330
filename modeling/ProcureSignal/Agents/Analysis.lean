/-
# The analysis

`agents/analysis.py`: the reply of the model is parsed against the contract, its citations
are checked against the event keys that tools returned, and what survives is stored together
with an `evidence_check` step.
-/
import ProcureSignal.Agents.Loop

namespace ProcureSignal.Agents

open Retrieval (Json)

variable (P : Python)

/-! ## The reply -/

/-- The rest of a text after the first occurrence of a separator. -/
def afterFirst (sep : List Char) : List Char → Option (List Char)
  | [] => if sep = [] then some [] else none
  | c :: cs =>
      if sep <+: c :: cs then some ((c :: cs).drop sep.length) else afterFirst sep cs

/-- `text.rsplit(sep, 1)[0]`: what stands before the last occurrence. -/
def beforeLast (sep cs : List Char) : List Char :=
  ((afterFirst sep.reverse cs.reverse).map List.reverse).getD cs

/-- The code fences are stripped. -/
def unfence (candidate : String) : String :=
  let fence := "```".toList
  let cs := candidate.toList
  if fence <+: cs then
    let body := (afterFirst ['\n'] cs).getD []
    P.unicode.strip (String.ofList (beforeLast fence body))
  else candidate

/-- `parse_analysis`: the fields of the object, or nothing where the reply is not one; an
exception other than a `JSONDecodeError` is not caught. -/
def parseAnalysis (text : String) : Except LoadsError (Option (List (String × Json))) :=
  if text = "" then .ok none
  else
    match P.loads (unfence P (P.unicode.strip text)) with
    | .ok (.object fields) => .ok (some fields)
    | .ok _ => .ok none
    | .error .jsonDecodeError => .ok none
    | .error .other => .error .other

/-! ## Storing -/

/-- `str(item.get(key) or "").strip()`. -/
def stripped (fields : List (String × Json)) (key : String) : String :=
  let v := get fields key
  P.unicode.strip (P.text (if v.truthy then v else .string ""))

/-- `title[:300]`. -/
def clip (title : String) : String := String.ofList (title.toList.take 300)

/-- The citations of a recommendation: the texts in `evidence_event_keys`. -/
def citations (fields : List (String × Json)) : Option (List String) :=
  (iterate (get fields "evidence_event_keys")).map (·.filterMap asString)

/-- The row of a recommendation. -/
def recommendation (runId ordinal : ℕ) (fields : List (String × Json)) (kept : List String) :
    AgentRecommendation where
  runId := runId
  ordinal := ordinal
  title := clip (stripped P fields "title")
  rationale := stripped P fields "rationale"
  evidenceEventKeys := kept
  status := .proposed
  decidedByUserId := none
  decidedAt := none
  decisionNote := none

/-- `_store_recommendations` from an ordinal on: the rows that survive and the citations that
do not; citations that cannot be iterated raise. -/
def storeRecommendations (runId : ℕ) (verified : List String) :
    ℕ → List Json → Option (List AgentRecommendation × List String)
  | _, [] => some ([], [])
  | ordinal, .object fields :: items =>
      if stripped P fields "title" = "" then storeRecommendations runId verified ordinal items
      else do
        let cited ← citations fields
        let kept := cited.filter (· ∈ verified)
        let dropped := cited.filter (· ∉ verified)
        if kept = [] then
          let rest ← storeRecommendations runId verified ordinal items
          return (rest.1, dropped ++ rest.2)
        else
          let rest ← storeRecommendations runId verified (ordinal + 1) items
          return (recommendation P runId ordinal fields kept :: rest.1, dropped ++ rest.2)
  | ordinal, _ :: items => storeRecommendations runId verified ordinal items

/-- `proposed if isinstance(proposed, list) else []`. -/
def proposedOf (analysis : List (String × Json)) : List Json :=
  match get analysis "recommendations" with
  | .array items => items
  | _ => []

/-- `sorted(verified)`. -/
def sortedSet (verified : List String) : List String :=
  verified.dedup.insertionSort (· ≤ ·)

/-- The step that records which citations survived and which were invented. -/
def State.evidenceStep (s : State) (dropped : List String) (findings : List Json) : AgentStep :=
  ⟨s.runId, s.run.stepCount, none,
    .evidenceCheck (sortedSet s.verified) dropped (findings.map P.text)⟩

/-- What happens to a parsed reply. -/
def State.store (s : State) (analysis : List (String × Json)) : Except State State :=
  match storeRecommendations P s.runId s.verified 0 (proposedOf analysis) with
  | none => .error s
  | some (rows, dropped) =>
      match sliced 20 (get analysis "findings") with
      | none => .error s
      | some findings =>
          State.commit { s with
            added := s.added ++ rows.map .recommendation ++
              [.step (s.evidenceStep P dropped findings)]
            run := { s.run with stepCount := s.run.stepCount + 1 } }

/-- The run's row takes what comes of the answer. -/
def State.conclude (s : State) (text : String) : Except State State :=
  if s.run.status ≠ .completed then .ok s
  else
    match parseAnalysis P text with
    | .error _ => .error s
    | .ok none =>
        State.commit { s with
          run := { s.run with status := .failed, failureReason := some "unparseable_output" } }
    | .ok (some analysis) => s.store P analysis

/-! ## The whole analysis -/

/-- The columns take the run. -/
def AgentRun.storable (run : AgentRun) : Bool :=
  fitsText (some 64) run.publicId && fitsText (some 64) run.supplierPublicId &&
    fitsText (some 100) run.model

/-- The active supplier with a public identifier. -/
def activeSupplier (db : Database) (publicId : String) : Option Supplier :=
  db.suppliers.values.find? fun s => s.publicId = publicId ∧ s.isActive = true

/-- The row that is created. -/
def newRun (env : Environment) (publicId : String) (organizationId userId : ℕ)
    (supplierPublicId : String) : AgentRun where
  publicId := publicId
  organizationId := organizationId
  requestedByUserId := userId
  supplierPublicId := supplierPublicId
  status := .running
  model := env.clientName
  stepCount := 0
  promptTokens := 0
  completionTokens := 0
  startedAt := env.startedAt
  finishedAt := none
  failureReason := none

/-- The state in which the run row has been created. -/
def State.begin (db : Database) (run : AgentRun) (supplier : Supplier) : State where
  committed := { db with runs := db.runs.insert run }
  runId := db.runs.nextId
  run := run
  added := []
  aborted := false
  conversation := [.user ("Assess supplier " ++ P.repr supplier.canonicalName ++
    " (public id " ++ run.supplierPublicId ++
    "). What is their current exposure, and what should we do about it?")]
  ordinal := 0
  verified := []

/-- `analyse_supplier`; `publicId` is the drawn `uuid4().hex`.  Nothing where no run row was
created: the supplier is refused, or the row does not fit its columns. -/
def analyseSupplier (env : Environment) (organizationId userId : ℕ)
    (supplierPublicId publicId : String) (db : Database) : Option (Except State State) :=
  match activeSupplier db supplierPublicId with
  | none => none
  | some supplier =>
      let run := newRun env publicId organizationId userId supplierPublicId
      if run.storable then
        some do
          let (s, text) ← runLoop P env organizationId maxSteps 0 (State.begin P db run supplier)
          s.conclude P text
      else none

end ProcureSignal.Agents
