/-
# How the loop ends

For every operation of the loop, the exact condition under which it ends normally, what holds
then, and what is committed when an exception leaves it (`Meets`).

* `Environment.TurnOk` : the model answers, the answer is charged, and every call of the
  turn can be recorded and leaves the transaction usable;
* `Environment.Reached` : the turns before asked for tools and went well;
* `runLoop_meets` : **the loop ends normally exactly when every turn it reaches goes well**.
-/
import ProcureSignal.Agents.Analysis

namespace ProcureSignal.Agents

open Retrieval (Json)

/-! ## Conditions on the environment -/

/-- The call can be written into the transcript, and if it is dispatched it does not abort the
transaction. -/
def CallOk (handlers : Handlers) (organizationId : ℕ) (call : ToolCall) : Prop :=
  fitsText (some 100) call.name = true ∧
    (call.name ∈ knownTools →
      dispatch handlers call.name call.arguments organizationId ≠ .raised true)

/-- The call returned a value in which the text occurs as an `event_key`. -/
def KeyOf (handlers : Handlers) (organizationId : ℕ) (call : ToolCall) (key : String) : Prop :=
  ∃ v, dispatch handlers call.name call.arguments organizationId = .result v ∧ HasEventKey key v

namespace Environment

variable (env : Environment) (organizationId : ℕ)

/-- The turn costs nothing, or its charge goes through. -/
def Charged (n : ℕ) (turn : AgentTurn) : Prop :=
  turn.promptTokens + turn.completionTokens = 0 ∨ env.charged n = true

/-- The model answers the request of turn `n`, and nothing in that turn raises. -/
def TurnOk (n : ℕ) : Prop :=
  ∃ turn, env.respond n = some turn ∧ env.Charged n turn ∧
    ∀ j call, turn.toolCalls[j]? = some call → CallOk (env.handlers n j) organizationId call

/-- The model asks for tools in turn `n`. -/
def Asks (n : ℕ) : Prop := ∃ turn, env.respond n = some turn ∧ turn.toolCalls ≠ []

/-- The loop passes turn `n`. -/
def Passes (n : ℕ) : Prop :=
  env.withinBudget n = true ∧ env.Asks n ∧ env.TurnOk organizationId n

/-- The loop comes to turn `n`. -/
def Reached (n : ℕ) : Prop := ∀ i < n, env.Passes organizationId i

/-- The loop comes to turn `n`, and the model answers there without a tool call. -/
def Answers (n : ℕ) (turn : AgentTurn) : Prop :=
  n < maxSteps ∧ env.Reached organizationId n ∧ env.withinBudget n = true ∧
    env.respond n = some turn ∧ turn.toolCalls = []

/-- A tool call of the turns before `n` returned a value in which the text occurs as an
`event_key`. -/
def Returned (n : ℕ) (key : String) : Prop :=
  ∃ i < n, ∃ turn, env.respond i = some turn ∧
    ∃ j call, turn.toolCalls[j]? = some call ∧ KeyOf (env.handlers i j) organizationId call key

variable {env organizationId}

/-- The answer of a run is unique. -/
theorem Answers.unique {n m : ℕ} {turn turn' : AgentTurn}
    (h : env.Answers organizationId n turn) (h' : env.Answers organizationId m turn') :
    n = m ∧ turn = turn' := by
  obtain ⟨-, hreached, -, hturn, hcalls⟩ := h
  obtain ⟨-, hreached', -, hturn', hcalls'⟩ := h'
  have hnot : ∀ {i : ℕ} {t : AgentTurn}, env.respond i = some t → t.toolCalls = [] →
      ¬env.Passes organizationId i := by
    rintro i t ht hnil ⟨-, ⟨u, hu, hne⟩, -⟩
    rw [ht] at hu
    cases hu
    exact hne hnil
  rcases Nat.lt_trichotomy n m with hlt | rfl | hlt
  · exact absurd (hreached' n hlt) (hnot hturn hcalls)
  · rw [hturn] at hturn'
    cases hturn'
    exact ⟨rfl, rfl⟩
  · exact absurd (hreached m hlt) (hnot hturn' hcalls')

/-- What a further turn adds to what tools returned. -/
theorem returned_succ {n : ℕ} {turn : AgentTurn} (hturn : env.respond n = some turn)
    (key : String) :
    env.Returned organizationId (n + 1) key ↔ env.Returned organizationId n key ∨
      ∃ j call, turn.toolCalls[j]? = some call ∧
        KeyOf (env.handlers n j) organizationId call key := by
  constructor
  · rintro ⟨i, hi, t, ht, hkey⟩
    rcases Nat.lt_succ_iff_lt_or_eq.mp hi with hlt | rfl
    · exact Or.inl ⟨i, hlt, t, ht, hkey⟩
    · rw [hturn] at ht
      cases ht
      exact Or.inr hkey
  · rintro (⟨i, hi, hrest⟩ | hkey)
    · exact ⟨i, Nat.lt_succ_of_lt hi, hrest⟩
    · exact ⟨n, Nat.lt_succ_self n, turn, hturn, hkey⟩

end Environment

/-! ## What is committed -/

/-- What an analysis has committed while its run has the given status: no recommendation and
no evidence check, and a reason where the run failed. -/
structure Steady (db : Database) (runId : ℕ) (status : RunStatus) (s : State) : Prop where
  id : s.runId = runId
  recommendations : s.committed.recommendations.values = db.recommendations.values
  row : ∃ run, s.committed.runs.find? runId = some run ∧ run.status = status ∧
    (status = .failed → run.failureReason ≠ none)
  unchecked : ∀ step ∈ s.committed.steps.values, step.runId = runId →
    step.payload.isEvidenceCheck = false

/-- The loop between two writes: nothing is pending, the run goes on, and what counts as
evidence is described by `V`. -/
structure Active (db : Database) (runId : ℕ) (V : String → Prop) (s : State) : Prop extends
    Steady db runId .running s where
  status : s.run.status = .running
  added : s.added = []
  verified : ∀ key, key ∈ s.verified ↔ V key

variable {db : Database} {runId : ℕ} {V : String → Prop} {s s' : State}

/-- What is committed does not depend on what is pending. -/
theorem Steady.of_committed {status : RunStatus} (h : Steady db runId status s)
    (hid : s'.runId = s.runId) (hcommitted : s'.committed = s.committed) :
    Steady db runId status s' :=
  ⟨hid.trans h.id, by rw [hcommitted]; exact h.recommendations, by rw [hcommitted]; exact h.row,
    by rw [hcommitted]; exact h.unchecked⟩

/-- The run's row after a flush is the run object. -/
theorem Steady.find?_flush {status : RunStatus} (h : Steady db runId status s) (run : AgentRun)
    (added : List Added) :
    (s.committed.flush runId run added).runs.find? runId = some run := by
  obtain ⟨old, hold, -⟩ := h.row
  rw [Database.find?_flush, hold, Option.map_some, if_pos rfl]

/-- A flush of steps that are not the evidence check. -/
theorem Steady.flush {status status' : RunStatus} (h : Steady db runId status s)
    (run : AgentRun) (steps : List AgentStep)
    (hsteps : ∀ step ∈ steps, step.payload.isEvidenceCheck = false) (hrun : run.status = status')
    (hreason : status' = .failed → run.failureReason ≠ none) (hid : s'.runId = runId)
    (hcommitted : s'.committed = s.committed.flush runId run (steps.map .step)) :
    Steady db runId status' s' := by
  have hnone : (steps.map Added.step).filterMap Added.recommendation? = [] := by
    rw [List.filterMap_map]
    exact List.filterMap_eq_nil_iff.mpr fun _ _ => rfl
  have hsome : (steps.map Added.step).filterMap Added.step? = steps := by
    rw [List.filterMap_map]
    exact List.filterMap_some
  refine ⟨hid, ?_, ⟨run, ?_, hrun, hreason⟩, ?_⟩
  · rw [hcommitted, Database.recommendations_flush, hnone, List.append_nil]
    exact h.recommendations
  · rw [hcommitted]
    exact h.find?_flush run _
  · rw [hcommitted, Database.steps_flush, hsome]
    intro step hstep hid
    rcases List.mem_append.mp hstep with hold | hnew
    · exact h.unchecked step hold hid
    · exact hsteps step hnew

/-- A commit goes through exactly when the transaction is usable and the rows fit. -/
theorem commit_meets (s : State) :
    Meets s.commit (s.aborted = false ∧ ∀ row ∈ s.added, row.storable = true)
      (fun s' => s.aborted = false ∧
        s' = { s with committed := s.committed.flush s.runId s.run s.added, added := [] })
      (fun e => e = s) :=
  Meets.guard (fun h => ⟨h.1, rfl⟩) fun _ => rfl

/-- `_record` of a step that is not the evidence check. -/
theorem record_meets (h : Active db runId V s) {payload : StepPayload}
    (hpayload : payload.isEvidenceCheck = false) (toolName : Option String) :
    Meets (s.record payload toolName)
      (s.aborted = false ∧ toolName.all (fitsText (some 100)) = true)
      (fun s' => (Active db runId V s' ∧ s'.aborted = false) ∧ s'.ordinal = s.ordinal)
      (Steady db runId .running) := by
  refine (commit_meets _).imp (and_congr_right fun _ => ?_) ?_ ?_
  · rw [h.added]
    exact List.forall_mem_singleton
  · rintro _ ⟨hready, rfl⟩
    refine ⟨⟨⟨?_, h.status, rfl, h.verified⟩, hready⟩, rfl⟩
    refine h.flush { s.run with stepCount := s.ordinal + 1 }
      [⟨s.runId, s.ordinal, toolName, payload⟩] (List.forall_mem_singleton.mpr hpayload)
      h.status nofun h.id ?_
    dsimp only
    rw [h.added, h.id]
    rfl
  · rintro _ rfl
    exact h.toSteady.of_committed rfl rfl

/-- `_finish` never raises between two writes. -/
theorem finish_meets (h : Active db runId V s) (hready : s.aborted = false) (status : RunStatus)
    {reason : Option String} (hreason : status = .failed → reason ≠ none) (now : Instant) :
    Meets (s.finish status reason now) True
      (fun s' => Steady db runId status s' ∧ s'.run.status = status ∧ s'.added = [] ∧
        s'.aborted = false ∧ ∀ key, key ∈ s'.verified ↔ V key)
      (Steady db runId .running) := by
  refine (commit_meets _).imp (iff_of_true ⟨hready, ?_⟩ trivial) ?_ ?_
  · intro row hmem
    rw [h.added] at hmem
    cases hmem
  · rintro _ ⟨-, rfl⟩
    refine ⟨?_, rfl, rfl, hready, h.verified⟩
    refine h.flush { s.run with
        status := status, failureReason := reason, finishedAt := some now }
      [] (List.forall_mem_nil _) rfl hreason h.id ?_
    dsimp only
    rw [h.added, h.id]
    rfl
  · rintro _ rfl
    exact h.toSteady.of_committed rfl rfl

/-- `_charge`. -/
theorem charge_meets (h : Active db runId V s) (env : Environment) (n : ℕ) (turn : AgentTurn) :
    Meets (s.charge (env.charged n) turn) (env.Charged n turn)
      (fun s' => Active db runId V s' ∧ s'.aborted = s.aborted) (Steady db runId .running) :=
  Meets.guard
    (fun _ => ⟨⟨h.toSteady.of_committed rfl rfl, h.status, h.added, h.verified⟩, rfl⟩)
    fun _ => h.toSteady

/-! ## One call, one turn, the loop -/

variable {P : Python} {organizationId : ℕ}

/-- A call whose name is not known is not dispatched, and no dispatch of it returns. -/
theorem not_keyOf_of_unknown {handlers : Handlers} {call : ToolCall}
    (h : call.name ∉ knownTools) (key : String) : ¬KeyOf handlers organizationId call key := by
  rintro ⟨v, hv, -⟩
  obtain ⟨tool, htool, hname, -⟩ := dispatch_eq_result hv
  exact h (List.mem_map.mpr ⟨tool, htool, hname⟩)

/-- The state between two writes, when what counts as evidence is described otherwise. -/
theorem Active.imp {V' : String → Prop} (h : Active db runId V s) (hV : ∀ key, V key ↔ V' key) :
    Active db runId V' s :=
  ⟨h.toSteady, h.status, h.added, fun key => (h.verified key).trans (hV key)⟩

/-- What `_run_tool` changes: the evidence grows by what the call returned, and the transaction
is aborted when the handler says so. -/
theorem runTool_spec (P : Python) (h : Active db runId V s) (hready : s.aborted = false)
    (handlers : Handlers) (organizationId : ℕ) (call : ToolCall) :
    ∃ s' stored reply, s.runTool P handlers organizationId call = (s', stored, reply) ∧
      Active db runId (fun key => V key ∨ KeyOf handlers organizationId call key) s' ∧
      s'.ordinal = s.ordinal ∧
      (s'.aborted = false ↔ (call.name ∈ knownTools →
        dispatch handlers call.name call.arguments organizationId ≠ .raised true)) := by
  rw [State.runTool]
  by_cases hknown : call.name ∈ knownTools
  · rw [if_neg (not_not_intro hknown), State.boundDispatch]
    cases hd : dispatch handlers call.name call.arguments organizationId with
    | result v =>
        refine ⟨_, _, _, rfl, ⟨h.toSteady.of_committed rfl rfl, h.status, h.added, fun key => ?_⟩,
          rfl, iff_of_true hready fun _ => nofun⟩
        rw [List.mem_append, h.verified, mem_eventKeysIn]
        refine or_congr_right ⟨fun hkey => ⟨v, hd, hkey⟩, ?_⟩
        rintro ⟨w, hw, hkey⟩
        rw [hd] at hw
        cases hw
        exact hkey
    | raised transactionAborted =>
        refine ⟨_, _, _, rfl, ⟨h.toSteady.of_committed rfl rfl, h.status, h.added, fun key => ?_⟩,
          rfl, ?_⟩
        · rw [h.verified, or_iff_left]
          rintro ⟨w, hw, -⟩
          rw [hd] at hw
          cases hw
        · dsimp only
          rw [hready, Bool.false_or, forall_prop_of_true hknown]
          cases transactionAborted <;> simp
  · rw [if_pos hknown]
    refine ⟨_, _, _, rfl, h.imp fun key => ?_, rfl, iff_of_true hready fun hk => absurd hk hknown⟩
    rw [or_iff_left (not_keyOf_of_unknown hknown key)]

/-- One call. -/
theorem performCall_meets (P : Python) (h : Active db runId V s) (hready : s.aborted = false)
    (handlers : Handlers) (organizationId : ℕ) (call : ToolCall) :
    Meets (s.performCall P handlers organizationId call) (CallOk handlers organizationId call)
      (fun s' => Active db runId (fun key => V key ∨ KeyOf handlers organizationId call key) s' ∧
        s'.aborted = false)
      (Steady db runId .running) := by
  rw [State.performCall]
  have hfirst : Active db runId V { s with
      conversation := s.conversation ++
        [.functionCall call.callId call.name (P.dumps (.object call.arguments))] } :=
    ⟨h.toSteady.of_committed rfl rfl, h.status, h.added, h.verified⟩
  have hcond : (s.aborted = false ∧ (some call.name).all (fitsText (some 100)) = true) ∧
      (call.name ∈ knownTools →
        dispatch handlers call.name call.arguments organizationId ≠ .raised true) ↔
      CallOk handlers organizationId call :=
    and_congr_left fun _ => and_iff_right hready
  refine ((record_meets hfirst rfl _).bind ?_).imp hcond (fun _ hq => hq) (fun _ he => he)
  rintro hfits t ⟨⟨ht, htready⟩, -⟩
  have hnext : Active db runId V { t with ordinal := t.ordinal + 1 } :=
    ⟨ht.toSteady.of_committed rfl rfl, ht.status, ht.added, ht.verified⟩
  obtain ⟨u, stored, reply, hrun, hu, -, haborted⟩ :=
    runTool_spec P hnext htready handlers organizationId call
  rw [hrun]
  dsimp only
  have hlast : Active db runId (fun key => V key ∨ KeyOf handlers organizationId call key)
      { u with conversation := u.conversation ++ [.functionCallOutput call.callId reply] } :=
    ⟨hu.toSteady.of_committed rfl rfl, hu.status, hu.added, hu.verified⟩
  have hresult : (StepPayload.toolResult stored).isEvidenceCheck = false := rfl
  -- the second write takes the name that the first one took
  refine ((record_meets hlast hresult (some call.name)).bind fun _ v hv => Meets.ok
    ⟨⟨hv.1.1.toSteady.of_committed rfl rfl, hv.1.1.status, hv.1.1.added, hv.1.1.verified⟩,
      hv.1.2⟩).imp ?_ (fun _ hq => hq) fun _ he => he
  rw [and_true, and_iff_left hfits.2]
  exact haborted

/-- The calls of a turn from a position on. -/
theorem performCalls_meets (P : Python) (handlers : ℕ → Handlers) (organizationId : ℕ)
    (calls : List ToolCall) (position : ℕ) (h : Active db runId V s) (hready : s.aborted = false) :
    Meets (performCalls P handlers organizationId position calls s)
      (∀ j call, calls[j]? = some call → CallOk (handlers (position + j)) organizationId call)
      (fun s' => Active db runId (fun key => V key ∨ ∃ j call, calls[j]? = some call ∧
        KeyOf (handlers (position + j)) organizationId call key) s' ∧ s'.aborted = false)
      (Steady db runId .running) := by
  induction calls generalizing position s V with
  | nil =>
      refine ⟨fun j call hcall => ?_, h.imp fun key => ?_, hready⟩
      · cases hcall
      · rw [or_iff_left]
        rintro ⟨j, call, hcall, -⟩
        cases hcall
  | cons call calls ih =>
      rw [performCalls]
      refine ((performCall_meets P h hready (handlers position) organizationId call).bind
        fun _ t ht => ih (position + 1) ht.1 ht.2).imp ?_ ?_ fun _ he => he
      · constructor
        · rintro ⟨hhead, htail⟩ j c hc
          cases j with
          | zero =>
              rw [List.getElem?_cons_zero, Option.some.injEq] at hc
              rw [← hc]
              exact hhead
          | succ j =>
              rw [List.getElem?_cons_succ] at hc
              rw [show position + (j + 1) = position + 1 + j by omega]
              exact htail j c hc
        · refine fun hall => ⟨hall 0 call rfl, fun j c hc => ?_⟩
          rw [show position + 1 + j = position + (j + 1) by omega]
          exact hall (j + 1) c hc
      · rintro t ⟨ht, htready⟩
        refine ⟨ht.imp fun key => ?_, htready⟩
        rw [or_assoc]
        refine or_congr_right ?_
        constructor
        · rintro (hkey | ⟨j, c, hc, hkey⟩)
          · exact ⟨0, call, rfl, hkey⟩
          · refine ⟨j + 1, c, hc, ?_⟩
            rw [show position + (j + 1) = position + 1 + j by omega]
            exact hkey
        · rintro ⟨j, c, hc, hkey⟩
          cases j with
          | zero =>
              rw [List.getElem?_cons_zero, Option.some.injEq] at hc
              rw [← hc] at hkey
              exact Or.inl hkey
          | succ j =>
              refine Or.inr ⟨j, c, hc, ?_⟩
              rw [show position + 1 + j = position + (j + 1) by omega]
              exact hkey

/-! ## The loop -/

namespace Environment

variable (env : Environment) (organizationId : ℕ)

/-- Every turn that the loop reaches from turn `n` on, with `left` turns left, goes well. -/
def SmoothFrom (left n : ℕ) : Prop :=
  ∀ m, n ≤ m → m < n + left → (∀ i, n ≤ i → i < m → env.Passes organizationId i) →
    env.withinBudget m = true → env.TurnOk organizationId m

/-- The model answers without a tool call in turn `m`, which the loop reaches from turn `n`
with `left` turns left. -/
def AnswersFrom (left n m : ℕ) (turn : AgentTurn) : Prop :=
  n ≤ m ∧ m < n + left ∧ (∀ i, n ≤ i → i < m → env.Passes organizationId i) ∧
    env.withinBudget m = true ∧ env.respond m = some turn ∧ turn.toolCalls = []

variable {env organizationId}

/-- The whole loop. -/
theorem smoothFrom_zero : env.SmoothFrom organizationId maxSteps 0 ↔
    ∀ n < maxSteps, env.Reached organizationId n → env.withinBudget n = true →
      env.TurnOk organizationId n := by
  constructor
  · exact fun h n hn hreached => h n (Nat.zero_le n) (by omega) fun i _ hi => hreached i hi
  · exact fun h n _ hn hreached => h n (by omega) fun i hi => hreached i (Nat.zero_le i) hi

theorem answersFrom_zero (n : ℕ) (turn : AgentTurn) :
    env.AnswersFrom organizationId maxSteps 0 n turn ↔ env.Answers organizationId n turn := by
  constructor
  · rintro ⟨-, hn, hreached, hrest⟩
    exact ⟨by omega, fun i hi => hreached i (Nat.zero_le i) hi, hrest⟩
  · rintro ⟨hn, hreached, hrest⟩
    exact ⟨Nat.zero_le n, by omega, fun i _ hi => hreached i hi, hrest⟩

/-- The first turn, and the turns after it. -/
theorem smoothFrom_succ (left n : ℕ) : env.SmoothFrom organizationId (left + 1) n ↔
    (env.withinBudget n = true → env.TurnOk organizationId n) ∧
      (env.Passes organizationId n → env.SmoothFrom organizationId left (n + 1)) := by
  constructor
  · intro h
    refine ⟨h n le_rfl (by omega) fun i hni hin => absurd hin (by omega), fun hpass m hm hlt hall =>
      h m (by omega) (by omega) fun i hni him => ?_⟩
    rcases Nat.eq_or_lt_of_le hni with rfl | hlt
    · exact hpass
    · exact hall i hlt him
  · rintro ⟨hfirst, hrest⟩ m hm hlt hall hbudget
    rcases Nat.eq_or_lt_of_le hm with rfl | hnm
    · exact hfirst hbudget
    · exact hrest (hall n le_rfl hnm) m hnm (by omega)
        (fun i hi him => hall i (by omega) him) hbudget

/-- Where the model answers in turn `n`, only the charge can raise. -/
theorem turnOk_of_answer {left n : ℕ} {turn : AgentTurn} (hbudget : env.withinBudget n = true)
    (hpass : ¬env.Passes organizationId n) (hrespond : env.respond n = some turn)
    (hcalls : turn.toolCalls = []) : env.Charged n turn ∧ True ↔
      (env.withinBudget n = true → env.TurnOk organizationId n) ∧
        (env.Passes organizationId n → env.SmoothFrom organizationId left (n + 1)) := by
  rw [and_true, forall_prop_of_true hbudget, forall_prop_of_false hpass, and_true]
  constructor
  · intro hcharged
    refine ⟨turn, hrespond, hcharged, fun j call hcall => ?_⟩
    rw [hcalls] at hcall
    cases hcall
  · rintro ⟨t, ht, hcharged, -⟩
    rw [hrespond] at ht
    cases ht
    exact hcharged

/-- Where the model asks for tools in turn `n`, the charge and the calls can raise. -/
theorem turnOk_of_calls {left n : ℕ} {turn : AgentTurn} (hbudget : env.withinBudget n = true)
    (hrespond : env.respond n = some turn) (hcalls : turn.toolCalls ≠ []) :
    env.Charged n turn ∧ (∀ j call, turn.toolCalls[j]? = some call →
        CallOk (env.handlers n j) organizationId call) ∧
        env.SmoothFrom organizationId left (n + 1) ↔
      (env.withinBudget n = true → env.TurnOk organizationId n) ∧
        (env.Passes organizationId n → env.SmoothFrom organizationId left (n + 1)) := by
  rw [forall_prop_of_true hbudget]
  constructor
  · rintro ⟨hcharged, hall, hrest⟩
    exact ⟨⟨turn, hrespond, hcharged, hall⟩, fun _ => hrest⟩
  · rintro ⟨hok, hrest⟩
    obtain ⟨t, ht, hcharged, hall⟩ := hok
    rw [hrespond] at ht
    cases ht
    exact ⟨hcharged, hall,
      hrest ⟨hbudget, ⟨turn, hrespond, hcalls⟩, turn, hrespond, hcharged, hall⟩⟩

/-- No turn after one that the loop does not pass is reached. -/
theorem not_answersFrom {left n : ℕ} (hpass : ¬env.Passes organizationId n)
    (hself : ∀ turn, env.withinBudget n = true → env.respond n = some turn →
      turn.toolCalls ≠ []) (m : ℕ) (turn : AgentTurn) :
    ¬env.AnswersFrom organizationId left n m turn := by
  rintro ⟨hm, -, hall, hbudget, hrespond, hcalls⟩
  rcases Nat.eq_or_lt_of_le hm with rfl | hnm
  · exact hself turn hbudget hrespond hcalls
  · exact hpass (hall n le_rfl hnm)

/-- An answer after a first turn that the loop passes. -/
theorem answersFrom_succ {left n : ℕ} (hpass : env.Passes organizationId n) (m : ℕ)
    (turn : AgentTurn) : env.AnswersFrom organizationId (left + 1) n m turn ↔
      env.AnswersFrom organizationId left (n + 1) m turn := by
  constructor
  · rintro ⟨hm, hlt, hall, hbudget, hrespond, hcalls⟩
    rcases Nat.eq_or_lt_of_le hm with rfl | hnm
    · obtain ⟨-, ⟨t, ht, hne⟩, -⟩ := hpass
      rw [hrespond] at ht
      cases ht
      exact absurd hcalls hne
    · exact ⟨hnm, by omega, fun i hi him => hall i (by omega) him, hbudget, hrespond, hcalls⟩
  · rintro ⟨hm, hlt, hall, hrest⟩
    refine ⟨by omega, by omega, fun i hi him => ?_, hrest⟩
    rcases Nat.eq_or_lt_of_le hi with rfl | hni
    · exact hpass
    · exact hall i hni him

end Environment

/-- The loop gave up, with a reason, and the model had not answered. -/
structure GaveUp (db : Database) (runId : ℕ) (env : Environment) (organizationId left n : ℕ)
    (s : State) : Prop extends Steady db runId .failed s where
  status : s.run.status = .failed
  unanswered : ∀ m turn, ¬env.AnswersFrom organizationId left n m turn

/-- The loop ended with an answer: the run is completed, and what counts as evidence is what
the tools returned before. -/
structure Answered (db : Database) (runId : ℕ) (env : Environment) (organizationId left n : ℕ)
    (s : State) (text : String) : Prop extends Steady db runId .completed s where
  status : s.run.status = .completed
  added : s.added = []
  ready : s.aborted = false
  answer : ∃ m turn, env.AnswersFrom organizationId left n m turn ∧ text = turn.reply ∧
    ∀ key, key ∈ s.verified ↔ env.Returned organizationId m key

/-- The loop from a turn that it passes. -/
theorem GaveUp.of_succ {env : Environment} {organizationId left n : ℕ}
    (h : GaveUp db runId env organizationId left (n + 1) s)
    (hpass : env.Passes organizationId n) : GaveUp db runId env organizationId (left + 1) n s :=
  ⟨h.toSteady, h.status, fun m turn ha =>
    h.unanswered m turn ((Environment.answersFrom_succ hpass m turn).mp ha)⟩

theorem Answered.of_succ {env : Environment} {organizationId left n : ℕ} {text : String}
    (h : Answered db runId env organizationId left (n + 1) s text)
    (hpass : env.Passes organizationId n) :
    Answered db runId env organizationId (left + 1) n s text := by
  obtain ⟨m, turn, hanswer, htext⟩ := h.answer
  exact ⟨h.toSteady, h.status, h.added, h.ready, m, turn,
    (Environment.answersFrom_succ hpass m turn).mpr hanswer, htext⟩

/-- Giving up between two writes. -/
theorem giveUp_meets {env : Environment} {organizationId left n : ℕ} (h : Active db runId V s)
    (hready : s.aborted = false)
    (hnone : ∀ m turn, ¬env.AnswersFrom organizationId left n m turn) (reason : String) :
    Meets (do
      let s' ← s.finish .failed (some reason) env.finishedAt
      return (s', "")) True
      (fun p => GaveUp db runId env organizationId left n p.1 ∨
        Answered db runId env organizationId left n p.1 p.2)
      (Steady db runId .running) := by
  have hreason : RunStatus.failed = .failed → some reason ≠ none :=
    fun _ => Option.some_ne_none reason
  refine (finish_meets h hready .failed hreason env.finishedAt).bind_of_true fun t ht => ?_
  exact ⟨trivial, Or.inl ⟨ht.1, ht.2.1, hnone⟩⟩

/-- Recording the answer and completing the run. -/
theorem answer_meets {env : Environment} {organizationId left n m : ℕ} {turn : AgentTurn}
    (h : Active db runId (env.Returned organizationId m) s) (hready : s.aborted = false)
    (hanswer : env.AnswersFrom organizationId left n m turn) :
    Meets (do
      let s' ← s.record (.modelMessage turn.reply) none
      let s' ← s'.finish .completed none env.finishedAt
      return (s', turn.reply)) True
      (fun p => GaveUp db runId env organizationId left n p.1 ∨
        Answered db runId env organizationId left n p.1 p.2)
      (Steady db runId .running) := by
  have hmessage : (StepPayload.modelMessage turn.reply).isEvidenceCheck = false := rfl
  refine ((record_meets h hmessage none).imp (iff_of_true ⟨hready, rfl⟩ trivial)
    (fun _ hq => hq) fun _ he => he).bind_of_true fun t ht => ?_
  refine (finish_meets ht.1.1 ht.1.2 .completed nofun env.finishedAt).bind_of_true fun u hu => ?_
  obtain ⟨hsteady, hstatus, hadded, haborted, hverified⟩ := hu
  exact ⟨trivial, Or.inr ⟨hsteady, hstatus, hadded, haborted, m, turn, hanswer, rfl, hverified⟩⟩

/-- **How the loop ends.**  It ends normally exactly when every turn that it reaches goes well;
an exception leaves a run that is still marked as running. -/
theorem runLoop_meets (P : Python) (env : Environment) (organizationId left n : ℕ)
    (h : Active db runId (env.Returned organizationId n) s) (hready : s.aborted = false) :
    Meets (runLoop P env organizationId left n s) (env.SmoothFrom organizationId left n)
      (fun p => GaveUp db runId env organizationId left n p.1 ∨
        Answered db runId env organizationId left n p.1 p.2)
      (Steady db runId .running) := by
  induction left generalizing n s with
  | zero =>
      rw [runLoop]
      refine (giveUp_meets h hready (fun m turn ha => ?_) _).imp
        (iff_of_true trivial fun m hm hlt => absurd hm (by omega)) (fun _ hq => hq) fun _ he => he
      obtain ⟨hm, hlt, -⟩ := ha
      omega
  | succ left ih =>
      rw [runLoop, Environment.smoothFrom_succ]
      by_cases hbudget : env.withinBudget n = false
      · have hpass : ¬env.Passes organizationId n := fun hp => by
          rw [hp.1] at hbudget
          cases hbudget
        rw [if_pos hbudget]
        refine (giveUp_meets h hready (Environment.not_answersFrom hpass fun turn hb => ?_) _).imp
          (iff_of_true trivial ⟨fun hb => ?_, fun hp => absurd hp hpass⟩) (fun _ hq => hq)
          fun _ he => he
        · rw [hbudget] at hb
          cases hb
        · rw [hbudget] at hb
          cases hb
      · rw [if_neg hbudget]
        have hbudget : env.withinBudget n = true := Bool.eq_true_of_not_eq_false hbudget
        cases hrespond : env.respond n with
        | none =>
            refine (Meets.error h.toSteady).imp (iff_of_false not_false fun hc => ?_)
              (fun _ hq => hq) fun _ he => he
            obtain ⟨turn, hturn, -⟩ := hc.1 hbudget
            rw [hrespond] at hturn
            cases hturn
        | some turn =>
            dsimp only
            have hcharge := charge_meets h env n turn
            by_cases hcalls : turn.toolCalls = []
            · have hpass : ¬env.Passes organizationId n := by
                rintro ⟨-, ⟨t, ht, hne⟩, -⟩
                rw [hrespond] at ht
                cases ht
                exact hne hcalls
              refine (hcharge.bind fun _ t ht => ?_).imp
                (Environment.turnOk_of_answer hbudget hpass hrespond hcalls) (fun _ hq => hq)
                fun _ he => he
              have hanswer : env.AnswersFrom organizationId (left + 1) n n turn :=
                ⟨le_rfl, by omega, fun i hi hin => absurd hin (by omega), hbudget, hrespond, hcalls⟩
              rw [if_pos hcalls]
              exact answer_meets ht.1 (ht.2.trans hready) hanswer
            · refine (hcharge.bind fun hcharged t ht => ?_).imp
                (Environment.turnOk_of_calls hbudget hrespond hcalls) (fun _ hq => hq)
                fun _ he => he
              rw [if_neg hcalls]
              have hperform := performCalls_meets P (env.handlers n) organizationId turn.toolCalls 0
                ht.1 (ht.2.trans hready)
              simp only [Nat.zero_add] at hperform
              refine hperform.bind fun hall u hu => ?_
              have hpass : env.Passes organizationId n :=
                ⟨hbudget, ⟨turn, hrespond, hcalls⟩, turn, hrespond, hcharged, hall⟩
              have hnext : Active db runId (env.Returned organizationId (n + 1)) u :=
                hu.1.imp fun key => (Environment.returned_succ hrespond key).symm
              refine (ih (n + 1) hnext hu.2).imp Iff.rfl ?_ fun _ he => he
              rintro p (hp | hp)
              · exact Or.inl (hp.of_succ hpass)
              · exact Or.inr (hp.of_succ hpass)

end ProcureSignal.Agents
