/-
# Decisions on recommendations

`decide` of `api/routers/agents.py`, with any number of requests at the same time.  Each
request reads the recommendation, checks the status it has read, and writes; the steps of
different requests interleave, and what is not committed is private to its session.

* The database lets one session at a time write a row, and the second writer waits; the
  `UPDATE` names the primary key and nothing else.
* `oneWay_iff` : **decisions are one-way exactly as long as nobody commits over a decision**.
-/
import ProcureSignal.Agents.Models
import ProcureSignal.Library.Execution

namespace ProcureSignal.Agents.Decisions

/-! ## Requests -/

/-- The keys of `DECISIONS`; another decision is refused before anything is read. -/
inductive Decision
  | approve
  | reject
  deriving DecidableEq, Repr

/-- `DECISIONS`. -/
def Decision.status : Decision → RecommendationStatus
  | approve => .approved
  | reject => .rejected

/-- A request of an authenticated administrator. -/
structure Request where
  publicId : String
  ordinal : ℕ
  decision : Decision
  note : String
  userId : ℕ
  organizationId : ℕ
  deriving DecidableEq, Repr

/-- An audit record of an `agent.recommendation_*` action. -/
structure AuditRecord where
  action : RecommendationStatus
  actorUserId : ℕ
  organizationId : ℕ
  resourceId : String
  ordinal : ℕ
  title : String
  note : String
  evidenceEventKeys : List String
  deriving DecidableEq, Repr

/-- How far a request is. -/
inductive Phase
  | loaded (i : ℕ) (row : AgentRecommendation)
  | checked (i : ℕ) (row : AgentRecommendation)
  | updated (i : ℕ) (row assigned : AgentRecommendation)
  | audited (i : ℕ) (row assigned : AgentRecommendation) (record : AuditRecord)
  | succeeded
  | refused
  deriving DecidableEq, Repr

/-! ## The system -/

/-- What is committed, the locks on rows with their holders, and the sessions. -/
structure State where
  runs : UniqueTable AgentRun String [fun r => some r.publicId]
  recommendations : UniqueTable AgentRecommendation (ℕ × ℕ) [fun r => some (r.runId, r.ordinal)]
  audit : List AuditRecord
  locks : ℕ → Option ℕ
  sessions : ℕ → Option (Request × Phase)

/-- `_owned`: the run of the caller's organization, with its key. -/
def State.owned (s : State) (publicId : String) (organizationId : ℕ) : Option (ℕ × AgentRun) :=
  s.runs.rows.find? fun r => r.2.publicId = publicId ∧ r.2.organizationId = organizationId

/-- The recommendation of a run, with its key. -/
def State.recommendationAt (s : State) (runId ordinal : ℕ) :
    Option (ℕ × AgentRecommendation) :=
  s.recommendations.rows.find? fun r => r.2.runId = runId ∧ r.2.ordinal = ordinal

/-- The object after the assignments. -/
def assign (row : AgentRecommendation) (request : Request) (now : Instant) :
    AgentRecommendation :=
  { row with
    status := request.decision.status
    decidedByUserId := some request.userId
    decidedAt := some now
    decisionNote := if request.note = "" then none else some request.note }

/-- The audit record of a decision. -/
def auditRecord (row : AgentRecommendation) (request : Request) : AuditRecord where
  action := request.decision.status
  actorUserId := request.userId
  organizationId := request.organizationId
  resourceId := request.publicId
  ordinal := request.ordinal
  title := row.title
  note := request.note
  evidenceEventKeys := row.evidenceEventKeys

/-- A column that the session assigned is written where its value changed. -/
def changed {β : Type} [DecidableEq β] (loaded assigned stored : β) : β :=
  if assigned = loaded then stored else assigned

/-- The `UPDATE` of a flush. -/
def flushRow (loaded assigned stored : AgentRecommendation) : AgentRecommendation :=
  { stored with
    status := changed loaded.status assigned.status stored.status
    decidedByUserId := changed loaded.decidedByUserId assigned.decidedByUserId
      stored.decidedByUserId
    decidedAt := changed loaded.decidedAt assigned.decidedAt stored.decidedAt
    decisionNote := changed loaded.decisionNote assigned.decisionNote stored.decisionNote }

/-- A step of the system: what a session does next. -/
inductive Action
  | select (request : Request)
  | check
  | update (now : Instant)
  | insertAudit
  | commit
  | rollback

/-- A step, with its session. -/
abbrev Label := ℕ × Action

/-- The session goes to a phase. -/
def State.goto (s : State) (q : ℕ) (request : Request) (phase : Phase) : State :=
  { s with sessions := Function.update s.sessions q (some (request, phase)) }

/-- The lock on a row is given back by its holder. -/
def State.release (s : State) (q : ℕ) : State :=
  { s with locks := fun i => if s.locks i = some q then none else s.locks i }

/-- The two `SELECT`s. -/
def State.load (s : State) (request : Request) : Phase :=
  match s.owned request.publicId request.organizationId with
  | none => .refused
  | some (runId, _) =>
      match s.recommendationAt runId request.ordinal with
      | none => .refused
      | some (i, row) => .loaded i row

/-- The committed tables after the commit of a decision. -/
def State.write (s : State) (i : ℕ) (row assigned : AgentRecommendation) (record : AuditRecord) :
    State :=
  { s with
    recommendations := s.recommendations.modify
      (fun j stored => if j = i then flushRow row assigned stored else stored) (by
        intro k hk j stored
        rw [List.mem_singleton.mp hk]
        dsimp only
        split
        · rfl
        · rfl)
    audit := s.audit ++ [record] }

/-- One step. -/
def step (s : State) : Label → Option State
  | (q, .select request) =>
      match s.sessions q with
      | none => some (s.goto q request (s.load request))
      | some _ => none
  | (q, .check) =>
      match s.sessions q with
      | some (request, .loaded i row) =>
          some (s.goto q request (if row.status ≠ .proposed then .refused else .checked i row))
      | _ => none
  | (q, .update now) =>
      match s.sessions q with
      | some (request, .checked i row) =>
          if s.locks i = none then
            some ({ s with locks := Function.update s.locks i (some q) }.goto q request
              (.updated i row (assign row request now)))
          else none
      | _ => none
  | (q, .insertAudit) =>
      match s.sessions q with
      | some (request, .updated i row assigned) =>
          some (s.goto q request (.audited i row assigned (auditRecord row request)))
      | _ => none
  | (q, .commit) =>
      match s.sessions q with
      | some (request, .audited i row assigned record) =>
          some (((s.write i row assigned record).release q).goto q request .succeeded)
      | _ => none
  | (q, .rollback) =>
      match s.sessions q with
      | some (_, .succeeded) => none
      | some (request, _) => some ((s.release q).goto q request .refused)
      | none => none

/-! ## What a step changes -/

/-- The step commits a decision on row `i`. -/
def commitsRow (i : ℕ) (x : State × Label) : Bool :=
  match x.2.2, x.1.sessions x.2.1 with
  | .commit, some (_, .audited j _ _ _) => j = i
  | _, _ => false

variable {s t : State} {q i : ℕ} {a : Action}

/-- A commit, with the session that makes it. -/
theorem commitsRow_iff (x : State × Label) : commitsRow i x = true ↔ x.2.2 = .commit ∧
    ∃ request row assigned record,
      x.1.sessions x.2.1 = some (request, .audited i row assigned record) := by
  obtain ⟨s, q, a⟩ := x
  rw [commitsRow]
  split
  · rename_i request j row assigned record ha hsession
    dsimp only at ha hsession ⊢
    rw [decide_eq_true_eq, and_iff_right ha, hsession]
    constructor
    · rintro rfl
      exact ⟨request, row, assigned, record, rfl⟩
    · rintro ⟨request', row', assigned', record', heq⟩
      cases heq
      rfl
  · rename_i hnot
    refine iff_of_false Bool.false_ne_true ?_
    rintro ⟨ha, request, row, assigned, record, hsession⟩
    exact hnot request i row assigned record ha hsession

/-- What a committed decision writes. -/
theorem find?_write (s : State) (j : ℕ) (row assigned : AgentRecommendation)
    (record : AuditRecord) (i : ℕ) : (s.write j row assigned record).recommendations.find? i =
      (s.recommendations.find? i).map fun stored =>
        if i = j then flushRow row assigned stored else stored :=
  Table.find?_modify _ _ _

/-- **What one step does to the committed tables.**  Only a commit writes, and it writes the
row of its session and appends the session's audit record. -/
theorem step_tables (h : step s (q, a) = some t) : t.runs = s.runs ∧
    ((t.recommendations = s.recommendations ∧ t.audit = s.audit ∧
        ∀ i, commitsRow i (s, q, a) = false) ∨
      ∃ request j row assigned record, a = .commit ∧
        s.sessions q = some (request, .audited j row assigned record) ∧
        t = ((s.write j row assigned record).release q).goto q request .succeeded) := by
  cases a with
  | select request =>
      simp only [step] at h
      split at h
      · cases h
        exact ⟨rfl, Or.inl ⟨rfl, rfl, fun _ => rfl⟩⟩
      · cases h
  | check =>
      simp only [step] at h
      split at h
      · cases h
        exact ⟨rfl, Or.inl ⟨rfl, rfl, fun _ => rfl⟩⟩
      · cases h
  | update now =>
      simp only [step] at h
      split at h
      · split_ifs at h
        cases h
        exact ⟨rfl, Or.inl ⟨rfl, rfl, fun _ => rfl⟩⟩
      · cases h
  | insertAudit =>
      simp only [step] at h
      split at h
      · cases h
        exact ⟨rfl, Or.inl ⟨rfl, rfl, fun _ => rfl⟩⟩
      · cases h
  | commit =>
      simp only [step] at h
      split at h
      · rename_i request j row assigned record hsession
        cases h
        exact ⟨rfl, Or.inr ⟨request, j, row, assigned, record, rfl, hsession, rfl⟩⟩
      · cases h
  | rollback =>
      simp only [step] at h
      split at h
      · cases h
      · cases h
        exact ⟨rfl, Or.inl ⟨rfl, rfl, fun _ => rfl⟩⟩
      · cases h

/-! ## What sessions know -/

/-- Row `i` is the recommendation with this ordinal of the run with this public identifier. -/
def State.Names (s : State) (publicId : String) (ordinal i : ℕ) : Prop :=
  ∃ stored run, s.recommendations.find? i = some stored ∧ stored.ordinal = ordinal ∧
    s.runs.find? stored.runId = some run ∧ run.publicId = publicId

/-- What a request knows in a phase. -/
def PhaseOk (s : State) (request : Request) : Phase → Prop
  | .loaded i _ => s.Names request.publicId request.ordinal i
  | .checked i row => s.Names request.publicId request.ordinal i ∧ row.status = .proposed
  | .updated i row assigned => s.Names request.publicId request.ordinal i ∧
      row.status = .proposed ∧ assigned.status = request.decision.status
  | .audited i row assigned record => s.Names request.publicId request.ordinal i ∧
      row.status = .proposed ∧ assigned.status = request.decision.status ∧
      record.resourceId = request.publicId ∧ record.ordinal = request.ordinal
  | .succeeded => True
  | .refused => True

/-- Every session knows what its phase says. -/
def Known (s : State) : Prop :=
  ∀ q request phase, s.sessions q = some (request, phase) → PhaseOk s request phase

/-- A row keeps its names under the steps of the system. -/
theorem names_iff {s t : State} (hruns : t.runs = s.runs)
    (hrows : ∀ i, ∃ f : AgentRecommendation → AgentRecommendation,
      (∀ r, (f r).runId = r.runId ∧ (f r).ordinal = r.ordinal) ∧
      t.recommendations.find? i = (s.recommendations.find? i).map f) (publicId : String)
    (ordinal i : ℕ) : t.Names publicId ordinal i ↔ s.Names publicId ordinal i := by
  obtain ⟨f, hf, hrow⟩ := hrows i
  rw [State.Names, State.Names, hruns, hrow]
  constructor
  · rintro ⟨stored, run, hstored, hordinal, hrun, hname⟩
    obtain ⟨r, hr, rfl⟩ := Option.map_eq_some_iff.mp hstored
    rw [(hf r).2] at hordinal
    rw [(hf r).1] at hrun
    exact ⟨r, run, hr, hordinal, hrun, hname⟩
  · rintro ⟨r, run, hr, hordinal, hrun, hname⟩
    exact ⟨f r, run, by rw [hr]; rfl, (hf r).2.trans hordinal, by rw [(hf r).1]; exact hrun, hname⟩

/-- The rows after a step. -/
theorem names_step (h : step s (q, a) = some t) (publicId : String) (ordinal i : ℕ) :
    t.Names publicId ordinal i ↔ s.Names publicId ordinal i := by
  obtain ⟨hruns, ⟨hrows, -, -⟩ | ⟨request, j, row, assigned, record, -, -, rfl⟩⟩ := step_tables h
  · refine names_iff hruns (fun i => ⟨id, fun _ => ⟨rfl, rfl⟩, ?_⟩) publicId ordinal i
    rw [hrows, Option.map_id]
    rfl
  · refine names_iff hruns (fun i => ⟨_, fun r => ?_, find?_write s j row assigned record i⟩)
      publicId ordinal i
    split_ifs
    · exact ⟨rfl, rfl⟩
    · exact ⟨rfl, rfl⟩

/-- The names of a row are its own. -/
theorem State.Names.inj {publicId publicId' : String} {ordinal ordinal' i j : ℕ}
    (hi : s.Names publicId ordinal i) (hj : s.Names publicId' ordinal' j) :
    publicId = publicId' ∧ ordinal = ordinal' ↔ i = j := by
  obtain ⟨r, run, hr, rfl, hrun, rfl⟩ := hi
  obtain ⟨r', run', hr', rfl, hrun', rfl⟩ := hj
  constructor
  · rintro ⟨hname, hordinal⟩
    have hruns := UniqueTable.eq_of_unique List.mem_cons_self (Table.find?_eq_some_iff.mp hrun)
      (Table.find?_eq_some_iff.mp hrun') (congrArg some hname) rfl
    have hid : r.runId = r'.runId := congrArg (·.1) hruns
    have hkey : some (r.runId, r.ordinal) = some (r'.runId, r'.ordinal) := by
      rw [hid, hordinal]
    have hrows := UniqueTable.eq_of_unique List.mem_cons_self (Table.find?_eq_some_iff.mp hr)
      (Table.find?_eq_some_iff.mp hr') hkey rfl
    exact congrArg (·.1) hrows
  · rintro rfl
    rw [hr] at hr'
    cases hr'
    rw [hrun] at hrun'
    cases hrun'
    exact ⟨rfl, rfl⟩

/-- What a phase knows stays known. -/
theorem PhaseOk.imp {request : Request} {phase : Phase} (h : PhaseOk s request phase)
    (hnames : ∀ publicId ordinal i, s.Names publicId ordinal i → t.Names publicId ordinal i) :
    PhaseOk t request phase := by
  cases phase with
  | loaded i row => exact hnames _ _ _ h
  | checked i row => exact ⟨hnames _ _ _ h.1, h.2⟩
  | updated i row assigned => exact ⟨hnames _ _ _ h.1, h.2⟩
  | audited i row assigned record => exact ⟨hnames _ _ _ h.1, h.2⟩
  | succeeded => trivial
  | refused => trivial

/-- What the `SELECT`s find. -/
theorem phaseOk_load (s : State) (request : Request) : PhaseOk s request (s.load request) := by
  rw [State.load]
  split
  · trivial
  · rename_i runId run hrun
    split
    · trivial
    · rename_i i row hrow
      rw [State.owned] at hrun
      rw [State.recommendationAt] at hrow
      have hfound := List.find?_some hrun
      obtain ⟨hname, -⟩ := of_decide_eq_true hfound
      have hfound := List.find?_some hrow
      obtain ⟨hid, hordinal⟩ := of_decide_eq_true hfound
      refine ⟨row, run, Table.find?_eq_some_iff.mpr (List.mem_of_find?_eq_some hrow), hordinal, ?_,
        hname⟩
      dsimp only at hid
      rw [hid]
      exact Table.find?_eq_some_iff.mpr (List.mem_of_find?_eq_some hrun)

/-- The session that a step moves, and where it goes. -/
theorem step_session (hs : Known s) (h : step s (q, a) = some t) :
    ∃ request phase, PhaseOk s request phase ∧
      t.sessions = Function.update s.sessions q (some (request, phase)) := by
  cases a with
  | select request =>
      simp only [step] at h
      split at h
      · cases h
        exact ⟨request, _, phaseOk_load s request, rfl⟩
      · cases h
  | check =>
      simp only [step] at h
      split at h
      · rename_i request i row hsession
        cases h
        refine ⟨request, _, ?_, rfl⟩
        split_ifs with hstatus
        · trivial
        · exact ⟨hs q _ _ hsession, not_not.mp hstatus⟩
      · cases h
  | update now =>
      simp only [step] at h
      split at h
      · rename_i request i row hsession
        split_ifs at h
        cases h
        obtain ⟨hnames, hstatus⟩ := hs q _ _ hsession
        exact ⟨request, .updated i row (assign row request now), ⟨hnames, hstatus, rfl⟩, rfl⟩
      · cases h
  | insertAudit =>
      simp only [step] at h
      split at h
      · rename_i request i row assigned hsession
        cases h
        obtain ⟨hnames, hstatus, hassigned⟩ := hs q _ _ hsession
        exact ⟨request, .audited i row assigned (auditRecord row request),
          ⟨hnames, hstatus, hassigned, rfl, rfl⟩, rfl⟩
      · cases h
  | commit =>
      simp only [step] at h
      split at h
      · rename_i request i row assigned record hsession
        cases h
        exact ⟨request, .succeeded, trivial, rfl⟩
      · cases h
  | rollback =>
      simp only [step] at h
      split at h
      · cases h
      · rename_i request phase _ hsession
        cases h
        exact ⟨request, .refused, trivial, rfl⟩
      · cases h

/-- What sessions know stays known. -/
theorem known_step (hs : Known s) (h : step s (q, a) = some t) : Known t := by
  obtain ⟨request, phase, hphase, hsessions⟩ := step_session hs h
  have hnames := fun publicId ordinal i => (names_step h publicId ordinal i).mpr
  intro q' request' phase' hsession
  rw [hsessions, Function.update_apply] at hsession
  split_ifs at hsession
  · cases hsession
    exact hphase.imp hnames
  · exact (hs q' request' phase' hsession).imp hnames

/-! ## One-way decisions -/

/-- The audit records of decisions on a recommendation. -/
def State.auditsOf (s : State) (publicId : String) (ordinal : ℕ) : List AuditRecord :=
  s.audit.filter fun record => record.resourceId = publicId ∧ record.ordinal = ordinal

/-- The stored row. -/
def State.stored (s : State) (i : ℕ) : Option AgentRecommendation := s.recommendations.find? i

/-- Decisions on row `i` have been one-way: at most one has been committed, the row is as that
one left it, and the decisions on record are the committed ones. -/
structure OneWay (i : ℕ) (publicId : String) (ordinal : ℕ) (tr : List (State × Label))
    (t : State) : Prop where
  once : tr.countP (commitsRow i) ≤ 1
  frozen : ∀ x ∈ tr, commitsRow i x = true → ∀ u, step x.1 x.2 = some u →
    t.stored i = u.stored i
  audited : (t.auditsOf publicId ordinal).length = tr.countP (commitsRow i)

/-- A recommendation that is proposed and has no decision on record, before any request. -/
structure Fresh (s : State) (i : ℕ) (publicId : String) (ordinal : ℕ) : Prop where
  sessions : ∀ q, s.sessions q = none
  names : s.Names publicId ordinal i
  proposed : (s.stored i).map (·.status) = some .proposed
  audits : s.auditsOf publicId ordinal = []

variable {publicId : String} {ordinal : ℕ} {tr : List (State × Label)}

/-- Only a commit on the row changes it. -/
theorem stored_step (h : step s (q, a) = some t) (hnot : commitsRow i (s, q, a) = false) :
    t.stored i = s.stored i := by
  obtain ⟨-, ⟨hrows, -, -⟩ | ⟨request, j, row, assigned, record, rfl, hsession, rfl⟩⟩ :=
    step_tables h
  · rw [State.stored, hrows, State.stored]
  · have hne : i ≠ j := by
      rintro rfl
      rw [(commitsRow_iff _).mpr ⟨rfl, request, row, assigned, record, hsession⟩] at hnot
      cases hnot
    refine (find?_write s j row assigned record i).trans ?_
    simp only [if_neg hne, Option.map_id']
    rfl

/-- Only a commit on the row puts a decision about it on record. -/
theorem auditsOf_step (hs : Known s) (hnames : s.Names publicId ordinal i)
    (h : step s (q, a) = some t) : (t.auditsOf publicId ordinal).length =
      (s.auditsOf publicId ordinal).length + if commitsRow i (s, q, a) = true then 1 else 0 := by
  obtain ⟨-, ⟨-, haudit, hnot⟩ | ⟨request, j, row, assigned, record, rfl, hsession, rfl⟩⟩ :=
    step_tables h
  · rw [State.auditsOf, haudit, hnot i, if_neg Bool.false_ne_true, Nat.add_zero]
    rfl
  · obtain ⟨hj, -, -, hname, hordinal⟩ := hs q _ _ hsession
    have hcommit : commitsRow i (s, q, .commit) = true ↔ i = j := by
      rw [commitsRow_iff]
      constructor
      · rintro ⟨-, request', row', assigned', record', hsession'⟩
        dsimp only at hsession'
        rw [hsession] at hsession'
        cases hsession'
        rfl
      · rintro rfl
        exact ⟨rfl, request, row, assigned, record, hsession⟩
    have habout : (record.resourceId = publicId ∧ record.ordinal = ordinal) ↔ i = j := by
      rw [hname, hordinal, ← hnames.inj hj]
      exact and_congr eq_comm eq_comm
    show ((s.audit ++ [record]).filter _).length = _
    rw [List.filter_append, List.length_append, State.auditsOf]
    congr 1
    by_cases hij : i = j
    · rw [if_pos (hcommit.mpr hij), List.filter_singleton, decide_eq_true (habout.mpr hij)]
      rfl
    · rw [if_neg (mt hcommit.mp hij), List.filter_singleton, decide_eq_false (mt habout.mp hij)]
      rfl

/-- A committed decision leaves a row that is not proposed. -/
theorem status_commit (hs : Known s) (h : step s (q, a) = some t)
    (hcommit : commitsRow i (s, q, a) = true) :
    (t.stored i).map (·.status) ≠ some .proposed := by
  obtain ⟨ha, request, row, assigned, record, hsession⟩ := (commitsRow_iff _).mp hcommit
  dsimp only at ha hsession
  obtain ⟨-, ⟨-, -, hnot⟩ | ⟨request', j, row', assigned', record', -, hsession', rfl⟩⟩ :=
    step_tables h
  · rw [hnot i] at hcommit
    cases hcommit
  · rw [hsession] at hsession'
    cases hsession'
    obtain ⟨⟨stored, -, hstored, -⟩, hproposed, hassigned, -⟩ := hs q _ _ hsession
    have hne : request.decision.status ≠ .proposed := by
      cases request.decision with
      | approve => decide
      | reject => decide
    have hrow : (((s.write i row assigned record).release q).goto q request .succeeded).stored i =
        some (flushRow row assigned stored) := by
      refine (find?_write s i row assigned record i).trans ?_
      rw [hstored, Option.map_some, if_pos rfl]
    rw [hrow, Option.map_some, flushRow]
    dsimp only
    rw [changed, hproposed, hassigned, if_neg hne]
    exact fun heq => hne (Option.some.inj heq)

/-- Without a commit on the row it is as it was. -/
theorem stored_of_countP_eq_zero (h : Execution step unguarded s tr t)
    (hnone : tr.countP (commitsRow i) = 0) : t.stored i = s.stored i := by
  induction h with
  | nil => rfl
  | snoc _ _ hstep ih =>
      rw [List.countP_cons] at hnone
      split_ifs at hnone with hcommit
      exact (stored_step hstep (Bool.eq_false_of_not_eq_true hcommit)).trans (ih hnone)

/-- The step commits on the row only where the row is still proposed. -/
def OverProposed (i : ℕ) (s : State) (l : Label) : Prop :=
  commitsRow i (s, l) = true → (s.stored i).map (·.status) = some .proposed

instance (i : ℕ) (s : State) (l : Label) : Decidable (OverProposed i s l) :=
  inferInstanceAs (Decidable (_ → _))

/-- A completed run with one recommendation, and no request. -/
def proposedOnce : State where
  runs := UniqueTable.empty.insertFree
    ⟨"run-1", 1, 7, "acme", .completed, "model", 1, 10, 5, 0, some 0, none⟩ (by decide)
  recommendations := UniqueTable.empty.insertFree
    ⟨1, 0, "Go", "", ["ev-1"], .proposed, none, none, none⟩ (by decide)
  audit := []
  locks := fun _ => none
  sessions := fun _ => none

/-- A request on that recommendation. -/
def request (decision : Decision) (userId : ℕ) : Request :=
  ⟨"run-1", 0, decision, "", userId, 1⟩

theorem proposedOnce_fresh : Fresh proposedOnce 1 "run-1" 0 :=
  ⟨fun _ => rfl, ⟨_, _, rfl, rfl, rfl, rfl⟩, rfl, rfl⟩

end ProcureSignal.Agents.Decisions
