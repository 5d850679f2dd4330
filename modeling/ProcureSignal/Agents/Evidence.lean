/-
# The evidence of recommendations

What `_store_recommendations` keeps and what it drops, how `analyse_supplier` ends, and the
citations of the rows it stores.

* `storeRecommendations_spec` : the rows that survive cite only what a tool returned, under
  ordinals without gaps; the dropped citations are exactly the other ones;
* `analyseSupplier_meets` : **how the analysis ends**;
* `evidence_iff` : **the evidence of every stored recommendation is sound**, and every
  invented citation is on the record exactly when there is none or nothing raises.
-/
import ProcureSignal.Agents.Progress

namespace ProcureSignal.Agents

open Retrieval (Json)

variable {P : Python} {db : Database} {runId : ℕ} {s : State}

/-! ## What is kept and what is dropped -/

/-- A recommendation with a title that is not blank. -/
def titled? (P : Python) : Json → Option (List (String × Json))
  | .object fields => if stripped P fields "title" = "" then none else some fields
  | _ => none

/-- The titled recommendations of a reply. -/
def titledOf (P : Python) (items : List Json) : List (List (String × Json)) :=
  items.filterMap (titled? P)

/-- The text is cited in a titled recommendation. -/
def Cites (P : Python) (items : List Json) (key : String) : Prop :=
  ∃ fields ∈ titledOf P items, ∃ cited, citations fields = some cited ∧ key ∈ cited

/-- The columns take the row of a recommendation. -/
def Fits (P : Python) (fields : List (String × Json)) : Prop :=
  fitsText (some 300) (clip (stripped P fields "title")) = true ∧
    fitsText none (stripped P fields "rationale") = true

/-- The row is one that the analysis may store: a proposal with a title, and with citations
that all satisfy `V`. -/
structure Supported (runId : ℕ) (V : String → Prop) (r : AgentRecommendation) : Prop where
  run : r.runId = runId
  status : r.status = .proposed
  title : r.title ≠ ""
  cited : r.evidenceEventKeys ≠ []
  evidence : ∀ key ∈ r.evidenceEventKeys, V key

/-- What comes of the recommendations of a reply. -/
structure Kept (P : Python) (runId : ℕ) (verified : List String) (ordinal : ℕ)
    (items : List Json) (rows : List AgentRecommendation) (dropped : List String) : Prop where
  supported : ∀ r ∈ rows, Supported runId (· ∈ verified) r
  ordinals : rows.map (·.ordinal) = List.range' ordinal rows.length
  dropped : ∀ key, key ∈ dropped ↔ Cites P items key ∧ key ∉ verified
  storable : (∀ r ∈ rows, r.storable = true) ↔ ∀ fields ∈ titledOf P items,
    ∀ cited, citations fields = some cited → (∃ key ∈ cited, key ∈ verified) → Fits P fields

/-- A title that is not empty stays so when it is clipped. -/
theorem clip_ne_empty {title : String} (h : title ≠ "") : clip title ≠ "" := by
  intro hclip
  have hnil : title.toList.take 300 = [] := by
    have := congrArg String.toList hclip
    rwa [clip, String.toList_ofList] at this
  have hempty : title.toList = [] := by
    rcases List.take_eq_nil_iff.mp hnil with h300 | hempty
    · cases h300
    · exact hempty
  exact h (String.toList_inj.mp hempty)

variable {verified : List String} {ordinal : ℕ} {item : Json} {items : List Json}
  {rows : List AgentRecommendation} {dropped : List String}

/-- The citations after a further recommendation. -/
theorem cites_cons {fields : List (String × Json)} {cited : List String}
    (hitem : titled? P item = some fields) (hcited : citations fields = some cited)
    (key : String) : Cites P (item :: items) key ↔ key ∈ cited ∨ Cites P items key := by
  rw [Cites, titledOf, List.filterMap_cons_some hitem, List.exists_mem_cons_iff, hcited]
  refine or_congr_left ⟨?_, fun hkey => ⟨cited, rfl, hkey⟩⟩
  rintro ⟨c, hc, hkey⟩
  cases hc
  exact hkey

/-- A value without a title changes nothing. -/
theorem Kept.cons_none (h : Kept P runId verified ordinal items rows dropped)
    (hitem : titled? P item = none) :
    Kept P runId verified ordinal (item :: items) rows dropped := by
  have htitled : titledOf P (item :: items) = titledOf P items :=
    List.filterMap_cons_none hitem
  refine ⟨h.supported, h.ordinals, fun key => ?_, ?_⟩
  · rw [h.dropped, Cites, Cites, htitled]
  · rw [h.storable, htitled]

/-- What is dropped with one more recommendation. -/
theorem Kept.dropped_cons (h : Kept P runId verified ordinal items rows dropped)
    {fields : List (String × Json)} {cited : List String}
    (hitem : titled? P item = some fields) (hcited : citations fields = some cited)
    (key : String) : key ∈ cited.filter (· ∉ verified) ++ dropped ↔
      Cites P (item :: items) key ∧ key ∉ verified := by
  rw [List.mem_append, List.mem_filter, decide_eq_true_eq, h.dropped, cites_cons hitem hcited,
    or_and_right]

/-- A recommendation without evidence is not stored. -/
theorem Kept.cons_nil (h : Kept P runId verified ordinal items rows dropped)
    {fields : List (String × Json)} {cited : List String}
    (hitem : titled? P item = some fields) (hcited : citations fields = some cited)
    (hnone : cited.filter (· ∈ verified) = []) :
    Kept P runId verified ordinal (item :: items) rows
      (cited.filter (· ∉ verified) ++ dropped) := by
  refine ⟨h.supported, h.ordinals, h.dropped_cons hitem hcited, ?_⟩
  rw [h.storable, titledOf, titledOf, List.filterMap_cons_some hitem, List.forall_mem_cons]
  refine (and_iff_right ?_).symm
  rintro c hc ⟨key, hkey, hverified⟩
  rw [hcited] at hc
  cases hc
  have hmem : key ∈ cited.filter (· ∈ verified) :=
    List.mem_filter.mpr ⟨hkey, decide_eq_true hverified⟩
  rw [hnone] at hmem
  cases hmem

/-- A recommendation with evidence is stored under the next ordinal. -/
theorem Kept.cons_row (h : Kept P runId verified (ordinal + 1) items rows dropped)
    {fields : List (String × Json)} {cited : List String}
    (hitem : titled? P item = some fields) (hcited : citations fields = some cited)
    (htitle : stripped P fields "title" ≠ "") (hsome : cited.filter (· ∈ verified) ≠ []) :
    Kept P runId verified ordinal (item :: items)
      (recommendation P runId ordinal fields (cited.filter (· ∈ verified)) :: rows)
      (cited.filter (· ∉ verified) ++ dropped) := by
  refine ⟨List.forall_mem_cons.mpr ⟨⟨rfl, rfl, clip_ne_empty htitle, hsome, fun key hkey => ?_⟩,
    h.supported⟩, ?_, h.dropped_cons hitem hcited, ?_⟩
  · exact of_decide_eq_true (List.mem_filter.mp hkey).2
  · rw [List.map_cons, h.ordinals, List.length_cons, List.range'_succ]
    rfl
  · rw [List.forall_mem_cons, h.storable, titledOf, titledOf, List.filterMap_cons_some hitem,
      List.forall_mem_cons]
    refine and_congr_left fun _ => ?_
    have hfits : (recommendation P runId ordinal fields
        (cited.filter (· ∈ verified))).storable = true ↔ Fits P fields := Bool.and_eq_true_iff
    rw [hfits]
    obtain ⟨key, hkey⟩ := List.exists_mem_of_ne_nil _ hsome
    obtain ⟨hmem, hverified⟩ := List.mem_filter.mp hkey
    constructor
    · exact fun hrow _ _ _ => hrow
    · exact fun hall => hall cited hcited ⟨key, hmem, of_decide_eq_true hverified⟩

/-- A value without a title is skipped. -/
theorem storeRecommendations_skip {item : Json} (h : titled? P item = none)
    (verified : List String) (ordinal : ℕ) (items : List Json) :
    storeRecommendations P runId verified ordinal (item :: items) =
      storeRecommendations P runId verified ordinal items := by
  cases item with
  | object fields =>
      rw [storeRecommendations]
      rw [titled?] at h
      split_ifs at h with hblank
      rw [if_pos hblank]
  | null | bool _ | number _ | string _ | array _ => rfl

/-- A titled recommendation. -/
theorem storeRecommendations_titled {item : Json} {fields : List (String × Json)}
    (h : titled? P item = some fields) (verified : List String) (ordinal : ℕ)
    (items : List Json) :
    stripped P fields "title" ≠ "" ∧
    storeRecommendations P runId verified ordinal (item :: items) = (do
      let cited ← citations fields
      let kept := cited.filter (· ∈ verified)
      let dropped := cited.filter (· ∉ verified)
      if kept = [] then
        let rest ← storeRecommendations P runId verified ordinal items
        return (rest.1, dropped ++ rest.2)
      else
        let rest ← storeRecommendations P runId verified (ordinal + 1) items
        return (recommendation P runId ordinal fields kept :: rest.1, dropped ++ rest.2)) := by
  cases item with
  | object own =>
      rw [titled?] at h
      split_ifs at h with hblank
      obtain rfl := Option.some.inj h
      refine ⟨hblank, ?_⟩
      rw [storeRecommendations, if_neg hblank]
  | null | bool _ | number _ | string _ | array _ => cases h

/-- A computation goes on without failing. -/
theorem exists_bind_pure {α β : Type} (x : Option α) (g : α → β) :
    (∃ r, (do let a ← x; return g a) = some r) ↔ ∃ a, x = some a := by
  cases x with
  | none => exact iff_of_false (fun ⟨_, hr⟩ => by cases hr) fun ⟨_, hr⟩ => by cases hr
  | some a => exact iff_of_true ⟨_, rfl⟩ ⟨a, rfl⟩

/-- The analysis stores exactly when every list of citations can be iterated. -/
theorem exists_storeRecommendations (verified : List String) (ordinal : ℕ) (items : List Json) :
    (∃ r, storeRecommendations P runId verified ordinal items = some r) ↔
      ∀ fields ∈ titledOf P items, ∃ cited, citations fields = some cited := by
  induction items generalizing ordinal with
  | nil => exact iff_of_true ⟨_, rfl⟩ (List.forall_mem_nil _)
  | cons item items ih =>
      cases hitem : titled? P item with
      | none =>
          rw [storeRecommendations_skip hitem, ih, titledOf, titledOf,
            List.filterMap_cons_none hitem]
      | some fields =>
          rw [(storeRecommendations_titled hitem verified ordinal items).2, titledOf,
            List.filterMap_cons_some hitem, List.forall_mem_cons]
          cases hcited : citations fields with
          | none =>
              refine iff_of_false ?_ ?_
              · rintro ⟨r, hr⟩
                cases hr
              · rintro ⟨⟨cited, hc⟩, -⟩
                cases hc
          | some cited =>
              rw [and_iff_right ⟨cited, rfl⟩]
              show (∃ r, (if cited.filter (· ∈ verified) = [] then _ else _) = some r) ↔ _
              split_ifs
              · exact (exists_bind_pure _ _).trans (ih ordinal)
              · exact (exists_bind_pure _ _).trans (ih (ordinal + 1))

/-- What is kept and what is dropped. -/
theorem kept_of_storeRecommendations {verified : List String} {ordinal : ℕ} {items : List Json}
    {rows : List AgentRecommendation} {dropped : List String}
    (h : storeRecommendations P runId verified ordinal items = some (rows, dropped)) :
    Kept P runId verified ordinal items rows dropped := by
  induction items generalizing ordinal rows dropped with
  | nil =>
      cases h
      refine ⟨List.forall_mem_nil _, rfl, fun key => iff_of_false List.not_mem_nil ?_, ?_⟩
      · rintro ⟨⟨fields, hfields, -⟩, -⟩
        cases hfields
      · exact iff_of_true (List.forall_mem_nil _) (List.forall_mem_nil _)
  | cons item items ih =>
      cases hitem : titled? P item with
      | none =>
          rw [storeRecommendations_skip hitem] at h
          exact (ih h).cons_none hitem
      | some fields =>
          obtain ⟨htitle, hstore⟩ :=
            @storeRecommendations_titled P runId item fields hitem verified ordinal items
          rw [hstore] at h
          cases hcited : citations fields with
          | none =>
              rw [hcited] at h
              cases h
          | some cited =>
              rw [hcited] at h
              replace h : (if cited.filter (· ∈ verified) = [] then _ else _) =
                some (rows, dropped) := h
              split_ifs at h with hkept
              · obtain ⟨⟨rows', dropped'⟩, hrest, heq⟩ := Option.bind_eq_some_iff.mp h
                cases heq
                exact (ih hrest).cons_nil hitem hcited hkept
              · obtain ⟨⟨rows', dropped'⟩, hrest, heq⟩ := Option.bind_eq_some_iff.mp h
                cases heq
                exact (ih hrest).cons_row hitem hcited htitle hkept

/-! ## How the analysis ends -/

/-- Nothing raises after an answer: the reply can be parsed or is refused as no JSON, its
findings can be sliced, and its recommendations can be iterated and stored. -/
def ReplyOk (P : Python) (V : String → Prop) (text : String) : Prop :=
  ∃ parsed, parseAnalysis P text = .ok parsed ∧ ∀ analysis, parsed = some analysis →
    (∃ findings, sliced 20 (get analysis "findings") = some findings) ∧
      ∀ fields ∈ titledOf P (proposedOf analysis), ∃ cited, citations fields = some cited ∧
        ((∃ key ∈ cited, V key) → Fits P fields)

/-- Nothing raises in an analysis: every turn that the loop reaches goes well, and so does
what is made of the answer. -/
def Environment.Graceful (env : Environment) (P : Python) (organizationId : ℕ) : Prop :=
  ∀ n < maxSteps, env.Reached organizationId n → env.withinBudget n = true →
    env.TurnOk organizationId n ∧ ∀ turn, env.respond n = some turn → turn.toolCalls = [] →
      ReplyOk P (env.Returned organizationId n) turn.reply

/-- The analysis ended with a completed run: its recommendations are stored, together with
the evidence check. -/
structure Checked (P : Python) (db : Database) (runId : ℕ) (env : Environment)
    (organizationId n : ℕ) (turn : AgentTurn) (s : State) : Prop where
  answer : env.Answers organizationId n turn
  row : ∃ run, s.committed.runs.find? runId = some run ∧ run.status = .completed
  kept : ∃ analysis verified rows dropped findings,
    parseAnalysis P turn.reply = .ok (some analysis) ∧
    (∀ key, key ∈ verified ↔ env.Returned organizationId n key) ∧
    Kept P runId verified 0 (proposedOf analysis) rows dropped ∧
    s.committed.recommendations.values = db.recommendations.values ++ rows ∧
    ∃ step ∈ s.committed.steps.values, step.runId = runId ∧
      step.payload = .evidenceCheck (sortedSet verified) dropped findings

/-- What holds when the analysis returns: the run failed with a reason and without a
recommendation, or it is completed and checked. -/
def Returns (P : Python) (db : Database) (runId : ℕ) (env : Environment) (organizationId : ℕ)
    (s : State) : Prop :=
  (Steady db runId .failed s ∧ ∀ n turn, env.Answers organizationId n turn →
    parseAnalysis P turn.reply = .ok none) ∨
  ∃ n turn, Checked P db runId env organizationId n turn s

/-- What is committed when an exception leaves the analysis. -/
def Raises (db : Database) (runId : ℕ) (s : State) : Prop :=
  Steady db runId .running s ∨ Steady db runId .completed s

/-- Storing a parsed reply. -/
theorem store_meets {env : Environment} {organizationId n : ℕ} {turn : AgentTurn}
    {analysis : List (String × Json)} (h : Steady db runId .completed s)
    (hstatus : s.run.status = .completed) (hadded : s.added = []) (hready : s.aborted = false)
    (hanswer : env.Answers organizationId n turn)
    (hverified : ∀ key, key ∈ s.verified ↔ env.Returned organizationId n key)
    (hparse : parseAnalysis P turn.reply = .ok (some analysis)) :
    Meets (s.store P analysis)
      ((∃ findings, sliced 20 (get analysis "findings") = some findings) ∧
        ∀ fields ∈ titledOf P (proposedOf analysis), ∃ cited, citations fields = some cited ∧
          ((∃ key ∈ cited, env.Returned organizationId n key) → Fits P fields))
      (Returns P db runId env organizationId) (Raises db runId) := by
  obtain rfl := h.id
  rw [State.store]
  have hstore := @exists_storeRecommendations P s.runId s.verified 0 (proposedOf analysis)
  cases hrows : storeRecommendations P s.runId s.verified 0 (proposedOf analysis) with
  | none =>
      refine ⟨?_, Or.inr h⟩
      rintro ⟨-, hall⟩
      obtain ⟨r, hr⟩ := hstore.mpr fun fields hfields =>
        (hall fields hfields).imp fun _ hc => hc.1
      rw [hrows] at hr
      cases hr
  | some r =>
      obtain ⟨rows, dropped⟩ := r
      have hkept := kept_of_storeRecommendations hrows
      have hcited := hstore.mp ⟨_, hrows⟩
      cases hfindings : sliced 20 (get analysis "findings") with
      | none =>
          refine ⟨?_, Or.inr h⟩
          rintro ⟨⟨findings, hf⟩, -⟩
          cases hf
      | some findings =>
          refine (commit_meets _).imp ?_ ?_ ?_
          · rw [and_iff_right hready, and_iff_right ⟨findings, rfl⟩, hadded, List.nil_append,
              List.forall_mem_append, List.forall_mem_map, List.forall_mem_singleton]
            have hstep : (Added.step (s.evidenceStep P dropped findings)).storable = true := rfl
            refine (and_iff_left hstep).trans
              (hkept.storable.trans (forall₂_congr fun fields hfields => ?_))
            obtain ⟨cited, hc⟩ := hcited fields hfields
            simp only [hverified]
            constructor
            · exact fun hall => ⟨cited, hc, hall cited hc⟩
            · rintro ⟨c, hc', hfits⟩ c' hc''
              obtain rfl : c = c' := Option.some.inj (hc'.symm.trans hc'')
              exact hfits
          · rintro _ ⟨-, rfl⟩
            refine Or.inr ⟨n, turn, hanswer, ?_, analysis, s.verified, rows, dropped,
              findings.map P.text, hparse, hverified, hkept, ?_, ?_⟩
            · exact ⟨_, h.find?_flush _ _, hstatus⟩
            · show (s.committed.flush s.runId _ _).recommendations.values = _
              rw [Database.recommendations_flush, h.recommendations]
              dsimp only
              rw [hadded, List.nil_append, List.filterMap_append, List.filterMap_map]
              exact congrArg _ ((List.append_nil _).trans List.filterMap_some)
            · refine ⟨s.evidenceStep P dropped findings, ?_, rfl, rfl⟩
              show _ ∈ (s.committed.flush s.runId _ _).steps.values
              rw [Database.steps_flush]
              dsimp only
              rw [List.filterMap_append]
              exact List.mem_append_right _ (List.mem_append_right _ (List.mem_singleton_self _))
          · rintro _ rfl
            exact Or.inr (h.of_committed rfl rfl)

/-- What comes of the loop. -/
theorem conclude_meets {env : Environment} {organizationId : ℕ} {text : String}
    (h : GaveUp db runId env organizationId maxSteps 0 s ∨
      Answered db runId env organizationId maxSteps 0 s text) :
    Meets (s.conclude P text)
      (∀ n turn, env.Answers organizationId n turn →
        ReplyOk P (env.Returned organizationId n) turn.reply)
      (Returns P db runId env organizationId) (Raises db runId) := by
  rw [State.conclude]
  rcases h with h | h
  · have hnone : ∀ n turn, ¬env.Answers organizationId n turn := fun n turn ha =>
      h.unanswered n turn ((Environment.answersFrom_zero n turn).mpr ha)
    rw [if_pos (by rw [h.status]; decide)]
    exact ⟨fun n turn ha => absurd ha (hnone n turn),
      Or.inl ⟨h.toSteady, fun n turn ha => absurd ha (hnone n turn)⟩⟩
  · rw [if_neg (not_not_intro h.status)]
    obtain ⟨m, turn, hfrom, rfl, hverified⟩ := h.answer
    have hanswer := (Environment.answersFrom_zero m turn).mp hfrom
    have hunique : (∀ n t, env.Answers organizationId n t →
        ReplyOk P (env.Returned organizationId n) t.reply) ↔
        ReplyOk P (env.Returned organizationId m) turn.reply := by
      refine ⟨fun hall => hall m turn hanswer, fun hok n t ht => ?_⟩
      obtain ⟨rfl, rfl⟩ := hanswer.unique ht
      exact hok
    cases hparse : parseAnalysis P turn.reply with
    | error e =>
        refine ⟨fun hall => ?_, Or.inr h.toSteady⟩
        obtain ⟨parsed, hparsed, -⟩ := hunique.mp hall
        rw [hparse] at hparsed
        cases hparsed
    | ok parsed =>
        cases parsed with
        | none =>
            refine (commit_meets _).imp (iff_of_true ⟨h.ready, ?_⟩ (hunique.mpr ?_)) ?_ ?_
            · intro row hrow
              dsimp only at hrow
              rw [h.added] at hrow
              cases hrow
            · exact ⟨none, hparse, nofun⟩
            · rintro _ ⟨-, rfl⟩
              refine Or.inl ⟨h.flush { s.run with
                  status := .failed, failureReason := some "unparseable_output" } []
                (List.forall_mem_nil _) rfl (fun _ => Option.some_ne_none _) h.id ?_,
                fun n t ht => ?_⟩
              · dsimp only
                rw [h.added, h.id]
                rfl
              · obtain ⟨rfl, rfl⟩ := hanswer.unique ht
                exact hparse
            · rintro _ rfl
              exact Or.inr (h.of_committed rfl rfl)
        | some analysis =>
            refine (store_meets h.toSteady h.status h.added h.ready hanswer hverified hparse).imp
              ?_ (fun _ hq => hq) fun _ he => he
            rw [hunique]
            constructor
            · rintro hok
              refine ⟨some analysis, hparse, fun a ha => ?_⟩
              obtain rfl := Option.some.inj ha
              exact hok
            · rintro ⟨parsed, hparsed, hok⟩
              rw [hparse] at hparsed
              exact hok analysis (Except.ok.inj hparsed).symm

/-- The run row has just been created. -/
theorem active_begin (P : Python) (hdb : db.StepsHaveRuns) (env : Environment)
    (organizationId : ℕ) (run : AgentRun) (supplier : Supplier) (hrun : run.status = .running) :
    Active db db.runs.nextId (env.Returned organizationId 0) (State.begin P db run supplier) := by
  refine ⟨⟨rfl, rfl, ⟨run, ?_, hrun, nofun⟩, fun step hstep hid => ?_⟩, hrun, rfl, fun key => ?_⟩
  · show (db.runs.insert run).find? db.runs.nextId = some run
    rw [Table.find?_insert, if_pos rfl]
  · obtain ⟨old, hold⟩ := hdb step hstep
    rw [hid, Table.find?_nextId] at hold
    cases hold
  · refine iff_of_false List.not_mem_nil ?_
    rintro ⟨i, hi, -⟩
    exact absurd hi (Nat.not_lt_zero i)

/-- Nothing raises in the loop, and nothing raises after it. -/
theorem graceful_iff {env : Environment} {organizationId : ℕ} :
    env.Graceful P organizationId ↔ env.SmoothFrom organizationId maxSteps 0 ∧
      ∀ n turn, env.Answers organizationId n turn →
        ReplyOk P (env.Returned organizationId n) turn.reply := by
  rw [Environment.smoothFrom_zero]
  constructor
  · intro h
    refine ⟨fun n hn hr hb => (h n hn hr hb).1, ?_⟩
    rintro n turn ⟨hn, hr, hb, hturn, hcalls⟩
    exact (h n hn hr hb).2 turn hturn hcalls
  · rintro ⟨hsmooth, hreply⟩ n hn hr hb
    exact ⟨hsmooth n hn hr hb, fun turn hturn hcalls => hreply n turn ⟨hn, hr, hb, hturn, hcalls⟩⟩

/-- **How the analysis ends.**  It returns exactly when nothing raises; an exception leaves
a run without recommendations and without an evidence check. -/
theorem analyseSupplier_meets (hdb : db.StepsHaveRuns) {env : Environment}
    {organizationId userId : ℕ} {supplierPublicId publicId : String}
    {outcome : Except State State} (h : analyseSupplier P env organizationId userId
      supplierPublicId publicId db = some outcome) :
    Meets outcome (env.Graceful P organizationId)
      (Returns P db db.runs.nextId env organizationId) (Raises db db.runs.nextId) := by
  rw [analyseSupplier] at h
  split at h
  · cases h
  · rename_i supplier _
    dsimp only at h
    split_ifs at h
    obtain rfl := Option.some.inj h
    have hbegin := active_begin P hdb env organizationId
      (newRun env publicId organizationId userId supplierPublicId) supplier rfl
    rw [graceful_iff]
    exact ((runLoop_meets P env organizationId maxSteps 0 hbegin rfl).imp Iff.rfl
      (fun _ hq => hq) fun _ he => Or.inl he).bind fun _ p hp => conclude_meets hp

/-! ## The evidence -/

/-- A call of a turn before `n` ran the handler of a tool of the catalogue, with the arguments
that the tool declares and for the caller's organization, and the text occurs as an `event_key`
in what came back. -/
def Environment.Evidenced (env : Environment) (organizationId n : ℕ) (key : String) : Prop :=
  ∃ i < n, ∃ turn, env.respond i = some turn ∧ ∃ j call, turn.toolCalls[j]? = some call ∧
    ∃ tool ∈ toolCatalogue, tool.name = call.name ∧
      ∃ v, env.handlers i j tool.name (tool.accepted call.arguments) organizationId =
        .result v ∧ HasEventKey key v

/-- What tools returned came from handlers. -/
theorem evidenced_of_returned {env : Environment} {organizationId n : ℕ} {key : String}
    (h : env.Returned organizationId n key) : env.Evidenced organizationId n key := by
  obtain ⟨i, hi, turn, hturn, j, call, hcall, v, hv, hkey⟩ := h
  obtain ⟨tool, htool, hname, hresult⟩ := dispatch_eq_result hv
  rw [← hname] at hresult
  exact ⟨i, hi, turn, hturn, j, call, hcall, tool, htool, hname, v, hresult, hkey⟩

/-- Every recommendation that the run stored is a proposal with a title and with citations that
the tools returned before the answer, and the ordinals have no gap. -/
def SoundRows (db : Database) (env : Environment) (organizationId : ℕ) (after : Database) :
    Prop :=
  ∃ rows, after.recommendations.values = db.recommendations.values ++ rows ∧
    rows.map (·.ordinal) = List.range rows.length ∧
    ∀ r ∈ rows, ∃ n turn, env.Answers organizationId n turn ∧
      Supported db.runs.nextId (env.Evidenced organizationId n) r

/-- The model answered, and cited a text in a titled recommendation that no tool had
returned. -/
def Environment.Invents (env : Environment) (P : Python) (organizationId : ℕ) (key : String) :
    Prop :=
  ∃ n turn analysis, env.Answers organizationId n turn ∧
    parseAnalysis P turn.reply = .ok (some analysis) ∧ Cites P (proposedOf analysis) key ∧
    ¬env.Returned organizationId n key

/-- The text is listed as dropped in an `evidence_check` step of the run. -/
def ListedAsDropped (after : Database) (runId : ℕ) (key : String) : Prop :=
  ∃ step ∈ after.steps.values, step.runId = runId ∧
    ∃ verified dropped findings, step.payload = .evidenceCheck verified dropped findings ∧
      key ∈ dropped

/-- No recommendation has been stored. -/
theorem Steady.soundRows {status : RunStatus} (h : Steady db db.runs.nextId status s)
    {env : Environment} {organizationId : ℕ} :
    SoundRows db env organizationId s.committed :=
  ⟨[], h.recommendations.trans (List.append_nil _).symm, rfl, List.forall_mem_nil _⟩

/-- Without an evidence check nothing is listed. -/
theorem Steady.not_listed {status : RunStatus} (h : Steady db runId status s) (key : String) :
    ¬ListedAsDropped s.committed runId key := by
  rintro ⟨step, hstep, hid, verified, dropped, findings, hpayload, -⟩
  have hcheck := h.unchecked step hstep hid
  rw [hpayload] at hcheck
  cases hcheck

/-- The stored rows are sound. -/
theorem Checked.soundRows {env : Environment} {organizationId n : ℕ} {turn : AgentTurn}
    (h : Checked P db db.runs.nextId env organizationId n turn s) :
    SoundRows db env organizationId s.committed := by
  obtain ⟨analysis, verified, rows, dropped, findings, -, hverified, hkept, hrows, -⟩ := h.kept
  refine ⟨rows, hrows, ?_, fun r hr => ⟨n, turn, h.answer, ?_⟩⟩
  · rw [hkept.ordinals, List.range_eq_range']
  · have hr := hkept.supported r hr
    exact ⟨hr.run, hr.status, hr.title, hr.cited, fun key hkey =>
      evidenced_of_returned ((hverified key).mp (hr.evidence key hkey))⟩

/-- Every invented citation is listed. -/
theorem Checked.listed {env : Environment} {organizationId n : ℕ} {turn : AgentTurn}
    (h : Checked P db runId env organizationId n turn s) {key : String}
    (hkey : env.Invents P organizationId key) : ListedAsDropped s.committed runId key := by
  obtain ⟨analysis, verified, rows, dropped, findings, hparse, hverified, hkept, -, step, hstep,
    hid, hpayload⟩ := h.kept
  obtain ⟨m, turn', analysis', hanswer, hparse', hcites, hnot⟩ := hkey
  obtain ⟨rfl, rfl⟩ := h.answer.unique hanswer
  rw [hparse] at hparse'
  obtain rfl := Option.some.inj (Except.ok.inj hparse')
  refine ⟨step, hstep, hid, _, dropped, findings, hpayload, (hkept.dropped key).mpr ⟨hcites, ?_⟩⟩
  exact fun hmem => hnot ((hverified key).mp hmem)

/-! ## A run with a look and an answer -/

/-- A library in which every reply decodes to the given value. -/
def decodingTo (v : Json) : Python where
  unicode := .ascii
  loads := fun _ => .ok v
  dumps := fun _ => ""
  str := fun _ => ""
  repr := fun s => "'" ++ s ++ "'"

theorem parseAnalysis_decodingTo {text : String} (h : text ≠ "")
    (fields : List (String × Json)) :
    parseAnalysis (decodingTo (.object fields)) text = .ok (some fields) := by
  rw [parseAnalysis, if_neg h]
  rfl

/-- A store with one supplier. -/
def oneSupplier : Database :=
  ⟨Table.empty.insert ⟨"acme", "Acme", "acme", none, none, true⟩, .empty, .empty, .empty⟩

/-- A recommendation as the model writes it. -/
def recommended (title : String) (citations : Json) : Json :=
  .object [("title", .string title), ("evidence_event_keys", citations)]

theorem titled?_recommended {P : Python} {title : String} {citations : Json}
    (h : stripped P [("title", .string title), ("evidence_event_keys", citations)] "title" ≠ "") :
    titled? P (recommended title citations) =
      some [("title", .string title), ("evidence_event_keys", citations)] := by
  rw [recommended, titled?, if_neg h]

/-- A reply with these recommendations. -/
def replyWith (items : List Json) : Json := .object [("recommendations", .array items)]

/-- A client that looks for risk events once and then answers; the tool returns the event
`ev-1`. -/
def oneLook (text : String) : Environment where
  clientName := "model"
  withinBudget := fun _ => true
  respond := fun n =>
    if n = 0 then
      some ⟨none, [⟨"call-0", "list_risk_events", [("supplier_public_id", .string "acme")]⟩],
        10, 5⟩
    else some ⟨some text, [], 10, 5⟩
  charged := fun _ => true
  handlers := fun _ _ _ _ _ => .result (.object [("events",
    .array [.object [("event_key", .string "ev-1")]])])
  startedAt := 0
  finishedAt := 0

theorem oneSupplier_stepsHaveRuns : oneSupplier.StepsHaveRuns := by
  intro step hstep
  cases hstep

/-- The loop passes the look and no later turn. -/
theorem oneLook_passes (text : String) (n : ℕ) : (oneLook text).Passes 1 n ↔ n = 0 := by
  constructor
  · rintro ⟨-, ⟨turn, hturn, hcalls⟩, -⟩
    by_contra hn
    rw [show (oneLook text).respond n = some ⟨some text, [], 10, 5⟩ from if_neg hn] at hturn
    cases hturn
    exact hcalls rfl
  · rintro rfl
    refine ⟨rfl, ⟨_, rfl, List.cons_ne_nil _ _⟩, _, rfl, Or.inr rfl, fun j call hcall => ?_⟩
    cases j with
    | zero =>
        cases hcall
        exact ⟨by decide, fun _ => nofun⟩
    | succ j => cases hcall

/-- The model answers after the look. -/
theorem oneLook_answers (text : String) (n : ℕ) (turn : AgentTurn) :
    (oneLook text).Answers 1 n turn ↔ n = 1 ∧ turn = ⟨some text, [], 10, 5⟩ := by
  constructor
  · rintro ⟨-, hreached, -, hturn, hcalls⟩
    have hn : n ≠ 0 := by
      rintro rfl
      cases hturn
      cases hcalls
    have hle : n ≤ 1 := by
      by_contra hlt
      have hone := (oneLook_passes text 1).mp (hreached 1 (by omega))
      omega
    rw [show (oneLook text).respond n = some ⟨some text, [], 10, 5⟩ from if_neg hn] at hturn
    exact ⟨by omega, (Option.some.inj hturn).symm⟩
  · rintro ⟨rfl, rfl⟩
    refine ⟨by decide, fun i hi => (oneLook_passes text i).mpr (by omega), rfl, rfl, rfl⟩

/-- The tool returned one event. -/
theorem oneLook_returned (text key : String) :
    (oneLook text).Returned 1 1 key ↔ key = "ev-1" := by
  have hkeys : eventKeysIn (.object [("events",
      .array [.object [("event_key", .string "ev-1")]])]) = ["ev-1"] := by decide
  constructor
  · rintro ⟨i, hi, turn, hturn, j, call, hcall, v, hv, hkey⟩
    obtain rfl : i = 0 := by omega
    cases hturn
    cases j with
    | zero =>
        cases hcall
        cases hv
        rw [← mem_eventKeysIn, hkeys] at hkey
        exact List.mem_singleton.mp hkey
    | succ j => cases hcall
  · rintro rfl
    refine ⟨0, Nat.one_pos, _, rfl, 0, _, rfl, _, rfl, ?_⟩
    rw [← mem_eventKeysIn, hkeys]
    exact List.mem_singleton_self _

/-- The reply cites the event and one that nobody returned. -/
def halfInvented : Json :=
  replyWith [recommended "Go" (.array [.string "ev-1", .string "ev-9"])]

theorem mem_titledOf_halfInvented (fields : List (String × Json)) :
    fields ∈ titledOf (decodingTo halfInvented)
      [recommended "Go" (.array [.string "ev-1", .string "ev-9"])] ↔
    fields = [("title", .string "Go"),
      ("evidence_event_keys", .array [.string "ev-1", .string "ev-9"])] := by
  rw [titledOf, List.filterMap_cons_some (titled?_recommended (by decide))]
  exact List.mem_singleton

/-- `halfInvented`, as text. -/
def halfInventedText : String :=
  "\x7b\"recommendations\": [\x7b\"title\": \"Go\", " ++
    "\"evidence_event_keys\": [\"ev-1\", \"ev-9\"]\x7d]\x7d"

/-- Nothing raises in that run. -/
theorem halfInvented_graceful :
    (oneLook halfInventedText).Graceful (decodingTo halfInvented) 1 := by
  rintro n - hreached -
  have hle : n ≤ 1 := by
    by_contra hlt
    have hone := (oneLook_passes halfInventedText 1).mp (hreached 1 (by omega))
    omega
  rcases Nat.le_one_iff_eq_zero_or_eq_one.mp hle with rfl | rfl
  · refine ⟨((oneLook_passes halfInventedText 0).mpr rfl).2.2, fun turn hturn hcalls => ?_⟩
    cases hturn
    cases hcalls
  · refine ⟨⟨_, rfl, Or.inr rfl, fun j call hcall => ?_⟩, fun turn hturn _ => ?_⟩
    · cases hcall
    · cases hturn
      refine ⟨some [("recommendations", .array
        [recommended "Go" (.array [.string "ev-1", .string "ev-9"])])], ?_, ?_⟩
      · exact parseAnalysis_decodingTo (by decide) _
      · intro analysis h
        cases h
        refine ⟨⟨[], rfl⟩, fun fields hfields => ?_⟩
        obtain rfl := (mem_titledOf_halfInvented fields).mp hfields
        exact ⟨["ev-1", "ev-9"], rfl, fun _ => ⟨by decide, by decide⟩⟩

/-- The answer of that run cites a text that no tool returned. -/
theorem oneLook_invents {text : String} {first : List (String × Json)} {items : List Json}
    (htext : text ≠ "") (hcited : ∃ cited, citations first = some cited ∧ "ev-9" ∈ cited)
    (hfirst : first ∈ titledOf (decodingTo (replyWith items)) items) :
    (oneLook text).Invents (decodingTo (replyWith items)) 1 "ev-9" := by
  refine ⟨1, ⟨some text, [], 10, 5⟩, [("recommendations", .array items)],
    (oneLook_answers text 1 _).mpr ⟨rfl, rfl⟩, ?_, ⟨first, hfirst, hcited⟩, ?_⟩
  · exact parseAnalysis_decodingTo htext _
  · rw [oneLook_returned]
    decide

/-! ## The theorem -/

/-- **The evidence of recommendations.**  The stored recommendations are sound, and every
invented citation is on the record, exactly when nothing is invented or nothing raises. -/
theorem evidence_iff (P : Python) (db : Database) (hdb : db.StepsHaveRuns) (env : Environment)
    (organizationId userId : ℕ) (supplierPublicId publicId : String)
    (outcome : Except State State) (h : analyseSupplier P env organizationId userId
      supplierPublicId publicId db = some outcome) :
    (SoundRows db env organizationId (left outcome).committed ∧
      ∀ key, env.Invents P organizationId key →
        ListedAsDropped (left outcome).committed db.runs.nextId key) ↔
    (∀ key, ¬env.Invents P organizationId key) ∨ env.Graceful P organizationId := by
  have hmeets := analyseSupplier_meets hdb h
  cases outcome with
  | ok s =>
      refine iff_of_true ?_ (Or.inr hmeets.1)
      rcases hmeets.2 with ⟨hfailed, hnone⟩ | ⟨n, turn, hchecked⟩
      · refine ⟨hfailed.soundRows, ?_⟩
        rintro key ⟨n, turn, analysis, hanswer, hparse, -⟩
        rw [hnone n turn hanswer] at hparse
        cases hparse
      · exact ⟨hchecked.soundRows, fun key hkey => hchecked.listed hkey⟩
  | error s =>
      obtain ⟨hraised, status, hsteady⟩ : ¬env.Graceful P organizationId ∧
          ∃ status, Steady db db.runs.nextId status s := by
        refine ⟨hmeets.1, ?_⟩
        rcases hmeets.2 with hsteady | hsteady
        · exact ⟨_, hsteady⟩
        · exact ⟨_, hsteady⟩
      rw [or_iff_left hraised]
      constructor
      · exact fun hall key hkey => hsteady.not_listed key (hall.2 key hkey)
      · exact fun hnone => ⟨hsteady.soundRows, fun key hkey => absurd hkey (hnone key)⟩

theorem evidence_iff_halfInvented : ∃ outcome,
    analyseSupplier (decodingTo halfInvented) (oneLook halfInventedText) 1 7 "acme" "run-1"
      oneSupplier = some outcome ∧
    SoundRows oneSupplier (oneLook halfInventedText) 1 (left outcome).committed ∧
    ListedAsDropped (left outcome).committed 1 "ev-9" := by
  have hsome : (analyseSupplier (decodingTo halfInvented) (oneLook halfInventedText) 1 7 "acme"
      "run-1" oneSupplier).isSome = true := rfl
  obtain ⟨outcome, h⟩ := Option.isSome_iff_exists.mp hsome
  have hsound := (evidence_iff _ _ oneSupplier_stepsHaveRuns _ 1 7 "acme" "run-1" outcome h).mpr
    (Or.inr halfInvented_graceful)
  have hinvents : (oneLook halfInventedText).Invents (decodingTo halfInvented) 1 "ev-9" :=
    oneLook_invents (by decide) ⟨["ev-1", "ev-9"], rfl, by decide⟩ ((mem_titledOf_halfInvented _).mpr rfl)
  exact ⟨outcome, h, hsound.1, hsound.2 "ev-9" hinvents⟩

/-- The citations of the second recommendation are a number. -/
def malformed : List Json :=
  [recommended "Go" (.array [.string "ev-9"]), recommended "Wait" (.number "5")]

/-- The reply with `malformed`, as text. -/
def malformedText : String :=
  "\x7b\"recommendations\": [\x7b\"title\": \"Go\", \"evidence_event_keys\": [\"ev-9\"]\x7d, " ++
    "\x7b\"title\": \"Wait\", \"evidence_event_keys\": 5\x7d]\x7d"

/-- An invented citation is not on the record, because another recommendation of the reply
cites a number. -/
theorem invented_unlisted : ∃ outcome,
    analyseSupplier (decodingTo (replyWith malformed)) (oneLook malformedText) 1 7 "acme" "run-1"
      oneSupplier = some outcome ∧
    (oneLook malformedText).Invents (decodingTo (replyWith malformed)) 1 "ev-9" ∧
    ¬ListedAsDropped (left outcome).committed 1 "ev-9" := by
  have hsome : (analyseSupplier (decodingTo (replyWith malformed)) (oneLook malformedText) 1 7
      "acme" "run-1" oneSupplier).isSome = true := rfl
  obtain ⟨outcome, h⟩ := Option.isSome_iff_exists.mp hsome
  have htitled : titledOf (decodingTo (replyWith malformed)) malformed =
      [[("title", .string "Go"), ("evidence_event_keys", .array [.string "ev-9"])],
       [("title", .string "Wait"), ("evidence_event_keys", .number "5")]] := by
    rw [malformed, titledOf, List.filterMap_cons_some (titled?_recommended (by decide)),
      List.filterMap_cons_some (titled?_recommended (by decide))]
    rfl
  have hinvents : (oneLook malformedText).Invents (decodingTo (replyWith malformed)) 1 "ev-9" :=
    oneLook_invents (by decide) ⟨["ev-9"], rfl, by decide⟩
      (by rw [htitled]; exact List.mem_cons_self)
  refine ⟨outcome, h, hinvents, ?_⟩
  have hmeets := analyseSupplier_meets oneSupplier_stepsHaveRuns h
  cases outcome with
  | ok s =>
      obtain ⟨-, hreply⟩ := graceful_iff.mp hmeets.1
      obtain ⟨parsed, hparsed, hok⟩ :=
        hreply 1 _ ((oneLook_answers malformedText 1 _).mpr ⟨rfl, rfl⟩)
      have hparse : parseAnalysis (decodingTo (replyWith malformed)) malformedText = _ :=
        parseAnalysis_decodingTo (by decide) [("recommendations", .array malformed)]
      obtain rfl := Except.ok.inj (hparse.symm.trans hparsed)
      have hsecond : [("title", .string "Wait"), ("evidence_event_keys", .number "5")] ∈
          titledOf (decodingTo (replyWith malformed)) malformed := by
        rw [htitled]
        exact List.mem_cons_of_mem _ List.mem_cons_self
      obtain ⟨cited, hcited, -⟩ := (hok _ rfl).2 _ hsecond
      cases hcited
  | error s =>
      rcases hmeets.2 with hsteady | hsteady
      · exact hsteady.not_listed "ev-9"
      · exact hsteady.not_listed "ev-9"

end ProcureSignal.Agents
