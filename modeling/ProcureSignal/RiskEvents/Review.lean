/-
# Reviewing risk events

Runs of the detection of risk events (`RiskEvents.Persistence`), of reviewers who set a status and
of the retention job, while other jobs write the articles and the suppliers.

* `Regenerated` : what a pass over the articles does to ids, statuses and scores;
* `regenerated_generateRiskEvents` : every pass does so;
* `listRiskEvents_reviewed` : **what is listed is well formed, and its status is the one a reviewer
  gave it last**, however often its article is scanned again.
-/
import ProcureSignal.RiskEvents.Listing

namespace ProcureSignal.RiskEvents

open Personalization (Preference)

/-! ## Passes -/

/-- The confidence of a candidate. -/
def Confident (event : RiskEvent) : Prop :=
  55 / 100 ≤ event.confidence ∧ event.confidence ≤ 95 / 100

/-- Each event keeps its id and its status, or is new under a new id. -/
structure Regenerated (before after : EventTable) : Prop where
  nextId : before.nextId ≤ after.nextId
  rows : ∀ r ∈ after.rows, (∃ event, (r.1, event) ∈ before.rows ∧ event.status = r.2.status) ∨
    before.nextId ≤ r.1 ∧ r.2.status = ReviewStatus.new.text
  confident : (∀ r ∈ before.rows, Confident r.2) → ∀ r ∈ after.rows, Confident r.2

section Passes

variable {U : Unicode} {digest : String → String} {registry : Database}
  {before middle after : EventTable} {candidate : RiskEventCandidate}

theorem Regenerated.refl (events : EventTable) : Regenerated events events :=
  ⟨le_rfl, fun r hr => .inl ⟨r.2, hr, rfl⟩, fun h => h⟩

theorem Regenerated.trans (h : Regenerated before middle) (h' : Regenerated middle after) :
    Regenerated before after := by
  refine ⟨h.nextId.trans h'.nextId, fun r hr => ?_,
    fun hbefore => h'.confident (h.confident hbefore)⟩
  obtain ⟨event, hevent, hstatus⟩ | ⟨hid, hstatus⟩ := h'.rows r hr
  · obtain ⟨event', hevent', hstatus'⟩ | ⟨hid, hstatus'⟩ := h.rows _ hevent
    · exact .inl ⟨event', hevent', hstatus'.trans hstatus⟩
    · exact .inr ⟨hid, hstatus.symm.trans hstatus'⟩
  · exact .inr ⟨h.nextId.trans hid, hstatus⟩

theorem confidenceOf_le (metadataMatch textMatch : Bool) (processed : NewsArticleProcessed) :
    confidenceOf metadataMatch textMatch processed ≤ 95 / 100 :=
  min_le_right _ _

/-- The confidence of what the detector finds. -/
theorem confidence_of_mem_candidates {row : ScanRow} (h : candidate ∈ row.candidates U) :
    55 / 100 ≤ candidate.confidence ∧ candidate.confidence ≤ 95 / 100 := by
  have hdetected := (mem_detectRiskEvents h).2
  simp only [detectRiskType, Option.ite_none_left_eq_some, Option.some.injEq] at hdetected
  obtain ⟨-, -, hlow, heq⟩ := hdetected
  rw [← heq]
  exact ⟨not_lt.mp hlow, confidenceOf_le _ _ _⟩

/-- An upsert hands out ids upwards. -/
theorem nextId_le_upsert {α κ : Type} [DecidableEq κ] {k : α → κ}
    (t : UniqueTable α κ [fun a => some (k a)]) (a : α) (f : α → α) (hf : ∀ b, k (f b) = k b) :
    t.nextId ≤ (t.upsert a f hf).1.nextId := by
  unfold UniqueTable.upsert UniqueTable.insertNew
  split
  · exact le_rfl
  · dsimp only
    split
    · exact Nat.le_succ _
    · exact le_rfl

/-- **One candidate.** -/
theorem regenerated_upsertEvent {row : ScanRow} (h : candidate ∈ row.candidates U) :
    Regenerated before
      (upsertEvent U digest registry row.processedId row.raw candidate before).1 := by
  have hconfidence := confidence_of_mem_candidates h
  refine ⟨nextId_le_upsert _ _ _ _, fun r hr => ?_, fun hbefore r hr => ?_⟩
  · obtain ⟨-, -, -, -, hrows⟩ | ⟨-, -, hrows⟩ := UniqueTable.rows_upsert before
      (newEvent U digest registry row.processedId row.raw candidate)
      (refresh U registry row.raw candidate) fun _ => rfl
    · rw [upsertEvent, hrows] at hr
      obtain ⟨r', hr', rfl⟩ := List.mem_map.mp hr
      refine .inl ⟨r'.2, ?_, ?_⟩ <;> split
      · exact hr'
      · exact hr'
      · rfl
      · rfl
    · rw [upsertEvent, hrows] at hr
      rcases List.mem_append.mp hr with hr | hr
      · exact .inl ⟨r.2, hr, rfl⟩
      · rw [List.mem_singleton.mp hr]
        exact .inr ⟨le_rfl, rfl⟩
  · rcases UniqueTable.cases_mem_rows_upsert hr with ⟨-, hold⟩ | ⟨-, hnew | ⟨r', -, -, hnew⟩⟩
    · exact hbefore r hold
    · rw [hnew]
      exact hconfidence
    · rw [hnew]
      exact hconfidence

/-- **The candidates of an article.** -/
theorem regenerated_upsertAll {row : ScanRow} {raises : Place → Bool} {position : ℕ}
    {candidates : List RiskEventCandidate} {created updated created' updated' : ℕ}
    (hcandidates : ∀ candidate ∈ candidates, candidate ∈ row.candidates U)
    (h : upsertAll U digest registry row.processedId row.raw raises position candidates
      (before, created, updated) = some (after, created', updated')) :
    Regenerated before after := by
  induction candidates generalizing position before created updated with
  | nil =>
      simp only [upsertAll, Option.some.injEq, Prod.mk.injEq] at h
      rw [← h.1]
      exact .refl before
  | cons candidate candidates ih =>
      have hfirst : Regenerated before
          (upsertEvent U digest registry row.processedId row.raw candidate before).1 :=
        regenerated_upsertEvent (hcandidates candidate List.mem_cons_self)
      rw [upsertAll] at h
      split at h
      · cases h
      have hrest := fun c hc => hcandidates c (List.mem_cons_of_mem candidate hc)
      cases hcreated : (upsertEvent U digest registry row.processedId row.raw candidate before).2
      · simp only [hcreated] at h
        exact hfirst.trans (ih hrest h)
      · simp only [hcreated] at h
        exact hfirst.trans (ih hrest h)

/-- **An article.**  An exception leaves its events as they were. -/
theorem regenerated_processArticle (g : Generation) (p : Progress) (row : ScanRow) :
    Regenerated p.events (processArticle U digest registry g p row).events := by
  unfold processArticle
  dsimp only
  split
  · exact .refl p.events
  split
  · exact .refl p.events
  rename_i events created updated hall
  split
  · exact .refl p.events
  · exact regenerated_upsertAll (fun _ h => h) hall

/-- **A pass.** -/
theorem regenerated_generateRiskEvents (g : Generation) (st : Store) :
    Regenerated st.events (generateRiskEvents U digest g st).1.events := by
  have hloop : ∀ (rows : List ScanRow) (p : Progress), Regenerated p.events
      (rows.foldl (processArticle U digest st.registry g) p).events := by
    intro rows
    induction rows with
    | nil => exact fun p => .refl p.events
    | cons row rows ih => exact fun p => (regenerated_processArticle g p row).trans (ih _)
  exact hloop (g.rows st) ⟨st.events, st.processedArticles, 0, 0, 0⟩

end Passes

/-! ## Runs -/

/-- The endpoint takes the three statuses only. -/
def Validated (_ : Store) : Write → Prop
  | .review _ status => ∃ s : ReviewStatus, status = s.text
  | _ => True

/-- The status that an event was given last; a request for an event that is not there sets none. -/
def lastStatus (id : ℕ) : List (Store × Write) → String
  | [] => ReviewStatus.new.text
  | (st, .review id' status) :: tr =>
      if id' = id ∧ (st.events.find? id).isSome then status else lastStatus id tr
  | (_, .generate _) :: tr | (_, .articles _ _) :: tr | (_, .registry _) :: tr
  | (_, .backfill _) :: tr | (_, .prune _) :: tr => lastStatus id tr

section Runs

variable {U : Unicode} {digest : String → String} {tr : List (Store × Write)} {st st' : Store}

/-- What holds of the events of a run. -/
structure Kept (tr : List (Store × Write)) (events : EventTable) : Prop where
  status : ∀ r ∈ events.rows, r.2.status = lastStatus r.1 tr
  confident : ∀ r ∈ events.rows, Confident r.2
  fresh : ∀ id, events.nextId ≤ id → lastStatus id tr = ReviewStatus.new.text
  valid : ∀ id, ∃ s : ReviewStatus, lastStatus id tr = s.text

/-- No event has been reviewed. -/
def Unreviewed (events : EventTable) : Prop :=
  ∀ r ∈ events.rows, Confident r.2 ∧ r.2.status = ReviewStatus.new.text

theorem Unreviewed.kept (h : Unreviewed st.events) : Kept [] st.events where
  status := fun r hr => (h r hr).2
  confident := fun r hr => (h r hr).1
  fresh := fun _ _ => rfl
  valid := fun _ => ⟨.new, rfl⟩

theorem kept_of_step {w : Write} (h : Kept tr st.events) (hw : Validated st w)
    (hstep : step U digest st w = some st') : Kept ((st, w) :: tr) st'.events := by
  cases w with
  | articles rawArticles processedArticles =>
      obtain rfl := Option.some.inj hstep
      exact ⟨h.status, h.confident, h.fresh, h.valid⟩
  | registry db =>
      obtain rfl := Option.some.inj hstep
      exact ⟨h.status, h.confident, h.fresh, h.valid⟩
  | generate g =>
      obtain rfl := Option.some.inj hstep
      have hpass : Regenerated st.events (generateRiskEvents U digest g st).1.events :=
        regenerated_generateRiskEvents g st
      refine ⟨fun r hr => ?_, hpass.confident h.confident,
        fun id hid => h.fresh id (hpass.nextId.trans hid), h.valid⟩
      obtain ⟨event, hevent, hstatus⟩ | ⟨hid, hstatus⟩ := hpass.rows r hr
      · exact hstatus.symm.trans (h.status _ hevent)
      · exact hstatus.trans (h.fresh r.1 hid).symm
  | backfill supplierIds =>
      obtain rfl := Option.some.inj hstep
      refine ⟨fun r hr => ?_, fun r hr => ?_, h.fresh, h.valid⟩ <;>
        obtain ⟨event, hevent, heq⟩ := Table.mem_rows_modify.mp hr <;> rw [heq]
      · exact h.status _ hevent
      · exact h.confident _ hevent
  | review id status =>
      obtain rfl := Option.some.inj hstep
      refine ⟨fun r hr => ?_, fun r hr => ?_, fun i hi => ?_, fun i => ?_⟩
      · obtain ⟨event, hevent, heq⟩ := Table.mem_rows_modify.mp hr
        rw [heq, lastStatus]
        by_cases hid : r.1 = id
        · have hfound : (st.events.find? r.1).isSome = true := by
            rw [Table.find?_eq_some_iff.mpr hevent]
            rfl
          rw [if_pos (decide_eq_true hid), if_pos ⟨hid.symm, hfound⟩]
        · rw [if_neg (by simpa using hid), if_neg fun hcond => hid hcond.1.symm]
          exact h.status _ hevent
      · obtain ⟨event, hevent, heq⟩ := Table.mem_rows_modify.mp hr
        rw [heq]
        split
        · exact h.confident _ hevent
        · exact h.confident _ hevent
      · have hnone : st.events.find? i = none := by
          rw [Option.eq_none_iff_forall_ne_some]
          exact fun event hevent =>
            Table.notMem_of_nextId_le (t := st.events.toTable) hi event
              (Table.find?_eq_some_iff.mp hevent)
        rw [lastStatus, if_neg fun hcond => by simp [hnone] at hcond]
        exact h.fresh i hi
      · rw [lastStatus]
        split
        · exact hw
        · exact h.valid i
  | prune expired =>
      obtain rfl := Option.some.inj hstep
      exact ⟨fun r hr => h.status r (Table.mem_rows_delete.mp hr).1,
        fun r hr => h.confident r (Table.mem_rows_delete.mp hr).1, h.fresh, h.valid⟩

theorem kept_of_execution (hs : Unreviewed st.events)
    (h : Execution (step U digest) Validated st tr st') : Kept tr st'.events :=
  h.traceInvariant (I := fun tr st => Kept tr st.events) hs.kept
    fun _ _ _ _ hkept hw hstep => kept_of_step hkept hw hstep

/-- **What is listed, in every run.**  However often the articles are scanned, changed and removed,
each event on a list has the status that a reviewer gave it last, or is new; the status is one of
the three of the response, the confidence and the score are between nought and one, and no
preference lowers an event.  What the retention job would take now is on no list. -/
theorem listRiskEvents_reviewed (hs : Unreviewed st.events)
    (h : Execution (step U digest) Validated st tr st') (lower : String → String)
    (userId : String) (preference : Option Preference) (f : Filters) (limit offset : ℕ)
    (now : Instant) :
    (∀ item ∈ (listRiskEvents U lower userId preference f limit offset now st'.events).events,
      item.status = lastStatus item.id tr ∧ (∃ s : ReviewStatus, item.status = s.text) ∧
      0 ≤ item.confidence ∧ item.confidence ≤ item.rankScore ∧ item.rankScore ≤ 1) ∧
    ∀ expired pruned, (∀ i event, expired i event = true →
        event.publishedAt < now - days riskEventRetentionDays) →
      step U digest st' (.prune expired) = some pruned →
        listRiskEvents U lower userId preference f limit offset now pruned.events =
          listRiskEvents U lower userId preference f limit offset now st'.events := by
  have hkept := kept_of_execution hs h
  refine ⟨fun item hitem => ?_, fun expired pruned hexpired hstep => ?_⟩
  · obtain ⟨event, hevent, -, -, heq⟩ := mem_rankedEvents.mp (Pages.page_subset _ _ _ hitem)
    have hrow := Table.find?_eq_some_iff.mp hevent
    have hstatus : item.status = event.status := by rw [heq]; rfl
    have hconfidence : item.confidence = event.confidence := by rw [heq]; rfl
    have hscore : item.rankScore = rankScore U lower preference event := by rw [heq]; rfl
    obtain ⟨hlow, hhigh⟩ := hkept.confident _ hrow
    have hone : event.confidence ≤ 1 := by linarith
    have hlast : item.status = lastStatus item.id tr := hstatus.trans (hkept.status _ hrow)
    rw [hconfidence, hscore]
    exact ⟨hlast, hlast ▸ hkept.valid item.id, by linarith, confidence_le_rankScore hone,
      rankScore_le_one hone⟩
  · obtain rfl := Option.some.inj hstep
    exact listRiskEvents_delete hexpired userId limit offset

end Runs

/-- A store before its first review, and after it. -/
private def unreviewedStore : Store := ⟨Database.empty, Table.empty, Table.empty, twoEvents⟩

private def dismissedStore : Store :=
  { unreviewedStore with events := setStatus 2 .dismissed twoEvents }

/-- An event that was dismissed before the articles were scanned again. -/
theorem listRiskEvents_reviewed_dismissed : ∃ start tr st,
    Execution (step .ascii id) Validated start tr st ∧
    let items := (listRiskEvents .ascii id "ada" none ⟨none, none, none, none, none, none⟩
      50 0 2 st.events).events
    items.map (fun item => (item.id, item.status)) = [(1, "new"), (2, "dismissed")] ∧
    ∀ item ∈ items, item.status = lastStatus item.id tr ∧ item.rankScore ≤ 1 := by
  have hstart : Unreviewed unreviewedStore.events := by
    have hrows : ∀ r ∈ twoEvents.rows, 55 / 100 ≤ r.2.confidence ∧ r.2.confidence ≤ 95 / 100 ∧
        r.2.status = "new" := by decide +kernel
    exact fun r hr => ⟨⟨(hrows r hr).1, (hrows r hr).2.1⟩, (hrows r hr).2.2⟩
  have hreviewed : Execution (step .ascii id) Validated unreviewedStore
      [(unreviewedStore, .review 2 "dismissed")] dismissedStore :=
    .snoc .nil ⟨.dismissed, rfl⟩ rfl
  have h : Execution (step .ascii id) Validated unreviewedStore
      [(dismissedStore, .generate ⟨1, 7, 500, fun _ => 2, fun _ _ => false⟩),
        (unreviewedStore, .review 2 "dismissed")]
      (generateRiskEvents .ascii id ⟨1, 7, 500, fun _ => 2, fun _ _ => false⟩ dismissedStore).1 :=
    .snoc hreviewed trivial rfl
  refine ⟨_, _, _, h, by decide +kernel, fun item hitem => ?_⟩
  obtain ⟨hlast, -, -, -, hone⟩ := (listRiskEvents_reviewed hstart h id "ada" none
    ⟨none, none, none, none, none, none⟩ 50 0 2).1 item hitem
  exact ⟨hlast, hone⟩

end ProcureSignal.RiskEvents
