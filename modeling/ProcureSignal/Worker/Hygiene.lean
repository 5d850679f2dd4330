/-
# What a run of `enrich_articles_task` leaves behind

A claimed row is leased to the run until its article is rejected, put off, processed or
released.  The invariant `Tracks` says which rows those are: the rows with the run's owner
are the ones the run still has in its variables, and every other claimed row is settled.

* `Tracks.of_modify` : what every write of the run does to the invariant;
* `Invariant.of_step` : the step lemma;
* `leases_released` : what holds at the end of a run, and how often it goes around its loop;
* `lease_abandoned` : the handler fails and a row stays leased.
-/
import ProcureSignal.Enrichment.Transitions
import ProcureSignal.Worker.EnrichTask
import ProcureSignal.Worker.Exclusivity

namespace ProcureSignal.Worker

open ProcureSignal.Enrichment
open ProcureSignal.Enrichment.Pipeline (Candidate EnrichmentPipeline Rows Finishes)

/-! ## Rows -/

/-- The row is put off: `_claimable` accepts it as soon as its next attempt is due. -/
def RawRow.Retryable (row : RawRow) : Prop :=
  row.status ∈ [some .normalizationRetry, some .enrichmentRetry, some .deferred] ∧
    ∀ now, row.nextAttemptAt.all (· ≤ now) → row.claimable now = true

/-- The row is rejected or put off, and no one has it leased. -/
def RawRow.Settled (row : RawRow) : Prop :=
  row.leaseOwner = none ∧
    (row.status = some .skipped ∨ row.status = some .qualityRejected ∨ row.Retryable)

/-- The row is leased to the run, and due. -/
structure RawRow.Held (row : RawRow) (owner : ℕ) (clock : Instant) : Prop where
  owner : row.leaseOwner = some owner
  status : row.status = some .processing
  due : row.nextAttemptAt.all (· ≤ clock)
  expires : row.leaseExpiresAt.any (· ≤ clock + minutes enrichLeaseMinutes)

/-- When `_claimable` accepts a row: by its status, its next attempt and its lease. -/
theorem RawRow.claimable_iff {row : RawRow} {now : Instant} :
    row.claimable now = true ↔
      (row.status ∈ [none, some .normalizationRetry, some .enrichmentRetry, some .deferred,
        some .processing]) ∧ row.nextAttemptAt.all (· ≤ now) ∧
      (row.leaseOwner = none ∨ row.leaseExpiresAt.any (· ≤ now)) := by
  have hnext : (row.nextAttemptAt = none ∨ row.nextAttemptAt.any (· ≤ now) = true) ↔
      row.nextAttemptAt.all (· ≤ now) = true := by
    cases row.nextAttemptAt <;> simp
  simp only [claimable, Bool.and_eq_true, Bool.or_eq_true, decide_eq_true_eq, hnext,
    List.mem_cons, List.not_mem_nil, or_false, and_assoc, or_assoc]

/-- A row with a status of those that are tried again is put off. -/
theorem RawRow.settled_of_retry {row : RawRow} (howner : row.leaseOwner = none)
    (h : row.status ∈ [some .normalizationRetry, some .enrichmentRetry, some .deferred]) :
    row.Settled := by
  refine ⟨howner, Or.inr (Or.inr ⟨h, fun now hnow => claimable_iff.mpr ⟨?_, hnow, Or.inl howner⟩⟩)⟩
  simp only [List.mem_cons, List.not_mem_nil, or_false] at h ⊢
  tauto

/-- A row that a claim takes is held. -/
theorem RawRow.held_lease {row : RawRow} {now : Instant} (h : row.claimable now = true)
    (owner : ℕ) : (row.lease owner now).Held owner now :=
  ⟨rfl, rfl, (claimable_iff.mp h).2.1, by simp [lease]⟩

/-- A held row is still held later. -/
theorem RawRow.Held.mono {row : RawRow} {owner : ℕ} {clock t : Instant}
    (h : row.Held owner clock) (ht : clock ≤ t) : row.Held owner t := by
  refine ⟨h.owner, h.status, ?_, ?_⟩
  · have hdue := h.due
    rw [Option.all_eq_true] at hdue ⊢
    intro x hx
    exact decide_eq_true (le_trans (of_decide_eq_true (hdue x hx)) ht)
  · have hexpires := h.expires
    rw [Option.any_eq_true] at hexpires ⊢
    obtain ⟨x, hx, hle⟩ := hexpires
    exact ⟨x, hx, decide_eq_true (le_trans (of_decide_eq_true hle) (add_le_add_left ht _))⟩

/-- A held row can be claimed again when its lease has run out. -/
theorem RawRow.Held.claimable {row : RawRow} {owner : ℕ} {clock now : Instant}
    (h : row.Held owner clock) (hnow : clock + minutes enrichLeaseMinutes ≤ now) :
    row.claimable now = true := by
  have hexpires := h.expires
  have hdue := h.due
  rw [Option.any_eq_true] at hexpires
  rw [Option.all_eq_true] at hdue
  obtain ⟨e, he, hle⟩ := hexpires
  rw [claimable_iff, Option.all_eq_true, Option.any_eq_true]
  refine ⟨by simp [h.status], fun x hx => decide_eq_true ?_, Or.inr ⟨e, he, decide_eq_true ?_⟩⟩
  · have hminutes : 0 ≤ minutes enrichLeaseMinutes := by decide
    exact (of_decide_eq_true (hdue x hx)).trans ((le_add_of_nonneg_right hminutes).trans hnow)
  · exact le_trans (of_decide_eq_true hle) hnow

theorem RawRow.settled_release (now : Instant) (row : RawRow) : (row.release now).Settled :=
  settled_of_retry rfl (by simp [release])

/-- An article that is not normalized is settled. -/
theorem RawRow.settled_afterNormalize {verdict : Verdict} (h : verdict ≠ .normalized)
    (now : Instant) (row : RawRow) : (row.afterNormalize verdict now).Settled := by
  cases verdict with
  | normalized => exact absurd rfl h
  | rejected => exact ⟨rfl, Or.inr (Or.inl rfl)⟩
  | raised => exact settled_of_retry rfl (by simp [afterNormalize])

/-- An article that is not completed is settled. -/
theorem RawRow.settled_transition {outcome : Outcome} (h : outcome ≠ .completed)
    (now : Instant) (row : RawRow) : (row.transition outcome now).Settled := by
  cases outcome with
  | completed => exact absurd rfl h
  | skipped => exact ⟨rfl, Or.inl rfl⟩
  | deferred => exact settled_of_retry rfl (by simp [transition])
  | failed => exact settled_of_retry rfl (by simp [transition])

theorem RawRow.leaseOwner_transition (outcome : Outcome) (now : Instant) (row : RawRow) :
    (row.transition outcome now).leaseOwner = none := by
  cases outcome <;> rfl

/-- An object written over the row it was loaded from. -/
theorem RawObject.write_loaded (o : RawObject) (h : o.current.ingestedAt = o.loaded.ingestedAt) :
    o.write o.loaded = o.current := by
  obtain ⟨id, loaded, current⟩ := o
  obtain ⟨ingestedAt, status, attemptCount, nextAttemptAt, leaseOwner, leaseExpiresAt⟩ := current
  simp only [write, RawRow.mk.injEq, ite_eq_right_iff]
  exact ⟨h.symm, Eq.symm, Eq.symm, Eq.symm, Eq.symm, Eq.symm⟩

namespace EnrichTask

/-! ## What the run still has -/

variable {pl : EnrichmentPipeline} {owner limit : ℕ} {clock : Instant}
  {keys held held' claimed : List ℕ} {rows rows' : Rows} {s p q t : State} {l : Label}
  {tr : List (State × Label)}

/-- The rows with the run's owner are those of `held`, which are to be processed; every other
claimed row has a processed article or is settled. -/
structure Tracks (owner : ℕ) (clock : Instant) (keys held claimed : List ℕ) (rows : Rows) :
    Prop where
  ids : rows.raws.rows.map (·.1) = keys
  mine : ∀ id row, rows.raws.find? id = some row → row.leaseOwner = some owner → id ∈ held
  leased : ∀ id ∈ held, id ∈ claimed ∧ id ∉ rows.processed.rawIds ∧
    ∃ row, rows.raws.find? id = some row ∧ row.Held owner clock
  rest : ∀ id ∈ claimed, id ∉ held → ∃ row, rows.raws.find? id = some row ∧
    (id ∈ rows.processed.rawIds ∨ row.Settled)

/-- Time passes. -/
theorem Tracks.tick (h : Tracks owner clock keys held claimed rows) {t : Instant}
    (ht : clock ≤ t) : Tracks owner t keys held claimed rows where
  ids := h.ids
  mine := h.mine
  leased := by
    intro id hid
    obtain ⟨hclaimed, hprocessed, row, hrow, hheld⟩ := h.leased id hid
    exact ⟨hclaimed, hprocessed, row, hrow, hheld.mono ht⟩
  rest := h.rest

/-- **Writes of the run.**  Rows of others stay, rows in `held'` stay, and the other held rows
lose the lease and are settled or have a processed article. -/
theorem Tracks.of_modify (h : Tracks owner clock keys held claimed rows)
    {f : ℕ → RawRow → RawRow} (hraws : rows'.raws = rows.raws.modify f)
    (hprocessed : ∀ id ∈ rows.processed.rawIds, id ∈ rows'.processed.rawIds)
    (hothers : ∀ id row, rows.raws.find? id = some row → row.leaseOwner ≠ some owner →
      f id row = row)
    (hsub : ∀ id ∈ held', id ∈ held ∧ id ∉ rows'.processed.rawIds)
    (hkept : ∀ id ∈ held', ∀ row, rows.raws.find? id = some row → f id row = row)
    (hdone : ∀ id ∈ held, id ∉ held' → ∀ row, rows.raws.find? id = some row →
      row.leaseOwner = some owner → (f id row).leaseOwner = none ∧
        (id ∈ rows'.processed.rawIds ∨ (f id row).Settled)) :
    Tracks owner clock keys held' claimed rows' where
  ids := by rw [hraws, Table.keys_modify, h.ids]
  mine := by
    intro id row' hrow' howner
    rw [hraws, Table.find?_modify, Option.map_eq_some_iff] at hrow'
    obtain ⟨row, hrow, rfl⟩ := hrow'
    by_contra hid
    by_cases hmine : row.leaseOwner = some owner
    · rw [(hdone id (h.mine id row hrow hmine) hid row hrow hmine).1] at howner
      cases howner
    · rw [hothers id row hrow hmine] at howner
      exact hmine howner
  leased := by
    intro id hid
    obtain ⟨hheld, hnew⟩ := hsub id hid
    obtain ⟨hclaimed, -, row, hrow, hrowHeld⟩ := h.leased id hheld
    refine ⟨hclaimed, hnew, row, ?_, hrowHeld⟩
    rw [hraws, Table.find?_modify, hrow, Option.map_some, hkept id hid row hrow]
  rest := by
    intro id hid hnot
    by_cases hheld : id ∈ held
    · obtain ⟨-, -, row, hrow, hrowHeld⟩ := h.leased id hheld
      refine ⟨f id row, ?_, (hdone id hheld hnot row hrow hrowHeld.owner).2⟩
      rw [hraws, Table.find?_modify, hrow, Option.map_some]
    · obtain ⟨row, hrow, hrest⟩ := h.rest id hid hheld
      have hmine : row.leaseOwner ≠ some owner := fun howner => hheld (h.mine id row hrow howner)
      refine ⟨row, ?_, hrest.imp_left (hprocessed id)⟩
      rw [hraws, Table.find?_modify, hrow, Option.map_some, hothers id row hrow hmine]

/-- The run gives up all its rows. -/
theorem Tracks.release (h : Tracks owner clock keys held claimed rows) (now : Instant) :
    Tracks owner clock keys [] claimed (releaseRows owner rows now) := by
  refine h.of_modify (f := fun _ row =>
      if decide (row.leaseOwner = some owner) then row.release now else row)
    rfl (fun _ hid => hid) ?_ (by simp) (by simp) ?_
  · intro id row _ hrow
    simp only [hrow, decide_false, Bool.false_eq_true, if_false]
  · intro id _ _ row _ hrow
    simp only [hrow, decide_true, if_true]
    exact ⟨rfl, Or.inr (RawRow.settled_release now row)⟩

/-- An article of the batch is finished. -/
theorem Tracks.finishes {raw : Candidate} {todo : List ℕ}
    (h : Tracks owner clock keys (raw.id :: todo) claimed rows) (hnodup : raw.id ∉ todo)
    (hf : Finishes (some owner) raw.id rows rows') :
    Tracks owner clock keys todo claimed rows' := by
  obtain ⟨outcome, now, hraws, hcompleted⟩ := hf.raws
  simp only [Pipeline.transitionRaw, Table.update] at hraws
  refine h.of_modify hraws hf.kept ?_ ?_ ?_ ?_
  · intro id row _ hrow
    simp [hrow]
  · intro id hid
    have hmem : id ∈ raw.id :: todo := List.mem_cons_of_mem _ hid
    refine ⟨hmem, fun hnew => ?_⟩
    rcases hf.added id hnew with hold | rfl
    · exact (h.leased id hmem).2.1 hold
    · exact hnodup hid
  · intro id hid row _
    have hne : id ≠ raw.id := fun heq => hnodup (heq ▸ hid)
    simp [hne]
  · intro id hid hnot row _ hrow
    have hid : id = raw.id := (List.mem_cons.mp hid).resolve_right hnot
    subst hid
    simp only [decide_true, Option.all_some, hrow, Bool.and_self, if_true]
    refine ⟨RawRow.leaseOwner_transition outcome now row, ?_⟩
    by_cases hdone : outcome = .completed
    · exact Or.inl (hcompleted hdone)
    · exact Or.inr (RawRow.settled_transition hdone now row)

/-- A claim. -/
theorem Tracks.lease (h : Tracks owner clock keys held claimed rows) {ids : List ℕ}
    (hids : ∀ id ∈ ids, id ∉ claimed ∧ id ∉ rows.processed.rawIds ∧
      ∃ row, rows.raws.find? id = some row ∧ row.claimable clock = true) :
    Tracks owner clock keys (held ++ ids) (ids ++ claimed) (leaseRows owner rows ids clock) := by
  have hkept : ∀ id row, id ∉ ids → rows.raws.find? id = some row →
      (leaseRows owner rows ids clock).raws.find? id = some row := by
    intro id row hid hrow
    rw [leaseRows, find?_update hrow, decide_eq_false hid]
    rfl
  constructor
  · exact (Table.keys_modify _ _).trans h.ids
  · intro id row' hrow' howner
    rw [leaseRows, Table.update, Table.find?_modify, Option.map_eq_some_iff] at hrow'
    obtain ⟨row, hrow, rfl⟩ := hrow'
    rw [List.mem_append]
    by_cases hid : id ∈ ids
    · exact Or.inr hid
    · simp only [hid, decide_false, Bool.false_and, Bool.false_eq_true, if_false] at howner
      exact Or.inl (h.mine id row hrow howner)
  · intro id hid
    rw [List.mem_append] at hid
    rcases hid with hid | hid
    · obtain ⟨hclaimed, hprocessed, row, hrow, hheld⟩ := h.leased id hid
      have hnew : id ∉ ids := fun hmem => (hids id hmem).1 hclaimed
      exact ⟨List.mem_append_right _ hclaimed, hprocessed, row, hkept id row hnew hrow, hheld⟩
    · obtain ⟨-, hprocessed, row, hrow, hclaimable⟩ := hids id hid
      refine ⟨List.mem_append_left _ hid, hprocessed, row.lease owner clock, ?_,
        RawRow.held_lease hclaimable owner⟩
      rw [leaseRows, find?_update hrow, decide_eq_true hid, hclaimable]
      rfl
  · intro id hid hnot
    rw [List.mem_append, not_or] at hnot
    obtain ⟨row, hrow, hrest⟩ := h.rest id ((List.mem_append.mp hid).resolve_left hnot.2) hnot.1
    exact ⟨row, hkept id row hnot.2 hrow, hrest⟩

/-- `normalize_batch` and the flush on a row of the table. -/
theorem find?_normalizeRows {batch : List (ℕ × RawRow)}
    (hbatch : ∀ r ∈ batch, rows.raws.find? r.1 = some r.2) (verdict : ℕ → Verdict)
    (now : ℕ → Instant) {id : ℕ} {row : RawRow} (hrow : rows.raws.find? id = some row) :
    (match (normalizedObjects batch verdict now).find? (·.id = id) with
      | some o => o.write row
      | none => row) =
      if id ∈ batch.map (·.1) then row.afterNormalize (verdict id) (now id) else row := by
  cases hfind : (normalizedObjects batch verdict now).find? (·.id = id) with
  | none =>
      have hnot : id ∉ batch.map (·.1) := by
        rintro hid
        obtain ⟨r, hr, rfl⟩ := List.mem_map.mp hid
        have hne := List.find?_eq_none.mp hfind _ (List.mem_map_of_mem hr)
        simp at hne
      rw [if_neg hnot]
  | some o =>
      obtain ⟨r, hr, rfl⟩ := List.mem_map.mp (List.mem_of_find?_eq_some hfind)
      have hid := List.find?_some hfind
      simp only [decide_eq_true_eq] at hid
      subst hid
      have hloaded : r.2 = row := Option.some.inj ((hbatch r hr).symm.trans hrow)
      subst hloaded
      rw [if_pos (List.mem_map_of_mem hr)]
      refine RawObject.write_loaded ⟨r.1, r.2, _⟩ ?_
      cases hverdict : verdict r.1 <;> rfl

/-- A batch is normalized: its rows that are not normalized are settled. -/
theorem Tracks.normalize {normalized ids : List ℕ}
    (h : Tracks owner clock keys (normalized ++ ids) claimed rows)
    (hnodup : (normalized ++ ids).Nodup) {batch : List (ℕ × RawRow)}
    (hbatch : ∀ r ∈ batch, rows.raws.find? r.1 = some r.2)
    (hids : ∀ id, id ∈ batch.map (·.1) ↔ id ∈ ids) (verdict : ℕ → Verdict)
    (now : ℕ → Instant) :
    Tracks owner clock keys
      (normalized ++ (batch.filter fun r => verdict r.1 = .normalized).map (·.1)) claimed
      (normalizeRows rows batch verdict now) := by
  have hnormalized : ∀ id, id ∈ (batch.filter fun r => verdict r.1 = .normalized).map (·.1) ↔
      id ∈ ids ∧ verdict id = .normalized := by
    intro id
    rw [← hids id, List.mem_map, List.mem_map]
    constructor
    · rintro ⟨r, hr, rfl⟩
      obtain ⟨hr, hverdict⟩ := List.mem_filter.mp hr
      exact ⟨⟨r, hr, rfl⟩, of_decide_eq_true hverdict⟩
    · rintro ⟨⟨r, hr, rfl⟩, hverdict⟩
      exact ⟨r, List.mem_filter.mpr ⟨hr, decide_eq_true hverdict⟩, rfl⟩
  refine h.of_modify (f := fun id row =>
      match (normalizedObjects batch verdict now).find? (·.id = id) with
      | some o => o.write row
      | none => row)
    rfl (fun _ hid => hid) ?_ ?_ ?_ ?_
  · intro id row hrow howner
    rw [find?_normalizeRows hbatch verdict now hrow, if_neg]
    rw [hids id]
    intro hid
    obtain ⟨-, -, row', hrow', hheld⟩ := h.leased id (List.mem_append_right _ hid)
    rw [hrow, Option.some.injEq] at hrow'
    exact howner (hrow' ▸ hheld.owner)
  · intro id hid
    have hmem : id ∈ normalized ++ ids := by
      rw [List.mem_append, hnormalized] at hid
      exact List.mem_append.mpr (hid.imp_right And.left)
    exact ⟨hmem, (h.leased id hmem).2.1⟩
  · intro id hid row hrow
    rw [find?_normalizeRows hbatch verdict now hrow]
    split
    · rename_i hmem
      rw [hids id] at hmem
      rcases List.mem_append.mp hid with hold | hnew
      · exact absurd hmem (List.disjoint_of_nodup_append hnodup hold)
      · rw [((hnormalized id).mp hnew).2]
        rfl
    · rfl
  · intro id hid hnot row hrow _
    rw [List.mem_append, hnormalized, not_or, not_and] at hnot
    have hmem : id ∈ ids := (List.mem_append.mp hid).resolve_left hnot.1
    rw [find?_normalizeRows hbatch verdict now hrow, if_pos ((hids id).mpr hmem)]
    have hsettled := RawRow.settled_afterNormalize (hnot.2 hmem) (now id) row
    exact ⟨hsettled.1, Or.inr hsettled⟩

/-! ## The batch -/

/-- The articles a batch has still to finish. -/
def batchHeld (normalized : List ℕ) : Pipeline.Phase → List ℕ
  | .start => normalized
  | .loop todo => todo.map (·.id)
  | .calling raw _ todo | .answered raw _ _ _ todo => raw.id :: todo.map (·.id)
  | .returned _ | .raised => []

/-- The selection passes on rows that are held: they are due and leased to the run itself. -/
theorem selectFrom_eq {unavailable : ℕ → Bool} {seen : List ℕ} {candidates : List Candidate}
    (hnodup : (candidates.map (·.id)).Nodup)
    (h : ∀ id ∈ candidates.map (·.id), id ∉ seen ∧ unavailable id = false) :
    Pipeline.selectFrom unavailable seen candidates = (candidates, 0) := by
  induction candidates generalizing seen with
  | nil => rfl
  | cons candidate rest ih =>
      rw [List.map_cons, List.nodup_cons] at hnodup
      obtain ⟨hseen, havailable⟩ := h candidate.id (by simp)
      rw [Pipeline.selectFrom, if_neg (by simp [hseen, havailable]), ih hnodup.2]
      intro id hid
      obtain ⟨hid', havailable'⟩ := h id (List.mem_cons_of_mem _ hid)
      refine ⟨List.not_mem_cons_of_ne_of_not_mem ?_ hid', havailable'⟩
      rintro rfl
      exact hnodup.1 hid

theorem Tracks.available (h : Tracks owner clock keys held claimed rows) {id : ℕ}
    (hid : id ∈ held) : rows.unavailable (some owner) clock clock id = false := by
  obtain ⟨-, -, row, hrow, hheld⟩ := h.leased id hid
  have hdue := hheld.due
  rw [Option.all_eq_true] at hdue
  have hnext : row.nextAttemptAt.any (clock < ·) = false := by
    rw [Option.any_eq_false]
    intro t ht
    exact decide_eq_false (not_lt.mpr (of_decide_eq_true (hdue t ht)))
  simp [Rows.unavailable, hrow, hheld.status, hheld.owner, hnext]

/-- What the session tracks while a batch is under way. -/
def TracksBatch (owner : ℕ) (clock : Instant) (keys normalized claimed : List ℕ)
    (b : Pipeline.State) : Prop :=
  (batchHeld normalized b.phase).Nodup ∧
    Tracks owner clock keys (batchHeld normalized b.phase) claimed b.session

/-- **A step of the batch**: it goes on, with the rows it has still to finish, or it commits
when there are none left, or it rolls back. -/
theorem TracksBatch.of_step {normalized : List Candidate} {b b' : Pipeline.State}
    {l : Pipeline.Label}
    (h : TracksBatch owner clock keys (normalized.map (·.id)) claimed b)
    (hl : Reads clock l = true)
    (hstep : Pipeline.step pl (some owner) normalized b l = some b') :
    (b'.phase.Open ∧ b'.database = b.database ∧
      TracksBatch owner clock keys (normalized.map (·.id)) claimed b') ∨
    (¬ b'.phase.Open ∧ b'.database = b'.session ∧
      Tracks owner clock keys [] claimed b'.session) ∨
    (b'.phase = .raised ∧ b'.database = b.database ∧ b'.session = b.database) := by
  obtain ⟨hnodup, htracks⟩ := h
  cases l with
  | select nextNow leaseNow =>
      simp only [Reads, Bool.and_eq_true, decide_eq_true_eq] at hl
      rw [hl.1, hl.2] at hstep
      simp only [Pipeline.step] at hstep
      split at hstep
      · rename_i hphase
        rw [hphase, batchHeld] at hnodup htracks
        have hall : ∀ id ∈ normalized.map (·.id), id ∉ b.session.processed.rawIds ∧
            b.session.unavailable (some owner) clock clock id = false :=
          fun id hid => ⟨(htracks.leased id hid).2.1, htracks.available hid⟩
        rw [selectFrom_eq hnodup hall] at hstep
        rw [← Option.some.inj hstep]
        exact Or.inl ⟨trivial, rfl, hnodup, htracks⟩
      · cases hstep
  | article today now constructed =>
      simp only [Pipeline.step] at hstep
      split at hstep
      · rename_i raw todo hphase
        rw [hphase, batchHeld, List.map_cons] at hnodup htracks
        obtain ⟨hraw, htodo⟩ := List.nodup_cons.mp hnodup
        rcases Pipeline.articleStep_cases hstep with hends | ⟨run, analysis, -, rfl⟩
        · rw [hends.eq]
          exact Or.inl ⟨trivial, rfl, htodo, htracks.finishes hraw hends.finishes⟩
        · exact Or.inl ⟨trivial, rfl, hnodup, htracks⟩
      · cases hstep
  | call response =>
      simp only [Pipeline.step] at hstep
      split at hstep
      · rename_i raw analysis todo hphase
        rw [hphase, batchHeld] at hnodup htracks
        rw [← Option.some.inj hstep]
        exact Or.inl ⟨trivial, rfl, hnodup, htracks⟩
      · cases hstep
  | settle checked today now =>
      simp only [Pipeline.step] at hstep
      split at hstep
      · rename_i raw analysis output used todo hphase
        rw [hphase, batchHeld] at hnodup htracks
        obtain ⟨hraw, htodo⟩ := List.nodup_cons.mp hnodup
        have hends := Pipeline.settleStep_ends hstep
        rw [hends.eq]
        exact Or.inl ⟨trivial, rfl, htodo, htracks.finishes hraw hends.finishes⟩
      · cases hstep
  | commit acknowledged =>
      simp only [Pipeline.step] at hstep
      split at hstep
      · rename_i hphase
        rw [hphase, batchHeld, List.map_nil] at htracks
        rw [← Option.some.inj hstep]
        refine Or.inr (Or.inl ⟨?_, rfl, htracks⟩)
        cases acknowledged <;> exact id
      · cases hstep
  | raise =>
      simp only [Pipeline.step] at hstep
      split at hstep
      all_goals first
        | exact Or.inr (Or.inr (Option.some.inj hstep ▸ ⟨rfl, rfl, rfl⟩))
        | cases hstep
  | duplicate row => cases hl

/-! ## The queries -/

/-- What a claim selects. -/
theorem of_mem_candidates {id : ℕ} (h : id ∈ s.candidates limit) :
    id ∉ s.scan.scanned ∧ id ∉ s.session.processed.rawIds ∧
      ∃ row, s.session.raws.find? id = some row ∧ row.claimable s.clock = true := by
  obtain ⟨r, hr, rfl⟩ := List.mem_map.mp h
  have hr := List.mem_of_mem_take hr
  rw [newestFirst, List.mem_insertionSort, List.mem_filter] at hr
  obtain ⟨hmem, hcond⟩ := hr
  simp only [Bool.and_eq_true, decide_eq_true_eq] at hcond
  obtain ⟨⟨⟨hprocessed, hclaimable⟩, -⟩, hscanned⟩ := hcond
  exact ⟨hscanned, hprocessed, r.2, Table.find?_eq_some_iff.mpr hmem, hclaimable⟩

/-- A claim selects no row twice. -/
theorem nodup_candidates (limit : ℕ) (s : State) : (s.candidates limit).Nodup :=
  (nodup_newestFirst s.session.raws _).sublist ((List.take_sublist _ _).map _)

/-- What is read after a claim. -/
theorem mem_claimedRows {ids : List ℕ} {r : ℕ × RawRow} :
    r ∈ claimedRows s.rows owner ids ↔
      s.session.raws.find? r.1 = some r.2 ∧ r.1 ∈ ids ∧ r.2.leaseOwner = some owner := by
  rw [claimedRows, newestFirst, List.mem_insertionSort, List.mem_filter, Bool.and_eq_true,
    decide_eq_true_eq, decide_eq_true_eq, Table.find?_eq_some_iff]
  rfl

theorem claimedRows_nil (s : Worker.State) (i : ℕ) : claimedRows s i [] = [] := by
  rw [List.eq_nil_iff_forall_not_mem]
  intro r hr
  rw [claimedRows, newestFirst, List.mem_insertionSort, List.mem_filter] at hr
  simp at hr

/-- The rows just claimed are the ones that are read. -/
theorem Tracks.mem_claimedRows (h : Tracks owner clock keys held claimed s.session)
    {ids : List ℕ} (hids : ∀ id ∈ ids, id ∈ held) (id : ℕ) :
    id ∈ (claimedRows s.rows owner ids).map (·.1) ↔ id ∈ ids := by
  constructor
  · intro hid
    obtain ⟨r, hr, rfl⟩ := List.mem_map.mp hid
    exact (EnrichTask.mem_claimedRows.mp hr).2.1
  · intro hid
    obtain ⟨-, -, row, hrow, hheld⟩ := h.leased id (hids id hid)
    exact List.mem_map.mpr ⟨(id, row), EnrichTask.mem_claimedRows.mpr ⟨hrow, hid, hheld.owner⟩, rfl⟩

/-! ## The invariant -/

/-- The rows the run has still to deal with; in its exception handler it has lost track. -/
def Phase.tracked (scan : Scan) : Phase → Option (List ℕ)
  | .claiming | .scanned => some scan.normalizedIds
  | .claimed ids => some (scan.normalizedIds ++ ids)
  | .processing batch _ => some (batchHeld scan.normalizedIds batch)
  | .returned | .raised => some []
  | .failed | .abandoned => none

/-- The rows claimed and not scanned yet. -/
def Phase.pending : Phase → List ℕ
  | .claimed ids => ids
  | _ => []

/-- The run is in the claim loop. -/
def Phase.Loops : Phase → Prop
  | .claiming | .claimed _ => True
  | _ => False

/-- What every reachable state has. -/
structure Invariant (owner : ℕ) (keys claimed : List ℕ) (s : State) : Prop where
  nodup : claimed.Nodup
  database : ∃ ids, Tracks owner s.clock keys ids claimed s.database
  session : ∀ ids ∈ s.phase.tracked s.scan,
    ids.Nodup ∧ Tracks owner s.clock keys ids claimed s.session
  synced : s.phase = .returned ∨ s.phase = .raised → s.database = s.session
  scanned : s.phase.Loops → ∀ id ∈ claimed, id ∈ s.scan.scanned ∨ id ∈ s.phase.pending

theorem invariant_initial (clock : Instant) {database : Rows}
    (hfresh : ∀ row ∈ database.raws.values, row.leaseOwner ≠ some owner) :
    Invariant owner (database.raws.rows.map (·.1)) [] (.initial clock database) := by
  have htracks : Tracks owner clock (database.raws.rows.map (·.1)) [] [] database := by
    refine ⟨rfl, fun id row hrow howner => ?_, by simp, by simp⟩
    exact absurd howner (hfresh row (Table.mem_values.mpr ⟨id, Table.find?_eq_some_iff.mp hrow⟩))
  refine ⟨List.nodup_nil, ⟨[], htracks⟩, ?_, fun _ => rfl, by simp⟩
  rintro ids ⟨⟩
  exact ⟨List.nodup_nil, htracks⟩

/-- Where the run has no variables to keep up with, the database is all there is. -/
theorem Invariant.of_lost (h : Invariant owner keys claimed p) {phase : Phase}
    (hphase : phase.tracked p.scan = none) (hloops : ¬ phase.Loops) (rows : Rows) :
    Invariant owner keys claimed { p with session := rows, phase := phase } where
  nodup := h.nodup
  database := h.database
  session := by simp [hphase]
  synced := by
    rintro (heq | heq) <;> cases heq <;> cases hphase
  scanned := fun hl => absurd hl hloops

/-- The claim loop: a claim. -/
theorem Invariant.claim (h : Invariant owner keys claimed p) (hphase : p.phase = .claiming) :
    Invariant owner keys (p.candidates limit ++ claimed) { p with
      database := leaseRows owner p.session (p.candidates limit) p.clock
      session := leaseRows owner p.session (p.candidates limit) p.clock
      phase := .claimed (p.candidates limit) } := by
  obtain ⟨hnodup, htracks⟩ := h.session p.scan.normalizedIds (by rw [hphase]; rfl)
  have hscanned : ∀ id ∈ claimed, id ∈ p.scan.scanned := by
    intro id hid
    simpa [hphase, Phase.pending] using h.scanned (by rw [hphase]; trivial) id hid
  -- the claim asks for rows that were not scanned before
  have hnew : ∀ id ∈ p.candidates limit, id ∉ claimed :=
    fun id hid hold => (of_mem_candidates hid).1 (hscanned id hold)
  have htracks' := htracks.lease (fun id hid => ⟨hnew id hid, (of_mem_candidates hid).2⟩)
  refine ⟨?_, ⟨_, htracks'⟩, ?_, fun _ => rfl, ?_⟩
  · exact (nodup_candidates limit p).append h.nodup fun id hid hold => hnew id hid hold
  · rintro ids ⟨⟩
    refine ⟨hnodup.append (nodup_candidates limit p) fun id hid hmem => ?_, htracks'⟩
    exact hnew id hmem (htracks.leased id hid).1
  · intro _ id hid
    exact (List.mem_append.mp hid).symm.imp_left (hscanned id)

/-- The claim loop: the claimed rows are normalized. -/
theorem Invariant.normalize (h : Invariant owner keys claimed p) {ids : List ℕ}
    (hphase : p.phase = .claimed ids) (verdict : ℕ → Verdict) (now : ℕ → Instant)
    (article : ℕ → RawArticle) :
    Invariant owner keys claimed { p with
      session := normalizeRows p.session (claimedRows p.rows owner ids) verdict now
      scan := p.scan.extend (claimedRows p.rows owner ids) verdict article
      phase := .claiming } := by
  obtain ⟨hnodup, htracks⟩ := h.session (p.scan.normalizedIds ++ ids) (by rw [hphase]; rfl)
  have hids := htracks.mem_claimedRows fun id hid => List.mem_append_right _ hid
  have hnormalized : (p.scan.extend (claimedRows p.rows owner ids) verdict article).normalizedIds =
      p.scan.normalizedIds ++ ((claimedRows p.rows owner ids).filter fun r =>
        verdict r.1 = .normalized).map (·.1) := by
    simp [Scan.extend, Scan.normalizedIds, Function.comp_def]
  refine ⟨h.nodup, h.database, ?_, by simp, ?_⟩
  · rintro ids' ⟨⟩
    rw [hnormalized]
    refine ⟨?_, htracks.normalize hnodup (fun r hr => (mem_claimedRows.mp hr).1) hids verdict now⟩
    have hsublist := (List.filter_sublist (p := fun r : ℕ × RawRow =>
      decide (verdict r.1 = .normalized)) (l := claimedRows p.rows owner ids)).map (·.1)
    refine (List.nodup_append.mp hnodup).1.append
      ((nodup_newestFirst p.session.raws _).sublist hsublist) fun id hid hmem => ?_
    exact List.disjoint_of_nodup_append hnodup hid ((hids id).mp (hsublist.subset hmem))
  · intro _ id hid
    refine Or.inl (List.mem_append.mpr ?_)
    have hold := h.scanned (by rw [hphase]; trivial) id hid
    rw [hphase] at hold
    exact hold.imp_right fun hmem => (hids id).mpr hmem

theorem ofBatch_of_open {b : Pipeline.State} (h : b.phase.Open) :
    Phase.ofBatch b = .processing b.phase b.run := by
  unfold Phase.ofBatch
  split
  · rename_i heq
    rw [heq] at h
    exact h.elim
  · rename_i heq
    rw [heq] at h
    exact h.elim
  · rfl

theorem ofBatch_of_not_open {b : Pipeline.State} (h : ¬ b.phase.Open) :
    Phase.ofBatch b = .returned ∨ Phase.ofBatch b = .failed := by
  unfold Phase.ofBatch
  cases hphase : b.phase with
  | returned result => exact Or.inl rfl
  | raised => exact Or.inr rfl
  | start | loop _ | calling _ _ _ | answered _ _ _ _ _ =>
      rw [hphase] at h
      exact absurd trivial h

/-- **The step lemma.** -/
theorem Invariant.of_step (h : Invariant owner keys claimed p)
    (hstep : step pl owner limit p l = some q) :
    Invariant owner keys (p.claims limit l ++ claimed) q := by
  cases l with
  | tick t =>
      simp only [step] at hstep
      split at hstep
      · rename_i ht
        rw [← Option.some.inj hstep]
        obtain ⟨ids, hdatabase⟩ := h.database
        exact ⟨h.nodup, ⟨ids, hdatabase.tick ht⟩,
          fun ids hids => ⟨(h.session ids hids).1, (h.session ids hids).2.tick ht⟩, h.synced,
          h.scanned⟩
      · cases hstep
  | claim =>
      simp only [step] at hstep
      split at hstep
      · rename_i hphase
        simp only [State.claims, hphase]
        split at hstep
        · rename_i hlimit
          rw [if_pos hlimit, ← Option.some.inj hstep]
          exact h.claim hphase
        · rename_i hlimit
          rw [if_neg hlimit, ← Option.some.inj hstep]
          have hsession := h.session p.scan.normalizedIds (by rw [hphase]; rfl)
          refine ⟨h.nodup, h.database, ?_, by simp, fun hl => hl.elim⟩
          rintro ids ⟨⟩
          exact hsession
      · cases hstep
  | normalize verdict now article =>
      simp only [step] at hstep
      split at hstep
      · rename_i ids hphase
        split at hstep
        · rename_i hempty
          rw [← Option.some.inj hstep]
          obtain ⟨hnodup, htracks⟩ := h.session (p.scan.normalizedIds ++ ids) (by rw [hphase]; rfl)
          have hids := htracks.mem_claimedRows fun id hid => List.mem_append_right _ hid
          have hnil : ids = [] := by
            rw [List.eq_nil_iff_forall_not_mem]
            intro id hid
            have hmem := (hids id).mpr hid
            simp [hempty] at hmem
          rw [hnil, List.append_nil] at hnodup htracks
          refine ⟨h.nodup, h.database, ?_, by simp, fun hl => hl.elim⟩
          rintro ids' ⟨⟩
          exact ⟨hnodup, htracks⟩
        · rw [← Option.some.inj hstep]
          exact h.normalize hphase verdict now article
      · cases hstep
  | commit acknowledged =>
      simp only [step] at hstep
      split at hstep
      · rename_i hphase
        obtain ⟨hnodup, htracks⟩ := h.session p.scan.normalizedIds (by rw [hphase]; rfl)
        rw [← Option.some.inj hstep]
        refine ⟨h.nodup, ⟨_, htracks⟩, ?_, fun _ => rfl, ?_⟩
        · intro ids hids
          dsimp only at hids
          split at hids
          · cases hids
          · split at hids
            · rename_i hempty
              cases hids
              rw [Scan.normalizedIds, hempty] at htracks
              exact ⟨List.nodup_nil, htracks⟩
            · cases hids
              exact ⟨hnodup, htracks⟩
        · intro hl
          dsimp only at hl
          split at hl
          · exact hl.elim
          · split at hl <;> exact hl.elim
      · cases hstep
  | batch l =>
      simp only [step] at hstep
      split at hstep
      · rename_i batch run hphase
        split at hstep
        · rename_i hreads
          rw [Option.map_eq_some_iff] at hstep
          obtain ⟨b, hb, rfl⟩ := hstep
          have hbatch : TracksBatch owner p.clock keys (p.scan.normalized.map (·.id)) claimed
              ⟨p.database, p.session, batch, run⟩ :=
            h.session (batchHeld p.scan.normalizedIds batch) (by rw [hphase]; rfl)
          rcases TracksBatch.of_step hbatch hreads hb with
            ⟨hopen, hdatabase, hnext⟩ | ⟨hover, hcommit, htracks⟩ | ⟨hraised, hdatabase, hrolled⟩
          · refine ⟨h.nodup, by rw [hdatabase]; exact h.database, ?_, ?_, ?_⟩
            all_goals rw [ofBatch_of_open hopen]
            · rintro ids ⟨⟩
              exact hnext
            · rintro (heq | heq) <;> cases heq
            · exact fun hl => hl.elim
          · refine ⟨h.nodup, ⟨_, by rw [hcommit]; exact htracks⟩, ?_, fun _ => hcommit, ?_⟩
            · intro ids hids
              rcases ofBatch_of_not_open hover with heq | heq <;> rw [heq] at hids <;> cases hids
              exact ⟨List.nodup_nil, htracks⟩
            · rcases ofBatch_of_not_open hover with heq | heq <;> rw [heq] <;>
                exact fun hl => hl.elim
          · have hfailed : Phase.ofBatch b = .failed := by rw [Phase.ofBatch, hraised]
            rw [hdatabase, hfailed]
            exact h.of_lost rfl id _
        · cases hstep
      · cases hstep
  | fail =>
      simp only [step] at hstep
      split at hstep
      all_goals first
        | exact Option.some.inj hstep ▸ h.of_lost rfl id _
        | cases hstep
  | release =>
      simp only [step] at hstep
      split at hstep
      · rename_i hphase
        rw [← Option.some.inj hstep]
        obtain ⟨ids, hdatabase⟩ := h.database
        have hreleased := hdatabase.release p.clock
        refine ⟨h.nodup, ⟨_, hreleased⟩, ?_, fun _ => rfl, fun hl => hl.elim⟩
        rintro ids' ⟨⟩
        exact ⟨List.nodup_nil, hreleased⟩
      · cases hstep
  | abandon =>
      simp only [step] at hstep
      split at hstep
      all_goals first
        | exact Option.some.inj hstep ▸ h.of_lost rfl id _
        | cases hstep

/-! ## Runs -/

variable {database : Rows}

theorem invariant_of_execution
    (hfresh : ∀ row ∈ database.raws.values, row.leaseOwner ≠ some owner)
    (h : Execution (step pl owner limit) unguarded (.initial clock database) tr t) :
    Invariant owner (database.raws.rows.map (·.1)) (claimedIds limit tr) t := by
  refine h.traceInvariant (I := fun tr t =>
    Invariant owner (database.raws.rows.map (·.1)) (claimedIds limit tr) t)
    (invariant_initial clock hfresh) ?_
  intro tr p l q ih _ hstep
  exact ih.of_step hstep

/-- The steps a run may still take in its loop without a claim. -/
def Phase.credit : Phase → ℕ
  | .claiming => 2
  | .claimed [] => 1
  | .claimed (_ :: _) => 3
  | _ => 0

/-- Outside of the loop no row is claimed and no credit gained. -/
theorem credit_le_of_step (hl : l.loops = false) (hstep : step pl owner limit p l = some q) :
    p.claims limit l = [] ∧ q.phase.credit ≤ p.phase.credit := by
  cases l with
  | claim | normalize _ _ _ => cases hl
  | tick t =>
      simp only [step] at hstep
      split at hstep
      · exact Option.some.inj hstep ▸ ⟨rfl, le_rfl⟩
      · cases hstep
  | commit acknowledged =>
      simp only [step] at hstep
      split at hstep
      · rw [← Option.some.inj hstep]
        refine ⟨rfl, le_of_eq_of_le ?_ (Nat.zero_le _)⟩
        dsimp only
        split
        · rfl
        · split <;> rfl
      · cases hstep
  | batch l =>
      simp only [step] at hstep
      split at hstep
      · split at hstep
        · rw [Option.map_eq_some_iff] at hstep
          obtain ⟨b, -, rfl⟩ := hstep
          refine ⟨rfl, le_of_eq_of_le ?_ (Nat.zero_le _)⟩
          by_cases hopen : b.phase.Open
          · rw [ofBatch_of_open hopen]
            rfl
          · rcases ofBatch_of_not_open hopen with heq | heq <;> rw [heq] <;> rfl
        · cases hstep
      · cases hstep
  | fail | release | abandon =>
      simp only [step] at hstep
      split at hstep
      all_goals first
        | exact Option.some.inj hstep ▸ ⟨rfl, Nat.zero_le _⟩
        | cases hstep

/-- Each time around the loop claims a row, but for the last time. -/
theorem loops_le (h : Execution (step pl owner limit) unguarded (.initial clock database) tr t) :
    tr.countP (·.2.loops) + t.phase.credit ≤ 2 * (claimedIds limit tr).length + 2 := by
  refine h.traceInvariant (I := fun tr t =>
    tr.countP (·.2.loops) + t.phase.credit ≤ 2 * (claimedIds limit tr).length + 2) le_rfl ?_
  intro tr p l q ih _ hstep
  have hclaimed : (claimedIds limit ((p, l) :: tr)).length =
      (p.claims limit l).length + (claimedIds limit tr).length := List.length_append
  rw [hclaimed, List.countP_cons]
  by_cases hl : l.loops = true
  · rw [if_pos hl]
    cases l with
    | claim =>
        simp only [step] at hstep
        split at hstep
        · rename_i hphase
          rw [hphase, Phase.credit] at ih
          simp only [State.claims, hphase]
          split at hstep
          · rename_i hlimit
            rw [if_pos hlimit, ← Option.some.inj hstep]
            cases p.candidates limit with
            | nil =>
                simp only [Phase.credit, List.length_nil]
                omega
            | cons id ids =>
                simp only [Phase.credit, List.length_cons]
                omega
          · rename_i hlimit
            rw [if_neg hlimit, ← Option.some.inj hstep]
            simp only [Phase.credit, List.length_nil]
            omega
        · cases hstep
    | normalize verdict now article =>
        simp only [step] at hstep
        split at hstep
        · rename_i ids hphase
          rw [hphase] at ih
          simp only [State.claims, List.length_nil]
          split at hstep
          · rw [← Option.some.inj hstep]
            cases ids <;> simp only [Phase.credit] at ih ⊢ <;> omega
          · rename_i hne
            rw [← Option.some.inj hstep]
            cases ids with
            | nil => exact absurd (claimedRows_nil _ _) hne
            | cons id ids =>
                simp only [Phase.credit] at ih ⊢
                omega
        · cases hstep
    | _ => cases hl
  · obtain ⟨hnone, hcredit⟩ := credit_le_of_step (eq_false_of_ne_true hl) hstep
    rw [if_neg hl, hnone, List.length_nil]
    omega

/-- **The leases of a run.**  When it returns, or raises out of its handler, it has no row
leased, and each row it claimed is settled or has a processed article.  However it ends, a
row it claimed can be claimed again after 65 minutes.  It claims no row twice, and goes around
its claim loop at most once for each row. -/
theorem leases_released
    (hfresh : ∀ row ∈ database.raws.values, row.leaseOwner ≠ some owner)
    (h : Execution (step pl owner limit) unguarded (.initial clock database) tr t) :
    (t.phase.handled = true →
      (∀ row ∈ t.database.raws.values, row.leaseOwner ≠ some owner) ∧
      ∀ id ∈ claimedIds limit tr, id ∉ t.database.processed.rawIds →
        ∃ row, t.database.raws.find? id = some row ∧ row.Settled) ∧
    (∀ id ∈ claimedIds limit tr, id ∉ t.database.processed.rawIds →
      ∃ row, t.database.raws.find? id = some row ∧
        (row.Settled ∨
          ∀ now, t.clock + minutes enrichLeaseMinutes ≤ now → row.claimable now = true)) ∧
    (claimedIds limit tr).Nodup ∧
    tr.countP (·.2.loops) ≤ 2 * database.raws.rows.length + 2 := by
  have hinvariant := invariant_of_execution hfresh h
  obtain ⟨ids, hdatabase⟩ := hinvariant.database
  refine ⟨?_, ?_, hinvariant.nodup, ?_⟩
  · intro hhandled
    have hphase : t.phase = .returned ∨ t.phase = .raised := by
      revert hhandled
      unfold Phase.handled
      split <;> simp_all
    have htracked : t.phase.tracked t.scan = some [] := by
      rcases hphase with heq | heq <;> rw [heq] <;> rfl
    have htracks := (hinvariant.session [] htracked).2
    rw [← hinvariant.synced hphase] at htracks
    constructor
    · intro row hrow howner
      obtain ⟨id, hid⟩ := Table.mem_values.mp hrow
      exact absurd (htracks.mine id row (Table.find?_eq_some_iff.mpr hid) howner)
        List.not_mem_nil
    · intro id hid hprocessed
      obtain ⟨row, hrow, hrest⟩ := htracks.rest id hid List.not_mem_nil
      exact ⟨row, hrow, hrest.resolve_left hprocessed⟩
  · intro id hid hprocessed
    by_cases hheld : id ∈ ids
    · obtain ⟨-, -, row, hrow, hrowHeld⟩ := hdatabase.leased id hheld
      exact ⟨row, hrow, Or.inr fun now hnow => hrowHeld.claimable hnow⟩
    · obtain ⟨row, hrow, hrest⟩ := hdatabase.rest id hid hheld
      exact ⟨row, hrow, Or.inl (hrest.resolve_left hprocessed)⟩
  · have hsubset : claimedIds limit tr ⊆ database.raws.rows.map (·.1) := by
      intro id hid
      have hrow : ∃ row, t.database.raws.find? id = some row := by
        by_cases hheld : id ∈ ids
        · obtain ⟨-, -, row, hrow, -⟩ := hdatabase.leased id hheld
          exact ⟨row, hrow⟩
        · obtain ⟨row, hrow, -⟩ := hdatabase.rest id hid hheld
          exact ⟨row, hrow⟩
      obtain ⟨row, hrow⟩ := hrow
      rw [← hdatabase.ids]
      exact List.mem_map.mpr ⟨(id, row), Table.find?_eq_some_iff.mp hrow, rfl⟩
    have hlength := (hinvariant.nodup.subperm hsubset).length_le
    rw [List.length_map] at hlength
    have hloops := loops_le h
    omega

/-- A committed table with one raw article. -/
def oneRaw : Rows := { Rows.empty with raws := oneArticle }

/-- Nothing in it is leased. -/
theorem oneRaw_fresh : ∀ row ∈ oneRaw.raws.values, row.leaseOwner ≠ some 7 := by decide

/-- Run 7 of the task, with at most twenty articles. -/
private def runSeven : State → Label → Option State :=
  step (Pipeline.samplePipeline .default) 7 20

/-- `ArticleNormalizer` fails for every article. -/
private def notNormalized : Label :=
  .normalize (fun _ => .raised) (fun _ => 0) fun _ => (Pipeline.sampleCandidate 1 "rule").article

/-- Normalization fails for the article and the run returns. -/
theorem leases_released_retry :
    ∃ tr t, Execution runSeven unguarded (.initial 0 oneRaw) tr t ∧ claimedIds 20 tr = [1] ∧
      (∀ row ∈ t.database.raws.values, row.leaseOwner ≠ some 7) ∧
      ∃ row, t.database.raws.find? 1 = some row ∧ row.Settled := by
  obtain ⟨tr, t, h, hphase, hclaimed, hprocessed⟩ : ∃ tr t,
      Execution runSeven unguarded (.initial 0 oneRaw) tr t ∧
      t.phase.handled = true ∧ claimedIds 20 tr = [1] ∧ t.database.processed.rawIds = [] :=
    Execution.exists_of_execute [.claim, notNormalized, .claim, notNormalized, .commit true]
      (by decide +kernel) (fun _ _ => trivial)
  obtain ⟨hhandled, -⟩ := leases_released oneRaw_fresh h
  obtain ⟨hfree, hsettled⟩ := hhandled hphase
  exact ⟨tr, t, h, hclaimed, hfree, hsettled 1 (by simp [hclaimed]) (by simp [hprocessed])⟩

/-- The batch fails, and so does the handler: the run is over and its row is leased. -/
theorem lease_abandoned :
    ∃ tr t, Execution runSeven unguarded (.initial 0 oneRaw) tr t ∧ t.phase.over = true ∧
      ∃ row ∈ t.database.raws.values, row.leaseOwner = some 7 :=
  Execution.exists_of_execute [.claim, .fail, .abandon] (by decide +kernel)
    (fun _ _ => trivial)

end EnrichTask

end ProcureSignal.Worker
