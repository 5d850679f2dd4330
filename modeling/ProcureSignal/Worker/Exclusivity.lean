/-
# Who writes a leased row

While a raw row carries an unexpired lease, the conditional updates of other runs do not
match it: a claim needs the lease to have expired, and `_transition_raw` and the release
after a failure ask for the owner.  The ORM objects of `normalize_batch` are written by
primary key alone, whatever has become of the row since it was read.

* `Transition` : what each step does, once; `Change` : what it does to one row;
* `Consistent` : leased rows are being processed, and objects are of rows read once;
* `leases_respected_iff` : in which runs no other task writes a leased row;
* `claim_overwritten`, `takeover_overwritten` : two runs in which one does.
-/
import ProcureSignal.Worker.Leases

namespace ProcureSignal.Worker

variable {s p q : State} {l : Label} {tr : List (State × Label)}

/-! ## What a step does -/

/-- The steps, one constructor for each way a step can go. -/
inductive Transition (s : State) : Label → State → Prop
  | tick {t : Instant} : s.clock ≤ t → Transition s (.tick t) { s with clock := t }
  | ingest {ingestedAt : Instant} :
      Transition s (.ingest ingestedAt) { s with raws := s.raws.insert (.ingested ingestedAt) }
  | read {i : ℕ} {now : Instant} : s.tasks i = .idle → now ≤ s.clock →
      Transition s (.read i now) (s.move i (.normalizing none (recentRawArticles s now) []))
  | start {i : ℕ} : s.tasks i = .idle → Transition s (.start i) (s.move i (.claiming ⟨[], []⟩))
  | claim {i : ℕ} {now : Instant} {locked : List ℕ} {progress : Progress} (ids : List ℕ) :
      s.tasks i = .claiming progress → now ≤ s.clock →
      Transition s (.claim i now locked) { s.move i (.claimed ids progress) with
        raws := s.raws.update (fun id row => id ∈ ids && row.claimable now) (·.lease i now) }
  | load {i : ℕ} {ids : List ℕ} {progress : Progress} : s.tasks i = .claimed ids progress →
      Transition s (.load i)
        (s.move i (.normalizing (some progress) (claimedRows s i ids) []))
  | normalize {i id : ℕ} {row : RawRow} {verdict : Verdict} {now : Instant}
      {progress progress' : Option Progress} {todo : List (ℕ × RawRow)}
      {objects : List RawObject} :
      s.tasks i = .normalizing progress ((id, row) :: todo) objects →
      (progress' = none ↔ progress = none) →
      Transition s (.normalize i verdict now) (s.move i (.normalizing progress' todo
        (objects ++ [⟨id, row, row.afterNormalize verdict now⟩])))
  | commit {i : ℕ} {progress : Option Progress} {objects : List RawObject} (phase : Phase) :
      s.tasks i = .normalizing progress [] objects →
      (phase = .done ∨ ∃ p, phase = .claiming p) →
      Transition s (.commit i)
        { s.move i phase with raws := writeObjects s.raws objects }
  | process {i : ℕ} (normalized : List ℕ) :
      ((∃ progress, s.tasks i = .claiming progress) ∨
        ∃ ids progress, s.tasks i = .claimed ids progress) →
      Transition s (.process i) (s.move i (.processing normalized))
  | transition {i id : ℕ} {outcome : Outcome} {now : Instant} (processed : List ℕ) :
      Transition s (.transition i id outcome now) { s with
        raws := s.raws.update (fun id' row => id' = id && row.leaseOwner = some i)
          (·.transition outcome now)
        processed := processed }
  | finish {i : ℕ} : Transition s (.finish i) (s.move i .done)
  | fail {i : ℕ} (phase : Phase) : (phase = .done ∨ phase = .failed) →
      Transition s (.fail i) (s.move i phase)
  | release {i : ℕ} {now : Instant} : Transition s (.release i now) { s.move i .done with
      raws := s.raws.update (fun _ row => row.leaseOwner = some i) (·.release now) }
  | crash {i : ℕ} : Transition s (.crash i) (s.move i .done)

/-- Every step is one of these. -/
theorem transition_of_step (h : step s l = some q) : Transition s l q := by
  cases l with
  | tick t =>
    obtain ⟨ht, h⟩ := Option.ite_none_right_eq_some.mp h
    obtain rfl := Option.some.inj h
    exact .tick ht
  | ingest ingestedAt =>
    obtain rfl := Option.some.inj h
    exact .ingest
  | read i now =>
    simp only [step] at h
    split at h
    · rename_i hi
      obtain ⟨hnow, h⟩ := Option.ite_none_right_eq_some.mp h
      obtain rfl := Option.some.inj h
      exact .read hi hnow
    · cases h
  | start i =>
    simp only [step] at h
    split at h
    · rename_i hi
      obtain rfl := Option.some.inj h
      exact .start hi
    · cases h
  | claim i now locked =>
    simp only [step] at h
    split at h
    · rename_i progress hi
      obtain ⟨⟨hnow, -⟩, h⟩ := Option.ite_none_right_eq_some.mp h
      obtain rfl := Option.some.inj h
      exact .claim _ hi hnow
    · cases h
  | load i =>
    simp only [step] at h
    split at h
    · rename_i ids progress hi
      obtain ⟨-, h⟩ := Option.ite_none_left_eq_some.mp h
      obtain rfl := Option.some.inj h
      exact .load hi
    · cases h
  | normalize i verdict now =>
    simp only [step] at h
    split at h
    · rename_i progress id row todo objects hi
      obtain ⟨-, h⟩ := Option.ite_none_right_eq_some.mp h
      obtain rfl := Option.some.inj h
      exact .normalize hi Option.map_eq_none_iff
    · cases h
  | commit i =>
    simp only [step] at h
    split at h
    · rename_i objects hi
      obtain rfl := Option.some.inj h
      exact .commit _ hi (Or.inl rfl)
    · rename_i progress objects hi
      obtain rfl := Option.some.inj h
      exact .commit _ hi (Or.inr ⟨progress, rfl⟩)
    · cases h
  | process i =>
    simp only [step] at h
    split at h
    · rename_i progress hi
      obtain ⟨-, h⟩ := Option.ite_none_left_eq_some.mp h
      obtain rfl := Option.some.inj h
      exact .process _ (Or.inl ⟨progress, hi⟩)
    · rename_i ids progress hi
      obtain ⟨-, h⟩ := Option.ite_none_right_eq_some.mp h
      obtain rfl := Option.some.inj h
      exact .process _ (Or.inr ⟨ids, progress, hi⟩)
    · cases h
  | transition i id outcome now =>
    simp only [step] at h
    split at h
    · obtain ⟨-, h⟩ := Option.ite_none_right_eq_some.mp h
      obtain rfl := Option.some.inj h
      exact .transition _
    · cases h
  | finish i =>
    simp only [step] at h
    split at h
    · obtain rfl := Option.some.inj h
      exact .finish
    · cases h
  | fail i =>
    simp only [step] at h
    split at h
    · obtain rfl := Option.some.inj h
      exact .fail _ (Or.inl rfl)
    all_goals first
      | (obtain rfl := Option.some.inj h
         exact .fail _ (Or.inr rfl))
      | cases h
  | release i now =>
    simp only [step] at h
    split at h
    · obtain ⟨-, h⟩ := Option.ite_none_right_eq_some.mp h
      obtain rfl := Option.some.inj h
      exact .release
    · cases h
  | crash i =>
    obtain rfl := Option.some.inj h
    exact .crash

/-- What a step does to one row. -/
inductive Change (s : State) (id : ℕ) (row : RawRow) : Label → RawRow → Prop
  | kept {l : Label} : Change s id row l row
  | leased {i : ℕ} {now : Instant} {locked : List ℕ} : row.claimable now = true →
      now ≤ s.clock → (∃ progress, s.tasks i = .claiming progress) → Change s id row (.claim i now locked) (row.lease i now)
  | written {i : ℕ} (o : RawObject) : o ∈ (s.tasks i).objects → o.id = id →
      Change s id row (.commit i) (o.write row)
  | transitioned {i : ℕ} {outcome : Outcome} {now : Instant} : row.leaseOwner = some i →
      Change s id row (.transition i id outcome now) (row.transition outcome now)
  | released {i : ℕ} {now : Instant} : row.leaseOwner = some i →
      Change s id row (.release i now) (row.release now)

/-- The flush of a list of objects on one row. -/
theorem find?_writeObjects (raws : Table RawRow) (objects : List RawObject) {id : ℕ} {row : RawRow}
    (hrow : raws.find? id = some row) :
    (∃ o ∈ objects, o.id = id ∧ objects.find? (·.id = id) = some o ∧
      (writeObjects raws objects).find? id = some (o.write row)) ∨
    (objects.find? (·.id = id) = none ∧ (writeObjects raws objects).find? id = some row) := by
  unfold writeObjects
  rw [Table.find?_modify, hrow, Option.map_some]
  cases ho : objects.find? (·.id = id) with
  | none => exact Or.inr ⟨rfl, rfl⟩
  | some o =>
    refine Or.inl ⟨o, List.mem_of_find?_eq_some ho, ?_, rfl, rfl⟩
    have hid := List.find?_some ho
    rwa [decide_eq_true_eq] at hid

/-- A conditional update on one row. -/
theorem find?_update {raws : Table RawRow} {cond : ℕ → RawRow → Bool} {f : RawRow → RawRow}
    {id : ℕ} {row : RawRow} (hrow : raws.find? id = some row) :
    (raws.update cond f).find? id = some (if cond id row then f row else row) := by
  rw [Table.update, Table.find?_modify, hrow, Option.map_some]

/-- Rows stay, and each changes in one of these ways. -/
theorem change_of_step (h : step s l = some q) {id : ℕ} {row : RawRow}
    (hrow : s.raws.find? id = some row) :
    ∃ row', q.raws.find? id = some row' ∧ Change s id row l row' := by
  cases transition_of_step h with
  | tick _ => exact ⟨row, hrow, .kept⟩
  | ingest => exact ⟨row, Table.find?_insert_of_eq_some hrow, .kept⟩
  | read _ _ => exact ⟨row, hrow, .kept⟩
  | start _ => exact ⟨row, hrow, .kept⟩
  | claim ids hi hnow =>
    refine ⟨_, find?_update hrow, ?_⟩
    split
    · rename_i hcond
      rw [Bool.and_eq_true] at hcond
      exact .leased hcond.2 hnow ⟨_, hi⟩
    · exact .kept
  | load _ => exact ⟨row, hrow, .kept⟩
  | normalize _ _ => exact ⟨row, hrow, .kept⟩
  | @commit i progress objects phase hi _ =>
    rcases find?_writeObjects s.raws objects hrow with ⟨o, ho, hid, -, hat⟩ | ⟨-, hat⟩
    · exact ⟨_, hat, .written o (by rw [hi]; exact ho) hid⟩
    · exact ⟨_, hat, .kept⟩
  | process _ _ => exact ⟨row, hrow, .kept⟩
  | transition _ =>
    refine ⟨_, find?_update hrow, ?_⟩
    split
    · rename_i hcond
      rw [Bool.and_eq_true, decide_eq_true_eq, decide_eq_true_eq] at hcond
      obtain ⟨rfl, howner⟩ := hcond
      exact .transitioned howner
    · exact .kept
  | finish => exact ⟨row, hrow, .kept⟩
  | fail _ _ => exact ⟨row, hrow, .kept⟩
  | release =>
    refine ⟨_, find?_update hrow, ?_⟩
    split
    · rename_i hcond
      rw [decide_eq_true_eq] at hcond
      exact .released hcond
    · exact .kept
  | crash => exact ⟨row, hrow, .kept⟩

/-- Only ingestion adds a row. -/
theorem ingested_of_step (h : step s l = some q) :
    (∀ id, s.raws.find? id = none → q.raws.find? id = none) ∨
      ∃ ingestedAt, q.raws = s.raws.insert (.ingested ingestedAt) := by
  have habsent : ∀ (f : ℕ → RawRow → RawRow) (id : ℕ), s.raws.find? id = none →
      (s.raws.modify f).find? id = none := by
    intro f id hid
    rw [Table.find?_modify, hid, Option.map_none]
  cases transition_of_step h with
  | ingest => exact Or.inr ⟨_, rfl⟩
  | claim ids _ _ => exact Or.inl (habsent _)
  | commit _ _ _ => exact Or.inl (habsent _)
  | transition _ => exact Or.inl (habsent _)
  | release => exact Or.inl (habsent _)
  | tick _ | read _ _ | start _ | load _ | normalize _ _ | process _ _ | finish | fail _ _
  | crash => exact Or.inl fun _ hid => hid

/-- A row after a step was there before, or was ingested without a lease. -/
theorem change_of_step_after (h : step s l = some q) {id : ℕ} {row' : RawRow}
    (hrow' : q.raws.find? id = some row') :
    (∃ row, s.raws.find? id = some row ∧ Change s id row l row') ∨ row'.leaseOwner = none := by
  cases hrow : s.raws.find? id with
  | some row =>
    obtain ⟨row₁, hat, hchange⟩ := change_of_step h hrow
    rw [hrow', Option.some.injEq] at hat
    exact Or.inl ⟨row, rfl, hat ▸ hchange⟩
  | none =>
    rcases ingested_of_step h with habsent | ⟨ingestedAt, heq⟩
    · rw [habsent id hrow] at hrow'
      cases hrow'
    · rw [heq, Table.find?_insert] at hrow'
      split at hrow'
      · rw [← Option.some.inj hrow']
        exact Or.inr rfl
      · rw [hrow] at hrow'
        cases hrow'

/-- The clock does not go back. -/
theorem clock_le_of_step (h : step s l = some q) : s.clock ≤ q.clock := by
  cases transition_of_step h with
  | tick ht => exact ht
  | ingest | read _ _ | start _ | claim _ _ _ | load _ | normalize _ _ | commit _ _ _
  | process _ _ | transition _ | finish | fail _ _ | release | crash => exact le_rfl

/-- A run that has started enriching, or has ended. -/
def Phase.Enriching : Phase → Prop
  | .idle => False
  | .normalizing none _ _ => False
  | _ => True

theorem tasks_move (s : State) (i j : ℕ) (phase : Phase) :
    (s.move i phase).tasks j = if j = i then phase else s.tasks j :=
  Function.update_apply _ _ _ _

/-- A move into an enriching phase keeps who enriches. -/
theorem enriching_move {i j : ℕ} {phase : Phase} (hphase : (s.tasks i).Enriching → phase.Enriching)
    (h : (s.tasks j).Enriching) : ((s.move i phase).tasks j).Enriching := by
  rw [tasks_move]
  split
  · rename_i hji
    exact hphase (hji ▸ h)
  · exact h

/-- A run that enriches goes on doing so. -/
theorem enriching_of_step (h : step s l = some q) {j : ℕ} (hj : (s.tasks j).Enriching) :
    (q.tasks j).Enriching := by
  cases transition_of_step h with
  | tick _ | ingest | transition _ => exact hj
  | read hi _ =>
    refine enriching_move (fun he => ?_) hj
    rw [hi] at he
    exact he.elim
  | @normalize i id row verdict now progress progress' todo objects hi hiff =>
    refine enriching_move (fun he => ?_) hj
    rw [hi] at he
    cases progress with
    | none => exact he.elim
    | some _ =>
      cases progress' with
      | none => exact absurd (hiff.mp rfl) (by simp)
      | some _ => trivial
  | commit _ _ hphase =>
    refine enriching_move (fun _ => ?_) hj
    rcases hphase with rfl | ⟨_, rfl⟩ <;> trivial
  | fail _ hphase =>
    refine enriching_move (fun _ => ?_) hj
    rcases hphase with rfl | rfl <;> trivial
  | start _ | claim _ _ _ | load _ | process _ _ | finish | release | crash =>
    exact enriching_move (fun _ => trivial) hj

/-- A move into a phase other than normalizing makes no run normalize. -/
theorem normalizing_of_move {i j : ℕ} {phase : Phase} {progress : Option Progress}
    {todo : List (ℕ × RawRow)} {objects : List RawObject}
    (hphase : ∀ progress todo objects, phase ≠ .normalizing progress todo objects)
    (hq : (s.move i phase).tasks j = .normalizing progress todo objects) :
    s.tasks j = .normalizing progress todo objects := by
  rw [tasks_move] at hq
  split at hq
  · exact absurd hq (hphase _ _ _)
  · exact hq

/-- Sorting and filtering the rows of a table repeats no key. -/
theorem nodup_newestFirst (raws : Table RawRow) (cond : ℕ × RawRow → Bool) :
    ((newestFirst (raws.rows.filter cond)).map (·.1)).Nodup := by
  have hperm : (newestFirst (raws.rows.filter cond)).Perm (raws.rows.filter cond) :=
    List.perm_insertionSort _ _
  rw [(hperm.map _).nodup_iff]
  exact raws.nodup_keys.sublist (List.filter_sublist.map _)

/-- A run that normalizes was doing so, has just read its rows, or has done one more. -/
theorem normalizing_of_step (h : step s l = some q) {j : ℕ} {progress : Option Progress}
    {todo : List (ℕ × RawRow)} {objects : List RawObject}
    (hq : q.tasks j = .normalizing progress todo objects) :
    s.tasks j = .normalizing progress todo objects ∨
      (objects = [] ∧ (todo.map (·.1)).Nodup ∧
        (progress ≠ none → ∀ r ∈ todo, r.2.leaseOwner = some j)) ∨
      ∃ progress₀ id row verdict now objects₀,
        s.tasks j = .normalizing progress₀ ((id, row) :: todo) objects₀ ∧
          (progress = none ↔ progress₀ = none) ∧
          objects = objects₀ ++ [⟨id, row, row.afterNormalize verdict now⟩] := by
  cases transition_of_step h with
  | tick _ | ingest | transition _ => exact Or.inl hq
  | @read i now hi _ =>
    rw [tasks_move] at hq
    split at hq
    · obtain ⟨rfl, rfl, rfl⟩ := Phase.normalizing.inj hq
      refine Or.inr (Or.inl ⟨rfl, ?_, fun hne => absurd rfl hne⟩)
      exact (nodup_newestFirst s.raws _).sublist ((List.take_sublist _ _).map _)
    · exact Or.inl hq
  | @load i ids progress₀ hi =>
    rw [tasks_move] at hq
    split at hq
    · rename_i hji
      obtain ⟨rfl, rfl, rfl⟩ := Phase.normalizing.inj hq
      refine Or.inr (Or.inl ⟨rfl, nodup_newestFirst s.raws _, fun _ r hr => ?_⟩)
      rw [claimedRows, newestFirst, List.mem_insertionSort, List.mem_filter, Bool.and_eq_true,
        decide_eq_true_eq, decide_eq_true_eq] at hr
      rw [hji]
      exact hr.2.2
    · exact Or.inl hq
  | @normalize i id row verdict now progress₀ progress' todo₀ objects₀ hi hiff =>
    rw [tasks_move] at hq
    split at hq
    · rename_i hji
      obtain ⟨rfl, rfl, rfl⟩ := Phase.normalizing.inj hq
      exact Or.inr (Or.inr ⟨progress₀, id, row, verdict, now, objects₀, hji ▸ hi, hiff, rfl⟩)
    · exact Or.inl hq
  | commit phase _ hphase =>
    refine Or.inl (normalizing_of_move ?_ hq)
    rcases hphase with rfl | ⟨_, rfl⟩ <;> intro _ _ _ heq <;> cases heq
  | fail phase hphase =>
    refine Or.inl (normalizing_of_move ?_ hq)
    rcases hphase with rfl | rfl <;> intro _ _ _ heq <;> cases heq
  | start _ | claim _ _ _ | process _ _ | finish | release | crash =>
    refine Or.inl (normalizing_of_move ?_ hq)
    intro _ _ _ heq
    cases heq

/-! ## Leased rows -/

/-- The row carries a lease of `w` that has not expired. -/
structure RawRow.LeasedTo (row : RawRow) (clock : Instant) (w : ℕ) : Prop where
  owner : row.leaseOwner = some w
  unexpired : ∃ e, row.leaseExpiresAt = some e ∧ clock < e

/-- The processing status and the lease columns. -/
def RawRow.leaseColumns (row : RawRow) : Option EnrichmentStatus × Option ℕ × Option Instant :=
  (row.status, row.leaseOwner, row.leaseExpiresAt)

/-- **The step respects leases**: a row with an unexpired lease of another run keeps its
processing status and its lease columns. -/
def Respects (s : State) (l : Label) (q : State) : Prop :=
  ∀ id row w, s.raws.find? id = some row → row.LeasedTo s.clock w → l.task ≠ some w →
    ∃ row', q.raws.find? id = some row' ∧ row'.leaseColumns = row.leaseColumns

/-- The last step respected leases. -/
def KeepsLeases : List (State × Label) → State → Prop
  | [], _ => True
  | (s, l) :: _, q => Respects s l q

/-- An object as it was loaded, or with the lease given up. -/
def RawObject.Normalized (o : RawObject) : Prop :=
  o.current = o.loaded ∨
    (o.current.leaseOwner = none ∧ o.current.leaseExpiresAt = none ∧
      o.current.status ≠ some .processing)

/-- Writing an object that is as loaded changes nothing. -/
theorem RawObject.write_of_eq {o : RawObject} (h : o.current = o.loaded) (row : RawRow) :
    o.write row = row := by
  simp [RawObject.write, h]

/-- A row written from a normalized object has the lease it had, or none. -/
theorem RawObject.Normalized.leaseOwner_write {o : RawObject} (h : o.Normalized) {row : RawRow}
    {w : ℕ} (hw : (o.write row).leaseOwner = some w) :
    row.leaseOwner = some w ∧ (o.current = o.loaded ∨ o.loaded.leaseOwner = none) := by
  rcases h with heq | ⟨howner, -, -⟩
  · rw [RawObject.write_of_eq heq] at hw
    exact ⟨hw, Or.inl heq⟩
  · have hwritten : (if o.current.leaseOwner = o.loaded.leaseOwner then row.leaseOwner
        else o.current.leaseOwner) = some w := hw
    split at hwritten
    · rename_i hsame
      exact ⟨hwritten, Or.inr (hsame ▸ howner)⟩
    · rw [howner] at hwritten
      cases hwritten

/-- It has the expiry it had, or none. -/
theorem RawObject.Normalized.leaseExpiresAt_write {o : RawObject} (h : o.Normalized)
    {row : RawRow} {e : Instant} (he : (o.write row).leaseExpiresAt = some e) :
    row.leaseExpiresAt = some e := by
  rcases h with heq | ⟨-, hexpires, -⟩
  · rw [RawObject.write_of_eq heq] at he
    exact he
  · have hwritten : (if o.current.leaseExpiresAt = o.loaded.leaseExpiresAt then row.leaseExpiresAt
        else o.current.leaseExpiresAt) = some e := he
    split at hwritten
    · exact hwritten
    · rw [hexpires] at hwritten
      cases hwritten

/-- What every reachable state has as long as leases are respected. -/
structure Consistent (s : State) : Prop where
  /-- a row under an unexpired lease is being processed -/
  processing : ∀ id row w, s.raws.find? id = some row → row.LeasedTo s.clock w →
    row.status = some .processing
  /-- only a run that enriches owns leases -/
  enriching : ∀ id row i, s.raws.find? id = some row → row.leaseOwner = some i →
    (s.tasks i).Enriching
  /-- what such a run has loaded it owned -/
  held : ∀ i progress todo objects, s.tasks i = .normalizing (some progress) todo objects →
    (∀ r ∈ todo, r.2.leaseOwner = some i) ∧ ∀ o ∈ objects, o.loaded.leaseOwner = some i
  /-- a run has one object for each row -/
  objects : ∀ i progress todo objects, s.tasks i = .normalizing progress todo objects →
    (∀ o ∈ objects, o.Normalized) ∧ (objects.map (·.id) ++ todo.map (·.1)).Nodup

/-- Rows without a lease and no task started. -/
theorem consistent_initial (clock : Instant) {raws : Table RawRow} (processed : List ℕ)
    (hfree : ∀ row ∈ raws.values, row.leaseOwner = none) :
    Consistent (.initial clock raws processed) := by
  have hnone : ∀ id row i, raws.find? id = some row → row.leaseOwner ≠ some i := by
    intro id row i hrow
    rw [hfree row (Table.mem_values.mpr ⟨id, Table.find?_eq_some_iff.mp hrow⟩)]
    simp
  constructor
  · intro id row w hrow hleased
    exact absurd hleased.owner (hnone id row w hrow)
  · intro id row i hrow howner
    exact absurd howner (hnone id row i hrow)
  · intro i progress todo objects hi
    cases hi
  · intro i progress todo objects hi
    cases hi

/-- An object a run holds belongs to its normalization. -/
theorem exists_normalizing_of_mem_objects {i : ℕ} {o : RawObject} (ho : o ∈ (s.tasks i).objects) :
    ∃ progress todo objects, s.tasks i = .normalizing progress todo objects ∧ o ∈ objects := by
  cases hi : s.tasks i with
  | normalizing progress todo objects =>
    rw [hi] at ho
    exact ⟨progress, todo, objects, rfl, ho⟩
  | idle | claiming _ | claimed _ _ | processing _ | failed | done =>
    rw [hi] at ho
    cases ho

/-- A row a run has loaded without a lease of its own is not leased to it. -/
theorem Consistent.not_owner (hc : Consistent s) {i : ℕ} {o : RawObject}
    (ho : o ∈ (s.tasks i).objects) (hloaded : o.loaded.leaseOwner = none) {id : ℕ} {row : RawRow}
    (hrow : s.raws.find? id = some row) : row.leaseOwner ≠ some i := by
  intro howner
  obtain ⟨progress, todo, objects, hi, hmem⟩ := exists_normalizing_of_mem_objects ho
  have hen := hc.enriching id row i hrow howner
  rw [hi] at hen
  cases progress with
  | none => exact hen
  | some progress =>
    have hheld := (hc.held i progress todo objects hi).2 o hmem
    rw [hloaded] at hheld
    cases hheld

/-- Objects are normalized. -/
theorem Consistent.normalized (hc : Consistent s) {i : ℕ} {o : RawObject}
    (ho : o ∈ (s.tasks i).objects) : o.Normalized := by
  obtain ⟨progress, todo, objects, hi, hmem⟩ := exists_normalizing_of_mem_objects ho
  exact (hc.objects i progress todo objects hi).1 o hmem

/-- Leased rows go on being processed. -/
theorem processing_of_step (hc : Consistent s) (h : step s l = some q) (hr : Respects s l q)
    {id : ℕ} {row' : RawRow} {w : ℕ} (hrow' : q.raws.find? id = some row')
    (hleased : row'.LeasedTo q.clock w) : row'.status = some .processing := by
  obtain ⟨howner, e, hexpires, hlt⟩ := hleased
  have hbefore : s.clock < e := lt_of_le_of_lt (clock_le_of_step h) hlt
  rcases change_of_step_after h hrow' with ⟨row, hrow, hchange⟩ | hnone
  · cases hchange with
    | kept => exact hc.processing id row' w hrow ⟨howner, e, hexpires, hbefore⟩
    | leased _ _ _ => rfl
    | @written i o ho hid =>
      obtain ⟨hold, heq | hloaded⟩ := (hc.normalized ho).leaseOwner_write howner
      · rw [RawObject.write_of_eq heq] at hexpires ⊢
        exact hc.processing id row w hrow ⟨hold, e, hexpires, hbefore⟩
      · -- the object was loaded without a lease, so the lease is another run's
        have hne : i ≠ w := by
          rintro rfl
          exact hc.not_owner ho hloaded hrow hold
        have hrowleased : row.LeasedTo s.clock w :=
          ⟨hold, e, (hc.normalized ho).leaseExpiresAt_write hexpires, hbefore⟩
        obtain ⟨row₁, hat, hcolumns⟩ := hr id row w hrow hrowleased
          (fun hl => hne (Option.some.inj hl))
        rw [hrow', Option.some.injEq] at hat
        rw [hat, (Prod.mk.inj hcolumns).1]
        exact hc.processing id row w hrow hrowleased
    | transitioned _ =>
      rename_i outcome _ _
      cases outcome <;> cases howner
    | released _ => cases howner
  · rw [hnone] at howner
    cases howner

/-- Leases stay with runs that enrich. -/
theorem enriching_step (hc : Consistent s) (h : step s l = some q) {id : ℕ} {row' : RawRow} {w : ℕ}
    (hrow' : q.raws.find? id = some row') (howner : row'.leaseOwner = some w) :
    (q.tasks w).Enriching := by
  apply enriching_of_step h
  rcases change_of_step_after h hrow' with ⟨row, hrow, hchange⟩ | hnone
  · cases hchange with
    | kept => exact hc.enriching id row' w hrow howner
    | leased _ _ hclaiming =>
      obtain ⟨progress, hi⟩ := hclaiming
      obtain rfl := Option.some.inj howner
      rw [hi]
      trivial
    | written o ho _ =>
      exact hc.enriching id row w hrow ((hc.normalized ho).leaseOwner_write howner).1
    | transitioned _ =>
      rename_i outcome _ _
      cases outcome <;> cases howner
    | released _ => cases howner
  · rw [hnone] at howner
    cases howner

/-- **Respecting leases keeps the state consistent.** -/
theorem consistent_step (hc : Consistent s) (h : step s l = some q) (hr : Respects s l q) :
    Consistent q := by
  constructor
  · intro id row w hrow hleased
    exact processing_of_step hc h hr hrow hleased
  · intro id row w hrow howner
    exact enriching_step hc h hrow howner
  · intro i progress todo objects hi
    rcases normalizing_of_step h hi with hold | ⟨rfl, -, hread⟩ |
      ⟨progress₀, id, row, verdict, now, objects₀, hold, hiff, rfl⟩
    · exact hc.held i progress todo objects hold
    · exact ⟨hread (by simp), fun o ho => absurd ho List.not_mem_nil⟩
    · cases progress₀ with
      | none => exact absurd (hiff.mpr rfl) (by simp)
      | some progress₀ =>
        obtain ⟨htodo, hobjects⟩ := hc.held i progress₀ _ objects₀ hold
        refine ⟨fun r hr => htodo r (List.mem_cons_of_mem _ hr), ?_⟩
        intro o ho
        rcases List.mem_append.mp ho with ho | ho
        · exact hobjects o ho
        · rw [List.mem_singleton.mp ho]
          exact htodo (id, row) List.mem_cons_self
  · intro i progress todo objects hi
    rcases normalizing_of_step h hi with hold | ⟨rfl, hnodup, -⟩ |
      ⟨progress₀, id, row, verdict, now, objects₀, hold, -, rfl⟩
    · exact hc.objects i progress todo objects hold
    · exact ⟨fun o ho => absurd ho List.not_mem_nil, hnodup⟩
    · obtain ⟨hnormalized, hnodup⟩ := hc.objects i progress₀ _ objects₀ hold
      refine ⟨?_, ?_⟩
      · intro o ho
        rcases List.mem_append.mp ho with ho | ho
        · exact hnormalized o ho
        · rw [List.mem_singleton.mp ho]
          cases verdict with
          | normalized => exact Or.inl rfl
          | rejected => exact Or.inr ⟨rfl, rfl, by simp [RawRow.afterNormalize]⟩
          | raised => exact Or.inr ⟨rfl, rfl, by simp [RawRow.afterNormalize]⟩
      · simpa [List.map_append, List.append_assoc] using hnodup

/-! ## Which steps respect leases -/

/-- The row is under an unexpired lease of another run. -/
def leasedElsewhere (s : State) (i id : ℕ) : Bool :=
  (s.raws.find? id).any fun row =>
    row.leaseOwner.any (· ≠ i) && row.leaseExpiresAt.any (s.clock < ·)

/-- The flush of the object writes the processing status or a lease column. -/
def RawObject.writesLease (o : RawObject) : Bool := o.current.leaseColumns ≠ o.loaded.leaseColumns

/-- A commit writes the status or lease of no row that is leased to another run. -/
def CommitsOwn (s : State) : Label → Prop
  | .commit i => ∀ o ∈ (s.tasks i).objects, o.writesLease = true → leasedElsewhere s i o.id = false
  | _ => True

theorem leasedElsewhere_eq_true {i id : ℕ} :
    leasedElsewhere s i id = true ↔
      ∃ row w, s.raws.find? id = some row ∧ row.LeasedTo s.clock w ∧ w ≠ i := by
  unfold leasedElsewhere
  simp only [Option.any_eq_true, Bool.and_eq_true, decide_eq_true_eq]
  constructor
  · rintro ⟨row, hrow, ⟨w, hw, hne⟩, e, he, hlt⟩
    exact ⟨row, w, hrow, ⟨hw, e, he, hlt⟩, hne⟩
  · rintro ⟨row, w, hrow, ⟨hw, e, he, hlt⟩, hne⟩
    exact ⟨row, hrow, ⟨w, hw, hne⟩, e, he, hlt⟩

/-- An object that does not write the lease leaves it as it is. -/
theorem RawObject.leaseColumns_write {o : RawObject} (h : o.writesLease = false) (row : RawRow) :
    (o.write row).leaseColumns = row.leaseColumns := by
  have hsame : o.current.leaseColumns = o.loaded.leaseColumns := by
    simpa [RawObject.writesLease] using h
  obtain ⟨hstatus, hrest⟩ := Prod.mk.inj hsame
  obtain ⟨howner, hexpires⟩ := Prod.mk.inj hrest
  simp [RawRow.leaseColumns, RawObject.write, hstatus, howner, hexpires]

/-- An object that writes the lease of a leased row changes it. -/
theorem RawObject.leaseColumns_write_ne {o : RawObject} (ho : o.Normalized)
    (h : o.writesLease = true) {row : RawRow} {clock : Instant} {w : ℕ}
    (hleased : row.LeasedTo clock w) (hprocessing : row.status = some .processing) :
    (o.write row).leaseColumns ≠ row.leaseColumns := by
  intro heq
  obtain ⟨hstatus, hrest⟩ := Prod.mk.inj heq
  obtain ⟨howner, hexpires⟩ := Prod.mk.inj hrest
  obtain ⟨e, he, -⟩ := hleased.unexpired
  have hdiff : o.current.leaseColumns ≠ o.loaded.leaseColumns := by
    simpa [RawObject.writesLease] using h
  rcases ho with hsame | ⟨hnoOwner, hnoExpiry, hnotProcessing⟩
  · exact hdiff (by rw [hsame])
  · -- each column would have to be as loaded
    have hs : o.current.status = o.loaded.status := by
      by_contra hne
      have hw : (o.write row).status = o.current.status := if_neg hne
      exact hnotProcessing (by rw [← hw, hstatus, hprocessing])
    have hl : o.current.leaseOwner = o.loaded.leaseOwner := by
      by_contra hne
      have hw : (o.write row).leaseOwner = o.current.leaseOwner := if_neg hne
      rw [hw, hnoOwner, hleased.owner] at howner
      cases howner
    have hx : o.current.leaseExpiresAt = o.loaded.leaseExpiresAt := by
      by_contra hne
      have hw : (o.write row).leaseExpiresAt = o.current.leaseExpiresAt := if_neg hne
      rw [hw, hnoExpiry, he] at hexpires
      cases hexpires
    exact hdiff (by rw [RawRow.leaseColumns, RawRow.leaseColumns, hs, hl, hx])

/-- A run has at most one object for a row. -/
theorem Consistent.find?_objects (hc : Consistent s) {i : ℕ} {progress : Option Progress}
    {todo : List (ℕ × RawRow)} {objects : List RawObject}
    (hi : s.tasks i = .normalizing progress todo objects) {o : RawObject} (ho : o ∈ objects) :
    objects.find? (·.id = o.id) = some o := by
  have hnodup : (objects.map (·.id)).Nodup := (hc.objects i progress todo objects hi).2.of_append_left
  cases hfind : objects.find? (·.id = o.id) with
  | none =>
    have hnone := List.find?_eq_none.mp hfind o ho
    simp at hnone
  | some o' =>
    have hid := List.find?_some hfind
    rw [decide_eq_true_eq] at hid
    rw [List.inj_on_of_nodup_map hnodup (List.mem_of_find?_eq_some hfind) ho hid]

/-- **One step.**  In a consistent state a step respects leases exactly when it is not a
commit that writes the status or lease of a row leased to another run. -/
theorem respects_iff (hc : Consistent s) (h : step s l = some q) :
    Respects s l q ↔ CommitsOwn s l := by
  constructor
  · intro hr
    cases l with
    | commit i =>
      intro o ho hwrites
      by_contra hne
      obtain ⟨row, w, hrow, hleased, hw⟩ :=
        leasedElsewhere_eq_true.mp (Bool.eq_true_of_not_eq_false hne)
      obtain ⟨row', hrow', hcolumns⟩ := hr o.id row w hrow hleased
        (fun heq => hw (Option.some.inj heq).symm)
      have hprocessing := hc.processing o.id row w hrow hleased
      refine RawObject.leaseColumns_write_ne (hc.normalized ho) hwrites hleased hprocessing ?_
      cases transition_of_step h with
      | @commit _ progress objects phase hi _ =>
        rw [hi] at ho
        rcases find?_writeObjects s.raws objects hrow with ⟨o', -, -, hfind, hat⟩ | ⟨hfind, -⟩
        · rw [hc.find?_objects hi ho, Option.some.injEq] at hfind
          subst hfind
          have hq : (writeObjects s.raws objects).find? o.id = some row' := hrow'
          rw [hat, Option.some.injEq] at hq
          rw [hq]
          exact hcolumns
        · rw [hc.find?_objects hi ho] at hfind
          cases hfind
    | _ => trivial
  · intro hguard id row w hrow hleased hother
    obtain ⟨row', hrow', hchange⟩ := change_of_step h hrow
    refine ⟨row', hrow', ?_⟩
    obtain ⟨howner, e, hexpires, hlt⟩ := hleased
    cases hchange with
    | kept => rfl
    | leased hclaimable hnow _ =>
      -- a claim needs the lease to have expired
      simp only [RawRow.claimable, howner, hexpires, Bool.and_eq_true, Bool.or_eq_true,
        Option.any_some, decide_eq_true_eq, reduceCtorEq, false_or] at hclaimable
      exact absurd (lt_of_lt_of_le hlt (hclaimable.2.trans hnow)) (lt_irrefl _)
    | @written i o ho hid =>
      subst hid
      apply RawObject.leaseColumns_write
      by_contra hwrites
      have hfree := hguard o ho (Bool.eq_true_of_not_eq_false hwrites)
      have hheld : leasedElsewhere s i o.id = true := leasedElsewhere_eq_true.mpr
        ⟨row, w, hrow, ⟨howner, e, hexpires, hlt⟩, fun hwi => hother (by rw [hwi]; rfl)⟩
      rw [hheld] at hfree
      cases hfree
    | transitioned hi => exact absurd (hi.symm.trans howner) hother
    | released hi => exact absurd (hi.symm.trans howner) hother

/-! ## Runs -/

/-- A run in which leases were respected ends in a consistent state. -/
theorem consistent_of_throughout {s₀ : State} (h₀ : Consistent s₀)
    (h : Execution step unguarded s₀ tr s) (hall : Execution.Throughout KeepsLeases tr s) :
    Consistent s := by
  induction h with
  | nil => exact h₀
  | snoc _ _ hq ih => exact consistent_step (ih hall.2) hq hall.1

/-- **Lease exclusivity.**  In any interleaving of normalization passes and enrichment
workers, over rows that start without a lease: no step of a run changes the processing
status or the lease of a row that carries an unexpired lease of another run, exactly when
no commit of normalized rows writes these columns of a row that is under such a lease at
that moment. -/
theorem leases_respected_iff {clock : Instant} {raws : Table RawRow} {processed : List ℕ}
    (hfree : ∀ row ∈ raws.values, row.leaseOwner = none)
    (h : Execution step unguarded (.initial clock raws processed) tr s) :
    Execution.Throughout KeepsLeases tr s ↔ ∀ x ∈ tr, CommitsOwn x.1 x.2 := by
  have h₀ := consistent_initial clock processed hfree
  refine h.throughout_iff trivial ?_
  intro tr' p l q hp hall hq
  exact respects_iff (consistent_of_throughout h₀ hp hall) hq

instance (s : State) : (l : Label) → Decidable (CommitsOwn s l)
  | .commit i => inferInstanceAs (Decidable (∀ o ∈ (s.tasks i).objects,
      o.writesLease = true → leasedElsewhere s i o.id = false))
  | .tick _ | .ingest _ | .read _ _ | .start _ | .claim _ _ _ | .load _ | .normalize _ _ _
  | .process _ | .transition _ _ _ _ | .finish _ | .fail _ | .release _ _ | .crash _ =>
      inferInstanceAs (Decidable True)

/-- One article, ingested at time `0`. -/
def oneArticle : Table RawRow := Table.empty.insert (.ingested 0)

theorem oneArticle_free : ∀ row ∈ oneArticle.values, row.leaseOwner = none := by decide

/-- A failed normalization, and a worker that claims the article when it is due again and
completes it. -/
theorem leases_respected_retry : ∃ tr s,
    Execution step unguarded (.initial 0 oneArticle []) tr s ∧ tr.length = 12 ∧
      Execution.Throughout KeepsLeases tr s := by
  obtain ⟨tr, s, h, hlength, hcommits⟩ : ∃ tr s,
      Execution step unguarded (.initial 0 oneArticle []) tr s ∧ tr.length = 12 ∧
        ∀ x ∈ tr, CommitsOwn x.1 x.2 :=
    Execution.exists_of_execute
      [.read 0 0, .normalize 0 .raised 0, .commit 0, .tick (minutes 15), .start 1,
        .claim 1 (minutes 15) [], .load 1, .normalize 1 .normalized (minutes 15), .commit 1,
        .claim 1 (minutes 15) [], .process 1, .transition 1 1 .completed (minutes 15)]
      (by decide +kernel) (fun _ _ => trivial)
  exact ⟨tr, s, h, hlength, (leases_respected_iff oneArticle_free h).mpr hcommits⟩

/-- In some run the last step is a commit of `i` that marks the article rejected while `w`
holds an unexpired lease on it. -/
def RejectsLeased (i w : ℕ) : Prop :=
  ∃ tr p s row row', Execution step unguarded (.initial 0 oneArticle []) ((p, .commit i) :: tr) s ∧
    p.raws.find? 1 = some row ∧ row.LeasedTo p.clock w ∧ row.status = some .processing ∧
    s.raws.find? 1 = some row' ∧ row'.status = some .qualityRejected

/-- Such a run does not respect leases. -/
theorem RejectsLeased.not_throughout {i w : ℕ} (h : RejectsLeased i w) (hne : i ≠ w) :
    ∃ tr s, Execution step unguarded (.initial 0 oneArticle []) tr s ∧
      ¬ Execution.Throughout KeepsLeases tr s := by
  obtain ⟨tr, p, s, row, row', h, hrow, hleased, hprocessing, hrow', hrejected⟩ := h
  refine ⟨_, s, h, ?_⟩
  rintro ⟨hr, -⟩
  obtain ⟨row₁, hat, hcolumns⟩ := hr 1 row w hrow hleased (fun heq => hne (Option.some.inj heq))
  rw [hrow', Option.some.injEq] at hat
  have hstatus := (Prod.mk.inj hcolumns).1
  rw [← hat, hrejected, hprocessing] at hstatus
  cases hstatus

/-- A run of labels that ends with such a commit. -/
theorem rejectsLeased_of_execute {i w : ℕ} (ls : List Label)
    (h : ∃ s ∈ execute step (.initial 0 oneArticle []) ls,
      ∃ x ∈ (traceOf step (.initial 0 oneArticle []) ls []).head?, x.2 = .commit i ∧
        ∃ row ∈ x.1.raws.find? 1, row.leaseOwner = some w ∧
          row.leaseExpiresAt.any (x.1.clock < ·) = true ∧ row.status = some .processing ∧
          ∃ row' ∈ s.raws.find? 1, row'.status = some .qualityRejected) :
    RejectsLeased i w := by
  obtain ⟨tr, s, hrun, x, hx, hlabel, row, hrow, howner, hexpires, hprocessing, row', hrow',
      hrejected⟩ : ∃ tr s, Execution step unguarded (.initial 0 oneArticle []) tr s ∧
        ∃ x ∈ tr.head?, x.2 = .commit i ∧
          ∃ row ∈ x.1.raws.find? 1, row.leaseOwner = some w ∧
            row.leaseExpiresAt.any (x.1.clock < ·) = true ∧ row.status = some .processing ∧
            ∃ row' ∈ s.raws.find? 1, row'.status = some .qualityRejected :=
    Execution.exists_of_execute ls h (fun _ _ => trivial)
  obtain ⟨tr', rfl⟩ := List.head?_eq_some_iff.mp hx
  obtain ⟨p, l⟩ := x
  obtain rfl : l = .commit i := hlabel
  obtain ⟨e, he, hlt⟩ := (Option.any_eq_true _ _).mp hexpires
  exact ⟨tr', p, s, row, row', hrun, hrow, ⟨howner, e, he, by simpa using hlt⟩, hprocessing,
    hrow', hrejected⟩

/-- **Two overwritten claims.**  A normalization pass reads an article, worker `1` claims
it, and the pass commits its rejection.  And: the lease of worker `1` expires while it
normalizes, worker `2` takes the article over, and worker `1` commits its rejection. -/
theorem leased_article_rejected :
    RejectsLeased 0 1 ∧ RejectsLeased 1 2 ∧
      ∃ tr s, Execution step unguarded (.initial 0 oneArticle []) tr s ∧
        ¬ Execution.Throughout KeepsLeases tr s := by
  have hpass : RejectsLeased 0 1 := rejectsLeased_of_execute
    [.read 0 0, .start 1, .claim 1 0 [], .normalize 0 .rejected 0, .commit 0] (by decide +kernel)
  have hworker : RejectsLeased 1 2 := rejectsLeased_of_execute
    [.start 1, .claim 1 0 [], .load 1, .tick (minutes 66), .start 2, .claim 2 (minutes 66) [],
      .normalize 1 .rejected (minutes 66), .commit 1] (by decide +kernel)
  exact ⟨hpass, hworker, hpass.not_throughout (by decide)⟩

end ProcureSignal.Worker
