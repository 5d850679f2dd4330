/-
# Tables with generated primary keys

A `Table α` is a finite set of rows of type `α` under natural-number keys, listed
in increasing key order, together with the next key the sequence will hand out.
The two invariants (keys increase, every key is below `nextId`) are fields, so a
table with a repeated key cannot be built, and `ORDER BY id` is the order of
`rows`.

* `Table.insert` : append a row under the next key;
* `Table.update` : `UPDATE … SET … WHERE …`, which keeps the keys;
* `Table.map` : some columns of every row;
* `Table.find?` : lookup by primary key;
* `UniqueTable` : a table with unique constraints, whose insert fails on a
  violation.
-/
import Mathlib

universe u

/-- Rows under increasing keys, all below the next key to hand out. -/
structure Table (α : Type u) where
  rows : List (ℕ × α)
  nextId : ℕ
  sorted : rows.Pairwise (fun r r' => r.1 < r'.1)
  below : ∀ r ∈ rows, r.1 < nextId

namespace Table

variable {α : Type u}

/-- The empty table; keys start at `1`. -/
def empty : Table α := ⟨[], 1, List.Pairwise.nil, by simp⟩

/-- The rows without their keys. -/
def values (t : Table α) : List α := t.rows.map (·.2)

/-- The row under a key. -/
def find? (t : Table α) (i : ℕ) : Option α := (t.rows.find? (fun r => r.1 = i)).map (·.2)

/-- Append a row under the next key. -/
def insert (t : Table α) (a : α) : Table α where
  rows := t.rows ++ [(t.nextId, a)]
  nextId := t.nextId + 1
  sorted := by
    rw [List.pairwise_append]
    refine ⟨t.sorted, List.pairwise_singleton _ _, ?_⟩
    intro r hr r' hr'
    rw [List.mem_singleton.mp hr']
    exact t.below r hr
  below := by
    intro r hr
    rcases List.mem_append.mp hr with hr | hr
    · exact Nat.lt_succ_of_lt (t.below r hr)
    · rw [List.mem_singleton.mp hr]
      exact Nat.lt_succ_self _

/-- Rewrite every row; keys stay. -/
def modify (t : Table α) (f : ℕ → α → α) : Table α where
  rows := t.rows.map (fun r => (r.1, f r.1 r.2))
  nextId := t.nextId
  sorted := by
    rw [List.pairwise_map]
    exact t.sorted
  below := by
    intro r hr
    obtain ⟨r₀, hr₀, rfl⟩ := List.mem_map.mp hr
    exact t.below r₀ hr₀

/-- `UPDATE … SET … WHERE …`: rewrite the rows that meet a condition. -/
def update (t : Table α) (p : ℕ → α → Bool) (f : α → α) : Table α :=
  t.modify fun i a => if p i a then f a else a

/-- `DELETE … WHERE …`: keep the rows that do not meet a condition. -/
def delete (t : Table α) (p : ℕ → α → Bool) : Table α where
  rows := t.rows.filter fun r => !p r.1 r.2
  nextId := t.nextId
  sorted := t.sorted.filter _
  below := fun r hr => t.below r (List.mem_of_mem_filter hr)

/-- The columns of every row that `f` keeps. -/
def map {β : Type*} (t : Table α) (f : α → β) : Table β where
  rows := t.rows.map fun r => (r.1, f r.2)
  nextId := t.nextId
  sorted := by
    rw [List.pairwise_map]
    exact t.sorted
  below := by
    intro r hr
    obtain ⟨r₀, hr₀, rfl⟩ := List.mem_map.mp hr
    exact t.below r₀ hr₀

/-! ## Membership -/

@[simp] theorem rows_empty : (empty : Table α).rows = [] := rfl

@[simp] theorem values_empty : (empty : Table α).values = [] := rfl

/-- The rows after an insert. -/
theorem mem_rows_insert {t : Table α} {a : α} {r : ℕ × α} :
    r ∈ (t.insert a).rows ↔ r ∈ t.rows ∨ r = (t.nextId, a) := by
  simp [insert]

/-- The rows after a rewrite. -/
theorem mem_rows_modify {t : Table α} {f : ℕ → α → α} {r : ℕ × α} :
    r ∈ (t.modify f).rows ↔ ∃ a, (r.1, a) ∈ t.rows ∧ r.2 = f r.1 a := by
  obtain ⟨i, b⟩ := r
  simp only [modify, List.mem_map, Prod.exists, Prod.mk.injEq]
  constructor
  · rintro ⟨j, a, h, rfl, rfl⟩
    exact ⟨a, h, rfl⟩
  · rintro ⟨a, h, hb⟩
    exact ⟨i, a, h, rfl, hb.symm⟩

/-- The rows after a deletion. -/
theorem mem_rows_delete {t : Table α} {p : ℕ → α → Bool} {r : ℕ × α} :
    r ∈ (t.delete p).rows ↔ r ∈ t.rows ∧ p r.1 r.2 = false := by
  simp [delete]

theorem mem_values {t : Table α} {a : α} : a ∈ t.values ↔ ∃ i, (i, a) ∈ t.rows := by
  simp [values]

@[simp] theorem values_insert (t : Table α) (a : α) :
    (t.insert a).values = t.values ++ [a] := by
  simp [values, insert]

/-- A row that is not the new one is there after an insert when it was there. -/
theorem mem_values_insert_of_ne {t : Table α} {a b : α} (hne : a ≠ b) :
    a ∈ (t.insert b).values ↔ a ∈ t.values := by
  rw [values_insert, List.mem_append, List.mem_singleton, or_iff_left hne]

/-- The rows after a deletion whose condition reads no key. -/
@[simp] theorem values_delete (t : Table α) (p : α → Bool) :
    (t.delete fun _ a => p a).values = t.values.filter fun a => !p a := by
  rw [values, values, delete, List.filter_map]
  rfl

@[simp] theorem nextId_delete (t : Table α) (p : ℕ → α → Bool) :
    (t.delete p).nextId = t.nextId := rfl

@[simp] theorem nextId_modify (t : Table α) (f : ℕ → α → α) :
    (t.modify f).nextId = t.nextId := rfl

@[simp] theorem nextId_insert (t : Table α) (a : α) : (t.insert a).nextId = t.nextId + 1 := rfl

/-- A rewrite that leaves every row leaves the table. -/
theorem modify_eq_self {t : Table α} {f : ℕ → α → α} (h : ∀ r ∈ t.rows, f r.1 r.2 = r.2) :
    t.modify f = t := by
  obtain ⟨rows, nextId, sorted, below⟩ := t
  have hrows : rows.map (fun r => (r.1, f r.1 r.2)) = rows := by
    refine (List.map_congr_left fun r hr => ?_).trans (List.map_id _)
    rw [h r hr]
    rfl
  simp only [modify, hrows]

/-- Two rewrites that agree on every row. -/
theorem modify_congr {t : Table α} {f g : ℕ → α → α}
    (h : ∀ r ∈ t.rows, f r.1 r.2 = g r.1 r.2) : t.modify f = t.modify g := by
  have hrows : t.rows.map (fun r => (r.1, f r.1 r.2)) = t.rows.map fun r => (r.1, g r.1 r.2) :=
    List.map_congr_left fun r hr => by rw [h r hr]
  simp only [modify, hrows]

/-- A rewrite keeps every key. -/
@[simp] theorem keys_modify (t : Table α) (f : ℕ → α → α) :
    (t.modify f).rows.map (·.1) = t.rows.map (·.1) := by
  simp [modify, Function.comp_def]

/-- The rows after an update whose condition reads no key. -/
@[simp] theorem values_update (t : Table α) (p : α → Bool) (f : α → α) :
    (t.update (fun _ a => p a) f).values = t.values.map fun a => if p a then f a else a := by
  simp [values, update, modify, Function.comp_def]

/-- Lookup by key among rows that keep their keys. -/
theorem find?_rows {β : Type*} (rows : List (ℕ × α)) (f : ℕ → α → β) (i : ℕ) :
    ((rows.map fun r => (r.1, f r.1 r.2)).find? fun r => r.1 = i).map (·.2) =
      ((rows.find? fun r => r.1 = i).map (·.2)).map (f i) := by
  rw [List.find?_map]
  show ((rows.find? fun r => r.1 = i).map _).map _ = _
  cases hrow : rows.find? fun r => r.1 = i with
  | none => rfl
  | some r =>
      have hfound := List.find?_some hrow
      obtain rfl : r.1 = i := of_decide_eq_true hfound
      rfl

/-- Lookup by key after a rewrite. -/
theorem find?_modify (t : Table α) (f : ℕ → α → α) (i : ℕ) :
    (t.modify f).find? i = (t.find? i).map (f i) :=
  find?_rows t.rows f i

/-- The values after a rewrite that reads no key. -/
theorem values_modify (t : Table α) (g : α → α) :
    (t.modify fun _ a => g a).values = t.values.map g := by
  simp [values, modify, Function.comp_def]

/-- Lookup by key among the kept columns. -/
theorem find?_map {β : Type*} (t : Table α) (f : α → β) (i : ℕ) :
    (t.map f).find? i = (t.find? i).map f :=
  find?_rows t.rows (fun _ => f) i

/-! ## Keys determine rows -/

/-- No key occurs twice. -/
theorem nodup_keys (t : Table α) : (t.rows.map (·.1)).Nodup := by
  rw [List.Nodup, List.pairwise_map]
  exact t.sorted.imp (fun h => Nat.ne_of_lt h)

/-- A table holds one row for each key. -/
theorem eq_of_mem {t : Table α} {i : ℕ} {a b : α} (ha : (i, a) ∈ t.rows)
    (hb : (i, b) ∈ t.rows) : a = b := by
  have h := List.inj_on_of_nodup_map t.nodup_keys ha hb rfl
  exact (Prod.mk.inj h).2

/-- Lookup by key finds exactly the rows of the table. -/
theorem find?_eq_some_iff {t : Table α} {i : ℕ} {a : α} :
    t.find? i = some a ↔ (i, a) ∈ t.rows := by
  unfold find?
  rw [Option.map_eq_some_iff]
  constructor
  · rintro ⟨⟨j, b⟩, hf, rfl⟩
    have hj : j = i := by simpa using List.find?_some hf
    exact hj ▸ List.mem_of_find?_eq_some hf
  · intro h
    cases hf : t.rows.find? (fun r => r.1 = i) with
    | none =>
        have := List.find?_eq_none.mp hf _ h
        simp at this
    | some r =>
        obtain ⟨j, b⟩ := r
        have hj : j = i := by simpa using List.find?_some hf
        subst hj
        exact ⟨(j, b), rfl, eq_of_mem (List.mem_of_find?_eq_some hf) h⟩

/-- Lookup after an insert finds what was there. -/
theorem find?_insert_of_eq_some {t : Table α} {i : ℕ} {a b : α} (h : t.find? i = some a) :
    (t.insert b).find? i = some a :=
  find?_eq_some_iff.mpr (mem_rows_insert.mpr (Or.inl (find?_eq_some_iff.mp h)))

/-- A key handed out later is not a key of the table. -/
theorem notMem_of_nextId_le {t : Table α} {i : ℕ} (hi : t.nextId ≤ i) (a : α) :
    (i, a) ∉ t.rows := fun h => absurd (t.below _ h) (by simpa using hi)

/-- The next key is free. -/
theorem find?_nextId (t : Table α) : t.find? t.nextId = none := by
  rw [Option.eq_none_iff_forall_ne_some]
  intro a ha
  exact notMem_of_nextId_le le_rfl a (find?_eq_some_iff.mp ha)

/-- Lookup after an insert. -/
theorem find?_insert (t : Table α) (a : α) (i : ℕ) :
    (t.insert a).find? i = if i = t.nextId then some a else t.find? i := by
  split
  · rename_i hi
    exact find?_eq_some_iff.mpr (mem_rows_insert.mpr (Or.inr (by rw [hi])))
  · rename_i hi
    apply Option.ext
    intro b
    rw [find?_eq_some_iff, find?_eq_some_iff, mem_rows_insert]
    constructor
    · rintro (h | h)
      · exact h
      · exact absurd (Prod.mk.inj h).1 hi
    · exact Or.inl

/-- A row that is not the new one is found after an insert when it was found. -/
theorem find?_insert_of_ne {t : Table α} {a b : α} (hne : a ≠ b) (i : ℕ) :
    (t.insert b).find? i = some a ↔ t.find? i = some a := by
  rw [find?_eq_some_iff, find?_eq_some_iff, mem_rows_insert]
  constructor
  · rintro (h | h)
    · exact h
    · exact absurd (Prod.mk.inj h).2 hne
  · exact Or.inl

/-! ## Inserting a list -/

/-- The values of a table after inserts. -/
theorem values_foldl_insert (t : Table α) (l : List α) :
    (l.foldl insert t).values = t.values ++ l := by
  induction l generalizing t with
  | nil => simp
  | cons a l ih => rw [List.foldl_cons, ih, values_insert, List.append_assoc,
      List.singleton_append]

/-- The rows after inserts are the ones before and one for each inserted value. -/
theorem mem_rows_foldl_insert {t : Table α} {l : List α} {r : ℕ × α}
    (h : r ∈ (l.foldl insert t).rows) : r ∈ t.rows ∨ r.2 ∈ l := by
  induction l generalizing t with
  | nil => exact Or.inl h
  | cons a l ih =>
      rcases ih h with hrow | hrow
      · rcases mem_rows_insert.mp hrow with hrow | rfl
        · exact Or.inl hrow
        · exact Or.inr List.mem_cons_self
      · exact Or.inr (List.mem_cons_of_mem _ hrow)

/-- Every inserted value has a new row. -/
theorem exists_row_foldl_insert {t : Table α} {l : List α} {a : α} (h : a ∈ l) :
    ∃ i, (i, a) ∈ (l.foldl insert t).rows ∧ (i, a) ∉ t.rows := by
  have hkeep : ∀ (l : List α) (t : Table α), ∀ r ∈ t.rows, r ∈ (l.foldl insert t).rows := by
    intro l
    induction l with
    | nil => exact fun _ _ hr => hr
    | cons b l ih =>
        exact fun t r hr => ih (t.insert b) r (mem_rows_insert.mpr (Or.inl hr))
  induction l generalizing t with
  | nil => exact absurd h List.not_mem_nil
  | cons b l ih =>
      rcases List.mem_cons.mp h with rfl | h
      · refine ⟨t.nextId, hkeep l _ _ (mem_rows_insert.mpr (Or.inr rfl)), ?_⟩
        exact notMem_of_nextId_le le_rfl a
      · obtain ⟨i, hi, hnew⟩ := ih (t := t.insert b) h
        exact ⟨i, hi, fun hold => hnew (mem_rows_insert.mpr (Or.inl hold))⟩

/-! ## Growth -/

/-- Every row of `t` is still there under its key. -/
def Extends (t' t : Table α) : Prop := ∀ i a, t.find? i = some a → t'.find? i = some a

theorem Extends.refl (t : Table α) : t.Extends t := fun _ _ h => h

/-- A row is still there. -/
theorem Extends.mem_values {t t' : Table α} (h : t'.Extends t) {a : α} (ha : a ∈ t.values) :
    a ∈ t'.values := by
  obtain ⟨i, hi⟩ := Table.mem_values.mp ha
  exact Table.mem_values.mpr ⟨i, find?_eq_some_iff.mp (h i a (find?_eq_some_iff.mpr hi))⟩

theorem extends_insert (t : Table α) (a : α) : (t.insert a).Extends t :=
  fun _ _ h => find?_insert_of_eq_some h

end Table

/-! ## `ORDER BY` a key, `LIMIT n` -/

/-- In a list ordered by key, an element is among the first `n` exactly when fewer
than `n` elements have a smaller key. -/
theorem mem_take_iff_countP_lt {β : Type*} {key : β → ℕ} {l : List β}
    (hl : l.Pairwise (fun a b => key a < key b)) {d : β} (hd : d ∈ l) (n : ℕ) :
    d ∈ l.take n ↔ l.countP (fun r => key r < key d) < n := by
  induction l generalizing n with
  | nil => cases hd
  | cons x xs ih =>
      rw [List.pairwise_cons] at hl
      obtain ⟨hx, hxs⟩ := hl
      cases n with
      | zero => simp
      | succ n =>
          rw [List.take_succ_cons, List.mem_cons, List.countP_cons]
          rcases List.mem_cons.mp hd with rfl | hd
          · have hzero : xs.countP (fun r => key r < key d) = 0 := by
              rw [List.countP_eq_zero]
              intro r hr
              have := hx r hr
              simpa using Nat.le_of_lt this
            simp [hzero]
          · have hlt : key x < key d := hx d hd
            have hne : d ≠ x := by
              rintro rfl
              omega
            rw [ih hxs hd]
            simp only [hne, false_or, hlt, decide_true, if_true]
            omega

/-! ## Unique constraints -/

/-- Elements with one value under `f` are equal when no value occurs twice. -/
theorem eq_of_nodup_filterMap {β κ : Type*} {f : β → Option κ} {l : List β}
    (h : (l.filterMap f).Nodup) {a b : β} (ha : a ∈ l) (hb : b ∈ l) {v : κ}
    (hfa : f a = some v) (hfb : f b = some v) : a = b := by
  induction l with
  | nil => simp at ha
  | cons x l ih =>
      have htail : (l.filterMap f).Nodup := h.sublist ((List.sublist_cons_self x l).filterMap f)
      have hhead : ∀ y ∈ l, f x = some v → f y ≠ some v := by
        intro y hy hx hfy
        rw [List.filterMap_cons_some hx, List.nodup_cons] at h
        exact h.1 (List.mem_filterMap.mpr ⟨y, hy, hfy⟩)
      rcases List.mem_cons.mp ha with hax | hal <;> rcases List.mem_cons.mp hb with hbx | hbl
      · rw [hax, hbx]
      · exact absurd hfb (hhead b hbl (hax ▸ hfa))
      · exact absurd hfa (hhead a hal (hbx ▸ hfb))
      · exact ih htail hal hbl

/-- A table whose rows agree on no unique column.  `uniq` lists the constraints;
a column value of `none` (SQL `NULL`) is exempt. -/
structure UniqueTable (α : Type u) (κ : Type) (uniq : List (α → Option κ)) extends Table α where
  unique : ∀ k ∈ uniq, (toTable.values.filterMap k).Nodup

namespace UniqueTable

variable {α : Type u} {κ : Type} {uniq : List (α → Option κ)}

/-- The empty table meets every constraint. -/
def empty : UniqueTable α κ uniq := ⟨Table.empty, by simp⟩

/-- No unique column of the row is taken. -/
def Free (t : UniqueTable α κ uniq) (a : α) : Prop :=
  ∀ k ∈ uniq, ∀ v ∈ k a, v ∉ t.values.filterMap k

instance [DecidableEq κ] (t : UniqueTable α κ uniq) (a : α) : Decidable (t.Free a) :=
  inferInstanceAs (Decidable (∀ k ∈ uniq, ∀ v ∈ k a, v ∉ t.values.filterMap k))

/-- Insert a row none of whose unique columns is taken. -/
def insertFree (t : UniqueTable α κ uniq) (a : α) (h : t.Free a) : UniqueTable α κ uniq where
  toTable := t.toTable.insert a
  unique := by
    intro k hk
    rw [Table.values_insert, List.filterMap_append, List.nodup_append]
    refine ⟨t.unique k hk, ?_, ?_⟩
    · cases hka : k a <;> simp [hka]
    · intro x hx y hy
      cases hka : k a with
      | none => simp [hka] at hy
      | some v =>
          have hyv : y = v := by simpa [hka] using hy
          rintro rfl
          exact h k hk v hka (hyv ▸ hx)

/-- `INSERT`, which the database rejects when a unique constraint is violated. -/
def insert? [DecidableEq κ] (t : UniqueTable α κ uniq) (a : α) :
    Option (UniqueTable α κ uniq) :=
  if h : t.Free a then some (t.insertFree a h) else none

/-- Rewrite columns no constraint reads. -/
def modify (t : UniqueTable α κ uniq) (f : ℕ → α → α)
    (hf : ∀ k ∈ uniq, ∀ i a, k (f i a) = k a) : UniqueTable α κ uniq where
  toTable := t.toTable.modify f
  unique := by
    intro k hk
    have heq : (t.toTable.modify f).values.filterMap k = t.values.filterMap k := by
      simp only [Table.values, Table.modify, List.map_map, List.filterMap_map]
      apply List.filterMap_congr
      intro r _hr
      exact hf k hk r.1 r.2
    rw [heq]
    exact t.unique k hk

/-- `UPDATE` of columns no constraint reads. -/
def update (t : UniqueTable α κ uniq) (p : ℕ → α → Bool) (f : α → α)
    (hf : ∀ k ∈ uniq, ∀ a, k (f a) = k a) : UniqueTable α κ uniq :=
  t.modify (fun i a => if p i a then f a else a) (by
    intro k hk i a
    split
    · exact hf k hk a
    · rfl)

/-- `DELETE … WHERE …`. -/
def delete (t : UniqueTable α κ uniq) (p : ℕ → α → Bool) : UniqueTable α κ uniq where
  toTable := t.toTable.delete p
  unique := by
    intro k hk
    refine (t.unique k hk).sublist (List.Sublist.filterMap k ?_)
    exact List.filter_sublist.map _

@[simp] theorem toTable_insertFree (t : UniqueTable α κ uniq) (a : α) (h : t.Free a) :
    (t.insertFree a h).toTable = t.toTable.insert a := rfl

@[simp] theorem toTable_modify (t : UniqueTable α κ uniq) (f : ℕ → α → α)
    (hf : ∀ k ∈ uniq, ∀ i a, k (f i a) = k a) :
    (t.modify f hf).toTable = t.toTable.modify f := rfl

/-- A rewrite that leaves every row leaves the table. -/
theorem modify_eq_self {t : UniqueTable α κ uniq} {f : ℕ → α → α}
    (hf : ∀ k ∈ uniq, ∀ i a, k (f i a) = k a) (h : ∀ r ∈ t.rows, f r.1 r.2 = r.2) :
    t.modify f hf = t := by
  have htable := Table.modify_eq_self h
  obtain ⟨table, unique⟩ := t
  simp only [modify, htable]

/-- Two rewrites that agree on every row. -/
theorem modify_congr {t : UniqueTable α κ uniq} {f g : ℕ → α → α}
    (hf : ∀ k ∈ uniq, ∀ i a, k (f i a) = k a) (hg : ∀ k ∈ uniq, ∀ i a, k (g i a) = k a)
    (h : ∀ r ∈ t.rows, f r.1 r.2 = g r.1 r.2) : t.modify f hf = t.modify g hg := by
  have htable := Table.modify_congr h
  simp only [modify, htable]

@[simp] theorem toTable_update (t : UniqueTable α κ uniq) (p : ℕ → α → Bool) (f : α → α)
    (hf : ∀ k ∈ uniq, ∀ a, k (f a) = k a) : (t.update p f hf).toTable = t.toTable.update p f :=
  rfl

@[simp] theorem toTable_delete (t : UniqueTable α κ uniq) (p : ℕ → α → Bool) :
    (t.delete p).toTable = t.toTable.delete p := rfl

/-- An insert appends exactly the row, and only when its unique columns are free. -/
theorem insert?_eq_some_iff [DecidableEq κ] {t t' : UniqueTable α κ uniq} {a : α} :
    t.insert? a = some t' ↔ ∃ h : t.Free a, t' = t.insertFree a h := by
  unfold insert?
  split
  · rename_i h
    rw [Option.some.injEq]
    exact ⟨fun he => ⟨h, he.symm⟩, fun ⟨_, he⟩ => he.symm⟩
  · rename_i h
    exact ⟨fun he => by simp at he, fun ⟨h', _⟩ => absurd h' h⟩

/-- A row with free unique columns can be inserted. -/
theorem insert?_of_free [DecidableEq κ] {t : UniqueTable α κ uniq} {a : α} (h : t.Free a) :
    t.insert? a = some (t.insertFree a h) := dif_pos h

/-- Insert rows one after the other; one violation rejects them all. -/
def insertAll? [DecidableEq κ] : UniqueTable α κ uniq → List α → Option (UniqueTable α κ uniq)
  | t, [] => some t
  | t, a :: as => (t.insert? a).bind fun t' => t'.insertAll? as

/-- Inserting rows appends exactly these rows. -/
theorem values_of_insertAll? [DecidableEq κ] {t t' : UniqueTable α κ uniq} {as : List α}
    (h : t.insertAll? as = some t') : t'.values = t.values ++ as := by
  induction as generalizing t with
  | nil =>
      simp only [insertAll?, Option.some.injEq] at h
      rw [← h, List.append_nil]
  | cons a as ih =>
      simp only [insertAll?, Option.bind_eq_some_iff] at h
      obtain ⟨t₁, h₁, h⟩ := h
      obtain ⟨hfree, rfl⟩ := insert?_eq_some_iff.mp h₁
      rw [ih h, toTable_insertFree, Table.values_insert, List.append_assoc, List.singleton_append]

/-- Rows that repeat no unique value, among themselves or in the table, are all
inserted. -/
theorem exists_insertAll? [DecidableEq κ] {t : UniqueTable α κ uniq} {as : List α}
    (h : ∀ k ∈ uniq, ((t.values ++ as).filterMap k).Nodup) : ∃ t', t.insertAll? as = some t' := by
  induction as generalizing t with
  | nil => exact ⟨t, rfl⟩
  | cons a as ih =>
      have hfree : t.Free a := by
        intro k hk v hv hmem
        have hnd := h k hk
        rw [List.filterMap_append, List.nodup_append] at hnd
        refine hnd.2.2 v hmem v ?_ rfl
        rw [List.filterMap_cons_some hv]
        exact List.mem_cons_self
      obtain ⟨t', ht'⟩ := ih (t := t.insertFree a hfree) (by
        intro k hk
        rw [toTable_insertFree, Table.values_insert, List.append_assoc, List.singleton_append]
        exact h k hk)
      exact ⟨t', by rw [insertAll?, insert?_of_free hfree]; exact ht'⟩

/-- Insert a row unless one of its unique columns is taken. -/
def insertNew [DecidableEq κ] (t : UniqueTable α κ uniq) (a : α) : UniqueTable α κ uniq :=
  if h : t.Free a then t.insertFree a h else t

theorem mem_values_insertNew [DecidableEq κ] {t : UniqueTable α κ uniq} {a b : α} :
    b ∈ (t.insertNew a).values ↔ b ∈ t.values ∨ b = a ∧ t.Free a := by
  unfold insertNew
  split
  · rename_i h
    rw [toTable_insertFree, Table.values_insert, List.mem_append, List.mem_singleton]
    exact or_congr_right (iff_self_and.mpr fun _ => h)
  · rename_i h
    exact (or_iff_left fun hb => h hb.2).symm

/-- **Inserting what is new.**  A list of rows of which no two share the value of the unique
column adds exactly the rows whose value is not taken. -/
theorem mem_values_foldl_insertNew [DecidableEq κ] {k : α → κ}
    {t : UniqueTable α κ [fun a => some (k a)]} {l : List α}
    (hinj : ∀ a ∈ l, ∀ b ∈ l, k a = k b → a = b) {b : α} :
    b ∈ (l.foldl insertNew t).values ↔ b ∈ t.values ∨ b ∈ l ∧ k b ∉ t.values.map k := by
  have hfree : ∀ (t : UniqueTable α κ [fun a => some (k a)]) (a : α),
      t.Free a ↔ k a ∉ t.values.map k := by
    intro t a
    simp [Free, List.mem_filterMap]
  induction l generalizing t with
  | nil => simp
  | cons a l ih =>
      have hrest : b ∈ (l.foldl insertNew (t.insertNew a)).values ↔
          b ∈ (t.insertNew a).values ∨ b ∈ l ∧ k b ∉ (t.insertNew a).values.map k :=
        ih fun x hx y hy => hinj x (List.mem_cons_of_mem _ hx) y (List.mem_cons_of_mem _ hy)
      have hkeys : ∀ x, x ∈ (t.insertNew a).values.map k ↔ x ∈ t.values.map k ∨ x = k a := by
        intro x
        simp only [List.mem_map, mem_values_insertNew, hfree]
        constructor
        · rintro ⟨y, hy | ⟨rfl, -⟩, rfl⟩
          · exact Or.inl ⟨y, hy, rfl⟩
          · exact Or.inr rfl
        · rintro (⟨y, hy, rfl⟩ | rfl)
          · exact ⟨y, Or.inl hy, rfl⟩
          · by_cases htaken : ∃ y ∈ t.values, k y = k a
            · obtain ⟨y, hy, heq⟩ := htaken
              exact ⟨y, Or.inl hy, heq⟩
            · exact ⟨a, Or.inr ⟨rfl, by simpa using htaken⟩, rfl⟩
      rw [List.foldl_cons, hrest, mem_values_insertNew, hfree, hkeys, List.mem_cons]
      constructor
      · rintro ((hb | ⟨rfl, hnew⟩) | ⟨hb, hnew⟩)
        · exact Or.inl hb
        · exact Or.inr ⟨Or.inl rfl, hnew⟩
        · exact Or.inr ⟨Or.inr hb, fun h => hnew (Or.inl h)⟩
      · rintro (hb | ⟨rfl | hb, hnew⟩)
        · exact Or.inl (Or.inl hb)
        · exact Or.inl (Or.inr ⟨rfl, hnew⟩)
        · by_cases heq : b = a
          · exact Or.inl (Or.inr ⟨heq, heq ▸ hnew⟩)
          · refine Or.inr ⟨hb, fun h => ?_⟩
            rcases h with h | h
            · exact hnew h
            · exact heq (hinj b (List.mem_cons_of_mem _ hb) a List.mem_cons_self h)

/-- At most one row has a value of the unique column. -/
theorem countP_le_one [DecidableEq κ] {k : α → κ} (t : UniqueTable α κ [fun a => some (k a)])
    (v : κ) : t.values.countP (k · = v) ≤ 1 := by
  have hnodup : (t.values.map k).Nodup := by
    have hunique := t.unique (fun a => some (k a)) List.mem_cons_self
    rwa [List.filterMap_eq_map'] at hunique
  have hcount : t.values.countP (k · = v) = (t.values.map k).count v := by
    rw [List.count, List.countP_map]
    apply List.countP_congr
    intro a _
    simp
  rw [hcount]
  exact List.nodup_iff_count_le_one.mp hnodup v

/-- Two rows that share the value of a unique column are one row. -/
theorem eq_of_unique {t : UniqueTable α κ uniq} {k : α → Option κ} (hk : k ∈ uniq)
    {r r' : ℕ × α} (hr : r ∈ t.rows) (hr' : r' ∈ t.rows) {v : κ} (hv : k r.2 = some v)
    (hv' : k r'.2 = some v) : r = r' := by
  have hnd := t.unique k hk
  rw [Table.values, List.filterMap_map] at hnd
  exact eq_of_nodup_filterMap hnd hr hr' hv hv'

end UniqueTable
