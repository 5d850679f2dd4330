/-
# Relational databases with referential actions

A database gives every table name a table of rows, a row gives every column a value.  A
`Schema` lists the foreign keys with their `ON DELETE` action; that cascades form no cycle,
and that no cascading column can be set to null, are fields of it.

* `Schema.Doomed` : the rows that a `DELETE` takes, as the least set closed under cascades;
* `Schema.delete` : the `DELETE` statement, computed along the depth of the schema;
* `Schema.mem_delete` : **what a `DELETE` leaves**;
* `Schema.Kept` : what a sequence of statements leaves, with one rule for each statement
  (`Kept.setNull`, `Kept.delete`) and one for sequences (`Kept.foldl`): the statements take
  what one `DELETE` of all their rows would take.
-/
import ProcureSignal.Library.Table

universe u

namespace Relational

/-- The value of a column. -/
inductive Value
  | null
  | num (n : ℕ)
  | time (t : ℤ)
  | text (s : String)
  deriving DecidableEq, Repr

/-- A row, without its primary key. -/
abbrev Row := String → Value

/-- The tables of a database. -/
abbrev Database (T : Type u) := T → Table Row

/-- `ON DELETE`. -/
inductive OnDelete
  | cascade
  | setNull
  deriving DecidableEq, Repr

/-- A foreign key: a column of the child that holds primary keys of the parent. -/
structure ForeignKey (T : Type u) where
  child : T
  column : String
  parent : T
  onDelete : OnDelete
  deriving DecidableEq, Repr

/-- The columns that a `DELETE` elsewhere may set to null. -/
def Nullable {T : Type u} (foreignKeys : List (ForeignKey T)) (t : T) (c : String) : Prop :=
  ∃ fk ∈ foreignKeys, fk.onDelete = .setNull ∧ fk.child = t ∧ fk.column = c

instance {T : Type u} [DecidableEq T] (foreignKeys : List (ForeignKey T)) (t : T) (c : String) :
    Decidable (Nullable foreignKeys t c) :=
  inferInstanceAs (Decidable (∃ fk ∈ foreignKeys,
    fk.onDelete = .setNull ∧ fk.child = t ∧ fk.column = c))

/-- The foreign keys of a database.  Cascades lead to tables of higher rank. -/
structure Schema (T : Type u) where
  foreignKeys : List (ForeignKey T)
  rank : T → ℕ
  depth : ℕ
  rank_lt : ∀ t, rank t < depth
  acyclic : ∀ fk ∈ foreignKeys, fk.onDelete = .cascade → rank fk.parent < rank fk.child
  separate : ∀ fk ∈ foreignKeys, fk.onDelete = .cascade →
    ∀ fk' ∈ foreignKeys, fk'.onDelete = .setNull →
      ¬(fk'.child = fk.child ∧ fk'.column = fk.column)

namespace Schema

variable {T : Type u} (S : Schema T)

/-! ## The rows that a statement takes -/

/-- The rows that a `DELETE` of the rows in `p` takes: these, and the children of rows that
it takes, along cascading foreign keys. -/
inductive Doomed (db : Database T) (p : T → ℕ → Row → Prop) : T → ℕ → Prop
  | matched {t : T} {i : ℕ} {r : Row} : (i, r) ∈ (db t).rows → p t i r → Doomed db p t i
  | cascade {fk : ForeignKey T} {i j : ℕ} {r : Row} : fk ∈ S.foreignKeys →
      fk.onDelete = .cascade → (i, r) ∈ (db fk.child).rows → r fk.column = .num j →
      Doomed db p fk.parent j → Doomed db p fk.child i

variable [DecidableEq T]

/-- The value refers to a row that the predicate holds of. -/
def refers (v : Value) (doomed : ℕ → Bool) : Bool :=
  match v with
  | .num j => doomed j
  | _ => false

/-- Whether a `DELETE` takes a row, up to a number of cascades. -/
def doomed (db : Database T) (p : T → ℕ → Row → Bool) : ℕ → T → ℕ → Bool
  | 0, _, _ => false
  | n + 1, t, i =>
      match (db t).find? i with
      | none => false
      | some r => p t i r || S.foreignKeys.any fun fk =>
          fk.child = t && fk.onDelete = .cascade && refers (r fk.column) (doomed db p n fk.parent)

/-- The row with the references to taken rows set to null. -/
def nulled (db : Database T) (p : T → ℕ → Row → Bool) (t : T) (r : Row) : Row := fun c =>
  if S.foreignKeys.any fun fk => fk.child = t && fk.column = c && fk.onDelete = .setNull &&
    refers (r c) (S.doomed db p S.depth fk.parent) then .null else r c

/-- `DELETE` of the rows in `p`, with the actions of the foreign keys. -/
def delete (db : Database T) (p : T → ℕ → Row → Bool) : Database T := fun t =>
  ((db t).delete fun i _ => S.doomed db p S.depth t i).modify fun _ r => S.nulled db p t r

end Schema

/-- `UPDATE t SET c = NULL WHERE c = v`. -/
def setNull {T : Type u} [DecidableEq T] (db : Database T) (t : T) (c : String) (v : Value) :
    Database T := fun t' =>
  (db t').modify fun _ r c' => if t' = t ∧ c' = c ∧ r c = v then .null else r c'

/-- `INSERT`. -/
def insertInto {T : Type u} [DecidableEq T] (db : Database T) (t : T) (r : Row) : Database T :=
  fun t' => if t' = t then (db t').insert r else db t'

/-- The rows after an `INSERT`. -/
theorem mem_insertInto {T : Type u} [DecidableEq T] {db : Database T} {t t' : T} {r : Row}
    {x : ℕ × Row} : x ∈ (insertInto db t r t').rows ↔
      x ∈ (db t').rows ∨ t' = t ∧ x = ((db t).nextId, r) := by
  rw [insertInto]
  split_ifs with ht
  · subst ht
    rw [Table.mem_rows_insert]
    exact or_congr_right (by simp)
  · exact ⟨Or.inl, fun hor => hor.resolve_right fun hnew => ht hnew.1⟩

namespace Schema

variable {T : Type u} {S : Schema T} {db db' : Database T} {p q : T → ℕ → Row → Prop}

/-- Where nothing is matched nothing is taken. -/
theorem not_doomed_of_forall (h : ∀ t i r, ¬p t i r) (t : T) (i : ℕ) : ¬S.Doomed db p t i := by
  intro hd
  induction hd with
  | matched _ hp => exact h _ _ _ hp
  | cascade _ _ _ _ _ ih => exact ih

/-- A taken row is a row. -/
theorem Doomed.exists_row {t : T} {i : ℕ} (h : S.Doomed db p t i) : ∃ r, (i, r) ∈ (db t).rows := by
  cases h with
  | matched hrow _ => exact ⟨_, hrow⟩
  | cascade _ _ hrow _ _ => exact ⟨_, hrow⟩

/-- More matched rows take more rows. -/
theorem Doomed.mono {t : T} {i : ℕ} (h : S.Doomed db p t i) (hpq : ∀ t i r, p t i r → q t i r) :
    S.Doomed db q t i := by
  induction h with
  | matched hrow hp => exact .matched hrow (hpq _ _ _ hp)
  | cascade hfk haction hrow href _ ih => exact .cascade hfk haction hrow href ih

variable [DecidableEq T]

/-- A reference that holds. -/
theorem refers_iff {v : Value} {f : ℕ → Bool} : refers v f = true ↔ ∃ j, v = .num j ∧ f j = true := by
  cases v with
  | num n => exact ⟨fun h => ⟨n, rfl, h⟩, fun ⟨j, hj, hf⟩ => by cases hj; exact hf⟩
  | null | time _ | text _ => exact iff_of_false Bool.false_ne_true fun ⟨_, hj, _⟩ => by cases hj

section Computed

variable {p q : T → ℕ → Row → Bool} {t : T} {i : ℕ}

/-- What is computed as taken is taken. -/
theorem Doomed.of_doomed (n : ℕ) (h : S.doomed db p n t i = true) :
    S.Doomed db (fun t i r => p t i r = true) t i := by
  induction n generalizing t i with
  | zero => cases h
  | succ n ih =>
      rw [doomed] at h
      split at h
      · cases h
      · rename_i r hrow
        have hrow := Table.find?_eq_some_iff.mp hrow
        rcases Bool.or_eq_true_iff.mp h with hp | hcascade
        · exact .matched hrow hp
        · obtain ⟨fk, hfk, hall⟩ := List.any_eq_true.mp hcascade
          rw [Bool.and_eq_true, Bool.and_eq_true, decide_eq_true_eq, decide_eq_true_eq,
            refers_iff] at hall
          obtain ⟨⟨rfl, haction⟩, j, href, hparent⟩ := hall
          exact .cascade hfk haction hrow href (ih hparent)

/-- What is taken is computed as taken, once the cascades are followed far enough. -/
theorem Doomed.doomed (h : S.Doomed db (fun t i r => p t i r = true) t i) :
    ∀ n, S.rank t < n → S.doomed db p n t i = true := by
  induction h with
  | matched hrow hp =>
      rintro (_ | n) hn
      · exact absurd hn (Nat.not_lt_zero _)
      · rw [Schema.doomed, Table.find?_eq_some_iff.mpr hrow]
        exact Bool.or_eq_true_iff.mpr (Or.inl hp)
  | cascade hfk haction hrow href _ ih =>
      rintro (_ | n) hn
      · exact absurd hn (Nat.not_lt_zero _)
      · rw [Schema.doomed, Table.find?_eq_some_iff.mpr hrow]
        refine Bool.or_eq_true_iff.mpr (Or.inr (List.any_eq_true.mpr ⟨_, hfk, ?_⟩))
        rw [Bool.and_eq_true, Bool.and_eq_true, decide_eq_true_eq, decide_eq_true_eq, refers_iff]
        have hrank := S.acyclic _ hfk haction
        exact ⟨⟨rfl, haction⟩, _, href, ih n (by omega)⟩

/-- **The computed deletion is the closure under cascades.** -/
theorem doomed_iff (t : T) (i : ℕ) :
    S.doomed db p S.depth t i = true ↔ S.Doomed db (fun t i r => p t i r = true) t i :=
  ⟨Doomed.of_doomed S.depth, fun h => h.doomed S.depth (S.rank_lt t)⟩

/-- **What a `DELETE` leaves**: the rows that it does not take, with the references to taken
rows set to null where the foreign key says so. -/
theorem mem_delete {r : Row} : (i, r) ∈ (S.delete db p t).rows ↔
    ∃ r₀, (i, r₀) ∈ (db t).rows ∧ ¬S.Doomed db (fun t i r => p t i r = true) t i ∧
      r = S.nulled db p t r₀ := by
  rw [delete, Table.mem_rows_modify]
  constructor
  · rintro ⟨r₀, hmem, hr⟩
    obtain ⟨hrow, hdoomed⟩ := Table.mem_rows_delete.mp hmem
    refine ⟨r₀, hrow, fun hd => ?_, hr⟩
    rw [(doomed_iff t i).mpr hd] at hdoomed
    cases hdoomed
  · rintro ⟨r₀, hrow, hnot, hr⟩
    exact ⟨r₀, Table.mem_rows_delete.mpr
      ⟨hrow, Bool.eq_false_of_not_eq_true (mt (doomed_iff t i).mp hnot)⟩, hr⟩

/-- After a `DELETE` nothing refers to a row that it took. -/
theorem not_refers_of_mem_delete {fk : ForeignKey T} {r : Row} {j : ℕ}
    (hfk : fk ∈ S.foreignKeys) (hr : (i, r) ∈ (S.delete db p fk.child).rows)
    (hparent : S.Doomed db (fun t i r => p t i r = true) fk.parent j) :
    r fk.column ≠ .num j := by
  intro href
  obtain ⟨r₀, hrow, hnot, rfl⟩ := mem_delete.mp hr
  rw [nulled] at href
  split_ifs at href with hany
  cases haction : fk.onDelete with
  | cascade => exact hnot (.cascade hfk haction hrow href hparent)
  | setNull =>
      refine hany (List.any_eq_true.mpr ⟨fk, hfk, ?_⟩)
      rw [haction, href, decide_eq_true rfl, decide_eq_true rfl, decide_eq_true rfl]
      exact (doomed_iff fk.parent j).mpr hparent

/-- A `DELETE` that matches no row. -/
theorem delete_eq_self (h : ∀ t i r, (i, r) ∈ (db t).rows → p t i r = false) :
    S.delete db p = db := by
  have hdoomed : ∀ t i, S.doomed db p S.depth t i = false := by
    intro t i
    refine Bool.eq_false_of_not_eq_true fun hd => ?_
    have hd := (doomed_iff t i).mp hd
    induction hd with
    | matched hrow hp => exact Bool.false_ne_true ((h _ _ _ hrow).symm.trans hp)
    | cascade _ _ _ _ hparent ih => exact ih ((doomed_iff _ _).mpr hparent)
  have hnulled : ∀ t r, S.nulled db p t r = r := by
    intro t r
    funext c
    refine if_neg fun hany => ?_
    obtain ⟨fk, -, hall⟩ := List.any_eq_true.mp hany
    rw [Bool.and_eq_true, refers_iff] at hall
    obtain ⟨-, j, -, hj⟩ := hall
    exact Bool.false_ne_true ((hdoomed fk.parent j).symm.trans hj)
  funext t
  simp [delete, Table.delete, Table.modify, hdoomed, hnulled]

end Computed

end Schema

/-! ## Sequences of statements -/

/-- The second row is the first one, but for references in nullable columns that were set to
null. -/
def Nulls {T : Type u} (S : Schema T) (t : T) (r r' : Row) : Prop :=
  ∀ c, r' c = r c ∨ r' c = .null ∧ Nullable S.foreignKeys t c ∧ ∃ j, r c = .num j

/-- The predicate reads no reference that can be set to null. -/
def Stable {T : Type u} (S : Schema T) (p : T → ℕ → Row → Prop) : Prop :=
  ∀ t i r r', Nulls S t r r' → (p t i r' ↔ p t i r)

section Nulls

variable {T : Type u} {S : Schema T} {t : T} {r r' r'' : Row}

theorem Nulls.refl (S : Schema T) (t : T) (r : Row) : Nulls S t r r := fun _ => Or.inl rfl

theorem Nulls.trans (h : Nulls S t r r') (h' : Nulls S t r' r'') : Nulls S t r r'' := by
  intro c
  rcases h' c with heq | ⟨hnull, hnullable, j, hj⟩
  · rw [heq]
    exact h c
  · rcases h c with heq | ⟨hnull', -, -⟩
    · exact Or.inr ⟨hnull, hnullable, j, heq ▸ hj⟩
    · rw [hnull'] at hj
      cases hj

/-- A column that cannot be set to null. -/
theorem Nulls.eq_of_not_nullable (h : Nulls S t r r') {c : String}
    (hc : ¬Nullable S.foreignKeys t c) : r' c = r c :=
  (h c).resolve_right fun hnull => hc hnull.2.1

/-- A text stays, and none appears. -/
theorem Nulls.text_iff (h : Nulls S t r r') (c : String) (s : String) :
    r' c = .text s ↔ r c = .text s := by
  rcases h c with heq | ⟨hnull, -, j, hj⟩
  · rw [heq]
  · rw [hnull, hj]
    exact iff_of_false nofun nofun

/-- A `DELETE` sets references in nullable columns to null and nothing else. -/
theorem nulls_nulled [DecidableEq T] (db : Database T) (p : T → ℕ → Row → Bool) (t : T)
    (r : Row) : Nulls S t r (S.nulled db p t r) := by
  intro c
  rw [Schema.nulled]
  split_ifs with hany
  · obtain ⟨fk, hfk, hall⟩ := List.any_eq_true.mp hany
    rw [Bool.and_eq_true, Bool.and_eq_true, Bool.and_eq_true, decide_eq_true_eq,
      decide_eq_true_eq, decide_eq_true_eq, Schema.refers_iff] at hall
    obtain ⟨⟨⟨hchild, hcolumn⟩, haction⟩, j, hj, -⟩ := hall
    exact Or.inr ⟨rfl, ⟨fk, hfk, haction, hchild, hcolumn⟩, j, hj⟩
  · exact Or.inl rfl

end Nulls

/-- The second database is the first one after statements that matched the rows in `P`: what a
`DELETE` of these rows takes is gone, and the other rows are there, but for references that
were set to null. -/
structure Kept {T : Type u} (S : Schema T) (db : Database T) (P : T → ℕ → Row → Prop)
    (db' : Database T) : Prop where
  of_mem : ∀ {t i r'}, (i, r') ∈ (db' t).rows →
    ∃ r, (i, r) ∈ (db t).rows ∧ ¬S.Doomed db P t i ∧ Nulls S t r r'
  to_mem : ∀ {t i r}, (i, r) ∈ (db t).rows → ¬S.Doomed db P t i →
    ∃ r', (i, r') ∈ (db' t).rows ∧ Nulls S t r r'

namespace Kept

variable {T : Type u} {S : Schema T} {db db' : Database T} {P : T → ℕ → Row → Prop}

/-- Before any statement. -/
theorem refl (S : Schema T) (db : Database T) : Kept S db (fun _ _ _ => False) db :=
  ⟨fun h => ⟨_, h, Schema.not_doomed_of_forall (fun _ _ _ => id) _ _, .refl S _ _⟩,
    fun h _ => ⟨_, h, .refl S _ _⟩⟩

/-- The matched rows may be described otherwise. -/
theorem congr (h : Kept S db P db') {Q : T → ℕ → Row → Prop}
    (hPQ : ∀ t i r, P t i r ↔ Q t i r) : Kept S db Q db' := by
  obtain rfl : P = Q := by
    funext t i r
    exact propext (hPQ t i r)
  exact h

/-- A row is gone exactly when the statements took it. -/
theorem exists_row_iff (h : Kept S db P db') {t : T} {i : ℕ} {r : Row}
    (hr : (i, r) ∈ (db t).rows) : (∃ r', (i, r') ∈ (db' t).rows) ↔ ¬S.Doomed db P t i := by
  constructor
  · rintro ⟨r', hr'⟩
    obtain ⟨-, -, hnot, -⟩ := h.of_mem hr'
    exact hnot
  · intro hnot
    obtain ⟨r', hr', -⟩ := h.to_mem hr hnot
    exact ⟨r', hr'⟩

/-- **Statements take what one `DELETE` takes.**  A further `DELETE` takes what is left of the
closure of all matched rows. -/
theorem doomed_iff (h : Kept S db P db') {p : T → ℕ → Row → Prop} (hp : Stable S p) (t : T)
    (i : ℕ) : S.Doomed db (fun t i r => P t i r ∨ p t i r) t i ↔
      S.Doomed db P t i ∨ S.Doomed db' p t i := by
  have hfixed : ∀ {fk : ForeignKey T}, fk ∈ S.foreignKeys → fk.onDelete = .cascade →
      ¬Nullable S.foreignKeys fk.child fk.column := by
    rintro fk hfk haction ⟨fk', hfk', haction', hsame⟩
    exact S.separate fk hfk haction fk' hfk' haction' hsame
  constructor
  · intro hd
    induction hd with
    | @matched t i r hrow hmatch =>
        by_cases hold : S.Doomed db P t i
        · exact Or.inl hold
        · obtain ⟨r', hr', hn⟩ := h.to_mem hrow hold
          rcases hmatch with hP | hq
          · exact Or.inl (.matched hrow hP)
          · exact Or.inr (.matched hr' ((hp t i r r' hn).mpr hq))
    | @cascade fk i j r hfk haction hrow href _ ih =>
        by_cases hold : S.Doomed db P fk.child i
        · exact Or.inl hold
        · obtain ⟨r', hr', hn⟩ := h.to_mem hrow hold
          rcases ih with hparent | hparent
          · exact Or.inl (.cascade hfk haction hrow href hparent)
          · refine Or.inr (.cascade hfk haction hr' ?_ hparent)
            rw [hn.eq_of_not_nullable (hfixed hfk haction)]
            exact href
  · rintro (hd | hd)
    · exact hd.mono fun _ _ _ => Or.inl
    · induction hd with
      | @matched t i r' hrow hmatch =>
          obtain ⟨r, hr, -, hn⟩ := h.of_mem hrow
          exact .matched hr (Or.inr ((hp t i r r' hn).mp hmatch))
      | @cascade fk i j r' hfk haction hrow href _ ih =>
          obtain ⟨r, hr, -, hn⟩ := h.of_mem hrow
          rw [hn.eq_of_not_nullable (hfixed hfk haction)] at href
          exact .cascade hfk haction hr href ih

/-- A sequence of statements, each of which adds the rows that it matches. -/
theorem foldl {σ ι : Type*} (store : σ → Database T) {f : σ → ι → σ}
    (Q : ι → T → ℕ → Row → Prop) (l : List ι)
    (hstep : ∀ x ∈ l, ∀ (P : T → ℕ → Row → Prop) (s : σ), Kept S db P (store s) →
      Kept S db (fun t i r => P t i r ∨ Q x t i r) (store (f s x)))
    {s : σ} (h : Kept S db P (store s)) :
    Kept S db (fun t i r => P t i r ∨ ∃ x ∈ l, Q x t i r) (store (l.foldl f s)) := by
  induction l generalizing P s with
  | nil => exact h.congr fun t i r => ⟨Or.inl, fun hor => hor.resolve_right (by simp)⟩
  | cons x l ih =>
      rw [List.foldl_cons]
      refine (ih (fun y hy => hstep y (List.mem_cons_of_mem _ hy))
        (hstep x List.mem_cons_self P s h)).congr fun t i r => ?_
      simp only [List.mem_cons, exists_eq_or_imp, or_assoc]

variable [DecidableEq T]

/-- `UPDATE … SET c = NULL` in a nullable column. -/
theorem setNull (h : Kept S db P db') {t : T} {c : String} (j : ℕ)
    (hc : Nullable S.foreignKeys t c) : Kept S db P (setNull db' t c (.num j)) := by
  have hnulls : ∀ (t' : T) (r : Row), Nulls S t' r
      (fun c' => if t' = t ∧ c' = c ∧ r c = .num j then .null else r c') := by
    intro t' r c'
    dsimp only
    split_ifs with hif
    · obtain ⟨rfl, rfl, hj⟩ := hif
      exact Or.inr ⟨rfl, hc, j, hj⟩
    · exact Or.inl rfl
  constructor
  · intro t' i r' hr'
    obtain ⟨r, hr, rfl⟩ := Table.mem_rows_modify.mp hr'
    obtain ⟨r₀, hr₀, hnot, hn⟩ := h.of_mem hr
    exact ⟨r₀, hr₀, hnot, hn.trans (hnulls t' r)⟩
  · intro t' i r hr hnot
    obtain ⟨r', hr', hn⟩ := h.to_mem hr hnot
    exact ⟨_, Table.mem_rows_modify.mpr ⟨r', hr', rfl⟩, hn.trans (hnulls t' r')⟩

/-- `DELETE`. -/
theorem delete (h : Kept S db P db') {p : T → ℕ → Row → Bool}
    (hp : Stable S fun t i r => p t i r = true) :
    Kept S db (fun t i r => P t i r ∨ p t i r = true) (S.delete db' p) := by
  constructor
  · intro t i r' hr'
    obtain ⟨r₁, hr₁, hnot₁, rfl⟩ := Schema.mem_delete.mp hr'
    obtain ⟨r, hr, hnot, hn⟩ := h.of_mem hr₁
    refine ⟨r, hr, fun hd => ?_, hn.trans (nulls_nulled db' p t r₁)⟩
    exact ((h.doomed_iff hp t i).mp hd).elim hnot hnot₁
  · intro t i r hr hnot
    obtain ⟨r₁, hr₁, hn⟩ := h.to_mem hr fun hd => hnot ((h.doomed_iff hp t i).mpr (Or.inl hd))
    refine ⟨_, Schema.mem_delete.mpr ⟨r₁, hr₁, fun hd => ?_, rfl⟩,
      hn.trans (nulls_nulled db' p t r₁)⟩
    exact hnot ((h.doomed_iff hp t i).mpr (Or.inr hd))

end Kept

end Relational
