/-
# A counter kept by reading, adding and writing

Sessions read a counter and later write what they have read with an amount added; what is counted
grows by the amount with each write.  Between the read and the write of a session other sessions
write, and their writes are lost with it.

* `Counter.Valid` : what holds of a counter in any interleaving;
* `Counter.behind_store_iff` : **a write puts the counter behind exactly when another session has
  read and not written yet**;
* `Counter.value_eq_total_iff` : at rest, the counter is right when it is not behind.
-/
import Mathlib

universe u

variable {ι : Type u}

/-- A counter, what it counts, and what each session has read and not written yet. -/
@[ext] structure Counter (ι : Type u) where
  value : ℕ
  total : ℕ
  read : ι → Option ℕ

namespace Counter

/-! ## Operations -/

variable [DecidableEq ι]

/-- A session reads the counter. -/
def load (c : Counter ι) (i : ι) : Counter ι :=
  { c with read := Function.update c.read i (some c.value) }

/-- A session writes what it has read and `d` more. -/
def store (c : Counter ι) (i : ι) (r d : ℕ) : Counter ι where
  value := r + d
  total := c.total + d
  read := Function.update c.read i none

/-- A session ends without a write. -/
def drop (c : Counter ι) (i : ι) : Counter ι := { c with read := Function.update c.read i none }

/-- A session other than the one that was updated, with what it has read. -/
theorem ne_of_update_none {read : ι → Option ℕ} {i j : ι} {r : ℕ}
    (h : Function.update read i none j = some r) : j ≠ i ∧ read j = some r := by
  by_cases hij : j = i
  · rw [hij, Function.update_self] at h
    cases h
  · rw [Function.update_of_ne hij] at h
    exact ⟨hij, h⟩

/-- What the sessions have read after one more has. -/
theorem load_read_eq_some_iff {c : Counter ι} {i : ι} (hnone : c.read i = none) {j : ι} {r : ℕ} :
    (c.load i).read j = some r ↔ j = i ∧ r = c.value ∨ c.read j = some r := by
  show Function.update c.read i (some c.value) j = some r ↔ _
  by_cases hij : j = i
  · rw [hij, Function.update_self, hnone, Option.some_inj]
    exact ⟨fun h => Or.inl ⟨rfl, h.symm⟩, fun h => by simpa [eq_comm] using h⟩
  · rw [Function.update_of_ne hij]
    exact ⟨Or.inr, fun h => h.resolve_left fun hi => hij hi.1⟩

omit [DecidableEq ι]

/-! ## The invariant -/

/-- The counter does not exceed what it counts, and what a session has read is the counter or less
than what is counted. -/
structure Valid (c : Counter ι) : Prop where
  value_le : c.value ≤ c.total
  read_le : ∀ i r, c.read i = some r → r = c.value ∨ r < c.total

/-- The counter is below what it counts, or will be when some session writes. -/
def Behind (c : Counter ι) : Prop := c.value < c.total ∨ ∃ i r, c.read i = some r ∧ r < c.total

/-- **A counter at rest** is right when it is not behind. -/
theorem value_eq_total_iff {c : Counter ι} (h : c.Valid) (hrest : ∀ i, c.read i = none) :
    c.value = c.total ↔ ¬ c.Behind := by
  constructor
  · rintro heq (hlt | ⟨i, r, hread, -⟩)
    · exact absurd heq hlt.ne
    · rw [hrest i] at hread
      cases hread
  · intro hnot
    exact le_antisymm h.value_le (not_lt.mp fun hlt => hnot (Or.inl hlt))

variable [DecidableEq ι] {c : Counter ι} {i : ι} {r d : ℕ}

/-! ## Reading -/

theorem Valid.load (h : c.Valid) (hnone : c.read i = none) : (c.load i).Valid where
  value_le := h.value_le
  read_le j r hread := by
    rcases (load_read_eq_some_iff hnone).mp hread with ⟨-, rfl⟩ | hread
    · exact Or.inl rfl
    · exact h.read_le j r hread

/-- Reading puts no counter behind. -/
theorem behind_load_iff (hnone : c.read i = none) : (c.load i).Behind ↔ c.Behind := by
  constructor
  · rintro (hlt | ⟨j, r, hread, hlt⟩)
    · exact Or.inl hlt
    · rcases (load_read_eq_some_iff hnone).mp hread with ⟨-, rfl⟩ | hread
      · exact Or.inl hlt
      · exact Or.inr ⟨j, r, hread, hlt⟩
  · rintro (hlt | ⟨j, r, hread, hlt⟩)
    · exact Or.inl hlt
    · exact Or.inr ⟨j, r, (load_read_eq_some_iff hnone).mpr (Or.inr hread), hlt⟩

/-! ## Writing -/

theorem Valid.store (h : c.Valid) (hr : c.read i = some r) (hd : 0 < d) :
    (c.store i r d).Valid where
  value_le := by
    have hle := h.value_le
    show r + d ≤ c.total + d
    rcases h.read_le i r hr with heq | hlt
    · omega
    · omega
  read_le j r' hread := by
    have hle := h.value_le
    refine Or.inr ?_
    show r' < c.total + d
    rcases h.read_le j r' (ne_of_update_none hread).2 with heq | hlt
    · omega
    · omega

/-- **A write** puts the counter behind exactly when another session has read and not written
yet. -/
theorem behind_store_iff (h : c.Valid) (hr : c.read i = some r) (hd : 0 < d) :
    (c.store i r d).Behind ↔ c.Behind ∨ ∃ j, j ≠ i ∧ (c.read j).isSome := by
  have hle := h.value_le
  constructor
  · rintro (hlt | ⟨j, r', hread, -⟩)
    · exact Or.inl (Or.inr ⟨i, r, hr, Nat.lt_of_add_lt_add_right hlt⟩)
    · obtain ⟨hne, hold⟩ := ne_of_update_none hread
      exact Or.inr ⟨j, hne, Option.isSome_of_mem hold⟩
  · have hread : ∀ r', c.read i = some r' → r' < c.total → (c.store i r d).Behind := by
      intro r' hr' hlt
      rw [hr, Option.some_inj] at hr'
      subst hr'
      exact Or.inl (Nat.add_lt_add_right hlt d)
    -- a session that has read before this write is behind after it
    have hother : ∀ j r', j ≠ i → c.read j = some r' → (c.store i r d).Behind := by
      intro j r' hne hj
      refine Or.inr ⟨j, r', (Function.update_of_ne hne ..).trans hj, ?_⟩
      show r' < c.total + d
      rcases h.read_le j r' hj with heq | hlt
      · omega
      · omega
    rintro ((hlt | ⟨j, r', hj, hlt⟩) | ⟨j, hne, hsome⟩)
    · rcases h.read_le i r hr with heq | hlt'
      · exact Or.inl (Nat.add_lt_add_right (heq ▸ hlt) d)
      · exact hread r hr hlt'
    · by_cases hij : j = i
      · exact hread r' (hij ▸ hj) hlt
      · exact hother j r' hij hj
    · obtain ⟨r', hj⟩ := Option.isSome_iff_exists.mp hsome
      exact hother j r' hne hj

/-! ## Ending -/

theorem Valid.drop (h : c.Valid) : (c.drop i).Valid where
  value_le := h.value_le
  read_le j r hread := h.read_le j r (ne_of_update_none hread).2

end Counter
