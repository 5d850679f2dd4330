/-
# Consecutive periods

Instants in increasing order are the ends of consecutive periods.  Where a period has both of its
ends, the ends between two periods are in both.

* `periods` : the periods between the instants of a list;
* `countP_periods` : **how many closed periods have an instant**.
-/
import Mathlib

universe u

variable {α : Type u}

/-- The periods between the instants of a list. -/
def periods (instants : List α) : List (α × α) := instants.zip instants.tail

theorem periods_cons (t₀ t₁ : α) (ts : List α) :
    periods (t₀ :: t₁ :: ts) = (t₀, t₁) :: periods (t₁ :: ts) := rfl

variable [LinearOrder α]

/-- The periods of increasing instants begin at the first of them or later. -/
theorem le_fst_of_mem_periods {t : α} {ts : List α} (hsorted : (t :: ts).Pairwise (· < ·))
    {p : α × α} (hp : p ∈ periods (t :: ts)) : t ≤ p.1 := by
  have hmem : p.1 ∈ t :: ts := (List.of_mem_zip hp).1
  rcases List.mem_cons.mp hmem with heq | hmem
  · rw [heq]
  · exact le_of_lt ((List.pairwise_cons.mp hsorted).1 _ hmem)

/-- **How many closed periods have an instant**: one, and one more where it is an end between two
of them. -/
theorem countP_periods {t : α} {ts : List α} (hne : ts ≠ [])
    (hsorted : (t :: ts).Pairwise (· < ·)) {x : α} (hfirst : t ≤ x)
    (hlast : x ≤ ts.getLast hne) :
    (periods (t :: ts)).countP (fun p => p.1 ≤ x ∧ x ≤ p.2) = 1 + ts.dropLast.count x := by
  induction ts generalizing t with
  | nil => exact absurd rfl hne
  | cons t₁ ts ih =>
      obtain ⟨-, hrest⟩ := List.pairwise_cons.mp hsorted
      rw [periods_cons, List.countP_cons]
      cases ts with
      | nil =>
          have hend : x ≤ t₁ := hlast
          simp [periods, hfirst, hend]
      | cons t₂ ts =>
          rw [List.dropLast_cons_cons, List.count_cons]
          rcases lt_or_ge x t₁ with hlt | hge
          · -- in front of the first boundary only the first period has the instant
            have hzero : (periods (t₁ :: t₂ :: ts)).countP (fun p => p.1 ≤ x ∧ x ≤ p.2) = 0 := by
              rw [List.countP_eq_zero]
              intro p hp hin
              have hle := le_fst_of_mem_periods hrest hp
              exact absurd (of_decide_eq_true hin).1 (not_le.mpr (lt_of_lt_of_le hlt hle))
            have hcount : (t₂ :: ts).dropLast.count x = 0 := by
              rw [List.count_eq_zero]
              intro hmem
              have hlater := (List.pairwise_cons.mp hrest).1 x (List.mem_of_mem_dropLast hmem)
              exact absurd hlater (not_lt.mpr (le_of_lt hlt))
            rw [hzero, hcount]
            simp [hfirst, le_of_lt hlt, ne_of_gt hlt]
          · rw [ih (List.cons_ne_nil _ _) hrest hge hlast]
            rcases eq_or_lt_of_le hge with rfl | hgt
            · simp [hfirst]
              omega
            · simp [not_le.mpr hgt, ne_of_lt hgt]
