/-
# Discounted sums

The sum of a list in which each further element counts for a factor `d` less than the one
before, over an ordered ring.

* `discounted_le_of_perm` : **the descending order makes the sum as large as it gets**;
* `discounted_le_insert` : a nonnegative element more makes the sum of the descending order
  no smaller;
* `mul_discounted_le`, `head_le_discounted` : the sum is between its first element and that
  element divided by `1 - d`.
-/
import Mathlib

universe u

namespace Discount

variable {K : Type u} [CommRing K] {d : K}

/-- `x₀ + d x₁ + d² x₂ + …`. -/
def discounted (d : K) : List K → K
  | [] => 0
  | x :: l => x + d * discounted d l

@[simp] theorem discounted_nil (d : K) : discounted d [] = 0 := rfl

@[simp] theorem discounted_cons (d x : K) (l : List K) :
    discounted d (x :: l) = x + d * discounted d l := rfl

/-- An element at the end. -/
theorem discounted_append_singleton (d : K) (l : List K) (x : K) :
    discounted d (l ++ [x]) = discounted d l + d ^ l.length * x := by
  induction l with
  | nil => simp
  | cons y l ih =>
      rw [List.cons_append, discounted_cons, ih, discounted_cons, List.length_cons, pow_succ]
      ring

variable [LinearOrder K] [IsStrictOrderedRing K]

/-- A sum of nonnegative elements. -/
theorem discounted_nonneg (hd : 0 ≤ d) {l : List K} (hl : ∀ x ∈ l, 0 ≤ x) :
    0 ≤ discounted d l := by
  induction l with
  | nil => exact le_refl 0
  | cons x l ih =>
      have hrest : 0 ≤ discounted d l := ih fun y hy => hl y (List.mem_cons_of_mem _ hy)
      exact add_nonneg (hl x List.mem_cons_self) (mul_nonneg hd hrest)

/-- The first element is a lower bound. -/
theorem head_le_discounted (hd : 0 ≤ d) {x : K} {l : List K} (hl : ∀ y ∈ l, 0 ≤ y) :
    x ≤ discounted d (x :: l) := by
  rw [discounted_cons]
  exact le_add_of_nonneg_right (mul_nonneg hd (discounted_nonneg hd hl))

/-- The geometric bound: the sum is at most that of a constant series. -/
theorem mul_discounted_le (hd : 0 ≤ d) (hd₁ : d ≤ 1) {m : K} (hm : 0 ≤ m) {l : List K}
    (hl : ∀ x ∈ l, x ≤ m) : (1 - d) * discounted d l ≤ m := by
  induction l with
  | nil => simpa using hm
  | cons x l ih =>
      have hrest := ih fun y hy => hl y (List.mem_cons_of_mem _ hy)
      calc (1 - d) * discounted d (x :: l)
          = (1 - d) * x + d * ((1 - d) * discounted d l) := by rw [discounted_cons]; ring
        _ ≤ (1 - d) * m + d * m := add_le_add
            (mul_le_mul_of_nonneg_left (hl x List.mem_cons_self) (sub_nonneg.mpr hd₁))
            (mul_le_mul_of_nonneg_left hrest hd)
        _ = m := by ring

/-- A larger tail makes a larger sum. -/
theorem discounted_cons_le (hd : 0 ≤ d) (x : K) {l l' : List K}
    (h : discounted d l ≤ discounted d l') : discounted d (x :: l) ≤ discounted d (x :: l') :=
  add_le_add_right (mul_le_mul_of_nonneg_left h hd) x

/-- The larger of two neighbours comes first in the larger sum. -/
theorem discounted_swap_le (hd₁ : d ≤ 1) {x y : K} (hxy : x ≤ y) (l : List K) :
    discounted d (x :: y :: l) ≤ discounted d (y :: x :: l) := by
  have hgap : 0 ≤ (1 - d) * (y - x) :=
    mul_nonneg (sub_nonneg.mpr hd₁) (sub_nonneg.mpr hxy)
  have hdiff : discounted d (y :: x :: l) - discounted d (x :: y :: l) = (1 - d) * (y - x) := by
    simp only [discounted_cons]
    ring
  exact sub_nonneg.mp (hdiff ▸ hgap)

/-- An element moves to its place in a descending list. -/
theorem discounted_cons_le_orderedInsert (hd : 0 ≤ d) (hd₁ : d ≤ 1) (x : K) (l : List K) :
    discounted d (x :: l) ≤ discounted d (l.orderedInsert (· ≥ ·) x) := by
  induction l with
  | nil => exact le_refl _
  | cons y l ih =>
      rw [List.orderedInsert_cons]
      split_ifs with hxy
      · exact le_refl _
      · exact (discounted_swap_le hd₁ (le_of_not_ge hxy) l).trans (discounted_cons_le hd y ih)

/-- Sorting makes the sum no smaller. -/
theorem discounted_le_insertionSort (hd : 0 ≤ d) (hd₁ : d ≤ 1) (l : List K) :
    discounted d l ≤ discounted d (l.insertionSort (· ≥ ·)) := by
  induction l with
  | nil => exact le_refl _
  | cons x l ih =>
      rw [List.insertionSort_cons]
      exact (discounted_cons_le hd x ih).trans (discounted_cons_le_orderedInsert hd hd₁ x _)

/-- **The descending order maximises the sum.** -/
theorem discounted_le_of_perm (hd : 0 ≤ d) (hd₁ : d ≤ 1) {l s : List K}
    (hs : s.Pairwise (· ≥ ·)) (hp : l.Perm s) : discounted d l ≤ discounted d s := by
  have hsorted : l.insertionSort (· ≥ ·) = s :=
    ((List.perm_insertionSort _ l).trans hp).eq_of_pairwise'
      (List.pairwise_insertionSort _ l) hs
  exact hsorted ▸ discounted_le_insertionSort hd hd₁ l

/-- **A nonnegative element more** makes the sum of the descending order no smaller. -/
theorem discounted_le_insert (hd : 0 ≤ d) (hd₁ : d ≤ 1) {l s : List K} {x : K} (hx : 0 ≤ x)
    (hs : s.Pairwise (· ≥ ·)) (hp : (x :: l).Perm s) : discounted d l ≤ discounted d s := by
  have hend : (l ++ [x]).Perm s := (List.perm_append_singleton x l).trans hp
  have hle := discounted_le_of_perm hd hd₁ hs hend
  rw [discounted_append_singleton] at hle
  exact (le_add_of_nonneg_right (mul_nonneg (pow_nonneg hd _) hx)).trans hle

end Discount
