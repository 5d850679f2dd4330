/-
# Reading a list by pages

`OFFSET` and `LIMIT` on an ordered list.

* `flatMap_page` : **the pages put together are the list**, once they reach its end;
* `length_le_pages` : how many pages reach it.
-/
import Mathlib

universe u

namespace Pages

variable {α : Type u}

/-- `OFFSET offset LIMIT limit`. -/
def page (l : List α) (offset limit : ℕ) : List α := (l.drop offset).take limit

theorem page_subset (l : List α) (offset limit : ℕ) : page l offset limit ⊆ l := fun _ ha =>
  List.mem_of_mem_drop (List.mem_of_mem_take ha)

/-- The first pages. -/
theorem flatMap_page_eq_take (l : List α) (limit n : ℕ) :
    ((List.range n).flatMap fun k => page l (k * limit) limit) = l.take (n * limit) := by
  induction n with
  | zero => simp
  | succ n ih =>
      rw [List.range_succ, List.flatMap_append, ih, List.flatMap_singleton, page, Nat.succ_mul,
        List.take_add]

/-- **All pages.** -/
theorem flatMap_page {l : List α} {limit n : ℕ} (h : l.length ≤ n * limit) :
    ((List.range n).flatMap fun k => page l (k * limit) limit) = l := by
  rw [flatMap_page_eq_take, List.take_of_length_le h]

/-- The number of pages. -/
theorem length_le_pages (n : ℕ) {limit : ℕ} (h : 0 < limit) :
    n ≤ (n + limit - 1) / limit * limit := by
  have hdiv := Nat.div_add_mod (n + limit - 1) limit
  have hmod := Nat.mod_lt (n + limit - 1) h
  rw [Nat.mul_comm] at hdiv
  omega

end Pages
