/-
# Discounted gains

A list of results of which some count, each for the discount of its rank.  With a decreasing
discount nothing gains more than the results that count put first.

* `gainFrom_le_idealFrom` : **the bound**;
* `gainFrom_eq_idealFrom_iff` : **when it is reached**;
* `gainFrom_swap_le` : two results that are swapped for the better;
* `gainFrom_take` : the first results gain what all of them gain with the discount cut off.
-/
import Mathlib

universe u v

namespace Gains

variable {α : Type u} {K : Type v} [AddCommMonoid K]

/-- The first results are there and count. -/
theorem forall_getElem?_iff {p : α → Bool} {l : List α} {m : ℕ} :
    (∀ i < m, ∃ a, l[i]? = some a ∧ p a = true) ↔
      m ≤ l.countP p ∧ (l.take m).all p = true := by
  constructor
  · intro h
    have hlength : m ≤ l.length := by
      by_contra hlt
      obtain ⟨a, ha, -⟩ := h l.length (by omega)
      rw [List.getElem?_eq_none le_rfl] at ha
      cases ha
    have hall : ∀ a ∈ l.take m, p a = true := by
      intro a ha
      obtain ⟨i, hi, rfl⟩ := List.mem_take_iff_getElem.mp ha
      obtain ⟨b, hb, hpb⟩ := h i (by omega)
      rw [List.getElem?_eq_getElem (by omega), Option.some.injEq] at hb
      rwa [hb]
    refine ⟨?_, List.all_eq_true.mpr hall⟩
    calc m = (l.take m).length := by rw [List.length_take, Nat.min_eq_left hlength]
      _ = (l.take m).countP p := (List.countP_eq_length.mpr hall).symm
      _ ≤ l.countP p := (List.take_sublist m l).countP_le
  · rintro ⟨hle, hall⟩ i hi
    have hlt : i < l.length := by
      have hcount := List.countP_le_length (p := p) (l := l)
      omega
    refine ⟨l[i], List.getElem?_eq_getElem hlt, List.all_eq_true.mp hall _ ?_⟩
    exact List.mem_take_iff_getElem.mpr ⟨i, by omega, rfl⟩

/-- What the results that count gain, where the first has the given rank. -/
def gainFrom (d : ℕ → K) (p : α → Bool) : ℕ → List α → K
  | _, [] => 0
  | rank, item :: items => (if p item then d rank else 0) + gainFrom d p (rank + 1) items

/-- The discounts of so many ranks, from a rank on. -/
def idealFrom (d : ℕ → K) : ℕ → ℕ → K
  | _, 0 => 0
  | rank, n + 1 => d rank + idealFrom d (rank + 1) n

variable {d : ℕ → K} {p : α → Bool}

theorem gainFrom_append (rank : ℕ) (l l' : List α) :
    gainFrom d p rank (l ++ l') = gainFrom d p rank l + gainFrom d p (rank + l.length) l' := by
  induction l generalizing rank with
  | nil => exact (zero_add _).symm
  | cons item l ih =>
      rw [List.cons_append, gainFrom, gainFrom, ih, add_assoc, List.length_cons, add_assoc,
        add_comm 1 l.length]

/-- **The first results** gain what all of them gain with the discount cut off behind them. -/
theorem gainFrom_take (rank n : ℕ) (l : List α) :
    gainFrom d p rank (l.take n) =
      gainFrom (fun r => if r < rank + n then d r else 0) p rank l := by
  have hcut : ∀ (l : List α) (rank bound : ℕ), bound ≤ rank →
      gainFrom (fun r => if r < bound then d r else 0) p rank l = 0 := by
    intro l
    induction l with
    | nil => exact fun _ _ _ => rfl
    | cons item l ih =>
        intro rank bound hle
        rw [gainFrom, ih (rank + 1) bound (by omega), if_neg (by omega : ¬rank < bound), ite_self,
          add_zero]
  induction l generalizing rank n with
  | nil => rw [List.take_nil]; rfl
  | cons item l ih =>
      cases n with
      | zero => exact (hcut (item :: l) rank rank le_rfl).symm
      | succ n =>
          have hfirst : rank < rank + (n + 1) := by omega
          rw [List.take_succ_cons, gainFrom, gainFrom, ih, if_pos hfirst,
            show rank + 1 + n = rank + (n + 1) by omega]

section Order

variable [LinearOrder K] [IsOrderedCancelAddMonoid K]

/-- What counts gains nothing negative. -/
theorem gainFrom_nonneg {rank : ℕ} (hd : ∀ r, rank ≤ r → 0 ≤ d r) (l : List α) :
    0 ≤ gainFrom d p rank l := by
  induction l generalizing rank with
  | nil => exact le_rfl
  | cons item l ih =>
      apply add_nonneg
      · split_ifs
        · exact hd rank le_rfl
        · exact le_rfl
      · exact ih fun r hr => hd r (by omega)

/-- More ranks are worth more. -/
theorem idealFrom_lt {rank m n : ℕ} (hd : ∀ r, rank ≤ r → 0 < d r) (h : m < n) :
    idealFrom d rank m < idealFrom d rank n := by
  induction m generalizing rank n with
  | zero =>
      cases n with
      | zero => exact absurd h (lt_irrefl 0)
      | succ n =>
          have hrest : 0 ≤ idealFrom d (rank + 1) n := by
            induction n generalizing rank with
            | zero => exact le_rfl
            | succ n ih =>
                exact add_nonneg (hd (rank + 1) (by omega)).le
                  (ih (fun r hr => hd r (by omega)) (Nat.succ_pos n))
          exact add_pos_of_pos_of_nonneg (hd rank le_rfl) hrest
  | succ m ih =>
      cases n with
      | zero => exact absurd h (Nat.not_lt_zero _)
      | succ n =>
          exact add_lt_add_right (ih (fun r hr => hd r (by omega)) (Nat.lt_of_succ_lt_succ h)) _

/-- Later ranks are worth less. -/
theorem idealFrom_succ_lt {rank n : ℕ} (hd : ∀ r, rank ≤ r → d (r + 1) < d r) (hn : 0 < n) :
    idealFrom d (rank + 1) n < idealFrom d rank n := by
  induction n generalizing rank with
  | zero => exact absurd hn (lt_irrefl 0)
  | succ n ih =>
      rw [idealFrom, idealFrom]
      rcases Nat.eq_zero_or_pos n with rfl | hpos
      · exact add_lt_add_left (hd rank le_rfl) _
      · exact add_lt_add (hd rank le_rfl) (ih (fun r hr => hd r (by omega)) hpos)

/-- **Nothing gains more than the results that count put first**, and that only when they are. -/
theorem gainFrom_le_idealFrom {rank : ℕ} (hd : ∀ r, rank ≤ r → d (r + 1) < d r) (l : List α) :
    gainFrom d p rank l ≤ idealFrom d rank (l.countP p) ∧
      (gainFrom d p rank l = idealFrom d rank (l.countP p) ↔
        (l.take (l.countP p)).all p = true) := by
  induction l generalizing rank with
  | nil => exact ⟨le_rfl, iff_of_true rfl rfl⟩
  | cons item l ih =>
      obtain ⟨hle, heq⟩ := @ih (rank + 1) fun r hr => hd r (by omega)
      rw [gainFrom]
      by_cases hp : p item = true
      · rw [List.countP_cons_of_pos hp, if_pos hp, idealFrom, List.take_succ_cons, List.all_cons,
          hp, Bool.true_and, ← heq]
        exact ⟨add_le_add_right hle _, add_right_inj _⟩
      · rw [List.countP_cons_of_neg hp, if_neg hp, zero_add]
        rcases Nat.eq_zero_or_pos (l.countP p) with hzero | hpos
        · rw [hzero] at hle heq ⊢
          exact ⟨hle, heq.trans (iff_of_true rfl rfl)⟩
        · -- a result that counts stands behind one that does not
          have hlt := hle.trans_lt (idealFrom_succ_lt hd hpos)
          refine ⟨hlt.le, iff_of_false hlt.ne fun hall => hp ?_⟩
          obtain ⟨n, hn⟩ := Nat.exists_eq_succ_of_ne_zero hpos.ne'
          rw [hn, List.take_succ_cons, List.all_cons, Bool.and_eq_true] at hall
          exact hall.1

/-- **Two results that are swapped for the better.** -/
theorem gainFrom_swap_le {rank : ℕ} {a b c : List α} {x y : α} (hx : p x = false)
    (hy : p y = true) (hle : d (rank + a.length + 1 + b.length) ≤ d (rank + a.length)) :
    gainFrom d p rank (a ++ x :: (b ++ y :: c)) ≤ gainFrom d p rank (a ++ y :: (b ++ x :: c)) := by
  have hplace : ∀ z w : α, gainFrom d p rank (a ++ z :: (b ++ w :: c)) =
      gainFrom d p rank a + ((if p z then d (rank + a.length) else 0) +
        (gainFrom d p (rank + a.length + 1) b +
          ((if p w then d (rank + a.length + 1 + b.length) else 0) +
            gainFrom d p (rank + a.length + 1 + b.length + 1) c))) := by
    intro z w
    rw [gainFrom_append, gainFrom, gainFrom_append, gainFrom]
  rw [hplace, hplace, hx, hy, if_pos rfl, if_pos rfl, if_neg Bool.false_ne_true,
    if_neg Bool.false_ne_true, zero_add, zero_add]
  apply add_le_add_right
  calc gainFrom d p (rank + a.length + 1) b + (d (rank + a.length + 1 + b.length) + _)
      = d (rank + a.length + 1 + b.length) + (gainFrom d p (rank + a.length + 1) b + _) :=
        add_left_comm _ _ _
    _ ≤ d (rank + a.length) + (gainFrom d p (rank + a.length + 1) b + _) :=
        add_le_add_left hle _

end Order

end Gains
