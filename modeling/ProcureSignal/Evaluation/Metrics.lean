/-
# Retrieval metrics

`precision_at_k`, `recall_at_k` and `ndcg_at_k` of `evaluation/metrics.py`, with any discount in
place of `1 / log2(rank + 1)`.

* `gain_le_ideal`, `gain_eq_ideal_iff` : the gain of the first results against the best achievable;
* `metrics_normalised` : **the metrics are normalised, and exact at the top**.
-/
import ProcureSignal.Library.Gains

namespace ProcureSignal.Evaluation

open Gains

variable {α : Type} [DecidableEq α] {K : Type} [Field K]

/-- The text of the `ValueError`. -/
def kMustBePositive : String := "k must be positive"

/-- `sum(1 for item in retrieved[:k] if item in wanted)`. -/
def found (retrieved : List α) (wanted : Finset α) (k : ℕ) : ℕ :=
  (retrieved.take k).countP (· ∈ wanted)

/-- `precision_at_k`. -/
def precisionAtK (retrieved relevant : List α) (k : ℤ) : Except String K :=
  if k ≤ 0 then .error kMustBePositive
  else .ok (found retrieved relevant.toFinset k.toNat / (k : K))

/-- `recall_at_k`. -/
def recallAtK (retrieved relevant : List α) (k : ℤ) : Except String K :=
  if k ≤ 0 then .error kMustBePositive
  else
    let wanted := relevant.toFinset
    if wanted = ∅ then .ok 1
    else .ok (found retrieved wanted k.toNat / (wanted.card : K))

/-- `ndcg_at_k`. -/
def ndcgAtK (discount : ℕ → K) (retrieved relevant : List α) (k : ℤ) : Except String K :=
  if k ≤ 0 then .error kMustBePositive
  else
    let wanted := relevant.toFinset
    if wanted = ∅ then .ok (if retrieved.take k.toNat = [] then 1 else 0)
    else
      let gain := gainFrom discount (· ∈ wanted) 1 (retrieved.take k.toNat)
      let ideal := idealFrom discount 1 (min k.toNat wanted.card)
      .ok (gain / ideal)

/-- No more is found than is relevant, and than is looked at. -/
theorem found_le {retrieved : List α} (h : retrieved.Nodup) (wanted : Finset α) (k : ℕ) :
    found retrieved wanted k ≤ min k wanted.card := by
  apply le_min
  · calc found retrieved wanted k ≤ (retrieved.take k).length := List.countP_le_length
      _ ≤ k := List.length_take_le k retrieved
  · have hnodup : ((retrieved.take k).filter (· ∈ wanted)).Nodup :=
      (h.sublist (List.take_sublist k retrieved)).filter _
    rw [found, List.countP_eq_length_filter, ← List.toFinset_card_of_nodup hnodup]
    apply Finset.card_le_card
    intro item hitem
    rw [List.mem_toFinset, List.mem_filter, decide_eq_true_eq] at hitem
    exact hitem.2

variable [LinearOrder K] [IsStrictOrderedRing K]

/-- The discount is positive and falls with the rank. -/
structure Discounts (d : ℕ → K) : Prop where
  pos : ∀ rank, 1 ≤ rank → 0 < d rank
  falls : ∀ rank rank', 1 ≤ rank → rank < rank' → d rank' < d rank

section Ndcg

variable {d : ℕ → K} (hd : Discounts d) {retrieved : List α} (hnodup : retrieved.Nodup)
  (wanted : Finset α) (k : ℕ)

include hd hnodup

/-- **The gain is no more than the best achievable**, and equals it when the first results that can
be are relevant. -/
theorem gain_le_ideal :
    gainFrom d (· ∈ wanted) 1 (retrieved.take k) ≤ idealFrom d 1 (min k wanted.card) ∧
      (gainFrom d (· ∈ wanted) 1 (retrieved.take k) = idealFrom d 1 (min k wanted.card) ↔
        ∀ i < min k wanted.card, ∃ doc, retrieved[i]? = some doc ∧ doc ∈ wanted) := by
  have hfalls : ∀ r, 1 ≤ r → d (r + 1) < d r := fun r hr =>
    hd.falls r (r + 1) hr (Nat.lt_succ_self r)
  have hcount : (retrieved.take k).countP (· ∈ wanted) ≤ min k wanted.card :=
    found_le hnodup wanted k
  obtain ⟨hle, heq⟩ := @gainFrom_le_idealFrom α K _ d (· ∈ wanted) _ _ 1 hfalls (retrieved.take k)
  have hfirst : (∀ i < min k wanted.card, ∃ doc, retrieved[i]? = some doc ∧ doc ∈ wanted) ↔
      ∀ i < min k wanted.card, ∃ doc, (retrieved.take k)[i]? = some doc ∧
        decide (doc ∈ wanted) = true := by
    refine forall₂_congr fun i hi => ?_
    rw [List.getElem?_take_of_lt (lt_of_lt_of_le hi (min_le_left _ _))]
    simp only [decide_eq_true_eq]
  rw [hfirst, forall_getElem?_iff]
  rcases Nat.lt_or_eq_of_le hcount with hlt | hsame
  · -- fewer are found than could be
    have hless := hle.trans_lt (idealFrom_lt hd.pos hlt)
    exact ⟨hless.le, iff_of_false hless.ne fun h => not_le.mpr hlt h.1⟩
  · rw [hsame] at hle heq ⊢
    exact ⟨hle, heq.trans (and_iff_right le_rfl).symm⟩

end Ndcg

/-! ## The laws -/

/-- A metric is defined and between zero and one. -/
def InUnit (metric : Except String K) : Prop := ∃ x, metric = .ok x ∧ 0 ≤ x ∧ x ≤ 1

/-- The metrics are normalised, and exact at the top. -/
structure Normalised (α : Type) [DecidableEq α] (d : ℕ → K) : Prop where
  precise : ∀ {retrieved relevant : List α} {k : ℤ}, retrieved.Nodup → 1 ≤ k →
    InUnit (precisionAtK retrieved relevant k : Except String K)
  recalled : ∀ {retrieved relevant : List α} {k : ℤ}, retrieved.Nodup → 1 ≤ k →
    InUnit (recallAtK retrieved relevant k : Except String K)
  gained : ∀ {retrieved relevant : List α} {k : ℤ}, retrieved.Nodup → 1 ≤ k →
    InUnit (ndcgAtK d retrieved relevant k)
  atTop : ∀ {retrieved relevant : List α} {k : ℤ}, retrieved.Nodup → 1 ≤ k → relevant ≠ [] →
    (ndcgAtK d retrieved relevant k = .ok 1 ↔
      ∀ i < min k.toNat relevant.toFinset.card, ∃ doc, retrieved[i]? = some doc ∧ doc ∈ relevant)
  swapped : ∀ {a b c relevant : List α} {x y : α} {k : ℤ}, 1 ≤ k →
    (a ++ x :: (b ++ y :: c)).Nodup → x ∉ relevant → y ∈ relevant →
      ∃ g g', ndcgAtK d (a ++ x :: (b ++ y :: c)) relevant k = .ok g ∧
        ndcgAtK d (a ++ y :: (b ++ x :: c)) relevant k = .ok g' ∧ g ≤ g'
  appended : ∀ {retrieved behind relevant : List α} {k : ℤ}, 1 ≤ k → k ≤ retrieved.length →
    (precisionAtK (retrieved ++ behind) relevant k : Except String K) =
        precisionAtK retrieved relevant k ∧
      (recallAtK (retrieved ++ behind) relevant k : Except String K) =
        recallAtK retrieved relevant k ∧
      ndcgAtK d (retrieved ++ behind) relevant k = ndcgAtK d retrieved relevant k

section Laws

variable {d : ℕ → K} {retrieved relevant : List α} {k : ℤ}

/-- A part of a whole. -/
theorem inUnit_div {m n : ℕ} (hle : m ≤ n) (hpos : 0 < n) :
    InUnit (.ok ((m : K) / (n : K))) := by
  have hpos' : (0 : K) < n := by exact_mod_cast hpos
  have hle' : (m : K) ≤ n := by exact_mod_cast hle
  exact ⟨_, rfl, div_nonneg (Nat.cast_nonneg m) hpos'.le, (div_le_one hpos').mpr hle'⟩

omit [LinearOrder K] [IsStrictOrderedRing K] in
/-- With something relevant, nDCG is the gain against the best achievable. -/
theorem ndcgAtK_eq (hk : 1 ≤ k) (hne : relevant ≠ []) :
    ndcgAtK d retrieved relevant k =
      .ok (gainFrom d (· ∈ relevant.toFinset) 1 (retrieved.take k.toNat) /
        idealFrom d 1 (min k.toNat relevant.toFinset.card)) := by
  have hwanted : relevant.toFinset ≠ ∅ := by
    rw [ne_eq, List.toFinset_eq_empty_iff]
    exact hne
  rw [ndcgAtK, if_neg (by omega)]
  exact if_neg hwanted

/-- The best achievable gain is positive. -/
theorem ideal_pos (hd : Discounts d) (hk : 1 ≤ k) (hne : relevant ≠ []) :
    0 < idealFrom d 1 (min k.toNat relevant.toFinset.card) := by
  have hcard : 0 < relevant.toFinset.card := by
    rw [Finset.card_pos, Finset.nonempty_iff_ne_empty, ne_eq, List.toFinset_eq_empty_iff]
    exact hne
  have hmin : 0 < min k.toNat relevant.toFinset.card := by
    rw [lt_min_iff]
    exact ⟨by omega, hcard⟩
  exact idealFrom_lt (m := 0) hd.pos hmin

/-- **The metrics are normalised, and exact at the top**, with every positive decreasing
discount. -/
theorem metrics_normalised (hd : Discounts d) : Normalised α d where
  precise {retrieved relevant k} hnodup hk := by
    have hle := (found_le hnodup relevant.toFinset k.toNat).trans (min_le_left _ _)
    have hcast : ((k.toNat : ℕ) : K) = (k : K) := by
      rw [← Int.cast_natCast, Int.toNat_of_nonneg (by omega)]
    rw [precisionAtK, if_neg (by omega), ← hcast]
    exact inUnit_div hle (by omega)
  recalled {retrieved relevant k} hnodup hk := by
    rw [recallAtK, if_neg (by omega)]
    dsimp only
    split_ifs with hempty
    · exact ⟨1, rfl, zero_le_one, le_rfl⟩
    · refine inUnit_div ((found_le hnodup _ _).trans (min_le_right _ _)) ?_
      rw [Finset.card_pos, Finset.nonempty_iff_ne_empty]
      exact hempty
  gained {retrieved relevant k} hnodup hk := by
    by_cases hne : relevant = []
    · subst hne
      rw [ndcgAtK, if_neg (by omega), List.toFinset_nil]
      dsimp only
      rw [if_pos rfl]
      split_ifs
      · exact ⟨1, rfl, zero_le_one, le_rfl⟩
      · exact ⟨0, rfl, le_rfl, zero_le_one⟩
    · rw [ndcgAtK_eq hk hne]
      have hpos := ideal_pos hd hk hne
      refine ⟨_, rfl, div_nonneg (gainFrom_nonneg (fun r hr => (hd.pos r hr).le) _) hpos.le, ?_⟩
      rw [div_le_one hpos]
      exact (gain_le_ideal hd hnodup _ _).1
  atTop {retrieved relevant k} hnodup hk hne := by
    rw [ndcgAtK_eq hk hne, Except.ok.injEq, div_eq_one_iff_eq (ideal_pos hd hk hne).ne',
      (gain_le_ideal hd hnodup _ _).2]
    simp only [List.mem_toFinset]
  swapped {a b c relevant x y k} hk hnodup hx hy := by
    have hne : relevant ≠ [] := List.ne_nil_of_mem hy
    refine ⟨_, _, ndcgAtK_eq hk hne, ndcgAtK_eq hk hne, ?_⟩
    apply div_le_div_of_nonneg_right _ (ideal_pos hd hk hne).le
    rw [gainFrom_take, gainFrom_take]
    apply gainFrom_swap_le (by simpa using hx) (by simpa using hy)
    -- the discount that is cut off behind the last rank still falls
    split_ifs with hlate hearly
    · exact (hd.falls _ _ (by omega) (by omega)).le
    · omega
    · exact (hd.pos _ (by omega)).le
    · exact le_rfl
  appended {retrieved behind relevant k} hk hlength := by
    have htake : (retrieved ++ behind).take k.toNat = retrieved.take k.toNat :=
      List.take_append_of_le_length (by omega)
    have hfound : ∀ wanted : Finset α,
        found (retrieved ++ behind) wanted k.toNat = found retrieved wanted k.toNat := by
      intro wanted
      rw [found, found, htake]
    refine ⟨?_, ?_, ?_⟩
    · rw [precisionAtK, precisionAtK, hfound]
    · rw [recallAtK, recallAtK]
      simp only [hfound]
    · rw [ndcgAtK, ndcgAtK, htake]

end Laws

/-- The metrics are normalised with the reciprocal ranks for a discount. -/
theorem reciprocals_normalised : Normalised ℤ fun rank => 1 / ((rank : ℚ) + 1) := by
  apply metrics_normalised
  refine ⟨fun rank _ => ?_, fun rank rank' _ hlt => ?_⟩
  · apply one_div_pos.mpr
    positivity
  · have hcast : (rank : ℚ) + 1 < rank' + 1 := by exact_mod_cast Nat.succ_lt_succ hlt
    exact one_div_lt_one_div_of_lt (by positivity) hcast

end ProcureSignal.Evaluation
