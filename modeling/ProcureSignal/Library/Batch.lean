/-
# Batches of independent items, and upserts

A loop goes over items, each of which owns a part of the state: the step of an item keeps what the
others own.  Then an item finds its part as it was before the loop and leaves it as it is after the
loop, and a counter adds up what the parts show.

* `Batch.Independent` : each step keeps what it does not own;
* `Batch.exists_step` : **the part of an item is the work of its own step**;
* `Batch.count_foldl` : what a counter has at the end, from the parts at the end;
* `UniqueTable.upsert` : update the row of a key, or insert one.
-/
import ProcureSignal.Library.Table

universe u v w x

namespace Batch

variable {σ : Type u} {ι : Type v} {κ : Type w} {ν : Type x}

/-- The step of an item keeps the invariant, and every part but the item's own. -/
def Independent (step : σ → ι → σ) (key : ι → κ) (part : κ → σ → ν) (I : σ → Prop)
    (items : List ι) : Prop :=
  ∀ s, ∀ i ∈ items, I s → I (step s i) ∧ ∀ k ≠ key i, part k (step s i) = part k s

variable {step : σ → ι → σ} {key : ι → κ} {part : κ → σ → ν} {I : σ → Prop} {items : List ι}
  {s : σ}

theorem Independent.tail {i : ι} (h : Independent step key part I (i :: items)) :
    Independent step key part I items :=
  fun s j hj => h s j (List.mem_cons_of_mem i hj)

/-- The loop keeps the invariant and what no item owns. -/
theorem Independent.foldl (h : Independent step key part I items) (hs : I s) :
    I (items.foldl step s) ∧
      ∀ k ∉ items.map key, part k (items.foldl step s) = part k s := by
  induction items generalizing s with
  | nil => exact ⟨hs, fun _ _ => rfl⟩
  | cons i items ih =>
      obtain ⟨hi, hframe⟩ := h s i List.mem_cons_self hs
      obtain ⟨hlast, hrest⟩ := ih h.tail hi
      refine ⟨hlast, fun k hk => ?_⟩
      rw [List.map_cons, List.mem_cons, not_or] at hk
      rw [List.foldl_cons, hrest k hk.2, hframe k hk.1]

/-- **The part of an item is the work of its own step**, which found the part as it was. -/
theorem exists_step (h : Independent step key part I items) (hnodup : (items.map key).Nodup)
    (hs : I s) {i : ι} (hi : i ∈ items) :
    ∃ t, I t ∧ part (key i) t = part (key i) s ∧
      part (key i) (items.foldl step s) = part (key i) (step t i) := by
  induction items generalizing s with
  | nil => exact absurd hi List.not_mem_nil
  | cons j items ih =>
      rw [List.map_cons, List.nodup_cons] at hnodup
      obtain ⟨hj, hframe⟩ := h s j List.mem_cons_self hs
      rcases List.mem_cons.mp hi with rfl | hi
      · exact ⟨s, hs, rfl, (h.tail.foldl hj).2 (key i) hnodup.1⟩
      · obtain ⟨t, ht, hbefore, hafter⟩ := ih h.tail hnodup.2 hj hi
        have hne : key i ≠ key j := by
          intro heq
          exact hnodup.1 (heq ▸ List.mem_map_of_mem hi)
        exact ⟨t, ht, hbefore.trans (hframe (key i) hne), hafter⟩

/-- **What a counter has at the end.**  When the step of an item adds what the item's part shows
after it, provided that the part was still as before the loop, then the loop adds what the parts
show at its end. -/
theorem count_foldl {c : σ → ℕ} {w : ι → ν → ℕ}
    (h : Independent step key part I items) (hnodup : (items.map key).Nodup) (hs : I s)
    (hc : ∀ t, ∀ i ∈ items, I t → part (key i) t = part (key i) s →
      c (step t i) = c t + w i (part (key i) (step t i))) :
    c (items.foldl step s) =
      c s + (items.map fun i => w i (part (key i) (items.foldl step s))).sum := by
  induction items generalizing s with
  | nil => rfl
  | cons j items ih =>
      rw [List.map_cons, List.nodup_cons] at hnodup
      obtain ⟨hj, hframe⟩ := h s j List.mem_cons_self hs
      have hown : part (key j) (items.foldl step (step s j)) = part (key j) (step s j) :=
        (h.tail.foldl hj).2 (key j) hnodup.1
      have hrest := ih h.tail hnodup.2 hj fun t i hi ht hpart => by
        have hne : key i ≠ key j := by
          intro heq
          exact hnodup.1 (heq ▸ List.mem_map_of_mem hi)
        exact hc t i (List.mem_cons_of_mem j hi) ht (hpart.trans (hframe (key i) hne))
      rw [List.foldl_cons, List.map_cons, List.sum_cons, hrest, hown,
        hc s j List.mem_cons_self hs rfl]
      omega

end Batch

namespace UniqueTable

variable {α : Type u} {κ : Type} [DecidableEq κ] {k : α → κ}

/-- Rewrite the row of a key, or insert a row where the key has none; the flag says that a row was
inserted. -/
def upsert (t : UniqueTable α κ [fun a => some (k a)]) (a : α) (f : α → α)
    (hf : ∀ b, k (f b) = k b) : UniqueTable α κ [fun a => some (k a)] × Bool :=
  if t.values.any (k · = k a) then
    (t.update (fun _ b => k b = k a) f fun k' hk' b => by
      rw [List.mem_singleton.mp hk']
      exact congrArg some (hf b), false)
  else (t.insertNew a, true)

variable {t : UniqueTable α κ [fun a => some (k a)]} {a : α} {f : α → α}
  {hf : ∀ b, k (f b) = k b}

/-- The rows after an upsert: the other rows, and one row of the key. -/
theorem rows_upsert (t : UniqueTable α κ [fun a => some (k a)]) (a : α) (f : α → α)
    (hf : ∀ b, k (f b) = k b) :
    (∃ r ∈ t.rows, k r.2 = k a ∧ (t.upsert a f hf).2 = false ∧
      (t.upsert a f hf).1.rows = t.rows.map fun r => if k r.2 = k a then (r.1, f r.2) else r) ∨
    ((∀ r ∈ t.rows, k r.2 ≠ k a) ∧ (t.upsert a f hf).2 = true ∧
      (t.upsert a f hf).1.rows = t.rows ++ [(t.nextId, a)]) := by
  unfold upsert
  split
  · rename_i hany
    obtain ⟨b, hb, hkey⟩ := List.any_eq_true.mp hany
    obtain ⟨i, hi⟩ := Table.mem_values.mp hb
    refine Or.inl ⟨(i, b), hi, of_decide_eq_true hkey, rfl, ?_⟩
    rw [toTable_update, Table.update, Table.modify]
    refine List.map_congr_left fun r _ => ?_
    by_cases hr : k r.2 = k a
    · rw [if_pos hr, if_pos (decide_eq_true hr)]
    · rw [if_neg hr, if_neg (by simpa using hr)]
  · rename_i hnone
    have hfree : ∀ r ∈ t.rows, k r.2 ≠ k a := fun r hr heq =>
      hnone (List.any_eq_true.mpr ⟨r.2, List.mem_map_of_mem hr, decide_eq_true heq⟩)
    refine Or.inr ⟨hfree, rfl, ?_⟩
    have hinsert : t.Free a := by
      intro k' hk' v hv hmem
      rw [List.mem_singleton.mp hk'] at hv hmem
      obtain ⟨b, hb, hkey⟩ := List.mem_filterMap.mp hmem
      obtain ⟨i, hi⟩ := Table.mem_values.mp hb
      exact hfree (i, b) hi (Option.some.inj (hkey.trans hv.symm))
    rw [insertNew, dif_pos hinsert]
    rfl

/-- The rows of other keys stay. -/
theorem mem_rows_upsert_of_ne {r : ℕ × α} (hne : k r.2 ≠ k a) :
    r ∈ (t.upsert a f hf).1.rows ↔ r ∈ t.rows := by
  rcases rows_upsert t a f hf with ⟨-, -, -, -, hrows⟩ | ⟨-, -, hrows⟩
  · rw [hrows, List.mem_map]
    constructor
    · rintro ⟨r', hr', rfl⟩
      split at hne
      · rename_i hkey
        exact absurd ((hf r'.2).trans hkey) hne
      · rename_i hkey
        rw [if_neg hkey]
        exact hr'
    · intro hr
      exact ⟨r, hr, if_neg hne⟩
  · rw [hrows, List.mem_append, List.mem_singleton]
    refine or_iff_left ?_
    rintro rfl
    exact hne rfl

/-- There is a row of the key, the inserted one or the rewritten one. -/
theorem exists_mem_rows_upsert :
    ∃ r ∈ (t.upsert a f hf).1.rows, k r.2 = k a ∧
      (r.2 = a ∨ ∃ r' ∈ t.rows, k r'.2 = k a ∧ r.2 = f r'.2) := by
  rcases rows_upsert t a f hf with ⟨r, hr, hkey, -, hrows⟩ | ⟨-, -, hrows⟩
  · refine ⟨(r.1, f r.2), ?_, (hf r.2).trans hkey, Or.inr ⟨r, hr, hkey, rfl⟩⟩
    rw [hrows]
    exact List.mem_map.mpr ⟨r, hr, if_pos hkey⟩
  · refine ⟨(t.nextId, a), ?_, rfl, Or.inl rfl⟩
    rw [hrows]
    exact List.mem_append_right _ (List.mem_singleton_self _)

/-- A row after an upsert is of another key and was there, or is the one of the key. -/
theorem cases_mem_rows_upsert {r : ℕ × α} (h : r ∈ (t.upsert a f hf).1.rows) :
    k r.2 ≠ k a ∧ r ∈ t.rows ∨
      k r.2 = k a ∧ (r.2 = a ∨ ∃ r' ∈ t.rows, k r'.2 = k a ∧ r.2 = f r'.2) := by
  by_cases hkey : k r.2 = k a
  · obtain ⟨r', hr', hkey', hcases⟩ := @exists_mem_rows_upsert α κ _ k t a f hf
    have heq : r = r' := UniqueTable.eq_of_unique (k := fun a => some (k a)) List.mem_cons_self h
      hr' (v := k a) (congrArg some hkey) (congrArg some hkey')
    exact Or.inr ⟨hkey, heq ▸ hcases⟩
  · exact Or.inl ⟨hkey, (mem_rows_upsert_of_ne hkey).mp h⟩

/-- Rows that the rewrite keeps among those that meet a condition, and that the inserted row does
not meet, stay in their order. -/
theorem filter_rows_upsert {p : ℕ × α → Bool} (ha : ∀ i, p (i, a) = false)
    (hp : ∀ r ∈ t.rows, k r.2 = k a → p r = false ∧ p (r.1, f r.2) = false) :
    (t.upsert a f hf).1.rows.filter p = t.rows.filter p := by
  rcases rows_upsert t a f hf with ⟨-, -, -, -, hrows⟩ | ⟨-, -, hrows⟩
  · rw [hrows]
    generalize hl : t.rows = l at hp
    clear hl hrows
    induction l with
    | nil => rfl
    | cons r l ih =>
        have htail := ih fun r' hr' => hp r' (List.mem_cons_of_mem r hr')
        rw [List.map_cons]
        by_cases hkey : k r.2 = k a
        · obtain ⟨hold, hnew⟩ := hp r List.mem_cons_self hkey
          rw [if_pos hkey, List.filter_cons_of_neg (by simpa using hnew),
            List.filter_cons_of_neg (by simpa using hold), htail]
        · rw [if_neg hkey, List.filter_cons, List.filter_cons, htail]
  · rw [hrows, List.filter_append, List.filter_cons_of_neg (by simpa using ha _), List.filter_nil,
      List.append_nil]

end UniqueTable
