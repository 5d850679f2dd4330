/-
# Replacing a text by a marker

`str.replace` over characters that remember whether they were there from the start.  What is put in
is not, so a stretch that was there from the start stands in the text before the replacement as it
does after it.

* `Kept` : a stretch that was there from the start;
* `kept_of_replace`, `not_kept_replace` : **a replacement makes no such stretch, and leaves none
  of what it replaces**;
* `not_kept_foldl`, `filter_foldl_sublist` : several replacements leave nothing of any, and make
  nothing up.
-/
import Mathlib.Data.List.Infix

namespace Replacing

variable {α : Type}

/-! ## Stretches -/

/-- A text that was there from the start. -/
def original (cs : List α) : List (α × Bool) := cs.map (·, true)

@[simp] theorem original_nil : original ([] : List α) = [] := rfl

@[simp] theorem original_cons (c : α) (cs : List α) :
    original (c :: cs) = (c, true) :: original cs := rfl

@[simp] theorem map_fst_original (cs : List α) : (original cs).map Prod.fst = cs := by
  simp [original, Function.comp_def]

/-- The stretch was there from the start. -/
def Kept (w : List α) (xs : List (α × Bool)) : Prop := original w <:+: xs

/-- No stretch begins in what was put in. -/
theorem suffix_of_marker {c : α} {t xs : List (α × Bool)} {new : List α}
    (h : (c, true) :: t <:+ new.map (·, false) ++ xs) : (c, true) :: t <:+ xs := by
  induction new with
  | nil => exact h
  | cons d new ih =>
      rcases List.suffix_cons_iff.mp h with heq | hrest
      · simp at heq
      · exact ih hrest

/-- A text without a character of the marker is found only where it was from the start. -/
theorem kept_of_infix {new w : List α} {xs : List (α × Bool)}
    (hxs : ∀ c, (c, false) ∈ xs → c ∈ new) (hw : ∀ c ∈ w, c ∉ new)
    (h : w <:+: xs.map Prod.fst) : Kept w xs := by
  obtain ⟨front, back, heq⟩ := h
  obtain ⟨ys, zs, rfl, hys, hzs⟩ := List.map_eq_append_iff.mp heq.symm
  obtain ⟨us, vs, rfl, hus, hvs⟩ := List.map_eq_append_iff.mp hys
  refine ⟨us, zs, ?_⟩
  have hall : original w = vs := by
    rw [← hvs, original, List.map_map]
    conv_rhs => rw [← List.map_id vs]
    refine List.map_congr_left fun x hx => ?_
    obtain ⟨c, b⟩ := x
    cases b with
    | true => rfl
    | false =>
        have hc : c ∈ w := hvs ▸ List.mem_map.mpr ⟨(c, false), hx, rfl⟩
        have hmem : (c, false) ∈ us ++ vs ++ zs :=
          List.mem_append_left _ (List.mem_append_right _ hx)
        exact absurd (hxs c hmem) (hw c hc)
  rw [hall]

/-! ## Replacements -/

variable [DecidableEq α]

/-- The text from here on, after the next `skip` characters, which have been replaced. -/
def substFrom (old new : List α) : ℕ → List α → List α
  | _, [] => []
  | skip + 1, _ :: cs => substFrom old new skip cs
  | 0, c :: cs =>
      if old <+: c :: cs then new ++ substFrom old new (old.length - 1) cs
      else c :: substFrom old new 0 cs

/-- `str.replace(old, new)`, for a text `old` that is not empty. -/
def subst (old new cs : List α) : List α := substFrom old new 0 cs

/-- `substFrom`, with what was there from the start marked. -/
def replaceFrom (old new : List α) : ℕ → List (α × Bool) → List (α × Bool)
  | _, [] => []
  | skip + 1, _ :: xs => replaceFrom old new skip xs
  | 0, x :: xs =>
      if old <+: (x :: xs).map Prod.fst then
        new.map (·, false) ++ replaceFrom old new (old.length - 1) xs
      else x :: replaceFrom old new 0 xs

/-- `subst`, with what was there from the start marked. -/
def replace (old new : List α) (xs : List (α × Bool)) : List (α × Bool) := replaceFrom old new 0 xs

/-- The marks change nothing. -/
theorem map_fst_replace (old new : List α) (xs : List (α × Bool)) :
    (replace old new xs).map Prod.fst = subst old new (xs.map Prod.fst) := by
  have hfrom : ∀ skip, (replaceFrom old new skip xs).map Prod.fst =
      substFrom old new skip (xs.map Prod.fst) := by
    induction xs with
    | nil =>
        intro skip
        cases skip <;> rfl
    | cons x xs ih =>
        intro skip
        cases skip with
        | succ skip => exact ih skip
        | zero =>
            rw [replaceFrom, List.map_cons, substFrom]
            split
            · rw [List.map_append, List.map_map, ih]
              simp [Function.comp_def]
            · rw [List.map_cons, ih]
  exact hfrom 0

theorem map_fst_foldl (new : List α) (olds : List (List α)) (xs : List (α × Bool)) :
    (olds.foldl (fun ys o => replace o new ys) xs).map Prod.fst =
      olds.foldl (fun cs o => subst o new cs) (xs.map Prod.fst) := by
  induction olds generalizing xs with
  | nil => rfl
  | cons o olds ih => rw [List.foldl_cons, ih, map_fst_replace, List.foldl_cons]

/-- Where a stretch begins, the text is what is made of an end of the text before. -/
theorem exists_suffix {old new : List α} {c : α} {t xs : List (α × Bool)} {skip : ℕ}
    (h : (c, true) :: t <:+ replaceFrom old new skip xs) :
    ∃ ys, ys <:+ xs ∧ (c, true) :: t = replace old new ys := by
  induction xs generalizing skip with
  | nil =>
      have hnil : (c, true) :: t <:+ [] := by
        cases skip <;> exact h
      cases List.suffix_nil.mp hnil
  | cons x xs ih =>
      have hrest : ∀ k, (c, true) :: t <:+ replaceFrom old new k xs →
          ∃ ys, ys <:+ x :: xs ∧ (c, true) :: t = replace old new ys := by
        intro k hk
        obtain ⟨ys, hys, heq⟩ := ih hk
        exact ⟨ys, hys.trans (List.suffix_cons x xs), heq⟩
      cases skip with
      | succ skip => exact hrest skip h
      | zero =>
          rw [replaceFrom] at h
          split at h
          · exact hrest _ (suffix_of_marker h)
          · rename_i hmatch
            rcases List.suffix_cons_iff.mp h with heq | hk
            · refine ⟨x :: xs, List.suffix_rfl, ?_⟩
              rw [heq, replace, replaceFrom, if_neg hmatch]
            · exact hrest 0 hk

/-- A stretch at the start stands there before the replacement, and nothing is replaced there. -/
theorem prefix_of_replace {old new : List α} (hnew : new ≠ []) {w : List α} (hw : w ≠ [])
    {xs : List (α × Bool)} (h : original w <+: replace old new xs) :
    original w <+: xs ∧ ¬ old <+: xs.map Prod.fst := by
  induction w generalizing xs with
  | nil => exact absurd rfl hw
  | cons c w ih =>
      cases xs with
      | nil => cases List.prefix_nil.mp h
      | cons x xs =>
          rw [replace, replaceFrom] at h
          split at h
          · cases new with
            | nil => exact absurd rfl hnew
            | cons d new => simp at h
          · rename_i hmatch
            refine ⟨?_, hmatch⟩
            rw [original_cons, List.cons_prefix_cons] at h ⊢
            refine ⟨h.1, ?_⟩
            by_cases hnil : w = []
            · rw [hnil]
              exact List.nil_prefix
            · exact (ih hnil h.2).1

/-- **A replacement makes no stretch** that was there from the start. -/
theorem kept_of_replace {old new w : List α} (hnew : new ≠ []) {xs : List (α × Bool)}
    (h : Kept w (replace old new xs)) : Kept w xs := by
  cases w with
  | nil => exact List.nil_infix
  | cons c w =>
      obtain ⟨front, back, heq⟩ := h
      have hsuffix : (c, true) :: (original w ++ back) <:+ replace old new xs :=
        ⟨front, by simpa using heq⟩
      obtain ⟨ys, hys, hreplace⟩ := exists_suffix hsuffix
      have hprefix : original (c :: w) <+: replace old new ys := by
        rw [← hreplace]
        exact ⟨back, by simp⟩
      exact (prefix_of_replace hnew (List.cons_ne_nil c w) hprefix).1.isInfix.trans hys.isInfix

/-- **A replacement leaves no stretch of what it replaces.** -/
theorem not_kept_replace {old new : List α} (hnew : new ≠ []) (hold : old ≠ [])
    (xs : List (α × Bool)) : ¬ Kept old (replace old new xs) := by
  rintro ⟨front, back, heq⟩
  cases old with
  | nil => exact hold rfl
  | cons c w =>
      have hsuffix : (c, true) :: (original w ++ back) <:+ replace (c :: w) new xs :=
        ⟨front, by simpa using heq⟩
      obtain ⟨ys, -, hreplace⟩ := exists_suffix hsuffix
      have hprefix : original (c :: w) <+: replace (c :: w) new ys := by
        rw [← hreplace]
        exact ⟨back, by simp⟩
      obtain ⟨hys, hmatch⟩ := prefix_of_replace hnew (List.cons_ne_nil c w) hprefix
      have hfst := hys.map Prod.fst
      rw [map_fst_original] at hfst
      exact hmatch hfst

/-- **Several replacements** leave no stretch of any text that they replace. -/
theorem not_kept_foldl {new : List α} (hnew : new ≠ []) {olds : List (List α)}
    (holds : ∀ old ∈ olds, old ≠ []) (xs : List (α × Bool)) {old : List α} (hold : old ∈ olds) :
    ¬ Kept old (olds.foldl (fun ys o => replace o new ys) xs) := by
  have hkept : ∀ (os : List (List α)) (ys : List (α × Bool)),
      Kept old (os.foldl (fun ys o => replace o new ys) ys) → Kept old ys := by
    intro os
    induction os with
    | nil => exact fun ys h => h
    | cons o os ih => exact fun ys h => kept_of_replace hnew (ih _ h)
  obtain ⟨before, after, rfl⟩ := List.append_of_mem hold
  rw [List.foldl_append, List.foldl_cons]
  exact fun h => not_kept_replace hnew (holds old hold) _ (hkept after _ h)

/-- What was put in is made of the marker. -/
theorem mem_marker_of_foldl {new : List α} (olds : List (List α)) {xs : List (α × Bool)}
    (hxs : ∀ c, (c, false) ∈ xs → c ∈ new) :
    ∀ c, (c, false) ∈ olds.foldl (fun ys o => replace o new ys) xs → c ∈ new := by
  have hreplace : ∀ (old : List α) (ys : List (α × Bool)) (skip : ℕ),
      (∀ c, (c, false) ∈ ys → c ∈ new) → ∀ c, (c, false) ∈ replaceFrom old new skip ys → c ∈ new := by
    intro old ys
    induction ys with
    | nil =>
        intro skip _ c hc
        cases skip <;> cases hc
    | cons y ys ih =>
        intro skip hys c hc
        have htail : ∀ d, (d, false) ∈ ys → d ∈ new := fun d hd =>
          hys d (List.mem_cons_of_mem y hd)
        cases skip with
        | succ skip => exact ih skip htail c hc
        | zero =>
            rw [replaceFrom] at hc
            split at hc
            · rcases List.mem_append.mp hc with hmarker | hrest
              · obtain ⟨d, hd, heq⟩ := List.mem_map.mp hmarker
                exact (Prod.mk.inj heq).1 ▸ hd
              · exact ih _ htail c hrest
            · rcases List.mem_cons.mp hc with heq | hrest
              · exact hys c (heq ▸ List.mem_cons_self)
              · exact ih 0 htail c hrest
  induction olds generalizing xs with
  | nil => exact hxs
  | cons o olds ih => exact ih (hreplace o xs 0 hxs)

/-- **Nothing is made up**: what counts as there from the start was there, in this order. -/
theorem filter_foldl_sublist {new : List α} (olds : List (List α)) (xs : List (α × Bool)) :
    ((olds.foldl (fun ys o => replace o new ys) xs).filter (·.2)).Sublist (xs.filter (·.2)) := by
  have hreplace : ∀ (old : List α) (ys : List (α × Bool)) (skip : ℕ),
      ((replaceFrom old new skip ys).filter (·.2)).Sublist (ys.filter (·.2)) := by
    intro old ys
    induction ys with
    | nil =>
        intro skip
        cases skip <;> exact List.Sublist.refl _
    | cons y ys ih =>
        intro skip
        have htail : (ys.filter (·.2)).Sublist ((y :: ys).filter (·.2)) :=
          (List.sublist_cons_self y ys).filter _
        cases skip with
        | succ skip => exact (ih skip).trans htail
        | zero =>
            rw [replaceFrom]
            split
            · have hmarker : (new.map (·, false)).filter (·.2) = [] := by
                simp [List.filter_eq_nil_iff]
              rw [List.filter_append, hmarker]
              exact (ih _).trans htail
            · rw [List.filter_cons, List.filter_cons]
              split
              · exact (ih 0).cons_cons y
              · exact ih 0
  induction olds generalizing xs with
  | nil => exact List.Sublist.refl _
  | cons o olds ih => exact (ih _).trans (hreplace o xs 0)

end Replacing
