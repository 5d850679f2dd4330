/-
# Reading in chunks

A search in a stream that is read in chunks.  Each chunk is searched with the last elements of what
was searched before in front of it, so that what starts at the end of a chunk can be found.

* `chunks`, `scan` : the reads, and the search of each;
* `window` : what is searched at the `k`-th read;
* `scan_eq_true_iff` : **the searches are those of the windows**;
* `exists_window_iff` : where a pattern is found.
-/
import Mathlib

namespace Windows

variable {α : Type*}

/-- The reads of a stream, up to the one that gives nothing. -/
def chunks (size : ℕ) (content : List α) : List (List α) :=
  (List.range ((content.length + size - 1) / size)).map fun k =>
    (content.drop (k * size)).take size

/-- Each chunk is searched behind the last elements of what was searched before. -/
def scan (keep : ℕ) (found : List α → Bool) : List α → List (List α) → Bool
  | _, [] => false
  | overlap, chunk :: chunks =>
      found (overlap ++ chunk) || scan keep found ((overlap ++ chunk).rtake keep) chunks

/-- What is searched at the `k`-th read. -/
def window (size keep k : ℕ) (content : List α) : List α :=
  (content.take ((k + 1) * size)).drop (k * size - keep)

section Scan

variable {size keep : ℕ} {content : List α}

/-- The elements in front of a chunk and the chunk itself. -/
theorem rtake_append_chunk {k : ℕ} (hk : k * size ≤ content.length) :
    (content.take (k * size)).rtake keep ++ (content.drop (k * size)).take size =
      window size keep k content := by
  have htake : content.take ((k + 1) * size) =
      content.take (k * size) ++ (content.drop (k * size)).take size := by
    rw [Nat.succ_mul, List.take_add]
  have hlength : (content.take (k * size)).length = k * size := by
    rw [List.length_take, Nat.min_eq_left hk]
  rw [window, htake, List.drop_append_of_le_length (by omega), List.rtake, hlength]

/-- What is kept of a window, when there is a chunk behind it. -/
theorem rtake_window (hkeep : keep ≤ size) {k : ℕ} (hk : (k + 1) * size ≤ content.length) :
    (window size keep k content).rtake keep = (content.take ((k + 1) * size)).rtake keep := by
  have hmul : (k + 1) * size = k * size + size := Nat.succ_mul k size
  have hlength : (content.take ((k + 1) * size)).length = (k + 1) * size := by
    rw [List.length_take, Nat.min_eq_left hk]
  rw [window, List.rtake, List.rtake, List.drop_drop, List.length_drop, hlength]
  congr 1
  omega

theorem lt_count_iff (hsize : 0 < size) {k : ℕ} :
    k < (content.length + size - 1) / size ↔ k * size < content.length := by
  have hmul : (k + 1) * size = k * size + size := Nat.succ_mul k size
  have hle := Nat.le_div_iff_mul_le hsize (x := k + 1) (y := content.length + size - 1)
  omega

/-- **The searches are those of the windows.** -/
theorem scan_eq_true_iff (hkeep : keep ≤ size) (hsize : 0 < size) {found : List α → Bool} :
    scan keep found [] (chunks size content) = true ↔
      ∃ k, k * size < content.length ∧ found (window size keep k content) = true := by
  generalize hcount : (content.length + size - 1) / size = count
  have hlt : ∀ k, k < count ↔ k * size < content.length := fun k => by
    rw [← hcount]
    exact lt_count_iff hsize
  -- from the `k`-th read on
  have hfrom : ∀ reads k, k + reads = count →
      (scan keep found ((content.take (k * size)).rtake keep)
          ((List.range' k reads).map fun k => (content.drop (k * size)).take size) = true ↔
        ∃ j, k ≤ j ∧ j * size < content.length ∧ found (window size keep j content) = true) := by
    intro reads
    induction reads with
    | zero =>
        intro k hk
        refine iff_of_false Bool.false_ne_true ?_
        rintro ⟨j, hkj, hj, -⟩
        have hjcount := (hlt j).mpr hj
        omega
    | succ reads ih =>
        intro k hk
        have hkcount := (hlt k).mp (by omega)
        rw [List.range'_succ, List.map_cons, scan, rtake_append_chunk hkcount.le, Bool.or_eq_true]
        have hrest : scan keep found ((window size keep k content).rtake keep)
            ((List.range' (k + 1) reads).map fun k => (content.drop (k * size)).take size) = true ↔
            ∃ j, k + 1 ≤ j ∧ j * size < content.length ∧
              found (window size keep j content) = true := by
          cases reads with
          | zero =>
              refine iff_of_false Bool.false_ne_true ?_
              rintro ⟨j, hkj, hj, -⟩
              have hjcount := (hlt j).mpr hj
              omega
          | succ reads =>
              have hnext := (hlt (k + 1)).mp (by omega)
              rw [rtake_window hkeep hnext.le]
              exact ih (k + 1) (by omega)
        rw [hrest]
        constructor
        · rintro (hfound | ⟨j, hkj, hj⟩)
          · exact ⟨k, le_rfl, hkcount, hfound⟩
          · exact ⟨j, Nat.le_of_succ_le hkj, hj⟩
        · rintro ⟨j, hkj, hj, hfound⟩
          rcases hkj.eq_or_lt with rfl | hlt
          · exact Or.inl hfound
          · exact Or.inr ⟨j, hlt, hj, hfound⟩
  have hall := hfrom count 0 (Nat.zero_add count)
  simp only [Nat.zero_mul, List.take_zero, List.rtake_nil, Nat.zero_le, true_and] at hall
  rw [chunks, hcount, List.range_eq_range']
  exact hall

/-- **Where a pattern is found**: at a position of a window, up to the end of the window. -/
theorem exists_window_iff {p : List α → Bool} {k : ℕ} :
    ((window size keep k content).tails.any p = true) ↔
      ∃ i, k * size - keep ≤ i ∧ p ((content.take ((k + 1) * size)).drop i) = true := by
  rw [List.any_eq_true]
  constructor
  · rintro ⟨rest, hrest, hp⟩
    rw [List.mem_tails] at hrest
    obtain ⟨before, hbefore⟩ := hrest
    have hdrop : rest = (window size keep k content).drop before.length := by
      rw [← hbefore, List.drop_left]
    rw [hdrop, window, List.drop_drop] at hp
    exact ⟨_, Nat.le_add_right _ _, hp⟩
  · rintro ⟨i, hi, hp⟩
    refine ⟨_, ?_, hp⟩
    obtain ⟨d, rfl⟩ := Nat.exists_eq_add_of_le hi
    rw [List.mem_tails, window, ← List.drop_drop]
    exact List.drop_suffix _ _

end Scan

end Windows
