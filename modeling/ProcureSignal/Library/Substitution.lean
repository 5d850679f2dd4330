/-
# Substitution of matches

`re.sub` for a pattern `(g)r` whose first part is a group: the text falls into characters outside
of every match and matches, each with the text of its group and the rest of it.

* `matchGroup` : the first match at a position;
* `ends_star_seq`, `ends_ignoringCase`, `ends_anyOf` : the ends of a match, pattern by pattern;
* `Piece`, `pieces` : how a substitution takes a text apart;
* `Reached`, `copied_eq_false_iff` : **which characters are behind a group**.
-/
import ProcureSignal.Library.Regex

/-! ## Positions -/

namespace Cursor

/-- The position behind the next `n` characters. -/
def advance (c : Cursor) (n : ℕ) : Cursor := ⟨(c.rest.take n).getLast?.or c.before, c.rest.drop n⟩

/-- A position of a text. -/
def ofText (text : List Char) (p : ℕ) : Cursor := ⟨(text.take p).getLast?, text.drop p⟩

theorem advance_cons (before : Option Char) (x : Char) (xs : List Char) (n : ℕ) :
    advance ⟨before, x :: xs⟩ (n + 1) = advance ⟨some x, xs⟩ n := by
  rw [advance, advance, List.take_succ_cons, List.drop_succ_cons, List.getLast?_cons]
  cases h : (xs.take n).getLast? <;> simp

theorem advance_ofText (text : List Char) (p n : ℕ) :
    (ofText text p).advance n = ofText text (p + n) := by
  rw [advance, ofText, ofText, List.take_add, List.getLast?_append, List.drop_drop]

theorem advance_advance (c : Cursor) (n k : ℕ) : (c.advance n).advance k = c.advance (n + k) := by
  rw [advance, advance, advance, List.take_add, List.getLast?_append, List.drop_drop,
    Option.or_assoc]

theorem advance_append (before : Option Char) (xs ys : List Char) :
    advance ⟨before, xs ++ ys⟩ xs.length = ⟨xs.getLast?.or before, ys⟩ := by
  rw [advance, List.take_left, List.drop_left]

end Cursor

namespace Regex

/-! ## Patterns -/

/-- One of several patterns, tried in order. -/
def anyOf (rs : List Regex) : Regex := rs.foldr .alt (.look fun _ _ => false)

/-- `r?` -/
def optional (r : Regex) : Regex := .alt r (.look fun _ _ => true)

/-- `r+` -/
def plus (r : Regex) : Regex := .seq r (.star r)

/-- A text, up to a folding of its characters. -/
def foldedText (fold : Char → Char) (cs : List Char) : Regex :=
  cs.foldr (fun x r => .seq (.char fun c => fold c = x) r) (.look fun _ _ => true)

theorem ends_seq (r s : Regex) (c : Cursor) : (seq r s).ends c = (r.ends c).flatMap s.ends := rfl

theorem ends_anyOf (rs : List Regex) (c : Cursor) :
    (anyOf rs).ends c = rs.flatMap fun r => r.ends c := by
  induction rs with
  | nil => rfl
  | cons r rs ih =>
      rw [List.flatMap_cons, ← ih]
      rfl

theorem ends_optional (r : Regex) (c : Cursor) : (optional r).ends c = r.ends c ++ [c] := rfl

/-- A folded text ends behind its characters. -/
theorem ends_foldedText (fold : Char → Char) (cs : List Char) (c : Cursor) :
    (foldedText fold cs).ends c =
      if (c.rest.take cs.length).map fold = cs then [c.advance cs.length] else [] := by
  induction cs generalizing c with
  | nil => exact (if_pos rfl).symm
  | cons x cs ih =>
      obtain ⟨before, rest⟩ := c
      have hstep : (foldedText fold (x :: cs)).ends ⟨before, rest⟩ =
          ((Regex.char fun c => fold c = x).ends ⟨before, rest⟩).flatMap
            (foldedText fold cs).ends := rfl
      rw [hstep]
      cases rest with
      | nil => rfl
      | cons y rest =>
          simp only [List.length_cons, List.take_succ_cons, List.map_cons, List.cons.injEq,
            Cursor.advance_cons]
          by_cases hy : fold y = x
          · simp only [ends, hy, decide_true, if_true, List.flatMap_cons, List.flatMap_nil,
              List.append_nil, ih, true_and]
          · simp only [ends, hy, decide_false, Bool.false_eq_true, if_false, List.flatMap_nil,
              false_and]

section Star

variable (p : Char → Bool) (s : Regex)

theorem ends_star_nil (before : Option Char) :
    (star (.char p)).ends ⟨before, []⟩ = [⟨before, []⟩] := rfl

theorem ends_star_cons (before : Option Char) (x : Char) (xs : List Char) :
    (star (.char p)).ends ⟨before, x :: xs⟩ =
      if p x then (star (.char p)).ends ⟨some x, xs⟩ ++ [⟨before, x :: xs⟩]
      else [⟨before, x :: xs⟩] := by
  simp only [ends, List.length_cons, repeatUpTo]
  by_cases hx : p x = true
  · simp [hx]
  · simp [hx]

/-- A repetition and what follows it, one character further. -/
theorem ends_star_seq_cons (before : Option Char) (x : Char) (xs : List Char) :
    (seq (star (.char p)) s).ends ⟨before, x :: xs⟩ =
      if p x then (seq (star (.char p)) s).ends ⟨some x, xs⟩ ++ s.ends ⟨before, x :: xs⟩
      else s.ends ⟨before, x :: xs⟩ := by
  rw [ends_seq, ends_star_cons]
  split
  · rw [List.flatMap_append, ends_seq, List.flatMap_singleton]
  · rw [List.flatMap_singleton]

theorem ends_star_seq_nil (before : Option Char) :
    (seq (star (.char p)) s).ends ⟨before, []⟩ = s.ends ⟨before, []⟩ := by
  rw [ends_seq, ends_star_nil, List.flatMap_singleton]

variable {p s}

/-- A repetition that cannot begin. -/
theorem ends_star_seq_of_head {rest : List Char} (hrest : ∀ x ∈ rest.head?, p x = false)
    (before : Option Char) :
    (seq (star (.char p)) s).ends ⟨before, rest⟩ = s.ends ⟨before, rest⟩ := by
  cases rest with
  | nil => exact ends_star_seq_nil p s before
  | cons x xs => rw [ends_star_seq_cons, if_neg (by rw [hrest x rfl]; decide)]

/-- The first end of a repetition and what follows it is behind the longest repetition. -/
theorem exists_ends_star_seq {run rest : List Char} (hrun : ∀ x ∈ run, p x = true)
    (hrest : ∀ x ∈ rest.head?, p x = false) (before : Option Char) :
    ∃ l, (seq (star (.char p)) s).ends ⟨before, run ++ rest⟩ =
      s.ends (Cursor.advance ⟨before, run ++ rest⟩ run.length) ++ l := by
  induction run generalizing before with
  | nil =>
      refine ⟨[], ?_⟩
      rw [List.append_nil]
      exact ends_star_seq_of_head hrest before
  | cons x run ih =>
      obtain ⟨l, hl⟩ := ih (fun y hy => hrun y (List.mem_cons_of_mem x hy)) (some x)
      refine ⟨l ++ s.ends ⟨before, x :: (run ++ rest)⟩, ?_⟩
      rw [List.cons_append, ends_star_seq_cons, if_pos (hrun x List.mem_cons_self), hl,
        List.length_cons, Cursor.advance_cons, List.append_assoc]

/-- Where what follows matches no character of the repetition, the repetition is the longest. -/
theorem ends_star_seq {run rest : List Char} (hrun : ∀ x ∈ run, p x = true)
    (hrest : ∀ x ∈ rest.head?, p x = false)
    (hfail : ∀ before x xs, p x = true → s.ends ⟨before, x :: xs⟩ = []) (before : Option Char) :
    (seq (star (.char p)) s).ends ⟨before, run ++ rest⟩ =
      s.ends (Cursor.advance ⟨before, run ++ rest⟩ run.length) := by
  induction run generalizing before with
  | nil => exact ends_star_seq_of_head hrest before
  | cons x run ih =>
      rw [List.cons_append, ends_star_seq_cons, if_pos (hrun x List.mem_cons_self),
        ih (fun y hy => hrun y (List.mem_cons_of_mem x hy)), List.length_cons, Cursor.advance_cons,
        hfail before x _ (hrun x List.mem_cons_self), List.append_nil]

/-- Where what follows matches nowhere in a run to the end of the text, nothing does. -/
theorem ends_star_seq_eq_nil {run : List Char} (hrun : ∀ x ∈ run, p x = true)
    (hfail : ∀ before xs, (∀ x ∈ xs, p x = true) → s.ends ⟨before, xs⟩ = [])
    (before : Option Char) : (seq (star (.char p)) s).ends ⟨before, run⟩ = [] := by
  induction run generalizing before with
  | nil => exact (ends_star_seq_nil p s before).trans (hfail before [] hrun)
  | cons x run ih =>
      rw [ends_star_seq_cons, if_pos (hrun x List.mem_cons_self),
        ih fun y hy => hrun y (List.mem_cons_of_mem x hy), hfail before _ hrun, List.append_nil]

end Star

/-! ## Substitution -/

/-- The match at a position that comes first, with the end of its group. -/
def matchGroup (g r : Regex) (c : Cursor) : Option (Cursor × Cursor) :=
  ((g.ends c).flatMap fun d => (r.ends d).map fun e => (d, e)).head?

/-- The text between two positions. -/
def between (c d : Cursor) : List Char := c.rest.take (c.rest.length - d.rest.length)

/-- A part of a text: a character outside of every match, or a match, with the text of its group and
the rest of it. -/
inductive Piece
  | kept (c : Char)
  | redaction (word hidden : List Char)
  deriving DecidableEq, Repr

namespace Piece

/-- The text of a piece. -/
def text : Piece → List Char
  | kept c => [c]
  | redaction word hidden => word ++ hidden

/-- Which characters of a piece are in its output. -/
def copied : Piece → List Bool
  | kept _ => [true]
  | redaction word hidden => List.replicate word.length true ++ List.replicate hidden.length false

theorem length_copied (piece : Piece) : piece.copied.length = piece.text.length := by
  cases piece with
  | kept c => rfl
  | redaction word hidden => simp [copied, text]

end Piece

/-- What matches at a position: the text of the group, and the rest of the match. -/
abbrev Matcher := Cursor → Option (List Char × List Char)

/-- The first match, as two texts. -/
def matched (g r : Regex) : Matcher := fun c =>
  (matchGroup g r c).map fun (d, e) => (between c d, between d e)

/-- How a substitution takes a text apart, `skip` characters of the last match to go. -/
def piecesFrom (m : Matcher) : ℕ → Option Char → List Char → List Piece
  | _, _, [] => []
  | skip + 1, _, c :: cs => piecesFrom m skip (some c) cs
  | 0, before, c :: cs =>
      match m ⟨before, c :: cs⟩ with
      | none => .kept c :: piecesFrom m 0 (some c) cs
      | some (word, hidden) =>
          .redaction word hidden :: piecesFrom m (word.length + hidden.length - 1) (some c) cs

/-- How a substitution takes a text apart. -/
def pieces (m : Matcher) (text : List Char) : List Piece := piecesFrom m 0 none text

/-- `re.sub`, the replacement a function of the group. -/
def sub (m : Matcher) (replace : List Char → List Char) (text : List Char) : List Char :=
  (pieces m text).flatMap fun
    | .kept c => [c]
    | .redaction word _ => replace word

/-- The characters of a text that are outside of every match, or in the group of one. -/
def copied (m : Matcher) (text : List Char) : List Bool := (pieces m text).flatMap Piece.copied

/-- A matcher matches what is there, and more than nothing behind the group. -/
structure Matcher.Sound (m : Matcher) : Prop where
  text : ∀ c word hidden, m c = some (word, hidden) → word ++ hidden <+: c.rest
  hidden : ∀ c word hidden, m c = some (word, hidden) → hidden ≠ []

/-- The positions at which a substitution looks for a match. -/
inductive Reached (m : Matcher) (text : List Char) : ℕ → Prop
  | start : Reached m text 0
  | skip {p : ℕ} : Reached m text p → p < text.length → m (.ofText text p) = none →
      Reached m text (p + 1)
  | redact {p : ℕ} {word hidden : List Char} : Reached m text p →
      m (.ofText text p) = some (word, hidden) → Reached m text (p + (word.length + hidden.length))

section Pieces

variable {m : Matcher}

theorem piecesFrom_skip (m : Matcher) (n : ℕ) (c : Cursor) (hn : n ≤ c.rest.length) :
    piecesFrom m n c.before c.rest = piecesFrom m 0 (c.advance n).before (c.advance n).rest := by
  induction n generalizing c with
  | zero => rfl
  | succ n ih =>
      obtain ⟨before, rest⟩ := c
      cases rest with
      | nil => cases hn
      | cons x xs =>
          rw [Cursor.advance_cons]
          exact ih ⟨some x, xs⟩ (Nat.le_of_succ_le_succ hn)

/-- The pieces from a position on: a character, or a match and what is behind it. -/
theorem piecesFrom_eq (hm : m.Sound) (c : Cursor) :
    piecesFrom m 0 c.before c.rest =
      match m c, c.rest with
      | _, [] => []
      | none, x :: _ => .kept x :: piecesFrom m 0 (c.advance 1).before (c.advance 1).rest
      | some (word, hidden), _ :: _ => .redaction word hidden ::
          piecesFrom m 0 (c.advance (word.length + hidden.length)).before
            (c.advance (word.length + hidden.length)).rest := by
  obtain ⟨before, rest⟩ := c
  cases rest with
  | nil => cases m ⟨before, []⟩ <;> rfl
  | cons x xs =>
      simp only [piecesFrom]
      cases hmatch : m ⟨before, x :: xs⟩ with
      | none => rfl
      | some found =>
          obtain ⟨word, hidden⟩ := found
          have hlength := (hm.text _ _ _ hmatch).length_le
          have hpos := List.length_pos_iff.mpr (hm.hidden _ _ _ hmatch)
          rw [List.length_append, List.length_cons] at hlength
          obtain ⟨n, hn⟩ : ∃ n, word.length + hidden.length = n + 1 :=
            ⟨word.length + hidden.length - 1, by omega⟩
          dsimp only
          rw [hn, Nat.add_sub_cancel, Cursor.advance_cons]
          exact congrArg _ (piecesFrom_skip m n ⟨some x, xs⟩ (by dsimp only; omega))

theorem Matcher.Sound.length_le (hm : m.Sound) {c : Cursor} {word hidden : List Char}
    (h : m c = some (word, hidden)) : word.length + hidden.length ≤ c.rest.length := by
  rw [← List.length_append]
  exact (hm.text _ _ _ h).length_le

theorem Matcher.Sound.length_pos (hm : m.Sound) {c : Cursor} {word hidden : List Char}
    (h : m c = some (word, hidden)) : 0 < hidden.length :=
  List.length_pos_iff.mpr (hm.hidden _ _ _ h)

/-- **Induction along a substitution**: a character outside of the matches, or a match. -/
theorem pieces_induction (hm : m.Sound) {motive : Cursor → Prop}
    (nil : ∀ before, motive ⟨before, []⟩)
    (kept : ∀ (c : Cursor) x xs, c.rest = x :: xs → m c = none → motive (c.advance 1) → motive c)
    (redact : ∀ (c : Cursor) word hidden, m c = some (word, hidden) →
      motive (c.advance (word.length + hidden.length)) → motive c) (c : Cursor) : motive c := by
  induction hn : c.rest.length using Nat.strong_induction_on generalizing c with
  | _ n ih =>
      have hadvance : ∀ k, 0 < k → k ≤ c.rest.length → motive (c.advance k) := by
        intro k hk hle
        refine ih (c.advance k).rest.length ?_ (c.advance k) rfl
        rw [Cursor.advance, List.length_drop]
        omega
      cases hmatch : m c with
      | some found =>
          obtain ⟨word, hidden⟩ := found
          have hpos := hm.length_pos hmatch
          exact redact c word hidden hmatch (hadvance _ (by omega) (hm.length_le hmatch))
      | none =>
          cases hrest : c.rest with
          | nil =>
              obtain ⟨before, rest⟩ := c
              subst hrest
              exact nil before
          | cons x xs =>
              refine kept c x xs hrest hmatch (hadvance 1 Nat.one_pos ?_)
              rw [hrest]
              exact Nat.succ_le_succ (Nat.zero_le _)

theorem piecesFrom_of_none (hm : m.Sound) {c : Cursor} {x : Char} {xs : List Char}
    (hrest : c.rest = x :: xs) (h : m c = none) : piecesFrom m 0 c.before c.rest =
      .kept x :: piecesFrom m 0 (c.advance 1).before (c.advance 1).rest := by
  rw [piecesFrom_eq hm c, h, hrest]

theorem piecesFrom_of_some (hm : m.Sound) {c : Cursor} {word hidden : List Char}
    (h : m c = some (word, hidden)) : piecesFrom m 0 c.before c.rest =
      .redaction word hidden :: piecesFrom m 0 (c.advance (word.length + hidden.length)).before
        (c.advance (word.length + hidden.length)).rest := by
  have hle := hm.length_le h
  have hpos := hm.length_pos h
  cases hrest : c.rest with
  | nil =>
      rw [hrest, List.length_nil] at hle
      omega
  | cons x xs => rw [← hrest, piecesFrom_eq hm c, h, hrest]

/-- **The pieces are the text.** -/
theorem flatMap_text_piecesFrom (hm : m.Sound) (c : Cursor) :
    (piecesFrom m 0 c.before c.rest).flatMap Piece.text = c.rest := by
  induction c using pieces_induction hm with
  | nil before => rfl
  | kept c x xs hrest hmatch ih =>
      rw [piecesFrom_of_none hm hrest hmatch, List.flatMap_cons, ih, Cursor.advance, hrest]
      rfl
  | redact c word hidden hmatch ih =>
      rw [piecesFrom_of_some hm hmatch, List.flatMap_cons, ih]
      obtain ⟨after, hafter⟩ := hm.text _ _ _ hmatch
      rw [Cursor.advance, ← hafter, ← List.length_append, List.drop_left]
      rfl

theorem length_flatMap_copied (ps : List Piece) :
    (ps.flatMap Piece.copied).length = (ps.flatMap Piece.text).length := by
  rw [List.length_flatMap, List.length_flatMap]
  exact congrArg List.sum (List.map_congr_left fun piece _ => piece.length_copied)

theorem length_copied (hm : m.Sound) (text : List Char) :
    (copied m text).length = text.length := by
  rw [copied, length_flatMap_copied, pieces]
  exact congrArg List.length (flatMap_text_piecesFrom hm ⟨none, text⟩)

/-- The pieces before a position at which a match is looked for, and behind it. -/
theorem exists_front_of_reached (hm : m.Sound) {text : List Char} {p : ℕ}
    (h : Reached m text p) : p ≤ text.length ∧ ∃ front,
      pieces m text = front ++
        piecesFrom m 0 (Cursor.ofText text p).before (Cursor.ofText text p).rest ∧
      (front.flatMap Piece.copied).length = p := by
  induction h with
  | start => exact ⟨Nat.zero_le _, [], rfl, rfl⟩
  | @skip p _ hlt hnone ih =>
      obtain ⟨-, front, hfront, hlength⟩ := ih
      refine ⟨hlt, front ++ [.kept text[p]], ?_, ?_⟩
      · rw [hfront, piecesFrom_of_none hm (List.drop_eq_getElem_cons hlt) hnone,
          Cursor.advance_ofText, List.append_assoc]
        rfl
      · rw [List.flatMap_append, List.length_append, hlength]
        rfl
  | @redact p word hidden _ hsome ih =>
      obtain ⟨hle, front, hfront, hlength⟩ := ih
      have hmatch := hm.length_le hsome
      rw [Cursor.ofText, List.length_drop] at hmatch
      refine ⟨by omega, front ++ [.redaction word hidden], ?_, ?_⟩
      · rw [hfront, piecesFrom_of_some hm hsome, Cursor.advance_ofText, List.append_assoc]
        rfl
      · rw [List.flatMap_append, List.length_append, hlength, List.flatMap_singleton,
          Piece.length_copied, Piece.text, List.length_append]

/-- A character behind the group of a match that is found from a position on. -/
theorem exists_reached_of_copied (hm : m.Sound) (text : List Char) (c : Cursor) :
    ∀ p, Reached m text p → c = .ofText text p → ∀ j : ℕ,
      ((piecesFrom m 0 c.before c.rest).flatMap Piece.copied)[j]? = some false →
        ∃ q word hidden, Reached m text q ∧ m (.ofText text q) = some (word, hidden) ∧
          q + word.length ≤ p + j ∧ p + j < q + (word.length + hidden.length) := by
  induction c using pieces_induction hm with
  | nil before =>
      intro p _ _ j hj
      cases hj
  | kept c x xs hrest hmatch ih =>
      rintro p hp rfl j hj
      have hlt : p < text.length := by
        have hlength := congrArg List.length hrest
        rw [Cursor.ofText, List.length_drop, List.length_cons] at hlength
        omega
      rw [piecesFrom_of_none hm hrest hmatch, List.flatMap_cons] at hj
      cases j with
      | zero => cases hj
      | succ j =>
          obtain ⟨q, word, hidden, hq, hfound, hle, hlt'⟩ := ih (p + 1) (hp.skip hlt hmatch)
            (Cursor.advance_ofText text p 1) j hj
          exact ⟨q, word, hidden, hq, hfound, by omega, by omega⟩
  | redact c word hidden hmatch ih =>
      rintro p hp rfl j hj
      rw [piecesFrom_of_some hm hmatch, List.flatMap_cons, List.getElem?_append,
        Piece.length_copied, Piece.text, List.length_append] at hj
      split at hj
      · rename_i hlt
        refine ⟨p, word, hidden, hp, hmatch, ?_, by omega⟩
        by_contra hgt
        rw [Piece.copied, List.getElem?_append_left (by rw [List.length_replicate]; omega),
          List.getElem?_replicate, if_pos (by omega)] at hj
        cases hj
      · rename_i hge
        obtain ⟨q, word', hidden', hq, hfound, hle, hlt'⟩ := ih _ (hp.redact hmatch)
          (Cursor.advance_ofText text p _) _ hj
        exact ⟨q, word', hidden', hq, hfound, by omega, by omega⟩

/-- **Which characters a substitution drops**: those of the matches it finds, behind the group. -/
theorem copied_eq_false_iff (hm : m.Sound) {text : List Char} {i : ℕ} :
    (copied m text)[i]? = some false ↔ ∃ q word hidden, Reached m text q ∧
      m (.ofText text q) = some (word, hidden) ∧ q + word.length ≤ i ∧
        i < q + (word.length + hidden.length) := by
  constructor
  · intro h
    have hreached := exists_reached_of_copied hm text _ 0 .start rfl i h
    simpa only [Nat.zero_add] using hreached
  · rintro ⟨q, word, hidden, hq, hfound, hle, hlt⟩
    obtain ⟨-, front, hfront, hlength⟩ := exists_front_of_reached hm hq
    rw [copied, hfront, piecesFrom_of_some hm hfound, List.flatMap_append, List.flatMap_cons,
      List.getElem?_append_right (by omega), hlength,
      List.getElem?_append_left
        (by rw [Piece.length_copied, Piece.text, List.length_append]; omega),
      Piece.copied, List.getElem?_append_right (by rw [List.length_replicate]; omega),
      List.getElem?_replicate, if_pos (by rw [List.length_replicate]; omega)]

end Pieces

end Regex
