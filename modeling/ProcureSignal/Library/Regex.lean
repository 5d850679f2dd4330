/-
# A backtracking matcher

The part of Python's `re` that the source uses: classes of characters, sequences, ordered
alternatives, greedy repetitions, and conditions on the two characters around a position
(`\b` and the look-arounds of one character).  A matcher returns every position at which a
match can end, the preferred one first.

* `Regex.search` : `re.search` finds a match;
* `Regex.findAll` : the texts of `re.finditer`;
* `Regex.phrase` : a literal text with a condition on its neighbours.
-/
import Mathlib

/-- A position in a text: the character before it and the text after it. -/
structure Cursor where
  before : Option Char
  rest : List Char
  deriving DecidableEq, Repr

/-- The patterns. -/
inductive Regex
  | char (p : Char → Bool)
  | seq (r s : Regex)
  | alt (r s : Regex)
  /-- `r*` -/
  | star (r : Regex)
  /-- `r{0,n}` -/
  | upTo (n : ℕ) (r : Regex)
  /-- A condition on the characters before and after the position. -/
  | look (p : Option Char → Option Char → Bool)

namespace Regex

/-- Repeat a matcher at most `n` times, as often as it can first. -/
def repeatUpTo (f : Cursor → List Cursor) : ℕ → Cursor → List Cursor
  | 0, c => [c]
  | n + 1, c => (f c).flatMap (repeatUpTo f n) ++ [c]

/-- Where a match that starts at the position can end.  A repetition that consumes nothing is
not repeated, so `r*` goes around at most once for each character. -/
def ends : Regex → Cursor → List Cursor
  | .char _, ⟨_, []⟩ => []
  | .char p, ⟨_, c :: cs⟩ => if p c then [⟨some c, cs⟩] else []
  | .seq r s, c => (r.ends c).flatMap s.ends
  | .alt r s, c => r.ends c ++ s.ends c
  | .star r, c =>
      repeatUpTo (fun d => (r.ends d).filter fun e => e.rest.length < d.rest.length)
        c.rest.length c
  | .upTo n r, c => repeatUpTo r.ends n c
  | .look p, c => if p c.before c.rest.head? then [c] else []

/-- `re.search` from a position on. -/
def searchFrom (r : Regex) : Option Char → List Char → Bool
  | before, [] => !(r.ends ⟨before, []⟩).isEmpty
  | before, c :: cs => !(r.ends ⟨before, c :: cs⟩).isEmpty || r.searchFrom (some c) cs

/-- `re.search(r, s) is not None`. -/
def search (r : Regex) (s : String) : Bool := r.searchFrom none s.toList

/-- The matches from a position on, after `skip` characters of the last one. -/
def findFrom (r : Regex) : ℕ → Option Char → List Char → List (List Char)
  | _, _, [] => []
  | skip + 1, _, c :: cs => r.findFrom skip (some c) cs
  | 0, before, c :: cs =>
      match r.ends ⟨before, c :: cs⟩ with
      | [] => r.findFrom 0 (some c) cs
      | e :: _ =>
          let n := (c :: cs).length - e.rest.length
          (c :: cs).take n :: r.findFrom (n - 1) (some c) cs

/-- `[m.group() for m in re.finditer(r, s)]`, for a pattern that matches no empty text. -/
def findAll (r : Regex) (s : String) : List String :=
  (r.findFrom 0 none s.toList).map String.ofList

/-- The characters of a text, one after the other. -/
def literal (cs : List Char) : Regex :=
  cs.foldr (fun c r => .seq (.char (· = c)) r) (.look fun _ _ => true)

/-- `(?<![p])text(?![p])`: a text without a character of a class before or after it. -/
def phrase (p : Char → Bool) (text : String) : Regex :=
  .seq (.look fun before _ => !before.any p)
    (.seq (literal text.toList) (.look fun _ after => !after.any p))

end Regex
