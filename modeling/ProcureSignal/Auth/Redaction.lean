/-
# What a redaction matches

`redact_secrets_in_text` of `auth/audit.py` : every match of `_INLINE_SECRET` in a text becomes the
word that names a credential and a mark.

* `inlineSecret` : the pattern, the word its group;
* `Redaction` : what it matches at a position, in words of the text;
* `inlineSecret_eq_some`, `nonempty_redaction` : **what is found at a position is the redaction**
  there.
-/
import ProcureSignal.Auth.Audit
import ProcureSignal.Library.Ascii
import ProcureSignal.Library.Substitution

namespace ProcureSignal.Audit

open Regex (anyOf foldedText optional plus)

/-! ## The pattern -/

/-- `IGNORECASE`, on a pattern of small ASCII letters: the letter that a character matches.  Beside
the capital letters these are the dotted and the dotless i, the long s and the Kelvin sign. -/
def foldCase (c : Char) : Char :=
  if c.toNat = 0x130 ∨ c.toNat = 0x131 then 'i'
  else if c.toNat = 0x17F then 's'
  else if c.toNat = 0x212A then 'k'
  else Unicode.asciiLower c

/-- `\w` -/
def isWord (U : Unicode) (c : Char) : Bool := U.isAlnum c || c = '_'

/-- `\b` -/
def boundary (U : Unicode) : Regex :=
  .look fun before after => before.any (isWord U) != after.any (isWord U)

/-- The schemes of `_INLINE_SECRET`. -/
def schemes : List String := ["bearer", "basic", "token", "digest"]

/-- One of several texts, in any case. -/
def anyCase (texts : List String) : Regex :=
  anyOf (texts.map fun text => foldedText foldCase text.toList)

/-- The separators. -/
def isSeparator (c : Char) : Bool := c = ':' || c = '='

/-- `_INLINE_SECRET` to the end of its group. -/
def secretWord (U : Unicode) : Regex := .seq (boundary U) (anyCase sensitiveKeyParts)

/-- `\s*\S+` -/
def nextRun (U : Unicode) : Regex :=
  .seq (.star (.char U.isSpace)) (plus (.char fun c => !U.isSpace c))

/-- `\s*(?:bearer|basic|token|digest)?\s*\S+` -/
def secretValue (U : Unicode) : Regex :=
  .seq (.star (.char U.isSpace)) (.seq (optional (anyCase schemes)) (nextRun U))

/-- The rest of `_INLINE_SECRET`. -/
def secretRest (U : Unicode) : Regex :=
  .seq (boundary U) (.seq (.star (.char U.isSpace)) (.seq (.char isSeparator) (secretValue U)))

/-- `_INLINE_SECRET` -/
def inlineSecret (U : Unicode) : Regex.Matcher := Regex.matched (secretWord U) (secretRest U)

/-- `redact_secrets_in_text`. -/
def redactSecretsInText (U : Unicode) (text : String) : String :=
  String.ofList (Regex.sub (inlineSecret U) (fun word => word ++ "=[redacted]".toList) text.toList)

example : redactSecretsInText Unicode.ascii "auth failed for password=hunter2 at db" =
    "auth failed for password=[redacted] at db" := by decide +kernel

/-! ## What it matches -/

/-- The text is one of these in some case. -/
def IsCaseOf (texts : List String) (word : List Char) : Prop :=
  String.ofList (word.map foldCase) ∈ texts

/-- A run of characters other than white space, to its end. -/
structure IsRun (U : Unicode) (run after : List Char) : Prop where
  ne_nil : run ≠ []
  solid : ∀ c ∈ run, U.isSpace c = false
  after : ∀ c ∈ after.head?, U.isSpace c = true

/-- White space. -/
def IsBlank (U : Unicode) (blank : List Char) : Prop := ∀ c ∈ blank, U.isSpace c = true

/-- What is masked behind the separator, with what follows it: the next run, and where that is a
scheme before another run, this one too. -/
inductive Value (U : Unicode) : List Char → List Char → Prop
  | run {blank run after : List Char} (hblank : IsBlank U blank) (hrun : IsRun U run after)
      (hscheme : IsCaseOf schemes run → IsBlank U after) : Value U (blank ++ run) after
  | schemed {blank scheme gap run after : List Char} (hblank : IsBlank U blank)
      (hscheme : IsCaseOf schemes scheme) (hsolid : IsRun U scheme (gap ++ (run ++ after)))
      (hgap : IsBlank U gap) (hrun : IsRun U run after) :
      Value U (blank ++ (scheme ++ (gap ++ run))) after

/-- What a redaction at a position matches. -/
structure Redaction (U : Unicode) (c : Cursor) where
  word : List Char
  blank : List Char
  separator : Char
  value : List Char
  after : List Char
  text : c.rest = word ++ (blank ++ separator :: (value ++ after))
  boundary : c.before.any (isWord U) ≠ word.head?.any (isWord U)
  isWord : IsCaseOf sensitiveKeyParts word
  isBlank : IsBlank U blank
  isSeparator : isSeparator separator = true
  isValue : Value U value after

/-- The character database agrees with ASCII, and the letters beyond ASCII that match a small letter
are no white space. -/
structure TextLaws (U : Unicode) : Prop extends U.AsciiLaws where
  isAlnum : ∀ c, c.toNat < 0x80 → U.isAlnum c = Unicode.asciiAlnum c
  solid : ∀ c, c.toNat ∈ [0x130, 0x131, 0x17F, 0x212A] → U.isSpace c = false

theorem ascii_textLaws : TextLaws Unicode.ascii where
  toAsciiLaws := Unicode.ascii_asciiLaws
  isAlnum _ _ := rfl
  solid c hc := by
    show Unicode.asciiSpace c = false
    simp only [List.mem_cons, List.not_mem_nil, or_false] at hc
    simp only [Unicode.asciiSpace, Bool.or_eq_false_iff, Bool.and_eq_false_iff,
      decide_eq_false_iff_not]
    omega

section Laws

variable {U : Unicode} (laws : TextLaws U)

/-- What matches a small letter or an underscore is a capital letter, one of the four, or itself. -/
theorem foldCase_cases (c : Char) : c.toNat ∈ [0x130, 0x131, 0x17F, 0x212A] ∨
    (65 ≤ c.toNat ∧ c.toNat ≤ 90) ∨ foldCase c = c := by
  unfold foldCase
  split_ifs with h₁ h₂ h₃
  · rcases h₁ with h | h <;> simp [h]
  · simp [h₂]
  · simp [h₃]
  · unfold Unicode.asciiLower
    split_ifs with h
    · exact Or.inr (Or.inl h)
    · exact Or.inr (Or.inr rfl)

include laws

theorem isSpace_of_isSeparator {c : Char} (h : isSeparator c = true) : U.isSpace c = false := by
  simp only [isSeparator, Bool.or_eq_true, decide_eq_true_eq] at h
  rcases h with rfl | rfl <;> exact laws.isSpace _ (by decide)

theorem isWord_of_isSeparator {c : Char} (h : isSeparator c = true) : isWord U c = false := by
  simp only [isSeparator, Bool.or_eq_true, decide_eq_true_eq] at h
  rcases h with rfl | rfl <;> rw [isWord, laws.isAlnum _ (by decide)] <;> decide

theorem isWord_of_isSpace {c : Char} (h : U.isSpace c = true) : isWord U c = false := by
  rw [isWord, Bool.or_eq_false_iff, decide_eq_false_iff_not]
  refine ⟨?_, ?_⟩
  · by_contra halnum
    rw [U.isSpace_of_isAlnum c (Bool.eq_true_of_not_eq_false halnum)] at h
    cases h
  · rintro rfl
    rw [laws.isSpace _ (by decide)] at h
    revert h
    decide

/-- What matches a letter is no white space. -/
theorem isSpace_of_foldCase {c : Char} (h : U.isSpace (foldCase c) = false) :
    U.isSpace c = false := by
  rcases foldCase_cases c with hc | hc | hc
  · exact laws.solid c hc
  · rw [laws.isSpace c (by omega)]
    simp only [Unicode.asciiSpace, Bool.or_eq_false_iff, Bool.and_eq_false_iff,
      decide_eq_false_iff_not]
    omega
  · rwa [hc] at h

/-- The words and the schemes have no white space. -/
theorem solid_of_isCaseOf {texts : List String} {word : List Char}
    (htexts : ∀ text ∈ texts, ∀ c ∈ text.toList, c.toNat < 0x80 ∧ Unicode.asciiSpace c = false)
    (h : IsCaseOf texts word) : ∀ c ∈ word, U.isSpace c = false := by
  intro c hc
  obtain ⟨hascii, hspace⟩ := htexts _ h (foldCase c) (by
    rw [String.toList_ofList]
    exact List.mem_map_of_mem hc)
  exact isSpace_of_foldCase laws ((laws.isSpace _ hascii).trans hspace)

omit laws in
theorem sensitiveKeyParts_ascii : ∀ text ∈ sensitiveKeyParts, ∀ c ∈ text.toList,
    c.toNat < 0x80 ∧ Unicode.asciiSpace c = false := by
  simp [sensitiveKeyParts, Unicode.asciiSpace]

omit laws in
theorem schemes_ascii : ∀ text ∈ schemes, ∀ c ∈ text.toList,
    c.toNat < 0x80 ∧ Unicode.asciiSpace c = false := by
  simp [schemes, Unicode.asciiSpace]

/-- The last character of a sensitive word is a letter. -/
theorem isWord_getLast {word : List Char} (h : IsCaseOf sensitiveKeyParts word) :
    word.getLast?.any (isWord U) = true := by
  have hlast : ∀ part ∈ sensitiveKeyParts, ∃ x ∈ part.toList.getLast?,
      97 ≤ x.toNat ∧ x.toNat ≤ 122 ∧ x ≠ 'i' ∧ x ≠ 's' ∧ x ≠ 'k' := by
    simp [sensitiveKeyParts]
  obtain ⟨x, hx, hlow, hhigh, hi, hs, hk⟩ := hlast _ h
  rw [String.toList_ofList, Option.mem_def, List.getLast?_map, Option.map_eq_some_iff] at hx
  obtain ⟨c, hc, rfl⟩ := hx
  rw [hc]
  show isWord U c = true
  have hascii : c.toNat < 0x80 ∧ Unicode.asciiAlnum c = true := by
    have hfold : foldCase c = Unicode.asciiLower c := by
      unfold foldCase at hi hs hk ⊢
      split_ifs at hi hs hk ⊢
      · exact absurd rfl hi
      · exact absurd rfl hs
      · exact absurd rfl hk
      · rfl
    rw [hfold] at hlow hhigh
    unfold Unicode.asciiLower at hlow hhigh
    simp only [Unicode.asciiAlnum, Bool.or_eq_true, Bool.and_eq_true, decide_eq_true_eq]
    split_ifs at hlow hhigh <;> omega
  rw [isWord, laws.isAlnum c hascii.1, hascii.2]
  rfl

end Laws

/-! ## The matcher, part by part -/

/-- None of the texts starts another one. -/
def PrefixFree (texts : List String) : Prop :=
  texts.Nodup ∧ ∀ s ∈ texts, ∀ t ∈ texts, s.toList <+: t.toList → s = t

theorem sensitiveKeyParts_prefixFree : PrefixFree sensitiveKeyParts := by
  refine ⟨by decide, ?_⟩
  simp [sensitiveKeyParts]

theorem schemes_prefixFree : PrefixFree schemes := by
  refine ⟨by decide, ?_⟩
  simp [schemes]

theorem flatMap_ite_of_unique {α β : Type} {l : List α} (hnodup : l.Nodup) {P : α → Prop}
    [DecidablePred P] {f : α → β} {a : α} (ha : a ∈ l) (hP : P a) (h : ∀ b ∈ l, P b → b = a) :
    (l.flatMap fun b => if P b then [f b] else []) = [f a] := by
  induction l with
  | nil => cases ha
  | cons b l ih =>
      rw [List.nodup_cons] at hnodup
      rw [List.flatMap_cons]
      rcases List.mem_cons.mp ha with rfl | ha
      · have hrest : (l.flatMap fun b => if P b then [f b] else []) = [] :=
          List.flatMap_eq_nil_iff.mpr fun c hc => if_neg fun hPc =>
            hnodup.1 (h c (List.mem_cons_of_mem _ hc) hPc ▸ hc)
        rw [if_pos hP, hrest]
        rfl
      · have hb : ¬ P b := fun hPb => hnodup.1 (h b List.mem_cons_self hPb ▸ ha)
        rw [if_neg hb, List.nil_append, ih hnodup.2 ha fun c hc => h c (List.mem_cons_of_mem _ hc)]

theorem ends_anyCase (texts : List String) (c : Cursor) : (anyCase texts).ends c =
    texts.flatMap fun text =>
      if (c.rest.take text.toList.length).map foldCase = text.toList then
        [c.advance text.toList.length] else [] := by
  rw [anyCase, Regex.ends_anyOf, List.flatMap_map]
  exact List.flatMap_congr fun text _ => Regex.ends_foldedText foldCase text.toList c

/-- A text in some case is found, and no other one with it. -/
theorem ends_anyCase_of_isCaseOf {texts : List String} (hfree : PrefixFree texts) {word : List Char}
    (hword : IsCaseOf texts word) {c : Cursor} {rest : List Char} (hc : c.rest = word ++ rest) :
    (anyCase texts).ends c = [c.advance word.length] := by
  have hlength : (String.ofList (word.map foldCase)).toList.length = word.length := by
    rw [String.toList_ofList, List.length_map]
  have hmatch : (c.rest.take (String.ofList (word.map foldCase)).toList.length).map foldCase =
      (String.ofList (word.map foldCase)).toList := by
    rw [hlength, hc, List.take_left, String.toList_ofList]
  rw [ends_anyCase, ← hlength]
  refine flatMap_ite_of_unique hfree.1 hword hmatch fun text htext hfound => ?_
  -- both are what the text begins with, so one of them starts the other
  have hpref : ∀ n, (c.rest.take n).map foldCase <+: c.rest.map foldCase := fun n =>
    (List.take_prefix n c.rest).map foldCase
  rcases List.prefix_or_prefix_of_prefix (hfound ▸ hpref _) (hmatch ▸ hpref _) with h | h
  · exact hfree.2 text htext _ hword h
  · exact (hfree.2 _ hword text htext h).symm

/-- What is found is a text in some case. -/
theorem exists_of_mem_ends_anyCase {texts : List String} {c e : Cursor}
    (h : e ∈ (anyCase texts).ends c) :
    ∃ word rest, IsCaseOf texts word ∧ c.rest = word ++ rest ∧ e = c.advance word.length := by
  rw [ends_anyCase, List.mem_flatMap] at h
  obtain ⟨text, htext, he⟩ := h
  split at he
  · rename_i hmatch
    have hlength := congrArg List.length hmatch
    rw [List.length_map] at hlength
    refine ⟨c.rest.take text.toList.length, c.rest.drop text.toList.length, ?_,
      (List.take_append_drop _ _).symm, ?_⟩
    · rw [IsCaseOf, hmatch, String.ofList_toList]
      exact htext
    · rw [hlength]
      exact List.mem_singleton.mp he
  · cases he

section Run

variable {U : Unicode}

theorem mem_ends_boundary_iff {c e : Cursor} : e ∈ (boundary U).ends c ↔
    e = c ∧ c.before.any (isWord U) ≠ c.rest.head?.any (isWord U) := by
  rw [boundary, Regex.ends]
  split
  · rename_i h
    simpa using fun _ => bne_iff_ne.mp h
  · rename_i h
    exact iff_of_false List.not_mem_nil fun hne => h (bne_iff_ne.mpr hne.2)

theorem ends_boundary_of_ne {c : Cursor}
    (h : c.before.any (isWord U) ≠ c.rest.head?.any (isWord U)) : (boundary U).ends c = [c] :=
  if_pos (bne_iff_ne.mpr h)

/-- A run begins with no white space. -/
theorem isSpace_head?_of_isRun {run after : List Char} (hrun : IsRun U run after) :
    ∀ x ∈ (run ++ after).head?, U.isSpace x = false := by
  intro x hx
  obtain ⟨y, run', rfl⟩ := List.exists_cons_of_ne_nil hrun.ne_nil
  rw [List.cons_append, List.head?_cons, Option.mem_some_iff] at hx
  exact hrun.solid x (hx ▸ List.mem_cons_self)

theorem ends_solid_of_space {c : Cursor} {x : Char} (hx : c.rest.head? = some x)
    (hspace : U.isSpace x = true) : (plus (.char fun c => !U.isSpace c)).ends c = [] := by
  obtain ⟨before, rest⟩ := c
  cases rest with
  | nil => cases hx
  | cons y rest =>
      rw [List.head?_cons, Option.some_inj] at hx
      subst hx
      rw [plus, Regex.ends_seq]
      simp [Regex.ends, hspace]

/-- A run is matched to its end. -/
theorem exists_ends_run {before : Option Char} {run after : List Char} (hrun : IsRun U run after) :
    ∃ l, (plus (.char fun c => !U.isSpace c)).ends ⟨before, run ++ after⟩ =
      Cursor.advance ⟨before, run ++ after⟩ run.length :: l := by
  cases run with
  | nil => exact absurd rfl hrun.ne_nil
  | cons x run =>
      have hx := hrun.solid x List.mem_cons_self
      have hends : (plus (.char fun c => !U.isSpace c)).ends ⟨before, x :: (run ++ after)⟩ =
          (Regex.seq (.star (.char fun c => !U.isSpace c)) (.look fun _ _ => true)).ends
            ⟨some x, run ++ after⟩ := by
        rw [plus, Regex.ends_seq, Regex.ends_seq]
        simp [Regex.ends, hx]
      obtain ⟨l, hl⟩ := @Regex.exists_ends_star_seq (fun c => !U.isSpace c)
        (.look fun _ _ => true) run after
        (fun y hy => by rw [hrun.solid y (List.mem_cons_of_mem x hy)]; rfl)
        (fun y hy => by rw [hrun.after y hy]; rfl) (some x)
      refine ⟨l, ?_⟩
      rw [List.cons_append, hends, hl, List.length_cons, Cursor.advance_cons]
      rfl

/-- `\s*\S+` matches the next run. -/
theorem exists_ends_nextRun {before : Option Char} {blank run after : List Char}
    (hblank : IsBlank U blank) (hrun : IsRun U run after) :
    ∃ l, (nextRun U).ends ⟨before, blank ++ (run ++ after)⟩ =
      Cursor.advance ⟨before, blank ++ (run ++ after)⟩ (blank ++ run).length :: l := by
  have hskip := Cursor.advance_append before blank (run ++ after)
  obtain ⟨l, hl⟩ := @exists_ends_run U (blank.getLast?.or before) run after hrun
  refine ⟨l, ?_⟩
  rw [nextRun, Regex.ends_star_seq hblank (isSpace_head?_of_isRun hrun)
    fun b x xs hx => ends_solid_of_space rfl hx, hskip, hl, ← hskip, Cursor.advance_advance,
    List.length_append]

/-- `\s*\S+` matches nothing in white space to the end of the text. -/
theorem ends_nextRun_of_isBlank {before : Option Char} {rest : List Char} (h : IsBlank U rest) :
    (nextRun U).ends ⟨before, rest⟩ = [] := by
  refine Regex.ends_star_seq_eq_nil h (fun b xs hxs => ?_) before
  cases xs with
  | nil => rfl
  | cons x xs => exact ends_solid_of_space rfl (hxs x List.mem_cons_self)

/-- A text that is not all white space goes on with a run. -/
theorem exists_run_of_not_isBlank {rest : List Char} (h : ¬ IsBlank U rest) :
    ∃ blank run after, rest = blank ++ (run ++ after) ∧ IsBlank U blank ∧ IsRun U run after := by
  refine ⟨rest.takeWhile U.isSpace, (rest.dropWhile U.isSpace).takeWhile (!U.isSpace ·),
    (rest.dropWhile U.isSpace).dropWhile (!U.isSpace ·), ?_, fun c hc => List.mem_takeWhile_imp hc,
    ⟨?_, fun c hc => ?_, fun c hc => ?_⟩⟩
  · rw [List.takeWhile_append_dropWhile, List.takeWhile_append_dropWhile]
  · have hne : rest.dropWhile U.isSpace ≠ [] := fun hnil =>
      h (List.dropWhile_eq_nil_iff.mp hnil)
    obtain ⟨x, xs, hxs⟩ := List.exists_cons_of_ne_nil hne
    have hx : U.isSpace x = false := by
      have hhead := List.head_dropWhile_not U.isSpace hne
      simpa only [hxs, List.head_cons] using hhead
    rw [hxs, List.takeWhile_cons_of_pos (by rw [hx]; rfl)]
    exact List.cons_ne_nil _ _
  · have hsolid := List.mem_takeWhile_imp hc
    rwa [Bool.not_eq_true'] at hsolid
  · have hne : (rest.dropWhile U.isSpace).dropWhile (!U.isSpace ·) ≠ [] := by
      rintro hnil
      rw [hnil] at hc
      cases hc
    have hhead := List.head_dropWhile_not (!U.isSpace ·) hne
    rw [List.head?_eq_some_head hne, Option.mem_some_iff] at hc
    rw [hc, Bool.not_eq_false'] at hhead
    exact hhead

end Run

section Laws

variable {U : Unicode} (laws : TextLaws U)

include laws

/-- No scheme begins with white space. -/
theorem ends_schemes_of_isBlank {c : Cursor} (h : IsBlank U c.rest) :
    (anyCase schemes).ends c = [] := by
  refine List.eq_nil_iff_forall_not_mem.mpr fun e he => ?_
  obtain ⟨word, rest, hword, hrest, -⟩ := exists_of_mem_ends_anyCase he
  have hne : word ≠ [] := by
    rintro rfl
    revert hword
    simp [IsCaseOf, schemes]
  obtain ⟨x, xs, rfl⟩ := List.exists_cons_of_ne_nil hne
  have hspace := h x (by rw [hrest]; exact List.mem_cons_self)
  rw [solid_of_isCaseOf laws schemes_ascii hword x List.mem_cons_self] at hspace
  cases hspace

/-- The optional scheme and what is behind it: to the end of the run, unless the run is a scheme
before another one. -/
theorem exists_ends_optional {before : Option Char} {run after : List Char}
    (hrun : IsRun U run after) (hscheme : IsCaseOf schemes run → IsBlank U after) :
    ∃ l, (Regex.seq (optional (anyCase schemes)) (nextRun U)).ends ⟨before, run ++ after⟩ =
      Cursor.advance ⟨before, run ++ after⟩ run.length :: l := by
  obtain ⟨l, hl⟩ := @exists_ends_nextRun U before [] run after
    (fun _ h => absurd h List.not_mem_nil) hrun
  rw [List.nil_append, List.nil_append] at hl
  rw [Regex.ends_seq, Regex.ends_optional, List.flatMap_append, List.flatMap_singleton, hl]
  by_cases hnil : (anyCase schemes).ends ⟨before, run ++ after⟩ = []
  · rw [hnil]
    exact ⟨l, rfl⟩
  obtain ⟨e, he⟩ := List.exists_mem_of_ne_nil _ hnil
  obtain ⟨word, rest, hword, hrest, -⟩ := exists_of_mem_ends_anyCase he
  have hrest : run ++ after = word ++ rest := hrest
  -- the scheme is the run, or the run goes on behind it
  obtain ⟨more, hmore⟩ : ∃ more, run = word ++ more := by
    rcases List.append_eq_append_iff.mp hrest with ⟨more, hwordrun, hafter⟩ | ⟨more, hrunword, -⟩
    · cases more with
      | nil => exact ⟨[], by rw [hwordrun, List.append_nil, List.append_nil]⟩
      | cons x more =>
          have hsolid := solid_of_isCaseOf laws schemes_ascii hword x (by rw [hwordrun]; simp)
          rw [hrun.after x (by rw [hafter]; rfl)] at hsolid
          cases hsolid
    · exact ⟨more, hrunword⟩
  subst hmore
  have happend := Cursor.advance_append before word (more ++ after)
  rw [List.append_assoc, ends_anyCase_of_isCaseOf schemes_prefixFree hword rfl,
    List.flatMap_singleton, happend]
  by_cases hmorenil : more = []
  · subst hmorenil
    rw [List.append_nil] at hscheme
    rw [List.nil_append, ends_nextRun_of_isBlank (hscheme hword)]
    exact ⟨l, by rw [List.append_nil]; rfl⟩
  · have hrunmore : IsRun U more after :=
      ⟨hmorenil, fun c hc => hrun.solid c (List.mem_append_right word hc), hrun.after⟩
    obtain ⟨l', hl'⟩ := @exists_ends_nextRun U (word.getLast?.or before) [] more after
      (fun _ h => absurd h List.not_mem_nil) hrunmore
    rw [List.nil_append, List.nil_append] at hl'
    rw [hl', ← happend, Cursor.advance_advance, List.length_append]
    exact ⟨_, List.cons_append⟩

/-- **What is masked behind a separator.** -/
theorem exists_ends_secretValue {before : Option Char} {value after : List Char}
    (h : Value U value after) : ∃ l, (secretValue U).ends ⟨before, value ++ after⟩ =
      Cursor.advance ⟨before, value ++ after⟩ value.length :: l := by
  cases h with
  | @run blank run _ hblank hrun hscheme =>
      have hskip := Cursor.advance_append before blank (run ++ after)
      obtain ⟨l, hl⟩ := @Regex.exists_ends_star_seq U.isSpace
        (.seq (optional (anyCase schemes)) (nextRun U)) blank (run ++ after) hblank
        (isSpace_head?_of_isRun hrun) before
      obtain ⟨l', hl'⟩ := @exists_ends_optional U laws (blank.getLast?.or before) run after hrun
        hscheme
      rw [hskip, hl', ← hskip, Cursor.advance_advance, ← List.length_append] at hl
      rw [List.append_assoc, secretValue, hl]
      exact ⟨_, List.cons_append⟩
  | @schemed blank scheme gap run _ hblank hscheme hsolid hgap hrun =>
      have hskip := Cursor.advance_append before blank (scheme ++ (gap ++ (run ++ after)))
      obtain ⟨l, hl⟩ := @Regex.exists_ends_star_seq U.isSpace
        (.seq (optional (anyCase schemes)) (nextRun U)) blank (scheme ++ (gap ++ (run ++ after)))
        hblank (isSpace_head?_of_isRun hsolid) before
      have hnext := Cursor.advance_append (blank.getLast?.or before) scheme (gap ++ (run ++ after))
      obtain ⟨l', hl'⟩ := @exists_ends_nextRun U (scheme.getLast?.or (blank.getLast?.or before)) gap
        run after hgap hrun
      have hboth : ∃ l'', (Regex.seq (optional (anyCase schemes)) (nextRun U)).ends
          ⟨blank.getLast?.or before, scheme ++ (gap ++ (run ++ after))⟩ =
          Cursor.advance ⟨blank.getLast?.or before, scheme ++ (gap ++ (run ++ after))⟩
            (scheme ++ (gap ++ run)).length :: l'' := by
        rw [Regex.ends_seq, Regex.ends_optional, List.flatMap_append,
          ends_anyCase_of_isCaseOf schemes_prefixFree hscheme rfl, List.flatMap_singleton, hnext,
          hl', ← hnext, Cursor.advance_advance, ← List.length_append]
        exact ⟨_, List.cons_append⟩
      obtain ⟨l'', hl''⟩ := hboth
      rw [hskip, hl'', ← hskip, Cursor.advance_advance, ← List.length_append] at hl
      have htext : blank ++ (scheme ++ (gap ++ run)) ++ after =
          blank ++ (scheme ++ (gap ++ (run ++ after))) := by
        simp only [List.append_assoc]
      rw [secretValue, htext, hl]
      exact ⟨_, List.cons_append⟩

/-- Where there is only white space nothing is masked. -/
theorem ends_secretValue_of_isBlank {before : Option Char} {rest : List Char}
    (h : IsBlank U rest) : (secretValue U).ends ⟨before, rest⟩ = [] := by
  refine Regex.ends_star_seq_eq_nil h (fun b xs hxs => ?_) before
  rw [Regex.ends_seq, Regex.ends_optional, @ends_schemes_of_isBlank U laws ⟨b, xs⟩ hxs,
    List.nil_append, List.flatMap_singleton, ends_nextRun_of_isBlank hxs]

omit laws in
/-- Every other text has something to mask. -/
theorem exists_value {rest : List Char} (h : ¬ IsBlank U rest) :
    ∃ value after, rest = value ++ after ∧ Value U value after := by
  obtain ⟨blank, run, after, rfl, hblank, hrun⟩ := exists_run_of_not_isBlank h
  by_cases hscheme : IsCaseOf schemes run → IsBlank U after
  · exact ⟨blank ++ run, after, (List.append_assoc _ _ _).symm, .run hblank hrun hscheme⟩
  · obtain ⟨hcase, hafter⟩ := Classical.not_imp.mp hscheme
    obtain ⟨gap, run', after', rfl, hgap, hrun'⟩ := exists_run_of_not_isBlank hafter
    refine ⟨blank ++ (run ++ (gap ++ run')), after', ?_, .schemed hblank hcase hrun hgap hrun'⟩
    simp only [List.append_assoc]

/-- A separator is not where white space is. -/
theorem ends_separator_of_isSpace {before : Option Char} {x : Char} {xs : List Char}
    (hx : U.isSpace x = true) :
    (Regex.seq (.char isSeparator) (secretValue U)).ends ⟨before, x :: xs⟩ = [] := by
  have hno : isSeparator x = false := by
    by_contra hyes
    rw [isSpace_of_isSeparator laws (Bool.eq_true_of_not_eq_false hyes)] at hx
    cases hx
  rw [Regex.ends_seq]
  simp [Regex.ends, hno]

/-- What follows the word of a redaction. -/
theorem exists_ends_secretRest {before : Option Char} {blank value after : List Char}
    {separator : Char} (hbefore : before.any (isWord U) = true) (hblank : IsBlank U blank)
    (hseparator : isSeparator separator = true) (hvalue : Value U value after) :
    ∃ l, (secretRest U).ends ⟨before, blank ++ separator :: (value ++ after)⟩ =
      Cursor.advance ⟨before, blank ++ separator :: (value ++ after)⟩
        (blank ++ separator :: value).length :: l := by
  have hhead : (blank ++ separator :: (value ++ after)).head?.any (isWord U) = false := by
    cases blank with
    | nil => exact isWord_of_isSeparator laws hseparator
    | cons x blank => exact isWord_of_isSpace laws (hblank x List.mem_cons_self)
  have hbound : (boundary U).ends ⟨before, blank ++ separator :: (value ++ after)⟩ =
      [⟨before, blank ++ separator :: (value ++ after)⟩] :=
    ends_boundary_of_ne (by rw [hbefore, hhead]; decide)
  have hskip := Cursor.advance_append before blank (separator :: (value ++ after))
  obtain ⟨l, hl⟩ := @exists_ends_secretValue U laws (some separator) value after hvalue
  have hchar : (Regex.seq (.char isSeparator) (secretValue U)).ends
      ⟨blank.getLast?.or before, separator :: (value ++ after)⟩ =
      (secretValue U).ends ⟨some separator, value ++ after⟩ := by
    rw [Regex.ends_seq]
    simp [Regex.ends, hseparator]
  refine ⟨l, ?_⟩
  rw [secretRest, Regex.ends_seq, hbound, List.flatMap_singleton,
    Regex.ends_star_seq hblank (by rintro x ⟨⟩; exact isSpace_of_isSeparator laws hseparator)
      fun b x xs => ends_separator_of_isSpace laws, hskip, hchar, hl,
    ← Cursor.advance_cons, ← hskip, Cursor.advance_advance, List.length_append,
    List.length_cons]

/-- **The first match at a redaction is the redaction.** -/
theorem inlineSecret_eq_some {c : Cursor} (r : Redaction U c) :
    inlineSecret U c = some (r.word, r.blank ++ r.separator :: r.value) := by
  obtain ⟨word, blank, separator, value, after, htext, hboundary, hword, hblank, hseparator,
    hvalue⟩ := r
  obtain ⟨before, rest⟩ := c
  have htext : rest = word ++ (blank ++ separator :: (value ++ after)) := htext
  subst htext
  have hlast := isWord_getLast laws hword
  have hne : word ≠ [] := by
    rintro rfl
    cases hlast
  have hends : (secretWord U).ends ⟨before, word ++ (blank ++ separator :: (value ++ after))⟩ =
      [⟨word.getLast?.or before, blank ++ separator :: (value ++ after)⟩] := by
    have hhead : (word ++ (blank ++ separator :: (value ++ after))).head? = word.head? := by
      rw [List.head?_append_of_ne_nil _ hne]
    have hne' : before.any (isWord U) ≠
        (word ++ (blank ++ separator :: (value ++ after))).head?.any (isWord U) := by
      rw [hhead]
      exact hboundary
    rw [secretWord, Regex.ends_seq, ends_boundary_of_ne hne', List.flatMap_singleton,
      ends_anyCase_of_isCaseOf sensitiveKeyParts_prefixFree hword rfl,
      Cursor.advance_append]
  have hbefore : (word.getLast?.or before).any (isWord U) = true := by
    rw [List.getLast?_eq_some_getLast hne] at hlast ⊢
    exact hlast
  obtain ⟨l, hl⟩ := exists_ends_secretRest laws hbefore hblank hseparator hvalue
  have hgroup : Regex.matchGroup (secretWord U) (secretRest U)
      ⟨before, word ++ (blank ++ separator :: (value ++ after))⟩ =
      some (⟨word.getLast?.or before, blank ++ separator :: (value ++ after)⟩,
        Cursor.advance ⟨word.getLast?.or before, blank ++ separator :: (value ++ after)⟩
          (blank ++ separator :: value).length) := by
    rw [Regex.matchGroup, hends, List.flatMap_singleton, hl]
    rfl
  have hsplit : blank ++ separator :: (value ++ after) =
      (blank ++ separator :: value) ++ after := by
    rw [List.append_assoc, List.cons_append]
  have hafter : (blank ++ separator :: (value ++ after)).drop (blank ++ separator :: value).length =
      after := by
    rw [hsplit, List.drop_left]
  rw [inlineSecret, Regex.matched, hgroup]
  simp only [Option.map_some, Regex.between, Cursor.advance, hafter]
  refine congrArg some (Prod.ext ?_ ?_)
  · dsimp only
    rw [List.length_append, Nat.add_sub_cancel, List.take_left]
  · dsimp only
    rw [hsplit, List.length_append, Nat.add_sub_cancel, List.take_left]

/-- What is matched behind the word: white space, a separator, and what is masked. -/
theorem exists_of_mem_ends_secretRest {d e : Cursor} (h : e ∈ (secretRest U).ends d) :
    ∃ blank separator value after, d.rest = blank ++ separator :: (value ++ after) ∧
      IsBlank U blank ∧ isSeparator separator = true ∧ Value U value after := by
  obtain ⟨before, rest⟩ := d
  rw [secretRest, Regex.ends_seq, List.mem_flatMap] at h
  obtain ⟨d', hd', he⟩ := h
  obtain ⟨rfl, -⟩ := mem_ends_boundary_iff.mp hd'
  have hblank : IsBlank U (rest.takeWhile U.isSpace) := fun c hc => List.mem_takeWhile_imp hc
  have hhead : ∀ x ∈ (rest.dropWhile U.isSpace).head?, U.isSpace x = false := by
    intro x hx
    have hhead := List.head?_dropWhile_not U.isSpace rest
    rw [Option.mem_def] at hx
    rw [hx] at hhead
    simpa using hhead
  rw [← List.takeWhile_append_dropWhile (p := U.isSpace) (l := rest),
    Regex.ends_star_seq hblank hhead fun b x xs => ends_separator_of_isSpace laws,
    Cursor.advance_append] at he
  cases hrest : rest.dropWhile U.isSpace with
  | nil =>
      rw [hrest, Regex.ends_seq] at he
      cases he
  | cons x rest' =>
      rw [hrest, Regex.ends_seq] at he
      by_cases hx : isSeparator x = true
      · have hsolid : ¬ IsBlank U rest' := by
          intro hrest'
          simp only [Regex.ends, hx, if_true, List.flatMap_singleton,
            ends_secretValue_of_isBlank laws hrest'] at he
          cases he
        obtain ⟨value, after, rfl, hvalue⟩ := exists_value hsolid
        refine ⟨rest.takeWhile U.isSpace, x, value, after, ?_, hblank, hx, hvalue⟩
        show rest = _
        rw [← hrest, List.takeWhile_append_dropWhile]
      · simp [Regex.ends, hx] at he

/-- **A match is a redaction.** -/
theorem nonempty_redaction {c : Cursor} {found : List Char × List Char}
    (h : inlineSecret U c = some found) : Nonempty (Redaction U c) := by
  obtain ⟨⟨d, e⟩, hgroup, -⟩ := Option.map_eq_some_iff.mp h
  have hmem := List.mem_of_head? hgroup
  simp only [List.mem_flatMap, List.mem_map, Prod.mk.injEq] at hmem
  obtain ⟨d', hd, e', he, rfl, rfl⟩ := hmem
  rw [secretWord, Regex.ends_seq, List.mem_flatMap] at hd
  obtain ⟨c', hc', hd⟩ := hd
  obtain ⟨rfl, hboundary⟩ := mem_ends_boundary_iff.mp hc'
  obtain ⟨word, rest, hword, hrest, rfl⟩ := exists_of_mem_ends_anyCase hd
  obtain ⟨blank, separator, value, after, htext, hblank, hseparator, hvalue⟩ :=
    exists_of_mem_ends_secretRest laws he
  have hrest' : (c'.advance word.length).rest = rest := by
    rw [Cursor.advance, hrest, List.drop_left]
  have hne : word ≠ [] := by
    rintro rfl
    have hlast := isWord_getLast laws hword
    cases hlast
  rw [hrest, List.head?_append_of_ne_nil _ hne] at hboundary
  exact ⟨⟨word, blank, separator, value, after, by rw [hrest, ← htext, hrest'], hboundary, hword,
    hblank, hseparator, hvalue⟩⟩

/-- Nothing matches where no redaction is. -/
theorem inlineSecret_eq_none_iff {c : Cursor} :
    inlineSecret U c = none ↔ IsEmpty (Redaction U c) := by
  rw [← not_nonempty_iff, Option.eq_none_iff_forall_ne_some]
  constructor
  · rintro h ⟨r⟩
    exact h _ (inlineSecret_eq_some laws r)
  · exact fun h found hfound => h (nonempty_redaction laws hfound)

theorem inlineSecret_sound : (inlineSecret U).Sound where
  text c word hidden h := by
    obtain ⟨r⟩ := nonempty_redaction laws h
    rw [inlineSecret_eq_some laws r, Option.some_inj, Prod.mk.injEq] at h
    rw [← h.1, ← h.2, r.text]
    exact ⟨r.after, by simp⟩
  hidden c word hidden h := by
    obtain ⟨r⟩ := nonempty_redaction laws h
    rw [inlineSecret_eq_some laws r, Option.some_inj, Prod.mk.injEq] at h
    rw [← h.2]
    simp

end Laws

end ProcureSignal.Audit
