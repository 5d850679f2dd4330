/-
# Which secrets in a text are masked

A text may hold a secret as a key, a separator and a value.  `redact_secrets_in_text` finds it where
the key ends with a whole sensitive word right before the separator; a key that only contains one,
or that is quoted, is sensitive to `is_sensitive_key` and not found.

* `Occurrence` : a sensitive key, a separator and a value, somewhere in a text;
* `Scanned` : the positions that no redaction before them has swallowed;
* `not_kept_iff` : **when a value is masked**.
-/
import ProcureSignal.Auth.Redaction

namespace ProcureSignal.Audit

/-- A sensitive key of letters, digits, `_` and `-`, possibly quoted, followed by a separator and a
value, which a scheme may precede. -/
structure Occurrence (U : Unicode) (text : List Char) where
  front : List Char
  quote : List Char
  key : List Char
  blank : List Char
  separator : Char
  gap : List Char
  /-- the scheme and the white space behind it, or nothing -/
  scheme : List Char
  value : List Char
  rest : List Char
  text_eq : text = front ++ (quote ++ (key ++ (quote ++
    (blank ++ separator :: (gap ++ (scheme ++ (value ++ rest)))))))
  quote_mem : quote ∈ [[], ['"'], ['\'']]
  key_char : ∀ c ∈ key, U.isAlnum c = true ∨ c = '_' ∨ c = '-'
  sensitive : isSensitiveKey U (String.ofList key) = true
  isBlank : IsBlank U blank
  isSeparator : isSeparator separator = true
  isGap : IsBlank U gap
  isScheme : scheme = [] ∨ ∃ word space, scheme = word ++ space ∧ IsCaseOf schemes word ∧
    space ≠ [] ∧ IsBlank U space
  value_ne_nil : value ≠ []
  solid : ∀ c ∈ value, U.isSpace c = false

namespace Occurrence

variable {U : Unicode} {text : List Char} (o : Occurrence U text)

/-- What is before the white space in front of the separator. -/
def named : List Char := o.front ++ (o.quote ++ (o.key ++ o.quote))

/-- Where the separator is. -/
def separatorIndex : ℕ := (o.named ++ o.blank).length

/-- Where the value begins. -/
def start : ℕ := o.separatorIndex + 1 + (o.gap ++ o.scheme).length

/-- Where the value ends. -/
def stop : ℕ := o.start + o.value.length

/-- The value is in the output at its place: every character of it is outside of the matches, or in
the word of one. -/
def Kept : Prop :=
  ∀ i, o.start ≤ i → i < o.stop → (Regex.copied (inlineSecret U) text)[i]? = some true

end Occurrence

/-- The length of what a redaction matches. -/
def Redaction.length {U : Unicode} {c : Cursor} (r : Redaction U c) : ℕ :=
  r.word.length + (r.blank ++ r.separator :: r.value).length

/-- Where the separator of a redaction is. -/
def Redaction.separatorIndex {U : Unicode} {c : Cursor} (r : Redaction U c) : ℕ :=
  (r.word ++ r.blank).length

/-- The positions that are looked at: redactions are made from left to right, and none inside of
another one. -/
inductive Scanned (U : Unicode) (text : List Char) : ℕ → Prop
  | start : Scanned U text 0
  | skip {p : ℕ} : Scanned U text p → p < text.length → IsEmpty (Redaction U (.ofText text p)) →
      Scanned U text (p + 1)
  | redact {p : ℕ} (r : Redaction U (.ofText text p)) : Scanned U text p →
      Scanned U text (p + r.length)

/-- A key that ends with a whole sensitive word, at a position that is looked at. -/
def Occurrence.Whole {U : Unicode} {text : List Char} (o : Occurrence U text) : Prop :=
  o.quote = [] ∧ ∃ before word, o.front ++ o.key = before ++ word ∧
    IsCaseOf sensitiveKeyParts word ∧
    before.getLast?.any (isWord U) ≠ word.head?.any (isWord U) ∧ Scanned U text before.length

section Laws

variable {U : Unicode} (laws : TextLaws U) {text : List Char}

include laws

theorem reached_iff_scanned {p : ℕ} :
    Regex.Reached (inlineSecret U) text p ↔ Scanned U text p := by
  constructor
  · intro h
    induction h with
    | start => exact .start
    | skip _ hlt hnone ih => exact ih.skip hlt ((inlineSecret_eq_none_iff laws).mp hnone)
    | redact _ hsome ih =>
        obtain ⟨r⟩ := nonempty_redaction laws hsome
        rw [inlineSecret_eq_some laws r, Option.some_inj, Prod.mk.injEq] at hsome
        rw [← hsome.1, ← hsome.2]
        exact ih.redact r
  · intro h
    induction h with
    | start => exact .start
    | skip _ hlt hempty ih => exact ih.skip hlt ((inlineSecret_eq_none_iff laws).mpr hempty)
    | redact r _ ih => exact ih.redact (inlineSecret_eq_some laws r)

/-- **Which characters are masked**: those of the redactions, behind the word. -/
theorem copied_eq_false_iff {i : ℕ} :
    (Regex.copied (inlineSecret U) text)[i]? = some false ↔
      ∃ p, Scanned U text p ∧ ∃ r : Redaction U (.ofText text p),
        p + r.word.length ≤ i ∧ i < p + r.length := by
  rw [Regex.copied_eq_false_iff (inlineSecret_sound laws)]
  constructor
  · rintro ⟨p, word, hidden, hp, hfound, hle, hlt⟩
    obtain ⟨r⟩ := nonempty_redaction laws hfound
    rw [inlineSecret_eq_some laws r, Option.some_inj, Prod.mk.injEq] at hfound
    rw [← hfound.1] at hle
    rw [← hfound.1, ← hfound.2] at hlt
    exact ⟨p, (reached_iff_scanned laws).mp hp, r, hle, hlt⟩
  · rintro ⟨p, hp, r, hle, hlt⟩
    exact ⟨p, _, _, (reached_iff_scanned laws).mpr hp, inlineSecret_eq_some laws r, hle, hlt⟩

omit laws in
/-- Two ways of taking a run off the front of a text are the same. -/
theorem append_inj_of_span {p : Char → Bool} {xs us ys vs : List Char} (h : xs ++ us = ys ++ vs)
    (hxs : ∀ x ∈ xs, p x = true) (hys : ∀ y ∈ ys, p y = true)
    (hus : ∀ u ∈ us.head?, p u = false) (hvs : ∀ v ∈ vs.head?, p v = false) :
    xs = ys ∧ us = vs := by
  rcases List.append_eq_append_iff.mp h with ⟨l, rfl, rfl⟩ | ⟨l, rfl, rfl⟩
  · cases l with
    | nil => exact ⟨(List.append_nil xs).symm, rfl⟩
    | cons y l =>
        have hy := hys y (List.mem_append_right xs List.mem_cons_self)
        rw [hus y rfl] at hy
        cases hy
  · cases l with
    | nil => exact ⟨List.append_nil ys, rfl⟩
    | cons x l =>
        have hx := hxs x (List.mem_append_right ys List.mem_cons_self)
        rw [hvs x rfl] at hx
        cases hx

omit laws in
/-- A character of a text, and what is right behind it. -/
theorem getElem?_of_split {l xs ys zs : List Char} {y : Char} (h : l = xs ++ y :: (ys ++ zs)) :
    l[xs.length]? = some y ∧ ∀ k < ys.length, l[xs.length + 1 + k]? = ys[k]? := by
  subst h
  refine ⟨?_, fun k hk => ?_⟩
  · rw [List.getElem?_append_right le_rfl, Nat.sub_self, List.getElem?_cons_zero]
  · rw [List.getElem?_append_right (by omega),
      show xs.length + 1 + k - xs.length = k + 1 by omega, List.getElem?_cons_succ,
      List.getElem?_append_left hk]

/-! ## The occurrence in its text -/

theorem solid_of_keyChar {c : Char} (h : U.isAlnum c = true ∨ c = '_' ∨ c = '-') :
    U.isSpace c = false := by
  rcases h with h | rfl | rfl
  · exact U.isSpace_of_isAlnum c h
  · exact (laws.isSpace _ (by decide)).trans (by decide)
  · exact (laws.isSpace _ (by decide)).trans (by decide)

theorem Occurrence.key_ne_nil (o : Occurrence U text) : o.key ≠ [] := by
  intro hkey
  have hsensitive := o.sensitive
  have hlower : U.lower (String.ofList []) = "" := laws.lower _ (by simp [Unicode.IsAscii])
  rw [hkey, isSensitiveKey, hlower] at hsensitive
  revert hsensitive
  simp [sensitiveKeyParts]

/-- A quotation mark is neither white space nor a letter. -/
theorem quote_cases {quote : List Char} (h : quote ∈ [[], ['"'], ['\'']]) :
    quote = [] ∨ ∃ c, quote = [c] ∧ U.isSpace c = false ∧ isWord U c = false := by
  have hmark : ∀ c : Char, c = '"' ∨ c = '\'' → U.isSpace c = false ∧ isWord U c = false := by
    rintro c (rfl | rfl)
    · exact ⟨(laws.isSpace _ (by decide)).trans (by decide), by
        rw [isWord, laws.isAlnum _ (by decide)]; decide⟩
    · exact ⟨(laws.isSpace _ (by decide)).trans (by decide), by
        rw [isWord, laws.isAlnum _ (by decide)]; decide⟩
  simp only [List.mem_cons, List.not_mem_nil, or_false] at h
  rcases h with rfl | rfl | rfl
  · exact Or.inl rfl
  · exact Or.inr ⟨_, rfl, hmark _ (Or.inl rfl)⟩
  · exact Or.inr ⟨_, rfl, hmark _ (Or.inr rfl)⟩

/-- No white space is in front of the white space before the separator. -/
theorem Occurrence.named_getLast? (o : Occurrence U text) :
    ∃ c, o.named.getLast? = some c ∧ U.isSpace c = false ∧
      (o.quote ≠ [] → isWord U c = false) := by
  unfold Occurrence.named
  rcases quote_cases laws o.quote_mem with hquote | ⟨c, hquote, hspace, hword⟩
  · refine ⟨o.key.getLast (o.key_ne_nil laws), ?_,
      solid_of_keyChar laws (o.key_char _ (List.getLast_mem _)), fun h => absurd hquote h⟩
    rw [hquote, List.append_nil, List.nil_append,
      List.getLast?_append_of_ne_nil _ (o.key_ne_nil laws),
      List.getLast?_eq_some_getLast (o.key_ne_nil laws)]
  · refine ⟨c, ?_, hspace, fun _ => hword⟩
    rw [hquote]
    simp only [← List.append_assoc, List.getLast?_concat]

omit laws in
theorem Occurrence.text_split (o : Occurrence U text) : text =
    (o.named ++ o.blank) ++ o.separator :: (o.gap ++ (o.scheme ++ (o.value ++ o.rest))) := by
  refine o.text_eq.trans ?_
  simp only [Occurrence.named, List.append_assoc]

omit laws in
theorem Occurrence.stop_le (o : Occurrence U text) : o.stop ≤ text.length := by
  have hlength := congrArg List.length o.text_split
  simp only [List.length_append, List.length_cons] at hlength
  simp only [Occurrence.stop, Occurrence.start, Occurrence.separatorIndex, List.length_append]
  omega

/-- Between the separator and the value there is no other separator. -/
theorem isSeparator_of_between (o : Occurrence U text) {i : ℕ} (hlt : o.separatorIndex < i)
    (hi : i < o.start) {c : Char} (hc : text[i]? = some c) : isSeparator c = false := by
  obtain ⟨k, rfl⟩ : ∃ k, i = o.separatorIndex + 1 + k := ⟨i - (o.separatorIndex + 1), by omega⟩
  have hk : k < (o.gap ++ o.scheme).length := by
    unfold Occurrence.start at hi
    omega
  have hmem : c ∈ o.gap ++ o.scheme := by
    have hsplit := o.text_split
    rw [← List.append_assoc o.gap] at hsplit
    have hget := (getElem?_of_split hsplit).2 k hk
    exact List.mem_of_getElem? (hget.symm.trans hc)
  have hspace : U.isSpace c = true → isSeparator c = false := by
    intro hspace
    by_contra hyes
    rw [isSpace_of_isSeparator laws (Bool.eq_true_of_not_eq_false hyes)] at hspace
    cases hspace
  rcases List.mem_append.mp hmem with hgap | hscheme
  · exact hspace (o.isGap c hgap)
  · rcases o.isScheme with hnil | ⟨word, space, heq, hword, -, hblank⟩
    · rw [hnil] at hscheme
      cases hscheme
    · rw [heq] at hscheme
      rcases List.mem_append.mp hscheme with hmem | hmem
      · -- the schemes are letters
        have hletter : ∀ text ∈ schemes, ∀ x ∈ text.toList, x ≠ ':' ∧ x ≠ '=' := by
          simp [schemes]
        have hfold := hletter _ hword (foldCase c) (by
          rw [String.toList_ofList]
          exact List.mem_map_of_mem hmem)
        rw [isSeparator, Bool.or_eq_false_iff, decide_eq_false_iff_not, decide_eq_false_iff_not]
        refine ⟨?_, ?_⟩
        · rintro rfl
          exact hfold.1 (by decide)
        · rintro rfl
          exact hfold.2 (by decide)
      · exact hspace (hblank c hmem)

/-! ## Redactions and the occurrence -/

omit laws in
theorem Redaction.text_split {p : ℕ} (r : Redaction U (.ofText text p)) : text =
    (text.take p ++ (r.word ++ r.blank)) ++ r.separator :: (r.value ++ r.after) := by
  have hrest : text.drop p = r.word ++ (r.blank ++ r.separator :: (r.value ++ r.after)) := r.text
  refine (List.take_append_drop p text).symm.trans ?_
  rw [hrest]
  simp only [List.append_assoc]

omit laws in
theorem Redaction.length_eq {c : Cursor} (r : Redaction U c) :
    r.length = r.separatorIndex + 1 + r.value.length := by
  simp only [Redaction.length, Redaction.separatorIndex, List.length_append, List.length_cons]
  omega

omit laws in
theorem Redaction.word_le {c : Cursor} (r : Redaction U c) : r.word.length ≤ r.separatorIndex := by
  rw [Redaction.separatorIndex, List.length_append]
  exact Nat.le_add_right _ _

theorem Scanned.le {p : ℕ} (h : Scanned U text p) : p ≤ text.length :=
  (Regex.exists_front_of_reached (inlineSecret_sound laws) ((reached_iff_scanned laws).mpr h)).1

/-- The separator of a redaction, in the text. -/
theorem Scanned.getElem?_separator {p : ℕ} (h : Scanned U text p)
    (r : Redaction U (.ofText text p)) : text[p + r.separatorIndex]? = some r.separator := by
  have hlength : p + r.separatorIndex = (text.take p ++ (r.word ++ r.blank)).length := by
    rw [List.length_append, List.length_take_of_le (Scanned.le laws h)]
    rfl
  rw [hlength]
  exact (getElem?_of_split r.text_split).1

omit laws in
/-- What is before white space, without it. -/
theorem append_inj_of_getLast? {p : Char → Bool} {xs ys us vs : List Char} (h : xs ++ us = ys ++ vs)
    (hus : ∀ u ∈ us, p u = true) (hvs : ∀ v ∈ vs, p v = true)
    (hxs : ∃ x, xs.getLast? = some x ∧ p x = false)
    (hys : ∃ y, ys.getLast? = some y ∧ p y = false) : xs = ys ∧ us = vs := by
  obtain ⟨x, hx, hpx⟩ := hxs
  obtain ⟨y, hy, hpy⟩ := hys
  rcases List.append_eq_append_iff.mp h with ⟨l, rfl, rfl⟩ | ⟨l, rfl, rfl⟩
  · by_cases hl : l = []
    · subst hl
      exact ⟨(List.append_nil xs).symm, rfl⟩
    · rw [List.getLast?_append_of_ne_nil _ hl] at hy
      rw [hus y (List.mem_append_left vs (List.mem_of_getLast? hy))] at hpy
      cases hpy
  · by_cases hl : l = []
    · subst hl
      exact ⟨List.append_nil ys, rfl⟩
    · rw [List.getLast?_append_of_ne_nil _ hl] at hx
      rw [hvs x (List.mem_append_left us (List.mem_of_getLast? hx))] at hpx
      cases hpx

/-- The last character of a word is no white space. -/
theorem word_getLast? {word : List Char} (h : IsCaseOf sensitiveKeyParts word) :
    ∃ c, word.getLast? = some c ∧ U.isSpace c = false ∧ isWord U c = true := by
  have hlast := isWord_getLast laws h
  obtain ⟨c, hc⟩ : ∃ c, word.getLast? = some c := by
    cases hword : word.getLast? with
    | none =>
        rw [hword] at hlast
        cases hlast
    | some c => exact ⟨c, rfl⟩
  rw [hc] at hlast
  exact ⟨c, hc, solid_of_isCaseOf laws sensitiveKeyParts_ascii h c (List.mem_of_getLast? hc), hlast⟩

/-- A redaction and an occurrence with one separator read the same text before it and behind it. -/
theorem Occurrence.split_at_separator (o : Occurrence U text) {p : ℕ} (hp : Scanned U text p)
    (r : Redaction U (.ofText text p)) (h : p + r.separatorIndex = o.separatorIndex) :
    text.take p ++ (r.word ++ r.blank) = o.named ++ o.blank ∧
      r.value ++ r.after = o.gap ++ (o.scheme ++ (o.value ++ o.rest)) := by
  have htext : (text.take p ++ (r.word ++ r.blank)) ++ r.separator :: (r.value ++ r.after) =
      (o.named ++ o.blank) ++ o.separator :: (o.gap ++ (o.scheme ++ (o.value ++ o.rest))) :=
    r.text_split.symm.trans o.text_split
  have hlength : (text.take p ++ (r.word ++ r.blank)).length = (o.named ++ o.blank).length := by
    rw [List.length_append, List.length_take_of_le (Scanned.le laws hp)]
    exact h
  obtain ⟨hfront, hback⟩ := List.append_inj htext hlength
  exact ⟨hfront, (List.cons.inj hback).2⟩

/-- **A redaction with the separator of the occurrence** is that of a whole word. -/
theorem Occurrence.whole_iff (o : Occurrence U text) : o.Whole ↔
    ∃ p, Scanned U text p ∧ ∃ r : Redaction U (.ofText text p),
      p + r.separatorIndex = o.separatorIndex := by
  constructor
  · rintro ⟨hquote, before, word, hkey, hword, hboundary, hscanned⟩
    have hsplit := o.text_split
    have hnamed : o.named = before ++ word := by
      rw [Occurrence.named, hquote, List.append_nil, List.nil_append, hkey]
    rw [hnamed, List.append_assoc, List.append_assoc] at hsplit
    have hsolid : ¬ IsBlank U (o.gap ++ (o.scheme ++ (o.value ++ o.rest))) := by
      obtain ⟨x, hx⟩ := List.exists_mem_of_ne_nil _ o.value_ne_nil
      intro hblank
      have hspace := hblank x (by simp [hx])
      rw [o.solid x hx] at hspace
      cases hspace
    obtain ⟨value, after, hvalue, hisValue⟩ := exists_value hsolid
    have hcursor : Cursor.ofText text before.length =
        ⟨before.getLast?, word ++ (o.blank ++ o.separator :: (value ++ after))⟩ := by
      rw [← hvalue, Cursor.ofText]
      conv_lhs => rw [hsplit]
      rw [List.take_left, List.drop_left]
    refine ⟨before.length, hscanned, ⟨word, o.blank, o.separator, value, after, ?_, ?_, hword,
      o.isBlank, o.isSeparator, hisValue⟩, ?_⟩
    · rw [hcursor]
    · rw [hcursor]
      exact hboundary
    · simp only [Redaction.separatorIndex, Occurrence.separatorIndex, hnamed, List.length_append]
      omega
  · rintro ⟨p, hp, r, hindex⟩
    have hle := Scanned.le laws hp
    have hfront := (o.split_at_separator laws hp r hindex).1
    rw [← List.append_assoc] at hfront
    obtain ⟨c, hc, hspace, hlast⟩ := word_getLast? laws r.isWord
    have hne : r.word ≠ [] := by
      rintro hnil
      rw [hnil] at hc
      cases hc
    have hlastWord : (text.take p ++ r.word).getLast? = some c := by
      rw [List.getLast?_append_of_ne_nil _ hne, hc]
    obtain ⟨d, hd, hdspace, hquoted⟩ := o.named_getLast? laws
    obtain ⟨hnamed, -⟩ := append_inj_of_getLast? hfront r.isBlank o.isBlank ⟨c, hlastWord, hspace⟩
      ⟨d, hd, hdspace⟩
    have hquote : o.quote = [] := by
      by_contra hquote
      rw [← hnamed, hlastWord, Option.some_inj] at hd
      rw [← hd, hlast] at hquoted
      cases hquoted hquote
    refine ⟨hquote, text.take p, r.word, ?_, r.isWord, r.boundary, ?_⟩
    · rw [hnamed, Occurrence.named, hquote, List.append_nil, List.nil_append]
    · rwa [List.length_take_of_le hle]

omit laws in
theorem Occurrence.value_head? (o : Occurrence U text) :
    ∀ c ∈ (o.value ++ o.rest).head?, U.isSpace c = false := by
  intro c hc
  obtain ⟨x, value, hvalue⟩ := List.exists_cons_of_ne_nil o.value_ne_nil
  rw [hvalue, List.cons_append, List.head?_cons, Option.mem_some_iff] at hc
  exact o.solid c (by rw [hvalue, ← hc]; exact List.mem_cons_self)

/-- Behind the gap the scheme or the value begins. -/
theorem Occurrence.scheme_head? (o : Occurrence U text) :
    ∀ c ∈ (o.scheme ++ (o.value ++ o.rest)).head?, U.isSpace c = false := by
  rcases o.isScheme with hnil | ⟨word, space, heq, hcase, hne, hspace⟩
  · rw [hnil]
    exact o.value_head?
  · intro c hc
    cases word with
    | nil =>
        exfalso
        revert hcase
        simp [IsCaseOf, schemes]
    | cons x word =>
        rw [heq, List.cons_append, List.cons_append, List.head?_cons, Option.mem_some_iff] at hc
        exact solid_of_isCaseOf laws schemes_ascii hcase c (hc ▸ List.mem_cons_self)

omit laws in
/-- A run and white space behind it, taken off the front of a text in two ways. -/
theorem run_inj {run after word space rest : List Char} (hrun : IsRun U run after)
    (hword : ∀ c ∈ word, U.isSpace c = false) (hne : space ≠ []) (hspace : IsBlank U space)
    (h : run ++ after = word ++ (space ++ rest)) : run = word ∧ after = space ++ rest := by
  refine @append_inj_of_span (fun c => !U.isSpace c) _ _ _ _ h (fun c hc => ?_) (fun c hc => ?_)
    (fun c hc => ?_) fun c hc => ?_
  · rw [hrun.solid c hc]
    rfl
  · rw [hword c hc]
    rfl
  · rw [hrun.after c hc]
    rfl
  · obtain ⟨x, space', rfl⟩ := List.exists_cons_of_ne_nil hne
    rw [List.cons_append, List.head?_cons, Option.mem_some_iff] at hc
    rw [hspace c (hc ▸ List.mem_cons_self)]
    rfl

/-- What is masked behind the separator reaches into the value. -/
theorem length_lt_of_value (o : Occurrence U text) {value after : List Char}
    (h : Value U value after) (heq : value ++ after = o.gap ++ (o.scheme ++ (o.value ++ o.rest))) :
    (o.gap ++ o.scheme).length < value.length := by
  cases h with
  | @run blank run _ hblank hrun hscheme =>
      rw [List.append_assoc] at heq
      obtain ⟨rfl, hrest⟩ := append_inj_of_span heq hblank o.isGap (isSpace_head?_of_isRun hrun)
        (o.scheme_head? laws)
      have hpos := List.length_pos_iff.mpr hrun.ne_nil
      rcases o.isScheme with hnil | ⟨word, space, hsplit, hcase, hne, hspace⟩
      · rw [hnil, List.append_nil, List.length_append]
        omega
      · -- the run would be the scheme, with nothing but white space behind it
        rw [hsplit, List.append_assoc] at hrest
        obtain ⟨rfl, hafter⟩ := run_inj hrun (solid_of_isCaseOf laws schemes_ascii hcase) hne hspace
          hrest
        obtain ⟨x, hx⟩ := List.exists_mem_of_ne_nil _ o.value_ne_nil
        have hblankx := hscheme hcase x (by simp [hafter, hx])
        rw [o.solid x hx] at hblankx
        cases hblankx
  | @schemed blank scheme gap run _ hblank hcase hsolid hgap hrun =>
      have heq : blank ++ (scheme ++ (gap ++ (run ++ after))) =
          o.gap ++ (o.scheme ++ (o.value ++ o.rest)) := by
        rw [← heq]
        simp only [List.append_assoc]
      obtain ⟨rfl, hrest⟩ := append_inj_of_span heq hblank o.isGap (isSpace_head?_of_isRun hsolid)
        (o.scheme_head? laws)
      have hpos := List.length_pos_iff.mpr hrun.ne_nil
      rcases o.isScheme with hnil | ⟨word, space, hsplit, hcase', hne, hspace⟩
      · rw [hnil, List.append_nil]
        simp only [List.length_append]
        omega
      · rw [hsplit, List.append_assoc] at hrest
        obtain ⟨rfl, hafter⟩ := run_inj hsolid (solid_of_isCaseOf laws schemes_ascii hcase') hne
          hspace hrest
        obtain ⟨rfl, -⟩ := append_inj_of_span hafter hgap hspace (isSpace_head?_of_isRun hrun)
          o.value_head?
        rw [hsplit]
        simp only [List.length_append]
        omega

/-- **What is masked, by the place of its separator.** -/
theorem masked_iff (o : Occurrence U text) : (∃ i, o.start ≤ i ∧ i < o.stop ∧
      (Regex.copied (inlineSecret U) text)[i]? = some false) ↔
    o.Whole ∨ (∃ p, Scanned U text p ∧ ∃ r : Redaction U (.ofText text p),
        p + r.separatorIndex < o.separatorIndex ∧ o.start < p + r.length) ∨
      ∃ p, Scanned U text p ∧ ∃ r : Redaction U (.ofText text p),
        o.separatorIndex < p + r.separatorIndex ∧ p + r.word.length < o.stop := by
  have hstart : o.separatorIndex < o.start := by
    unfold Occurrence.start
    omega
  have hstop : o.start < o.stop := by
    have hpos := List.length_pos_iff.mpr o.value_ne_nil
    unfold Occurrence.stop
    omega
  simp only [copied_eq_false_iff laws]
  constructor
  · rintro ⟨i, hi, hstopi, p, hp, r, hle, hlt⟩
    rcases lt_trichotomy (p + r.separatorIndex) o.separatorIndex with hbefore | heq | hbehind
    · exact Or.inr (Or.inl ⟨p, hp, r, hbefore, by omega⟩)
    · exact Or.inl ((o.whole_iff laws).mpr ⟨p, hp, r, heq⟩)
    · exact Or.inr (Or.inr ⟨p, hp, r, hbehind, by omega⟩)
  · rintro (hwhole | ⟨p, hp, r, hbefore, hlt⟩ | ⟨p, hp, r, hbehind, hlt⟩)
    · obtain ⟨p, hp, r, heq⟩ := (o.whole_iff laws).mp hwhole
      have hvalue := length_lt_of_value laws o r.isValue
        (o.split_at_separator laws hp r heq).2
      have hword := r.word_le
      refine ⟨o.start, le_rfl, hstop, p, hp, r, by omega, ?_⟩
      rw [r.length_eq]
      unfold Occurrence.start
      omega
    · have hword := r.word_le
      exact ⟨o.start, le_rfl, hstop, p, hp, r, by omega, hlt⟩
    · -- the separator of the redaction is not before the value
      have hvalue : o.start ≤ p + r.separatorIndex := by
        by_contra hlt'
        have hfalse := isSeparator_of_between laws o hbehind (not_le.mp hlt')
          (Scanned.getElem?_separator laws hp r)
        rw [r.isSeparator] at hfalse
        cases hfalse
      have hlength := r.length_eq
      have hword := r.word_le
      exact ⟨max o.start (p + r.word.length), le_max_left _ _, max_lt hstop hlt, p, hp, r,
        le_max_right _ _, max_lt (by omega) (by omega)⟩

/-- **When a secret is masked.**  A value behind a sensitive key and a separator is masked exactly
when

* the key ends with a whole sensitive word, not quoted, that no redaction before it has swallowed;
* or a redaction whose separator stands further to the front reaches into the value;
* or a redaction whose separator stands further behind masks a part of it. -/
theorem not_kept_iff (o : Occurrence U text) : ¬ o.Kept ↔
    o.Whole ∨ (∃ p, Scanned U text p ∧ ∃ r : Redaction U (.ofText text p),
        p + r.separatorIndex < o.separatorIndex ∧ o.start < p + r.length) ∨
      ∃ p, Scanned U text p ∧ ∃ r : Redaction U (.ofText text p),
        o.separatorIndex < p + r.separatorIndex ∧ p + r.word.length < o.stop := by
  rw [← masked_iff laws o, Occurrence.Kept]
  constructor
  · intro h
    push Not at h
    obtain ⟨i, hi, hstop, hne⟩ := h
    have hlt : i < (Regex.copied (inlineSecret U) text).length := by
      rw [Regex.length_copied (inlineSecret_sound laws)]
      exact hstop.trans_le o.stop_le
    refine ⟨i, hi, hstop, ?_⟩
    rw [List.getElem?_eq_getElem hlt, ne_eq, Option.some_inj, Bool.not_eq_true] at hne
    rw [List.getElem?_eq_getElem hlt, hne]
  · rintro ⟨i, hi, hstop, hfalse⟩ h
    rw [h i hi hstop] at hfalse
    cases hfalse

end Laws

/-! ## Two texts -/

/-- A key, `=` and a value. -/
def assigned (key value : List Char) (hkey : ∀ c ∈ key, Unicode.ascii.isAlnum c = true ∨ c = '_' ∨
      c = '-') (hsensitive : isSensitiveKey Unicode.ascii (String.ofList key) = true)
    (hne : value ≠ []) (hsolid : ∀ c ∈ value, Unicode.ascii.isSpace c = false) :
    Occurrence Unicode.ascii (key ++ '=' :: value) where
  front := []
  quote := []
  key := key
  blank := []
  separator := '='
  gap := []
  scheme := []
  value := value
  rest := []
  text_eq := by simp
  quote_mem := List.mem_cons_self
  key_char := hkey
  sensitive := hsensitive
  isBlank _ h := absurd h List.not_mem_nil
  isSeparator := rfl
  isGap _ h := absurd h List.not_mem_nil
  isScheme := Or.inl rfl
  value_ne_nil := hne
  solid := hsolid

theorem password_sensitive : isSensitiveKey Unicode.ascii
    (String.ofList ['p', 'a', 's', 's', 'w', 'o', 'r', 'd']) = true := by
  decide +kernel

theorem newPassword_sensitive : isSensitiveKey Unicode.ascii
    (String.ofList ['n', 'e', 'w', '_', 'p', 'a', 's', 's', 'w', 'o', 'r', 'd']) = true := by
  decide +kernel

/-- A whole word is found. -/
theorem password_masked :
    ¬ (assigned ['p', 'a', 's', 's', 'w', 'o', 'r', 'd'] ['x', 'y']
      (by simp [Unicode.ascii, Unicode.asciiAlnum]) password_sensitive (by decide)
      (by simp [Unicode.ascii, Unicode.asciiSpace])).Kept := by
  refine (not_kept_iff ascii_textLaws _).mpr (Or.inl ⟨rfl, [],
    ['p', 'a', 's', 's', 'w', 'o', 'r', 'd'], rfl, ?_, by decide, .start⟩)
  have hword : IsCaseOf sensitiveKeyParts ['p', 'a', 's', 's', 'w', 'o', 'r', 'd'] := by
    unfold IsCaseOf
    decide +kernel
  exact hword

/-- A longer key that is as sensitive is not. -/
theorem newPassword_kept : redactSecretsInText Unicode.ascii "new_password=xy" = "new_password=xy" ∧
    (assigned ['n', 'e', 'w', '_', 'p', 'a', 's', 's', 'w', 'o', 'r', 'd'] ['x', 'y']
      (by simp [Unicode.ascii, Unicode.asciiAlnum]) newPassword_sensitive (by decide)
      (by simp [Unicode.ascii, Unicode.asciiSpace])).Kept := by
  refine ⟨by decide +kernel, fun i _ hi => ?_⟩
  have hcopied : Regex.copied (inlineSecret Unicode.ascii)
      (['n', 'e', 'w', '_', 'p', 'a', 's', 's', 'w', 'o', 'r', 'd'] ++ '=' :: ['x', 'y']) =
      List.replicate 15 true := by
    decide +kernel
  have hlt : i < 15 := hi
  rw [hcopied, List.getElem?_replicate, if_pos hlt]

end ProcureSignal.Audit
