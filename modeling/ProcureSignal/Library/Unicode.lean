/-
# Text operations over a Unicode character database

The string methods of the source (`str.strip`, `str.split`, the substitution of
runs of non-alphanumeric characters) are fixed algorithms over the tables of the
Unicode character database: which characters are white space or alphanumeric,
and the normalization and case-folding maps.  The structure `Unicode` holds
those tables together with the few facts about them that the development uses,
so every result holds for the real tables.  `ascii` is the database restricted
to ASCII text, on which the normalization forms are the identity; concrete runs
are evaluated over it.
-/
import Mathlib

/-- The tables of the character database, with the facts used of them. -/
structure Unicode where
  /-- `str.isspace` of one character -/
  isSpace : Char → Bool
  /-- `str.isalnum` of one character: a letter or digit in any script -/
  isAlnum : Char → Bool
  /-- a nonzero combining class -/
  combining : Char → Bool
  nfkc : String → String
  nfd : String → String
  nfc : String → String
  casefold : String → String
  /-- `str.lower` -/
  lower : String → String
  isSpace_space : isSpace ' ' = true
  isSpace_of_isAlnum : ∀ c, isAlnum c = true → isSpace c = false
  /-- compatibility normalization and case folding turn white space into no letter or digit -/
  fold_blank : ∀ s : String, (∀ c ∈ s.toList, isSpace c = true) →
    ∀ c ∈ (casefold (nfkc s)).toList, isAlnum c = false

namespace Unicode

variable (U : Unicode)

/-- `str.strip()`: white space removed at both ends. -/
def strip (s : String) : String :=
  String.ofList ((s.toList.dropWhile U.isSpace).rdropWhile U.isSpace)

/-- `str.split()`: the maximal runs of characters other than white space. -/
def split (s : String) : List String :=
  ((s.toList.splitOnP U.isSpace).filter (· ≠ [])).map String.ofList

/-- `re.sub(r"[\W_]+", " ", ·)` on a list of characters: every maximal run of
characters that are neither letters nor digits becomes one space. -/
def subNonAlphanumeric : List Char → List Char
  | [] => []
  | c :: cs =>
      if U.isAlnum c then c :: subNonAlphanumeric cs
      else if (cs.head?.any fun d => !U.isAlnum d) then subNonAlphanumeric cs
      else ' ' :: subNonAlphanumeric cs

/-- What `str.lower` leaves alone: text in lower case, and the absence of white space at
both ends. -/
structure LowerLaws (U : Unicode) : Prop where
  lower_lower : ∀ s, U.lower (U.lower s) = U.lower s
  strip_lower_strip : ∀ s, U.strip (U.lower (U.strip s)) = U.lower (U.strip s)

/-- White space at both ends is outside the letters and digits of a text: normalization and case
folding act on what is between. -/
structure StripLaws (U : Unicode) : Prop where
  fold_strip : ∀ s, ∃ before after : List Char,
    (U.casefold (U.nfkc s)).toList =
      before ++ (U.casefold (U.nfkc (U.strip s))).toList ++ after ∧
    ∀ c ∈ before ++ after, U.isAlnum c = false

/-- What stripping removes is white space at the ends. -/
theorem exists_strip (s : String) : ∃ before after : List Char,
    s.toList = before ++ (U.strip s).toList ++ after ∧
      ∀ c ∈ before ++ after, U.isSpace c = true := by
  have hbody : ∀ l : List Char, l = l.rdropWhile U.isSpace ++ l.rtakeWhile U.isSpace := by
    intro l
    rw [List.rdropWhile, List.rtakeWhile, ← List.reverse_append,
      List.takeWhile_append_dropWhile, List.reverse_reverse]
  refine ⟨s.toList.takeWhile U.isSpace, (s.toList.dropWhile U.isSpace).rtakeWhile U.isSpace,
    ?_, ?_⟩
  · rw [strip, String.toList_ofList, List.append_assoc, ← hbody, List.takeWhile_append_dropWhile]
  · intro c hc
    rcases List.mem_append.mp hc with hc | hc
    · exact List.mem_takeWhile_imp hc
    · exact List.mem_rtakeWhile_imp hc

/-! ## Blank text -/

/-- Stripping leaves nothing exactly when every character is white space. -/
theorem strip_eq_empty_iff (s : String) :
    U.strip s = "" ↔ ∀ c ∈ s.toList, U.isSpace c = true := by
  have hofList : ∀ l : List Char, String.ofList l = "" ↔ l = [] := by
    intro l
    constructor
    · intro h
      have := congrArg String.toList h
      simpa using this
    · rintro rfl
      rfl
  rw [strip, hofList, List.rdropWhile_eq_nil_iff]
  constructor
  · intro h
    by_cases hne : s.toList.dropWhile U.isSpace = []
    · exact List.dropWhile_eq_nil_iff.mp hne
    · have hnot := List.head_dropWhile_not U.isSpace hne
      exact absurd (h _ (List.head_mem hne)) (by simp [hnot])
  · intro h c hc
    rw [List.dropWhile_eq_nil_iff.mpr h] at hc
    simp at hc

/-- A text without letters or digits is substituted by spaces only. -/
theorem mem_subNonAlphanumeric {cs : List Char} (h : ∀ c ∈ cs, U.isAlnum c = false) :
    ∀ c ∈ U.subNonAlphanumeric cs, c = ' ' := by
  induction cs with
  | nil => simp [subNonAlphanumeric]
  | cons c cs ih =>
      have hcs := ih (fun d hd => h d (List.mem_cons_of_mem c hd))
      simp only [subNonAlphanumeric, h c List.mem_cons_self, Bool.false_eq_true, if_false]
      split
      · exact hcs
      · intro d hd
        rcases List.mem_cons.mp hd with rfl | hd
        · rfl
        · exact hcs d hd

/-- Splitting white space leaves no words. -/
theorem split_eq_nil {s : String} (h : ∀ c ∈ s.toList, U.isSpace c = true) :
    U.split s = [] := by
  have hall : ∀ l : List Char, (∀ c ∈ l, U.isSpace c = true) →
      ∀ w ∈ l.splitOnP U.isSpace, w = [] := by
    intro l
    induction l with
    | nil => simp
    | cons c cs ih =>
        intro hl w hw
        rw [List.splitOnP_cons_eq_if_modifyHead, if_pos (hl c List.mem_cons_self)] at hw
        rcases List.mem_cons.mp hw with rfl | hw
        · rfl
        · exact ih (fun d hd => hl d (List.mem_cons_of_mem c hd)) w hw
  rw [split, List.filter_eq_nil_iff.mpr, List.map_nil]
  intro w hw
  simp [hall s.toList h w hw]

/-! ## Words of letters and digits -/

/-- The maximal runs of letters and digits. -/
def words (cs : List Char) : List (List Char) :=
  (cs.splitOnP fun c => !U.isAlnum c).filter (· ≠ [])

/-- Two lists of runs with one head, and the same runs behind it. -/
def SameRuns (r r' : List (List Char)) : Prop :=
  r.head? = r'.head? ∧ r.tail.filter (· ≠ []) = r'.tail.filter (· ≠ [])

theorem SameRuns.filter_eq {r r' : List (List Char)} (h : SameRuns r r') :
    r.filter (· ≠ []) = r'.filter (· ≠ []) := by
  obtain ⟨hhead, htail⟩ := h
  match r, r' with
  | [], [] => rfl
  | a :: r, b :: r' =>
      obtain rfl : a = b := Option.some.inj hhead
      rw [List.filter_cons, List.filter_cons]
      rw [show r.filter (· ≠ []) = r'.filter (· ≠ []) from htail]

/-- A letter joins the first run. -/
theorem SameRuns.modifyHead {r r' : List (List Char)} (h : SameRuns r r') (c : Char) :
    SameRuns (r.modifyHead (c :: ·)) (r'.modifyHead (c :: ·)) := by
  obtain ⟨hhead, htail⟩ := h
  match r, r' with
  | [], [] => exact ⟨rfl, rfl⟩
  | a :: r, b :: r' =>
      obtain rfl : a = b := Option.some.inj hhead
      exact ⟨rfl, htail⟩

/-- Behind a separator both heads are runs like the others. -/
theorem SameRuns.cons {r r' : List (List Char)} (h : SameRuns r r') :
    SameRuns ([] :: r) ([] :: r') := ⟨rfl, h.filter_eq⟩

/-- The head of the runs is empty in front of a separator. -/
theorem head?_splitOnP_of_head? {p : Char → Bool} {cs : List Char} (h : cs.head?.any p = true) :
    (cs.splitOnP p).head? = some [] := by
  match cs with
  | c :: cs =>
      have hc : p c = true := h
      rw [List.splitOnP_cons_eq_if_modifyHead, if_pos hc]
      rfl

/-- The substitution keeps the runs. -/
theorem sameRuns_subNonAlphanumeric (cs : List Char) :
    SameRuns ((U.subNonAlphanumeric cs).splitOnP U.isSpace)
      (cs.splitOnP fun c => !U.isAlnum c) := by
  induction cs with
  | nil => exact ⟨rfl, rfl⟩
  | cons c cs ih =>
      rw [List.splitOnP_cons_eq_if_modifyHead]
      simp only [subNonAlphanumeric]
      by_cases hc : U.isAlnum c = true
      · rw [if_pos hc, List.splitOnP_cons_eq_if_modifyHead, U.isSpace_of_isAlnum c hc]
        simpa [hc] using ih.modifyHead c
      rw [Bool.not_eq_true] at hc
      rw [hc]
      simp only [Bool.false_eq_true, if_false, Bool.not_false, if_true]
      split_ifs with hnext
      · have hhead := head?_splitOnP_of_head? hnext
        refine ⟨ih.1.trans hhead, ?_⟩
        rw [List.tail_cons, ← ih.filter_eq]
        match hruns : (U.subNonAlphanumeric cs).splitOnP U.isSpace with
        | [] => rfl
        | a :: r =>
            have ha : a = [] := by
              have hh := ih.1.trans hhead
              rw [hruns] at hh
              exact Option.some.inj hh
            subst ha
            rfl
      · rw [List.splitOnP_cons_eq_if_modifyHead, if_pos U.isSpace_space]
        exact ih.cons

/-- **Splitting a substituted text** gives its runs of letters and digits. -/
theorem split_subNonAlphanumeric (cs : List Char) :
    U.split (String.ofList (U.subNonAlphanumeric cs)) = (U.words cs).map String.ofList := by
  rw [split, String.toList_ofList, words, (U.sameRuns_subNonAlphanumeric cs).filter_eq]

/-- Other characters in front are no part of a run. -/
theorem words_append_left {before : List Char} (h : ∀ c ∈ before, U.isAlnum c = false)
    (cs : List Char) : U.words (before ++ cs) = U.words cs := by
  induction before with
  | nil => rfl
  | cons c before ih =>
      obtain ⟨hc, hrest⟩ := List.forall_mem_cons.mp h
      rw [← ih hrest, words, words, List.cons_append, List.splitOnP_cons_eq_if_modifyHead]
      simp [hc]

/-- Other characters behind are no part of a run. -/
theorem words_append_right {after : List Char} (h : ∀ c ∈ after, U.isAlnum c = false)
    (cs : List Char) : U.words (cs ++ after) = U.words cs := by
  suffices hruns : SameRuns ((cs ++ after).splitOnP fun c => !U.isAlnum c)
      (cs.splitOnP fun c => !U.isAlnum c) from hruns.filter_eq
  induction cs with
  | nil =>
      have hnone : U.words after = [] := by
        have happ := U.words_append_left h []
        rw [List.append_nil] at happ
        rw [happ]
        rfl
      match after with
      | [] => exact ⟨rfl, rfl⟩
      | c :: after =>
          have hc := h c List.mem_cons_self
          rw [words, List.splitOnP_cons_eq_if_modifyHead] at hnone
          rw [List.nil_append, List.splitOnP_cons_eq_if_modifyHead]
          simp only [hc, Bool.not_false, if_true] at hnone ⊢
          exact ⟨rfl, hnone⟩
  | cons c cs ih =>
      rw [List.cons_append, List.splitOnP_cons_eq_if_modifyHead,
        List.splitOnP_cons_eq_if_modifyHead]
      split_ifs
      · exact ih.cons
      · exact ih.modifyHead c

/-! ## The database restricted to ASCII -/

/-- White space among the ASCII characters, as `str.isspace` has it. -/
def asciiSpace (c : Char) : Bool :=
  c.toNat = 32 || (9 ≤ c.toNat && c.toNat ≤ 13) || (28 ≤ c.toNat && c.toNat ≤ 31)

/-- Letters and digits among the ASCII characters. -/
def asciiAlnum (c : Char) : Bool :=
  (48 ≤ c.toNat && c.toNat ≤ 57) || (65 ≤ c.toNat && c.toNat ≤ 90) ||
    (97 ≤ c.toNat && c.toNat ≤ 122)

/-- Lower case among the ASCII characters. -/
def asciiLower (c : Char) : Char :=
  if 65 ≤ c.toNat ∧ c.toNat ≤ 90 then Char.ofNat (c.toNat + 32) else c

/-- The character database on ASCII text. -/
def ascii : Unicode where
  isSpace := asciiSpace
  isAlnum := asciiAlnum
  combining := fun _ => false
  nfkc := id
  nfd := id
  nfc := id
  casefold := fun s => String.ofList (s.toList.map asciiLower)
  lower := fun s => String.ofList (s.toList.map asciiLower)
  isSpace_space := by decide
  isSpace_of_isAlnum := by
    intro c h
    simp only [asciiAlnum, asciiSpace, Bool.or_eq_true, Bool.and_eq_true, decide_eq_true_eq,
      Bool.or_eq_false_iff, Bool.and_eq_false_iff, decide_eq_false_iff_not] at h ⊢
    omega
  fold_blank := by
    intro s h c hc
    simp only [id, String.toList_ofList, List.mem_map] at hc
    obtain ⟨d, hd, rfl⟩ := hc
    have hs := h d hd
    simp only [asciiSpace, Bool.or_eq_true, Bool.and_eq_true, decide_eq_true_eq] at hs
    have hlow : asciiLower d = d := by
      rw [asciiLower, if_neg]
      omega
    rw [hlow]
    simp only [asciiAlnum, Bool.or_eq_false_iff, Bool.and_eq_false_iff, decide_eq_false_iff_not]
    omega

/-- Lower case moves a capital letter. -/
theorem toNat_asciiLower {c : Char} (h : 65 ≤ c.toNat ∧ c.toNat ≤ 90) :
    (asciiLower c).toNat = c.toNat + 32 := by
  unfold asciiLower
  rw [if_pos h, Char.toNat_ofNat, if_pos]
  left
  omega

/-- Lower case keeps white space and makes none. -/
theorem asciiSpace_asciiLower (c : Char) : asciiSpace (asciiLower c) = asciiSpace c := by
  by_cases h : 65 ≤ c.toNat ∧ c.toNat ≤ 90
  · unfold asciiSpace
    rw [toNat_asciiLower h]
    have hupper : ∀ n, 65 ≤ n → (n = 32 || (9 ≤ n && n ≤ 13) || (28 ≤ n && n ≤ 31)) = false := by
      intro n hn
      simp only [Bool.or_eq_false_iff, Bool.and_eq_false_iff, decide_eq_false_iff_not]
      omega
    rw [hupper _ (by omega), hupper _ h.1]
  · unfold asciiLower
    rw [if_neg h]

/-- Lower case has no capital letters. -/
theorem asciiLower_asciiLower (c : Char) : asciiLower (asciiLower c) = asciiLower c := by
  have hnot : ¬ (65 ≤ (asciiLower c).toNat ∧ (asciiLower c).toNat ≤ 90) := by
    by_cases h : 65 ≤ c.toNat ∧ c.toNat ≤ 90
    · rw [toNat_asciiLower h]
      omega
    · unfold asciiLower
      rw [if_neg h]
      exact h
  rw [asciiLower, if_neg hnot]

/-- Stripping twice strips nothing more. -/
theorem strip_strip_toList {p : Char → Bool} (l : List Char) :
    (((l.dropWhile p).rdropWhile p).dropWhile p).rdropWhile p =
      (l.dropWhile p).rdropWhile p := by
  have hhead : ((l.dropWhile p).rdropWhile p).dropWhile p = (l.dropWhile p).rdropWhile p := by
    rw [List.dropWhile_eq_self_iff]
    intro hlen
    have hpre : (l.dropWhile p).rdropWhile p <+: l.dropWhile p := List.rdropWhile_prefix p _
    rw [hpre.getElem hlen]
    have hne : l.dropWhile p ≠ [] := List.ne_nil_of_length_pos (lt_of_lt_of_le hlen hpre.length_le)
    have hnot := List.head_dropWhile_not p hne
    rw [List.head_eq_getElem] at hnot
    rw [hnot]
    exact Bool.false_ne_true
  rw [hhead, List.rdropWhile_idempotent]

/-- Stripping after a map that keeps white space. -/
theorem rdropWhile_map {p : Char → Bool} (f : Char → Char) (l : List Char) :
    (l.map f).rdropWhile p = (l.rdropWhile (p ∘ f)).map f := by
  rw [List.rdropWhile, ← List.map_reverse, List.dropWhile_map, ← List.map_reverse, List.rdropWhile]

/-- The laws of `str.lower` on ASCII text. -/
theorem ascii_lowerLaws : ascii.LowerLaws := by
  constructor
  · intro s
    simp [ascii, Function.comp_def, asciiLower_asciiLower]
  · intro s
    have hcomp : asciiSpace ∘ asciiLower = asciiSpace := funext asciiSpace_asciiLower
    simp only [strip, ascii, String.toList_ofList, List.dropWhile_map, rdropWhile_map, hcomp,
      strip_strip_toList]

/-- Case folding of ASCII text makes no letter or digit of white space. -/
theorem ascii_stripLaws : ascii.StripLaws := by
  constructor
  intro s
  obtain ⟨before, after, hs, hspace⟩ := ascii.exists_strip s
  refine ⟨before.map asciiLower, after.map asciiLower, ?_, ?_⟩
  · simp only [ascii, id, String.toList_ofList]
    rw [hs, List.map_append, List.map_append]
    rfl
  · intro c hc
    rw [← List.map_append] at hc
    obtain ⟨d, hd, rfl⟩ := List.mem_map.mp hc
    rw [Bool.eq_false_iff]
    intro halnum
    have hnot : asciiSpace (asciiLower d) = false := ascii.isSpace_of_isAlnum _ halnum
    rw [asciiSpace_asciiLower, show asciiSpace d = true from hspace d hd] at hnot
    cases hnot

end Unicode
