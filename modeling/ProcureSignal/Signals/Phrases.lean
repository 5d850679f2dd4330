/-
# Phrases in a text

A term is looked for in the text with its white space collapsed and in lower case.  Where it is
found, a stretch of the text itself normalizes to the term: neither the runs of white space nor the
characters whose lower case is longer come between.

* `PhraseLaws` : what is used of lower case;
* `Solid` : the terms this holds of;
* `collapseSpace_split`, `collapseSpace_append` : where collapsed text splits;
* `search_normalizeSignalTerm_iff` : **a term is found at a stretch of the text**.
-/
import ProcureSignal.Library.Lowercase
import ProcureSignal.Library.Occurrence
import ProcureSignal.Signals.Terms

namespace ProcureSignal.Signals

open Urllib (lowerChar map_unfinal_eq_iff unfinal)

variable {U : Unicode}

/-! ## Collapsed text splits where the text does -/

/-- The last character counts as it did, for a class without white space. -/
theorem any_getLast_collapseSpace {p : Char → Bool} (hp : ∀ c, p c = true → U.isSpace c = false)
    (cs : List Char) : (collapseSpace U cs).getLast?.any p = cs.getLast?.any p := by
  have hspace : ∀ c, U.isSpace c = true → p c = false := by
    intro c hc
    by_contra hpc
    rw [hp c (Bool.eq_true_of_not_eq_false hpc)] at hc
    exact Bool.false_ne_true hc
  fun_induction collapseSpace U cs with
  | case1 => rfl
  | case2 d cs _ ih =>
      cases cs with
      | nil => rfl
      | cons e cs =>
          have hne : collapseSpace U (e :: cs) ≠ [] := fun hnil =>
            List.cons_ne_nil e cs (collapseSpace_eq_nil hnil)
          rw [List.getLast?_cons_of_ne_nil hne, List.getLast?_cons_cons]
          exact ih
  | case3 d cs _ hnext ih =>
      cases cs with
      | nil => cases hnext
      | cons e cs =>
          rw [List.getLast?_cons_cons]
          exact ih
  | case4 d cs hd _ ih =>
      cases cs with
      | nil =>
          have hspaced : U.isSpace d = true := by simpa using hd
          show p ' ' = p d
          rw [hspace ' ' U.isSpace_space, hspace d hspaced]
      | cons e cs =>
          have hne : collapseSpace U (e :: cs) ≠ [] := fun hnil =>
            List.cons_ne_nil e cs (collapseSpace_eq_nil hnil)
          rw [List.getLast?_cons_of_ne_nil hne, List.getLast?_cons_cons]
          exact ih

theorem any_head_collapseSpace {p : Char → Bool} (hp : ∀ c, p c = true → U.isSpace c = false)
    (cs : List Char) : (collapseSpace U cs).head?.any p = cs.head?.any p := by
  have hspace : ∀ c, U.isSpace c = true → p c = false := by
    intro c hc
    by_contra hpc
    rw [hp c (Bool.eq_true_of_not_eq_false hpc)] at hc
    exact Bool.false_ne_true hc
  fun_induction collapseSpace U cs with
  | case1 => rfl
  | case2 d cs _ _ => rfl
  | case3 d cs hd hnext ih =>
      have hspaced : U.isSpace d = true := by simpa using hd
      rw [ih]
      cases cs with
      | nil => cases hnext
      | cons e cs =>
          show p e = p d
          rw [hspace d hspaced, hspace e hnext]
  | case4 d cs hd _ _ =>
      have hspaced : U.isSpace d = true := by simpa using hd
      show p ' ' = p d
      rw [hspace ' ' U.isSpace_space, hspace d hspaced]

/-- White space in front of white space does not count. -/
theorem collapseSpace_cons_space {c : Char} {cs : List Char} (hc : U.isSpace c = true) :
    collapseSpace U (c :: cs) =
      if cs.head?.any U.isSpace then collapseSpace U cs else ' ' :: collapseSpace U cs := by
  rw [collapseSpace, hc]
  rfl

theorem collapseSpace_cons_solid {c : Char} {cs : List Char} (hc : U.isSpace c = false) :
    collapseSpace U (c :: cs) = c :: collapseSpace U cs := by
  rw [collapseSpace, hc]
  rfl

/-- **Collapsed text splits where the text does**, next to a character other than white space. -/
theorem collapseSpace_split {cs x y : List Char} (h : collapseSpace U cs = x ++ y)
    (hcut : x.getLast?.any U.isSpace = false ∨ y.head?.any U.isSpace = false) :
    ∃ a b, cs = a ++ b ∧ collapseSpace U a = x ∧ collapseSpace U b = y := by
  induction cs generalizing x with
  | nil =>
      obtain ⟨rfl, rfl⟩ := List.append_eq_nil_iff.mp h.symm
      exact ⟨[], [], rfl, rfl, rfl⟩
  | cons c cs ih =>
      cases x with
      | nil => exact ⟨[], c :: cs, rfl, rfl, h⟩
      | cons d x =>
          have hcut' : x ≠ [] → x.getLast?.any U.isSpace = false ∨
              y.head?.any U.isSpace = false := by
            intro hne
            rwa [List.getLast?_cons_of_ne_nil hne] at hcut
          cases hc : U.isSpace c with
          | false =>
              rw [collapseSpace_cons_solid hc] at h
              obtain ⟨rfl, hrest⟩ := List.cons.inj h
              by_cases hx : x = []
              · subst hx
                exact ⟨[c], cs, rfl, by rw [collapseSpace_cons_solid hc]; rfl, hrest⟩
              · obtain ⟨a, b, rfl, ha, hb⟩ := ih hrest (hcut' hx)
                exact ⟨c :: a, b, rfl, by rw [collapseSpace_cons_solid hc, ha], hb⟩
          | true =>
              rw [collapseSpace_cons_space hc] at h
              split at h
              · -- the run goes on
                rename_i hnext
                obtain ⟨a, b, rfl, ha, hb⟩ := ih h hcut
                refine ⟨c :: a, b, rfl, ?_, hb⟩
                cases a with
                | nil => cases ha
                | cons e a =>
                    rw [collapseSpace_cons_space hc, if_pos (by simpa using hnext), ha]
              · -- the run ends, with one space for it
                rename_i hnext
                obtain ⟨rfl, hrest⟩ := List.cons.inj h
                by_cases hx : x = []
                · subst hx
                  exact ⟨[c], cs, rfl, by rw [collapseSpace_cons_space hc]; rfl, hrest⟩
                · obtain ⟨a, b, rfl, ha, hb⟩ := ih hrest (hcut' hx)
                  refine ⟨c :: a, b, rfl, ?_, hb⟩
                  cases a with
                  | nil => exact absurd ha.symm hx
                  | cons e a =>
                      rw [collapseSpace_cons_space hc, if_neg (by simpa using hnext), ha]

/-- Texts are collapsed one by one when no run of white space goes across. -/
theorem collapseSpace_append {a b : List Char}
    (hcut : a.getLast?.any U.isSpace = false ∨ b.head?.any U.isSpace = false) :
    collapseSpace U (a ++ b) = collapseSpace U a ++ collapseSpace U b := by
  induction a with
  | nil => rfl
  | cons c a ih =>
      by_cases ha : a = []
      · subst ha
        cases hc : U.isSpace c with
        | false =>
            rw [List.singleton_append, collapseSpace_cons_solid hc, collapseSpace_cons_solid hc]
            rfl
        | true =>
            have hb : b.head?.any U.isSpace = false := by
              refine hcut.resolve_left fun hlast => ?_
              have hspace : U.isSpace c = false := hlast
              rw [hc] at hspace
              exact Bool.false_ne_true hspace.symm
            rw [List.singleton_append, collapseSpace_cons_space hc, hb,
              collapseSpace_cons_space hc]
            rfl
      · rw [List.getLast?_cons_of_ne_nil ha] at hcut
        have hhead : (a ++ b).head? = a.head? := by
          cases a with
          | nil => exact absurd rfl ha
          | cons e a => rfl
        cases hc : U.isSpace c with
        | false =>
            rw [List.cons_append, collapseSpace_cons_solid hc, collapseSpace_cons_solid hc, ih hcut]
            rfl
        | true =>
            rw [List.cons_append, collapseSpace_cons_space hc, collapseSpace_cons_space hc, hhead,
              ih hcut]
            split <;> rfl

/-! ## Laws -/

/-- What is used of `str.lower` beside the laws of terms: up to the form of a sigma it acts on each
character, it leaves white space alone and makes none, and the characters that it makes longer
become an "i" with characters outside of ASCII. -/
structure PhraseLaws (U : Unicode) : Prop extends TermLaws U where
  lower_flatMap : ∀ s : String, (U.lower s).toList.map unfinal = s.toList.flatMap (lowerChar U)
  lower_space : ∀ c, U.isSpace c = true → lowerChar U c = [c]
  lower_solid : ∀ c, U.isSpace c = false →
    lowerChar U c ≠ [] ∧ ∀ d ∈ lowerChar U c, U.isSpace d = false
  lower_split : ∀ c x y, lowerChar U c = x ++ y → x ≠ [] → y ≠ [] →
    (∀ d ∈ x, d = 'i' ∨ 0x80 ≤ d.toNat) ∧ ∀ d ∈ y, 0x80 ≤ d.toNat
  isSpace_unfinal : ∀ c, U.isSpace (unfinal c) = U.isSpace c

theorem isSpace_unfinal_ascii (c : Char) :
    Unicode.ascii.isSpace (unfinal c) = Unicode.ascii.isSpace c := by
  unfold unfinal
  split
  · rename_i hc
    subst hc
    decide
  · rfl

theorem lowerChar_ascii (c : Char) :
    lowerChar .ascii c = [unfinal (Unicode.asciiLower c)] := by
  have hlower : (Unicode.ascii.lower (String.singleton c)).toList =
      (String.singleton c).toList.map Unicode.asciiLower := String.toList_ofList
  rw [lowerChar, hlower, String.toList_singleton]
  rfl

theorem ascii_phraseLaws : PhraseLaws .ascii where
  toTermLaws := ascii_termLaws
  lower_flatMap s := by
    have hlower : (Unicode.ascii.lower s).toList = s.toList.map Unicode.asciiLower :=
      String.toList_ofList
    rw [hlower, List.map_map, List.flatMap_congr fun c _ => lowerChar_ascii c]
    exact List.map_eq_flatMap
  lower_space c hc := by
    have hrange : c.toNat ≤ 32 := by
      have hspace : Unicode.asciiSpace c = true := hc
      simp only [Unicode.asciiSpace, Bool.or_eq_true, Bool.and_eq_true, decide_eq_true_eq] at hspace
      omega
    rw [lowerChar_ascii, Unicode.asciiLower, if_neg (by omega), Urllib.unfinal_of_ascii (by omega)]
  lower_solid c hc := by
    rw [lowerChar_ascii]
    refine ⟨List.cons_ne_nil _ _, fun d hd => ?_⟩
    rw [List.mem_singleton.mp hd]
    exact (isSpace_unfinal_ascii _).trans ((Unicode.asciiSpace_asciiLower c).trans hc)
  lower_split c x y h hx hy := by
    rw [lowerChar_ascii] at h
    obtain ⟨d, x, rfl⟩ := List.exists_cons_of_ne_nil hx
    obtain ⟨-, hnil⟩ := List.cons.inj h
    exact absurd (List.append_eq_nil_iff.mp hnil.symm).2 hy
  isSpace_unfinal := isSpace_unfinal_ascii

/-- A term that is found in pieces of text: ASCII, collapsed, without white space at its ends, and
not ending in an "i", which a longer character could yield. -/
structure Solid (U : Unicode) (term : List Char) : Prop where
  ascii : ∀ c ∈ term, c.toNat < 0x80
  head : ∃ c, term.head? = some c ∧ U.isSpace c = false
  last : ∃ c, term.getLast? = some c ∧ U.isSpace c = false ∧ c ≠ 'i'

/-- A text ends in `[a-z0-9]` when it is in lower case. -/
def endsWord (U : Unicode) (cs : List Char) : Bool :=
  (U.lower (String.ofList cs)).toList.getLast?.any isLowerAlnum

/-- A text starts with `[a-z0-9]` when it is in lower case. -/
def startsWord (U : Unicode) (cs : List Char) : Bool :=
  (U.lower (String.ofList cs)).toList.head?.any isLowerAlnum

/-- `a` is followed by the term and `b`, and no letter or digit is beside it. -/
def Occurs (term text : List Char) : Prop :=
  ∃ a b, text = a ++ term ++ b ∧ a.getLast?.any isLowerAlnum = false ∧
    b.head?.any isLowerAlnum = false

theorem isLowerAlnum_unfinal (c : Char) : isLowerAlnum (unfinal c) = isLowerAlnum c := by
  unfold unfinal
  split
  · rename_i hc
    subst hc
    decide
  · rfl

/-- The form of a sigma does not matter for an ASCII term. -/
theorem occurs_map_unfinal {term text : List Char} (hascii : ∀ c ∈ term, c.toNat < 0x80) :
    Occurs term (text.map unfinal) ↔ Occurs term text := by
  have hany : ∀ o : Option Char, (o.map unfinal).any isLowerAlnum = o.any isLowerAlnum := by
    intro o
    cases o with
    | none => rfl
    | some c => exact isLowerAlnum_unfinal c
  constructor
  · rintro ⟨a, b, hsplit, hfront, hback⟩
    obtain ⟨at', b', rfl, hat, rfl⟩ := List.map_eq_append_iff.mp hsplit
    obtain ⟨a', t', rfl, rfl, hterm⟩ := List.map_eq_append_iff.mp hat
    rw [(map_unfinal_eq_iff hascii).mp hterm]
    refine ⟨a', b', rfl, ?_, ?_⟩
    · rwa [List.getLast?_map, hany] at hfront
    · rwa [List.head?_map, hany] at hback
  · rintro ⟨a, b, rfl, hfront, hback⟩
    refine ⟨a.map unfinal, b.map unfinal, ?_, ?_, ?_⟩
    · rw [List.map_append, List.map_append, (map_unfinal_eq_iff hascii).mpr rfl]
    · rwa [List.getLast?_map, hany]
    · rwa [List.head?_map, hany]

section Laws

variable (laws : PhraseLaws U)

include laws

theorem collapseSpace_map_unfinal (cs : List Char) :
    collapseSpace U (cs.map unfinal) = (collapseSpace U cs).map unfinal := by
  induction cs with
  | nil => rfl
  | cons c cs ih =>
      have hnext : (cs.map unfinal).head?.any U.isSpace = cs.head?.any U.isSpace := by
        cases cs with
        | nil => rfl
        | cons d cs => exact laws.isSpace_unfinal d
      rw [List.map_cons]
      cases hc : U.isSpace c with
      | false =>
          rw [collapseSpace_cons_solid ((laws.isSpace_unfinal c).trans hc), ih,
            collapseSpace_cons_solid hc]
          rfl
      | true =>
          rw [collapseSpace_cons_space ((laws.isSpace_unfinal c).trans hc), hnext, ih,
            collapseSpace_cons_space hc]
          split <;> rfl

theorem isSpace_of_isLowerAlnum {c : Char} (hc : isLowerAlnum c = true) : U.isSpace c = false := by
  have hrange : (97 ≤ c.toNat ∧ c.toNat ≤ 122) ∨ 48 ≤ c.toNat ∧ c.toNat ≤ 57 := by
    simpa [isLowerAlnum, Char.le_def, UInt32.le_iff_toNat_le] using hc
  rw [laws.isSpace c (by omega)]
  simp only [Unicode.asciiSpace, Bool.or_eq_false_iff, Bool.and_eq_false_iff,
    decide_eq_false_iff_not]
  omega

/-- Lower case, character by character. -/
theorem endsWord_eq (cs : List Char) :
    endsWord U cs = (cs.flatMap (lowerChar U)).getLast?.any isLowerAlnum := by
  have hflat := laws.lower_flatMap (String.ofList cs)
  rw [String.toList_ofList] at hflat
  rw [endsWord, ← hflat, List.getLast?_map]
  cases (U.lower (String.ofList cs)).toList.getLast? with
  | none => rfl
  | some c => exact (isLowerAlnum_unfinal c).symm

theorem startsWord_eq (cs : List Char) :
    startsWord U cs = (cs.flatMap (lowerChar U)).head?.any isLowerAlnum := by
  have hflat := laws.lower_flatMap (String.ofList cs)
  rw [String.toList_ofList] at hflat
  rw [startsWord, ← hflat, List.head?_map]
  cases (U.lower (String.ofList cs)).toList.head? with
  | none => rfl
  | some c => exact (isLowerAlnum_unfinal c).symm

/-- White space stays as it is. -/
theorem flatMap_lowerChar_space {cs : List Char} (h : ∀ c ∈ cs, U.isSpace c = true) :
    cs.flatMap (lowerChar U) = cs := by
  induction cs with
  | nil => rfl
  | cons c cs ih =>
      rw [List.flatMap_cons, laws.lower_space c (h c List.mem_cons_self),
        ih fun d hd => h d (List.mem_cons_of_mem c hd)]
      rfl

/-- Lower case starts with white space where the text does. -/
theorem head_flatMap_lowerChar (cs : List Char) :
    (cs.flatMap (lowerChar U)).head?.any U.isSpace = cs.head?.any U.isSpace := by
  cases cs with
  | nil => rfl
  | cons c cs =>
      rw [List.flatMap_cons]
      cases hc : U.isSpace c with
      | true =>
          rw [laws.lower_space c hc]
          rfl
      | false =>
          obtain ⟨hne, hsolid⟩ := laws.lower_solid c hc
          obtain ⟨d, rest, hd⟩ := List.exists_cons_of_ne_nil hne
          have hspace := hsolid d (by rw [hd]; exact List.mem_cons_self)
          rw [hd]
          exact hspace.trans hc.symm

theorem getLast_flatMap_lowerChar (cs : List Char) :
    (cs.flatMap (lowerChar U)).getLast?.any U.isSpace = cs.getLast?.any U.isSpace := by
  rcases List.eq_nil_or_concat cs with rfl | ⟨cs, c, rfl⟩
  · rfl
  · rw [List.concat_eq_append, List.flatMap_append, List.getLast?_concat, List.flatMap_cons,
      List.flatMap_nil, List.append_nil]
    cases hc : U.isSpace c with
    | true =>
        rw [laws.lower_space c hc, List.getLast?_concat]
    | false =>
        obtain ⟨hne, hsolid⟩ := laws.lower_solid c hc
        rw [List.getLast?_append_of_ne_nil _ hne, List.getLast?_eq_some_getLast hne]
        exact (hsolid _ (List.getLast_mem hne)).trans hc.symm

/-- A stretch without white space at its ends normalizes to its collapsed lower case. -/
theorem normalizeSignalTerm_stretch {cs term : List Char} (hascii : ∀ c ∈ term, c.toNat < 0x80)
    (hhead : cs.head?.any U.isSpace = false) (hlast : cs.getLast?.any U.isSpace = false) :
    (normalizeSignalTerm U (String.ofList cs)).toList = term ↔
      collapseSpace U (cs.flatMap (lowerChar U)) = term := by
  have hstrip : U.strip (String.ofList cs) = String.ofList cs := by
    rw [strip_eq_self_iff, String.toList_ofList]
    exact ⟨hhead, hlast⟩
  have hflat := laws.lower_flatMap (String.ofList cs)
  rw [String.toList_ofList] at hflat
  rw [normalizeSignalTerm, hstrip, String.toList_ofList, ← hflat, collapseSpace_map_unfinal laws,
    map_unfinal_eq_iff hascii]

/-- What is beside a stretch does not end in a letter when its white space is taken off. -/
theorem any_getLast_append_space {cs spaces : List Char}
    (hspaces : ∀ c ∈ spaces, U.isSpace c = true) (h : cs.getLast?.any isLowerAlnum = false) :
    (cs ++ spaces).getLast?.any isLowerAlnum = false := by
  by_cases hnil : spaces = []
  · rwa [hnil, List.append_nil]
  · rw [List.getLast?_append_of_ne_nil _ hnil, List.getLast?_eq_some_getLast hnil]
    show isLowerAlnum _ = false
    by_contra hword
    have hspace := isSpace_of_isLowerAlnum laws (Bool.eq_true_of_not_eq_false hword)
    rw [hspaces _ (List.getLast_mem hnil)] at hspace
    exact Bool.false_ne_true hspace.symm

theorem any_head_space_append {cs spaces : List Char}
    (hspaces : ∀ c ∈ spaces, U.isSpace c = true) (h : cs.head?.any isLowerAlnum = false) :
    (spaces ++ cs).head?.any isLowerAlnum = false := by
  cases spaces with
  | nil => exact h
  | cons c spaces =>
      show isLowerAlnum c = false
      by_contra hword
      have hspace := isSpace_of_isLowerAlnum laws (Bool.eq_true_of_not_eq_false hword)
      rw [hspaces c List.mem_cons_self] at hspace
      exact Bool.false_ne_true hspace.symm

/-- Every character has a lower case. -/
theorem flatMap_lowerChar_ne_nil {cs : List Char} (h : cs ≠ []) :
    cs.flatMap (lowerChar U) ≠ [] := by
  obtain ⟨c, rest, rfl⟩ := List.exists_cons_of_ne_nil h
  rw [List.flatMap_cons]
  cases hc : U.isSpace c with
  | true =>
      rw [laws.lower_space c hc]
      exact List.cons_ne_nil _ _
  | false => exact List.append_ne_nil_of_left_ne_nil (laws.lower_solid c hc).1 _

/-- How a text ends is seen from its end. -/
theorem endsWord_append {a b : List Char} (h : b ≠ []) :
    endsWord U (a ++ b) = endsWord U b := by
  rw [endsWord_eq laws, endsWord_eq laws, List.flatMap_append,
    List.getLast?_append_of_ne_nil _ (flatMap_lowerChar_ne_nil laws h)]

theorem startsWord_append {a b : List Char} (h : a ≠ []) :
    startsWord U (a ++ b) = startsWord U a := by
  rw [startsWord_eq laws, startsWord_eq laws, List.flatMap_append,
    List.head?_append_of_ne_nil _ (flatMap_lowerChar_ne_nil laws h)]

theorem endsWord_nil : endsWord U [] = false := by
  rw [endsWord_eq laws]
  rfl

theorem startsWord_nil : startsWord U [] = false := by
  rw [startsWord_eq laws]
  rfl

/-- **A stretch of the text for an occurrence in its collapsed lower case.** -/
theorem exists_stretch {term cs : List Char} (hsolid : Solid U term)
    (h : Occurs term (collapseSpace U (cs.flatMap (lowerChar U)))) :
    ∃ before stretch after, cs = before ++ stretch ++ after ∧
      (normalizeSignalTerm U (String.ofList stretch)).toList = term ∧
      endsWord U before = false ∧ startsWord U after = false := by
  obtain ⟨a, b, hsplit, hfront, hback⟩ := h
  obtain ⟨first, hfirst, hfirst_solid⟩ := hsolid.head
  obtain ⟨last, hlast, hlast_solid, hlast_ne⟩ := hsolid.last
  have hfirst_ascii := hsolid.ascii first (List.mem_of_head? hfirst)
  have hlast_ascii := hsolid.ascii last (List.mem_of_getLast? hlast)
  have hhead : (term ++ b).head? = some first := by
    rw [List.head?_append, hfirst]
    rfl
  -- the lower case splits at both ends of the term
  rw [List.append_assoc] at hsplit
  obtain ⟨x, r, hlow, hx, hr⟩ := collapseSpace_split hsplit
    (Or.inr (by rw [hhead]; exact hfirst_solid))
  obtain ⟨y, z, rfl, hy, hz⟩ := collapseSpace_split hr (Or.inl (by rw [hlast]; exact hlast_solid))
  have hy_head : y.head?.any (· = first) = true := by
    rw [← any_head_collapseSpace (U := U) (p := (· = first)), hy, hfirst]
    · simp
    · intro c hc
      rw [of_decide_eq_true hc]
      exact hfirst_solid
  have hy_last : y.getLast?.any (· = last) = true := by
    rw [← any_getLast_collapseSpace (U := U) (p := (· = last)), hy, hlast]
    · simp
    · intro c hc
      rw [of_decide_eq_true hc]
      exact hlast_solid
  -- and the text with it, as the images of its characters do not go across
  have hbefore : ∃ before rest, cs = before ++ rest ∧ before.flatMap (lowerChar U) = x ∧
      rest.flatMap (lowerChar U) = y ++ z := by
    rcases exists_split_flatMap cs hlow with hcut | ⟨c, u, v, u', v', hc, hu, hv, -, hright⟩
    · exact hcut
    · exfalso
      obtain ⟨d, v, rfl⟩ := List.exists_cons_of_ne_nil hv
      have hd := (laws.lower_split c _ _ hc hu hv).2 d List.mem_cons_self
      cases y with
      | nil => cases hy_head
      | cons e y =>
          have hde := (List.cons.inj hright).1
          have he : e = first := of_decide_eq_true hy_head
          rw [← hde, he] at hd
          omega
  obtain ⟨before, rest, rfl, hx', hrest⟩ := hbefore
  have hafter : ∃ stretch after, rest = stretch ++ after ∧ stretch.flatMap (lowerChar U) = y ∧
      after.flatMap (lowerChar U) = z := by
    rcases exists_split_flatMap rest hrest with hcut | ⟨c, u, v, u', v', hc, hu, hv, hleft, -⟩
    · exact hcut
    · exfalso
      have hd := (laws.lower_split c _ _ hc hu hv).1 _ (List.getLast_mem hu)
      rw [hleft, List.getLast?_append_of_ne_nil _ hu, List.getLast?_eq_some_getLast hu] at hy_last
      have he : u.getLast hu = last := of_decide_eq_true hy_last
      rw [he] at hd
      rcases hd with hi | hhigh
      · exact hlast_ne hi
      · omega
  obtain ⟨stretch, after, rfl, hy', hz'⟩ := hafter
  refine ⟨before, stretch, after, (List.append_assoc _ _ _).symm, ?_, ?_, ?_⟩
  · rw [normalizeSignalTerm_stretch laws hsolid.ascii, hy', hy]
    · rw [← head_flatMap_lowerChar laws, hy']
      by_contra hspace
      rw [Bool.not_eq_false] at hspace
      cases y with
      | nil => cases hy_head
      | cons e y =>
          have he : e = first := of_decide_eq_true hy_head
          have hspaced : U.isSpace e = true := hspace
          rw [he, hfirst_solid] at hspaced
          exact Bool.false_ne_true hspaced
    · rw [← getLast_flatMap_lowerChar laws, hy']
      cases hlast' : y.getLast? with
      | none => rfl
      | some e =>
          rw [hlast'] at hy_last
          have he : e = last := of_decide_eq_true hy_last
          rw [he]
          exact hlast_solid
  · rw [endsWord_eq laws, hx', ← any_getLast_collapseSpace (U := U)
      (fun c hc => isSpace_of_isLowerAlnum laws hc), hx]
    exact hfront
  · rw [startsWord_eq laws, hz', ← any_head_collapseSpace (U := U)
      (fun c hc => isSpace_of_isLowerAlnum laws hc), hz]
    exact hback

omit laws in
/-- White space around a text is around each of its stretches that has none at its ends. -/
theorem exists_trim_split {front middle back before body after : List Char}
    (h : front ++ middle ++ back = before ++ body ++ after) (hne : middle ≠ [])
    (hhead : middle.head?.any U.isSpace = false) (hlast : middle.getLast?.any U.isSpace = false)
    (hbefore : ∀ c ∈ before, U.isSpace c = true) (hafter : ∀ c ∈ after, U.isSpace c = true) :
    ∃ front' back', body = front' ++ middle ++ back' ∧ front = before ++ front' ∧
      back = back' ++ after := by
  have hfront : ∃ front', front = before ++ front' ∧
      body ++ after = front' ++ (middle ++ back) := by
    rw [List.append_assoc, List.append_assoc] at h
    rcases List.append_eq_append_iff.mp h with ⟨rest, rfl, hrest⟩ | ⟨front', rfl, hrest⟩
    · cases rest with
      | nil => exact ⟨[], by simp, by simpa using hrest.symm⟩
      | cons c rest =>
          obtain ⟨d, middle, rfl⟩ := List.exists_cons_of_ne_nil hne
          have hspace := hbefore c (List.mem_append_right _ List.mem_cons_self)
          rw [← (List.cons.inj hrest).1] at hspace
          exact absurd (hspace.symm.trans hhead) (by decide)
    · exact ⟨front', rfl, hrest⟩
  obtain ⟨front', rfl, hrest⟩ := hfront
  rw [← List.append_assoc] at hrest
  rcases List.append_eq_append_iff.mp hrest with ⟨rest, hbody, hback⟩ | ⟨rest, hbody, hback⟩
  · by_cases hnil : rest = []
    · rw [hnil, List.append_nil] at hbody
      rw [hnil, List.nil_append] at hback
      exact ⟨front', [], by rw [List.append_nil]; exact hbody.symm, rfl, by rw [hback]; rfl⟩
    · have hspace := hafter _ (hback ▸ List.mem_append_left _ (List.getLast_mem hnil))
      have hsame : middle.getLast? = rest.getLast? := by
        rw [← List.getLast?_append_of_ne_nil front' hne, hbody,
          List.getLast?_append_of_ne_nil _ hnil]
      rw [hsame, List.getLast?_eq_some_getLast hnil] at hlast
      exact absurd (hspace.symm.trans hlast) (by decide)
  · exact ⟨front', rest, hbody, rfl, hback⟩

/-- What is before a stretch ends in no letter, wherever the white space goes. -/
theorem any_getLast_of_trim {before spaces spaces' front : List Char}
    (h : before ++ spaces = spaces' ++ front) (hspaces : ∀ c ∈ spaces, U.isSpace c = true)
    (hspaces' : ∀ c ∈ spaces', U.isSpace c = true) (hfront : endsWord U before = false) :
    (front.flatMap (lowerChar U)).getLast?.any isLowerAlnum = false := by
  by_cases hnil : front.flatMap (lowerChar U) = []
  · rw [hnil]
    rfl
  · rw [endsWord_eq laws] at hfront
    have hlow := congrArg (List.flatMap (lowerChar U)) h
    rw [List.flatMap_append, List.flatMap_append, flatMap_lowerChar_space laws hspaces,
      flatMap_lowerChar_space laws hspaces'] at hlow
    rw [← List.getLast?_append_of_ne_nil spaces' hnil, ← hlow]
    exact any_getLast_append_space laws hspaces hfront

theorem any_head_of_trim {after spaces spaces' back : List Char}
    (h : spaces ++ after = back ++ spaces') (hspaces : ∀ c ∈ spaces, U.isSpace c = true)
    (hspaces' : ∀ c ∈ spaces', U.isSpace c = true) (hback : startsWord U after = false) :
    (back.flatMap (lowerChar U)).head?.any isLowerAlnum = false := by
  by_cases hnil : back.flatMap (lowerChar U) = []
  · rw [hnil]
    rfl
  · rw [startsWord_eq laws] at hback
    have hlow := congrArg (List.flatMap (lowerChar U)) h
    rw [List.flatMap_append, List.flatMap_append, flatMap_lowerChar_space laws hspaces,
      flatMap_lowerChar_space laws hspaces'] at hlow
    rw [← List.head?_append_of_ne_nil _ hnil, ← hlow]
    exact any_head_space_append laws hspaces hback

/-- **An occurrence in the collapsed lower case for a stretch of the text.** -/
theorem occurs_of_stretch {term before stretch after : List Char} (hsolid : Solid U term)
    (hterm : (normalizeSignalTerm U (String.ofList stretch)).toList = term)
    (hfront : endsWord U before = false) (hback : startsWord U after = false) :
    Occurs term (collapseSpace U
      ((U.strip (String.ofList (before ++ stretch ++ after))).toList.flatMap (lowerChar U))) := by
  obtain ⟨p, q, hstretch, hspaces⟩ := U.exists_strip (String.ofList stretch)
  obtain ⟨p', q', htext, hspaces'⟩ := U.exists_strip (String.ofList (before ++ stretch ++ after))
  rw [String.toList_ofList] at hstretch htext
  generalize hbody : (U.strip (String.ofList (before ++ stretch ++ after))).toList = body at htext ⊢
  have hself : U.strip (U.strip (String.ofList stretch)) = U.strip (String.ofList stretch) := by
    rw [Unicode.strip, Unicode.strip, String.toList_ofList, Unicode.strip_strip_toList]
  obtain ⟨hhead, hlast⟩ := (strip_eq_self_iff _).mp hself
  have hmiddle : collapseSpace U
      ((U.strip (String.ofList stretch)).toList.flatMap (lowerChar U)) = term := by
    rw [← normalizeSignalTerm_stretch laws hsolid.ascii hhead hlast, String.ofList_toList,
      normalizeSignalTerm, hself]
    exact hterm
  generalize (U.strip (String.ofList stretch)).toList = middle at hstretch hhead hlast hmiddle
  have hne : middle ≠ [] := by
    rintro rfl
    obtain ⟨c, hc, -⟩ := hsolid.head
    rw [← hmiddle] at hc
    cases hc
  have hwhole : (before ++ p) ++ middle ++ (q ++ after) = p' ++ body ++ q' := by
    rw [← htext, hstretch]
    simp only [List.append_assoc]
  obtain ⟨front', back', hsplit, hfront', hback'⟩ := exists_trim_split hwhole hne hhead hlast
    (fun c hc => hspaces' c (List.mem_append_left _ hc))
    (fun c hc => hspaces' c (List.mem_append_right _ hc))
  rw [hsplit, List.flatMap_append, List.flatMap_append]
  refine ⟨collapseSpace U (front'.flatMap (lowerChar U)),
    collapseSpace U (back'.flatMap (lowerChar U)), ?_, ?_, ?_⟩
  · have hlow : (middle.flatMap (lowerChar U)) ≠ [] := by
      intro hnil
      rw [hnil] at hmiddle
      obtain ⟨c, hc, -⟩ := hsolid.head
      rw [← hmiddle] at hc
      cases hc
    rw [collapseSpace_append, collapseSpace_append, hmiddle]
    · right
      rw [head_flatMap_lowerChar laws]
      exact hhead
    · left
      rw [List.getLast?_append_of_ne_nil _ hlow, getLast_flatMap_lowerChar laws]
      exact hlast
  · rw [any_getLast_collapseSpace fun c hc => isSpace_of_isLowerAlnum laws hc]
    exact any_getLast_of_trim laws hfront' (fun c hc => hspaces c (List.mem_append_left _ hc))
      (fun c hc => hspaces' c (List.mem_append_left _ hc)) hfront
  · rw [any_head_collapseSpace fun c hc => isSpace_of_isLowerAlnum laws hc]
    exact any_head_of_trim laws hback' (fun c hc => hspaces c (List.mem_append_right _ hc))
      (fun c hc => hspaces' c (List.mem_append_right _ hc)) hback

/-- **A term is found at a stretch of the text**: a part of it that normalizes to the term, with no
letter or digit beside it. -/
theorem search_normalizeSignalTerm_iff {term text : String} (hsolid : Solid U term.toList) :
    (Regex.phrase isLowerAlnum term).search (normalizeSignalTerm U text) = true ↔
      ∃ before stretch after, text.toList = before ++ stretch ++ after ∧
        normalizeSignalTerm U (String.ofList stretch) = term ∧
        endsWord U before = false ∧ startsWord U after = false := by
  have hterm : ∀ cs : List Char, normalizeSignalTerm U (String.ofList cs) = term ↔
      (normalizeSignalTerm U (String.ofList cs)).toList = term.toList :=
    fun cs => String.toList_inj.symm
  have hcollapsed : (Regex.phrase isLowerAlnum term).search (normalizeSignalTerm U text) = true ↔
      Occurs term.toList (collapseSpace U ((U.strip text).toList.flatMap (lowerChar U))) := by
    rw [Regex.search_phrase_iff, normalizeSignalTerm, String.toList_ofList, ← laws.lower_flatMap,
      collapseSpace_map_unfinal laws, occurs_map_unfinal hsolid.ascii]
    rfl
  rw [hcollapsed]
  constructor
  · intro h
    obtain ⟨before, stretch, after, hsplit, hstretch, hfront, hback⟩ :=
      exists_stretch laws hsolid h
    -- the white space around the text is beside the stretch
    obtain ⟨p, q, htext, hspaces⟩ := U.exists_strip text
    refine ⟨p ++ before, stretch, after ++ q, ?_, (hterm stretch).mpr hstretch, ?_, ?_⟩
    · rw [htext, hsplit]
      simp only [List.append_assoc]
    · rw [endsWord_eq laws] at hfront ⊢
      rw [List.flatMap_append]
      by_cases hnil : before.flatMap (lowerChar U) = []
      · rw [hnil, List.append_nil, flatMap_lowerChar_space laws
          (fun c hc => hspaces c (List.mem_append_left _ hc)), ← List.nil_append p]
        exact any_getLast_append_space laws (fun c hc => hspaces c (List.mem_append_left _ hc)) rfl
      · rwa [List.getLast?_append_of_ne_nil _ hnil]
    · rw [startsWord_eq laws] at hback ⊢
      rw [List.flatMap_append]
      by_cases hnil : after.flatMap (lowerChar U) = []
      · rw [hnil, List.nil_append, flatMap_lowerChar_space laws
          (fun c hc => hspaces c (List.mem_append_right _ hc)), ← List.append_nil q]
        exact any_head_space_append laws (fun c hc => hspaces c (List.mem_append_right _ hc)) rfl
      · rwa [List.head?_append_of_ne_nil _ hnil]
  · rintro ⟨before, stretch, after, hsplit, hstretch, hfront, hback⟩
    have hoccurs := occurs_of_stretch laws hsolid ((hterm stretch).mp hstretch) hfront hback
    rwa [← hsplit, String.ofList_toList] at hoccurs

end Laws

end ProcureSignal.Signals
