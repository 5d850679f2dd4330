/-
# The tokens of a normalized name

`normalize` of `suppliers/normalization.py` folds case first and replaces what is not a letter or
digit afterwards.  A letter may fold to a letter with combining marks, which the replacement takes
for separators.

* `Tokens` : the tokens are the runs of letters and digits of the NFKC form, folded;
* `FoldsInPlace` : the condition on the name;
* `tokens_iff` : **a name is split at its separators only** exactly when it folds in place;
* `istanbul_split` : a name of one run with two tokens.
-/
import ProcureSignal.Suppliers.Registration

namespace ProcureSignal.Suppliers

variable {U : Unicode}

/-! ## Replacing characters -/

/-- Lists of runs, each not empty, that stay the same in number: each is one run. -/
theorem singleton_of_flatMap_eq {α β : Type} {L : List α} {g : α → List (List β)}
    (hlength : (L.flatMap g).length = L.length) (hpos : ∀ a ∈ L, g a ≠ []) :
    ∀ a ∈ L, ∃ v, g a = [v] := by
  have hle : ∀ l : List α, (∀ a ∈ l, g a ≠ []) → l.length ≤ (l.flatMap g).length := by
    intro l hl
    induction l with
    | nil => exact Nat.le_refl 0
    | cons a l ih =>
        have hrest := ih fun b hb => hl b (List.mem_cons_of_mem a hb)
        have hfirst := List.length_pos_of_ne_nil (hl a List.mem_cons_self)
        rw [List.flatMap_cons, List.length_append, List.length_cons]
        omega
  induction L with
  | nil => exact fun a ha => absurd ha List.not_mem_nil
  | cons a L ih =>
      obtain ⟨ha, hL⟩ := List.forall_mem_cons.mp hpos
      have hfirst := List.length_pos_of_ne_nil ha
      have hrest := hle L hL
      rw [List.flatMap_cons, List.length_append, List.length_cons] at hlength
      refine List.forall_mem_cons.mpr ⟨?_, ih (by omega) hL⟩
      exact List.length_eq_one_iff.mp (by omega)

section Replacing

variable {f : Char → List Char} {cs : List Char}

/-- Without the separators no letter or digit is missing only where they become none. -/
theorem separators_of_length (hlength : ((cs.flatMap f).filter U.isAlnum).length =
    (((cs.filter U.isAlnum).flatMap f).filter U.isAlnum).length) :
    ∀ c ∈ cs, U.isAlnum c = false → ∀ d ∈ f c, U.isAlnum d = false := by
  have hle : ∀ l : List Char, (((l.filter U.isAlnum).flatMap f).filter U.isAlnum).length ≤
      ((l.flatMap f).filter U.isAlnum).length := fun l =>
    ((List.filter_sublist.flatMap f).filter _).length_le
  induction cs with
  | nil => exact fun c hc => absurd hc List.not_mem_nil
  | cons c cs ih =>
      have hrest := hle cs
      rw [List.flatMap_cons, List.filter_append, List.length_append] at hlength
      cases hc : U.isAlnum c with
      | true =>
          rw [List.filter_cons_of_pos hc, List.flatMap_cons, List.filter_append,
            List.length_append] at hlength
          refine List.forall_mem_cons.mpr ⟨fun hfalse => ?_, ih (by omega)⟩
          rw [hc] at hfalse
          cases hfalse
      | false =>
          rw [List.filter_cons_of_neg (by rw [hc]; exact Bool.false_ne_true)] at hlength
          refine List.forall_mem_cons.mpr ⟨fun _ d hd => ?_, ih (by omega)⟩
          have hnil : (f c).filter U.isAlnum = [] := List.eq_nil_of_length_eq_zero (by omega)
          exact Bool.eq_false_iff.mpr (List.filter_eq_nil_iff.mp hnil d hd)

/-- **Runs after a replacement.**  The runs are the replaced runs without what is no letter or digit
exactly when separators become separators and each replaced run is one run. -/
theorem words_flatMap_eq_iff (hf : ∀ c, f c ≠ []) :
    U.words (cs.flatMap f) = (U.words cs).map (fun w => (w.flatMap f).filter U.isAlnum) ↔
      (∀ c ∈ cs, U.isAlnum c = false → ∀ d ∈ f c, U.isAlnum d = false) ∧
      ∀ w ∈ U.words cs, ∃ v, U.words (w.flatMap f) = [v] := by
  constructor
  · intro h
    have hsep : ∀ c ∈ cs, U.isAlnum c = false → ∀ d ∈ f c, U.isAlnum d = false := by
      apply separators_of_length
      have hflat := congrArg List.flatten h
      rw [Unicode.flatten_words, ← List.flatMap_def, ← List.filter_flatMap] at hflat
      have hjoin : ((U.words cs).flatMap fun w => w.flatMap f) = (cs.filter U.isAlnum).flatMap f := by
        rw [← Unicode.flatten_words, ← List.flatMap_id, List.flatMap_assoc]
        rfl
      rw [hflat, hjoin]
    have hwords : U.words (cs.flatMap f) = (U.words cs).flatMap fun w => U.words (w.flatMap f) :=
      Unicode.words_flatMap fun c hc hsepc => ⟨hf c, hsep c hc hsepc⟩
    refine ⟨hsep, singleton_of_flatMap_eq ?_ fun w hw hnil => ?_⟩
    · rw [← hwords, h, List.length_map]
    · have hmem : (w.flatMap f).filter U.isAlnum ∈ U.words (cs.flatMap f) := by
        rw [h]
        exact List.mem_map_of_mem hw
      refine Unicode.words_ne_nil hmem ?_
      rw [← Unicode.flatten_words, hnil, List.flatten_nil]
  · rintro ⟨hsep, hone⟩
    rw [Unicode.words_flatMap fun c hc hsepc => ⟨hf c, hsep c hc hsepc⟩,
      List.map_eq_flatMap]
    refine List.flatMap_congr fun w hw => ?_
    obtain ⟨v, hv⟩ := hone w hw
    rw [← Unicode.flatten_words, hv, List.flatten_singleton]

end Replacing

/-! ## Tokens -/

/-- The maximal runs of letters and digits of the NFKC form. -/
def runs (U : Unicode) (name : String) : List String :=
  (U.words (U.nfkc name).toList).map String.ofList

/-- The case-folded run without what is no letter or digit. -/
def tokenOf (U : Unicode) (run : String) : String :=
  String.ofList ((U.casefold run).toList.filter U.isAlnum)

/-- The tokens of the normalized name are the tokens of the runs. -/
def Tokens (U : Unicode) (name : String) : Prop :=
  U.split (normalize U name) = (runs U name).map (tokenOf U)

/-- Case folding makes no letter or digit of a separator, and leaves each run one run, perhaps with
other characters around it. -/
structure FoldsInPlace (U : Unicode) (name : String) : Prop where
  separators : ∀ c ∈ (U.nfkc name).toList, U.isAlnum c = false →
    ∀ d ∈ (U.casefold (String.singleton c)).toList, U.isAlnum d = false
  runs : ∀ run ∈ runs U name, ∃ front w back, (U.casefold run).toList = front ++ w ++ back ∧
    w ≠ [] ∧ (∀ c ∈ w, U.isAlnum c = true) ∧ ∀ c ∈ front ++ back, U.isAlnum c = false

/-- A name that differs from another in letter case and compatibility forms only. -/
def SameUpToCase (U : Unicode) (s t : String) : Prop :=
  U.nfkc (U.casefold (U.nfkc s)) = U.nfkc (U.casefold (U.nfkc t))

/-- Case folding leaves the name in compatibility form: it takes no letter apart. -/
def StaysComposed (U : Unicode) (name : String) : Prop :=
  U.nfkc (U.casefold (U.nfkc name)) = U.casefold (U.nfkc name)

/-- The tokens are the runs of letters and digits of the folded name. -/
theorem split_normalize (name : String) : U.split (normalize U name) =
    (U.words (U.casefold (U.nfkc name)).toList).map String.ofList := by
  rw [normalize, U.split_subNonAlphanumeric]
  refine Unicode.split_joined fun w hw => ?_
  obtain ⟨cs, hcs, rfl⟩ := List.mem_map.mp hw
  refine ⟨fun hempty => Unicode.words_ne_nil hcs ?_, fun c hc => ?_⟩
  · rw [← String.toList_ofList (l := cs), hempty]
    rfl
  · rw [String.toList_ofList] at hc
    exact U.isSpace_of_isAlnum c (Unicode.mem_of_mem_words hcs c hc).2

section Laws

variable (hU : U.FoldLaws)

include hU

/-- Which names are split at separators only. -/
theorem tokens_iff_foldsInPlace (name : String) : Tokens U name ↔ FoldsInPlace U name := by
  have hfold : ∀ cs : List Char, (U.casefold (String.ofList cs)).toList =
      cs.flatMap fun c => (U.casefold (String.singleton c)).toList := by
    intro cs
    rw [hU.toList_casefold, String.toList_ofList]
  have hne : ∀ c, (U.casefold (String.singleton c)).toList ≠ [] := fun c hnil =>
    hU.casefold_singleton c (String.toList_eq_nil_iff.mp hnil)
  have hlists : Tokens U name ↔ U.words (U.casefold (U.nfkc name)).toList =
      (U.words (U.nfkc name).toList).map fun w =>
        (w.flatMap fun c => (U.casefold (String.singleton c)).toList).filter U.isAlnum := by
    have hright : (runs U name).map (tokenOf U) = ((U.words (U.nfkc name).toList).map fun w =>
        (w.flatMap fun c => (U.casefold (String.singleton c)).toList).filter U.isAlnum).map
          String.ofList := by
      rw [runs, List.map_map, List.map_map]
      refine List.map_congr_left fun w _ => ?_
      rw [Function.comp_apply, Function.comp_apply, tokenOf, hfold]
    rw [Tokens, split_normalize, hright]
    exact (List.map_injective_iff.mpr fun _ _ => String.ofList_injective).eq_iff
  rw [hlists, hU.toList_casefold, words_flatMap_eq_iff hne]
  constructor
  · rintro ⟨hsep, hone⟩
    refine ⟨hsep, fun run hrun => ?_⟩
    obtain ⟨w, hw, rfl⟩ := List.mem_map.mp hrun
    rw [hfold]
    exact Unicode.words_eq_singleton_iff.mp (hone w hw)
  · intro h
    refine ⟨h.separators, fun w hw => ?_⟩
    have hrun := h.runs (String.ofList w) (List.mem_map_of_mem hw)
    rw [hfold] at hrun
    exact Unicode.words_eq_singleton_iff.mpr hrun

/-- **Normalizing twice** is normalizing once. -/
theorem normalize_normalize (name : String) :
    normalize U (normalize U name) = normalize U name := by
  by_cases hempty : normalize U name = ""
  · rw [hempty]
    exact normalize_eq_empty_of_strip U rfl
  · obtain ⟨ws, hws⟩ := spelled_normalize hU hempty
    exact hws.normalize hU

end Laws

/-- Names that folding leaves composed have one normal form when they differ in case only. -/
theorem normalize_eq_of_sameUpToCase {s t : String} (h : SameUpToCase U s t)
    (hs : StaysComposed U s) (ht : StaysComposed U t) : normalize U s = normalize U t := by
  have hfold : U.casefold (U.nfkc s) = U.casefold (U.nfkc t) := by
    rw [← hs, ← ht]
    exact h
  rw [normalize, normalize, hfold]

/-- **Where a name is split.**  Its tokens are its runs of letters and digits, folded, exactly when
case folding keeps each run in one piece; names that differ in case only normalize equally when
folding takes no letter of theirs apart; and normalization is idempotent. -/
theorem tokens_iff (hU : U.FoldLaws) (name : String) :
    (Tokens U name ↔ FoldsInPlace U name) ∧
      (∀ other, SameUpToCase U name other → StaysComposed U name → StaysComposed U other →
        normalize U name = normalize U other) ∧
      normalize U (normalize U name) = normalize U name :=
  ⟨tokens_iff_foldsInPlace hU name, fun _ => normalize_eq_of_sameUpToCase,
    normalize_normalize hU name⟩

/-! ## A letter that folds to a letter with a mark -/

/-- Full case folding of ASCII letters and of the dotted capital I, which folds to a small i and a
combining dot above. -/
def dottedFold (c : Char) : List Char :=
  if c = 'İ' then ['i', '\u0307'] else [Unicode.asciiLower c]

/-- The letters that are folded. -/
def dottedAlnum (c : Char) : Bool := c = 'İ' || Unicode.asciiAlnum c

/-- Lower case of ASCII letters yields no other letter. -/
theorem asciiLower_ne {c : Char} (hc : c ≠ 'İ') : Unicode.asciiLower c ≠ 'İ' := by
  intro h
  by_cases hupper : 65 ≤ c.toNat ∧ c.toNat ≤ 90
  · have hcode := congrArg Char.toNat h
    rw [Unicode.toNat_asciiLower hupper] at hcode
    have hdotted : 'İ'.toNat = 304 := rfl
    omega
  · rw [Unicode.asciiLower, if_neg hupper] at h
    exact hc h

/-- The character database on ASCII text and the dotted capital I. -/
def dotted : Unicode where
  isSpace := Unicode.asciiSpace
  isAlnum := dottedAlnum
  combining := fun c => c = '\u0307'
  nfkc := id
  nfd := id
  nfc := id
  casefold := fun s => String.ofList (s.toList.flatMap dottedFold)
  lower := fun s => String.ofList (s.toList.flatMap dottedFold)
  isSpace_space := Unicode.ascii.isSpace_space
  isSpace_of_isAlnum := by
    intro c h
    rcases Bool.or_eq_true_iff.mp h with hc | hc
    · rw [of_decide_eq_true hc]
      decide
    · exact Unicode.ascii.isSpace_of_isAlnum c hc
  fold_blank := by
    intro s h c hc
    simp only [id, String.toList_ofList, List.mem_flatMap] at hc
    obtain ⟨d, hd, hc⟩ := hc
    have hspace := h d hd
    have hne : d ≠ 'İ' := by
      rintro rfl
      exact absurd hspace (by decide)
    rw [dottedFold, if_neg hne, List.mem_singleton] at hc
    rw [hc, Bool.eq_false_iff]
    intro halnum
    rcases Bool.or_eq_true_iff.mp halnum with heq | hascii
    · exact asciiLower_ne hne (of_decide_eq_true heq)
    · have hblank := Unicode.ascii.isSpace_of_isAlnum _ hascii
      change Unicode.asciiSpace (Unicode.asciiLower d) = false at hblank
      rw [Unicode.asciiSpace_asciiLower, hspace] at hblank
      cases hblank

/-- A folded character is left alone when it is folded again. -/
theorem dottedFold_of_mem {c d : Char} (h : d ∈ dottedFold c) : dottedFold d = [d] := by
  unfold dottedFold at h
  split at h
  · rcases List.mem_cons.mp h with rfl | h
    · decide
    · rw [List.mem_singleton.mp h]
      decide
  · rename_i hc
    rw [List.mem_singleton.mp h, dottedFold, if_neg (asciiLower_ne hc),
      Unicode.asciiLower_asciiLower]

/-- The laws of folding on this database. -/
theorem dotted_foldLaws : dotted.FoldLaws := by
  refine ⟨fun s t => rfl, fun s t => ?_, by decide, fun c h => ?_, fun s w hw => ⟨?_, ?_⟩⟩
  · show String.ofList ((s ++ t).toList.flatMap dottedFold) = _
    rw [String.toList_append, List.flatMap_append, String.ofList_append]
    rfl
  · have hlist : dottedFold c = [] := by
      have hfold := congrArg String.toList h
      change (String.ofList ((String.singleton c).toList.flatMap dottedFold)).toList = [] at hfold
      rwa [String.toList_ofList, String.toList_singleton, List.flatMap_singleton] at hfold
    unfold dottedFold at hlist
    split at hlist
    · exact List.cons_ne_nil _ _ hlist
    · exact List.cons_ne_nil _ _ hlist
  · intro c hc
    rw [String.toList_ofList] at hc
    exact (Unicode.mem_of_mem_words hw c hc).2
  · show String.ofList ((String.ofList w).toList.flatMap dottedFold) = String.ofList w
    rw [String.toList_ofList]
    congr 1
    have hsame : ∀ c ∈ w, dottedFold c = [c] := by
      intro c hc
      have hmem := (Unicode.mem_of_mem_words hw c hc).1
      change c ∈ (String.ofList (s.toList.flatMap dottedFold)).toList at hmem
      rw [String.toList_ofList, List.mem_flatMap] at hmem
      obtain ⟨d, -, hd⟩ := hmem
      exact dottedFold_of_mem hd
    rw [List.flatMap_congr hsame, List.flatMap_singleton']

/-- **One run, two tokens.**  The dotted capital I is a letter, its fold is a letter and a mark, and
the mark is taken for a separator. -/
theorem istanbul_split : runs dotted "İstanbul" = ["İstanbul"] ∧
    normalize dotted "İstanbul" = "i stanbul" ∧ ¬ Tokens dotted "İstanbul" := by
  unfold Tokens
  decide +kernel

theorem tokens_iff_berlin : Tokens dotted "Berlin AG" ∧ FoldsInPlace dotted "Berlin AG" := by
  have htokens : Tokens dotted "Berlin AG" := by
    unfold Tokens
    decide +kernel
  exact ⟨htokens, (tokens_iff dotted_foldLaws "Berlin AG").1.mp htokens⟩

end ProcureSignal.Suppliers
