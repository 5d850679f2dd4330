/-
# Normal terms

`normalize_signal_term` takes white space off both ends, makes the rest lower case and every run of
white space one space.  A term of this form is left alone.

* `TermLaws` : what is used of lower case;
* `Normal`, `normal_normalizeSignalTerm` : **normalizing twice changes nothing**;
* `Normal.underscored` : a normal term stays normal when its spaces become underscores.
-/
import ProcureSignal.Library.Ascii
import ProcureSignal.Signals.Taxonomy

namespace ProcureSignal.Signals

variable {U : Unicode}

/-! ## Runs of white space -/

/-- The only white space that is left. -/
theorem eq_space_of_mem_collapseSpace (cs : List Char) :
    ∀ c ∈ collapseSpace U cs, U.isSpace c = true → c = ' ' := by
  fun_induction collapseSpace U cs with
  | case1 => exact fun c hc => absurd hc List.not_mem_nil
  | case2 d cs hd ih =>
      intro c hc hspace
      rcases List.mem_cons.mp hc with rfl | hc
      · rw [hspace] at hd
        exact absurd hd (by decide)
      · exact ih c hc hspace
  | case3 d cs _ _ ih => exact ih
  | case4 d cs _ _ ih =>
      intro c hc hspace
      rcases List.mem_cons.mp hc with rfl | hc
      · rfl
      · exact ih c hc hspace

theorem collapseSpace_of_not_space {cs : List Char} (h : ∀ c ∈ cs, U.isSpace c = false) :
    collapseSpace U cs = cs := by
  induction cs with
  | nil => rfl
  | cons c cs ih =>
      rw [collapseSpace, h c List.mem_cons_self, ih fun d hd => h d (List.mem_cons_of_mem c hd)]
      rfl

theorem collapseSpace_eq_nil {cs : List Char} (h : collapseSpace U cs = []) : cs = [] := by
  fun_induction collapseSpace U cs with
  | case1 => rfl
  | case2 d cs _ _ => cases h
  | case3 d cs _ hnext ih =>
      rw [ih h] at hnext
      cases hnext
  | case4 d cs _ _ _ => cases h

theorem head_collapseSpace {cs : List Char} (h : cs.head?.any U.isSpace = false) :
    (collapseSpace U cs).head? = cs.head? := by
  cases cs with
  | nil => rfl
  | cons c cs =>
      have hc : U.isSpace c = false := h
      rw [collapseSpace, hc]
      rfl

theorem getLast_collapseSpace {cs : List Char} (h : cs.getLast?.any U.isSpace = false) :
    (collapseSpace U cs).getLast? = cs.getLast? := by
  fun_induction collapseSpace U cs with
  | case1 => rfl
  | case2 d cs _ ih =>
      cases cs with
      | nil => rfl
      | cons e cs =>
          have hne : collapseSpace U (e :: cs) ≠ [] := fun hnil =>
            List.cons_ne_nil e cs (collapseSpace_eq_nil hnil)
          rw [List.getLast?_cons_cons] at h
          rw [List.getLast?_cons_cons, ← ih h, List.getLast?_cons_of_ne_nil hne]
  | case3 d cs _ hnext ih =>
      cases cs with
      | nil => cases hnext
      | cons e cs =>
          rw [List.getLast?_cons_cons] at h ⊢
          exact ih h
  | case4 d cs hd _ ih =>
      cases cs with
      | nil =>
          have hspace : U.isSpace d = false := h
          rw [hspace] at hd
          exact absurd rfl hd
      | cons e cs =>
          have hne : collapseSpace U (e :: cs) ≠ [] := fun hnil =>
            List.cons_ne_nil e cs (collapseSpace_eq_nil hnil)
          rw [List.getLast?_cons_cons] at h
          rw [List.getLast?_cons_cons, ← ih h, List.getLast?_cons_of_ne_nil hne]

theorem collapseSpace_collapseSpace (cs : List Char) :
    collapseSpace U (collapseSpace U cs) = collapseSpace U cs := by
  fun_induction collapseSpace U cs with
  | case1 => rfl
  | case2 d cs hd ih => rw [collapseSpace, if_pos hd, ih]
  | case3 d cs _ _ ih => exact ih
  | case4 d cs hd hnext ih =>
      have hhead : (collapseSpace U cs).head?.any U.isSpace = false := by
        rw [head_collapseSpace (Bool.not_eq_true _ ▸ hnext)]
        exact Bool.not_eq_true _ ▸ hnext
      rw [collapseSpace, U.isSpace_space, hhead, ih]
      rfl

/-! ## White space at the ends -/

/-- Stripping changes nothing exactly when neither end is white space. -/
theorem strip_eq_self_iff (s : String) :
    U.strip s = s ↔
      s.toList.head?.any U.isSpace = false ∧ s.toList.getLast?.any U.isSpace = false := by
  have hback : ∀ l : List Char, l.rdropWhile U.isSpace = l ↔
      l.getLast?.any U.isSpace = false := by
    intro l
    rcases List.eq_nil_or_concat l with rfl | ⟨l, c, rfl⟩
    · simp
    · rw [List.rdropWhile_eq_self_iff]
      simp
  have hfront : ∀ l : List Char, l.dropWhile U.isSpace = l ↔ l.head?.any U.isSpace = false := by
    intro l
    cases l with
    | nil => simp
    | cons c l =>
        rw [List.dropWhile_eq_self_iff]
        simp
  rw [← hfront, ← hback]
  constructor
  · intro h
    have htext : (s.toList.dropWhile U.isSpace).rdropWhile U.isSpace = s.toList := by
      have hstrip := congrArg String.toList h
      rwa [Unicode.strip, String.toList_ofList] at hstrip
    -- nothing can be missing at the front, and so nothing is missing at the back
    have hlength : s.toList.length ≤ (s.toList.dropWhile U.isSpace).length := by
      conv_lhs => rw [← htext]
      exact (List.rdropWhile_prefix _ _).length_le
    have hwhole : s.toList.dropWhile U.isSpace = s.toList :=
      (List.dropWhile_suffix _).eq_of_length_le hlength
    rw [hwhole] at htext
    exact ⟨hwhole, htext⟩
  · rintro ⟨hwhole, hrest⟩
    rw [Unicode.strip, hwhole, hrest, String.ofList_toList]

/-! ## Normal terms -/

/-- What is used of `str.lower`: it yields characters that it leaves alone, and it leaves no text
empty but the empty one. -/
structure TermLaws (U : Unicode) : Prop extends U.AsciiLaws, U.LowerLaws where
  mem_lower : ∀ s, ∀ c ∈ (U.lower s).toList, U.lower (String.singleton c) = String.singleton c
  lower_eq_self : ∀ s : String,
    (∀ c ∈ s.toList, U.lower (String.singleton c) = String.singleton c) → U.lower s = s
  lower_eq_empty : ∀ s, U.lower s = "" → s = ""

theorem ascii_termLaws : TermLaws .ascii where
  toAsciiLaws := Unicode.ascii_asciiLaws
  toLowerLaws := Unicode.ascii_lowerLaws
  mem_lower s c hc := by
    have hmap : (Unicode.ascii.lower s).toList = s.toList.map Unicode.asciiLower :=
      String.toList_ofList
    rw [hmap] at hc
    obtain ⟨d, -, rfl⟩ := List.mem_map.mp hc
    show String.ofList ((String.singleton _).toList.map Unicode.asciiLower) = _
    rw [String.toList_singleton, List.map_singleton, Unicode.asciiLower_asciiLower,
      String.singleton_eq_ofList]
  lower_eq_self s h := by
    show String.ofList (s.toList.map Unicode.asciiLower) = s
    have hself : s.toList.map Unicode.asciiLower = s.toList.map id := by
      refine List.map_congr_left fun c hc => ?_
      have hc := congrArg String.toList (h c hc)
      have hmap : (Unicode.ascii.lower (String.singleton c)).toList =
          (String.singleton c).toList.map Unicode.asciiLower := String.toList_ofList
      rw [hmap, String.toList_singleton, List.map_singleton] at hc
      exact (List.cons.inj hc).1
    rw [hself, List.map_id, String.ofList_toList]
  lower_eq_empty s h := by
    have hlength := congrArg (fun t => t.toList.length) h
    have hmap : (Unicode.ascii.lower s).toList = s.toList.map Unicode.asciiLower :=
      String.toList_ofList
    simp only [hmap, List.length_map] at hlength
    exact String.toList_inj.mp (List.eq_nil_of_length_eq_zero hlength)

/-- A term that normalization leaves alone. -/
structure Normal (U : Unicode) (term : String) : Prop where
  lowered : ∀ c ∈ term.toList, U.lower (String.singleton c) = String.singleton c
  strip : U.strip term = term
  collapse : collapseSpace U term.toList = term.toList

section Laws

variable (laws : TermLaws U)

include laws

theorem Normal.normalize {term : String} (h : Normal U term) :
    normalizeSignalTerm U term = term := by
  rw [normalizeSignalTerm, h.strip, laws.lower_eq_self term h.lowered, h.collapse,
    String.ofList_toList]

/-- White space and the underscore are lower case. -/
theorem lower_separator {c : Char} (h : c = ' ' ∨ c = '_') :
    U.lower (String.singleton c) = String.singleton c := by
  rw [laws.lower _ (by rcases h with rfl | rfl <;> decide +kernel)]
  rcases h with rfl | rfl <;> decide +kernel

/-- Every normalized term is normal. -/
theorem normal_normalizeSignalTerm (value : String) : Normal U (normalizeSignalTerm U value) := by
  have hstrip := (strip_eq_self_iff _).mp (laws.strip_lower_strip value)
  refine ⟨fun c hc => ?_, (strip_eq_self_iff _).mpr ?_, ?_⟩
  · rw [normalizeSignalTerm, String.toList_ofList] at hc
    rcases collapseSpace_subset _ c hc with rfl | hc
    · exact lower_separator laws (Or.inl rfl)
    · exact laws.mem_lower _ c hc
  · rw [normalizeSignalTerm, String.toList_ofList, head_collapseSpace hstrip.1,
      getLast_collapseSpace hstrip.2]
    exact hstrip
  · rw [normalizeSignalTerm, String.toList_ofList, collapseSpace_collapseSpace]

/-- **Normalizing twice changes nothing.** -/
theorem normalizeSignalTerm_normalizeSignalTerm (value : String) :
    normalizeSignalTerm U (normalizeSignalTerm U value) = normalizeSignalTerm U value :=
  (normal_normalizeSignalTerm laws value).normalize laws

/-- A text that is not blank has a term. -/
theorem normalizeSignalTerm_ne_empty {value : String} (h : U.strip value ≠ "") :
    normalizeSignalTerm U value ≠ "" := by
  intro hempty
  have hnil := congrArg String.toList hempty
  rw [normalizeSignalTerm, String.toList_ofList] at hnil
  exact h (laws.lower_eq_empty _ (String.toList_inj.mp (collapseSpace_eq_nil hnil)))

/-- Underscores for the spaces of a normal term give a normal term. -/
theorem Normal.underscored {term : String} (h : Normal U term) :
    Normal U (replaceChar ' ' '_' term) := by
  have hchars : ∀ c ∈ (replaceChar ' ' '_' term).toList,
      U.lower (String.singleton c) = String.singleton c ∧ U.isSpace c = false := by
    intro c hc
    rw [replaceChar, String.toList_ofList] at hc
    obtain ⟨d, hd, rfl⟩ := List.mem_map.mp hc
    by_cases hspace : d = ' '
    · rw [if_pos hspace]
      refine ⟨lower_separator laws (Or.inr rfl), ?_⟩
      rw [laws.isSpace _ (by decide)]
      decide
    · rw [if_neg hspace]
      refine ⟨h.lowered d hd, Bool.eq_false_iff.mpr fun hblank => hspace ?_⟩
      rw [← h.collapse] at hd
      exact eq_space_of_mem_collapseSpace _ d hd hblank
  refine ⟨fun c hc => (hchars c hc).1, (strip_eq_self_iff _).mpr ⟨?_, ?_⟩,
    collapseSpace_of_not_space fun c hc => (hchars c hc).2⟩
  · cases hhead : (replaceChar ' ' '_' term).toList.head? with
    | none => rfl
    | some c => exact (hchars c (List.mem_of_head? hhead)).2
  · cases hlast : (replaceChar ' ' '_' term).toList.getLast? with
    | none => rfl
    | some c => exact (hchars c (List.mem_of_getLast? hlast)).2

end Laws

/-! ## ASCII terms -/

section Ascii

variable (laws : U.AsciiLaws)

include laws

theorem collapseSpace_ascii {cs : List Char} (h : ∀ c ∈ cs, c.toNat < 0x80) :
    collapseSpace U cs = collapseSpace .ascii cs := by
  induction cs with
  | nil => rfl
  | cons c cs ih =>
      have hspace : ∀ d ∈ c :: cs, U.isSpace d = Unicode.ascii.isSpace d := fun d hd =>
        laws.isSpace d (h d hd)
      have hnext : cs.head?.any U.isSpace = cs.head?.any Unicode.ascii.isSpace := by
        cases cs with
        | nil => rfl
        | cons d cs => exact hspace d (List.mem_cons_of_mem _ List.mem_cons_self)
      rw [collapseSpace, collapseSpace, hspace c List.mem_cons_self, hnext,
        ih fun d hd => h d (List.mem_cons_of_mem c hd)]

theorem normalizeSignalTerm_ascii {s : String} (h : Unicode.IsAscii s) :
    normalizeSignalTerm U s = normalizeSignalTerm .ascii s := by
  have hstrip : Unicode.IsAscii (Unicode.ascii.strip s) := h.strip
  rw [normalizeSignalTerm, normalizeSignalTerm, Unicode.strip_ascii laws h,
    laws.lower _ hstrip, collapseSpace_ascii laws hstrip.lower]

end Ascii

end ProcureSignal.Signals
