/-
# Folded text, word by word

Compatibility normalization followed by case folding, on texts that are words joined by single
spaces.  A space is a boundary of every normalization form, so such a text is folded word by word;
and the letters and digits of a folded text are left alone when the text is folded again.

* `split_joined`, `words_joined` : joined words are split into the words;
* `FoldLaws` : the facts about the tables; `Settled` : a word that folding leaves alone;
* `fold_joined` : **joined settled words are left alone**;
* `AccentLaws`, `unaccented` : removing the accents of settled words.
-/
import ProcureSignal.Library.Unicode

namespace Unicode

variable {U : Unicode}

/-! ## Joined words -/

theorem toList_append_space (s t : String) :
    (s ++ " " ++ t).toList = s.toList ++ ' ' :: t.toList := by
  rw [String.toList_append, String.toList_append, List.append_assoc]
  rfl

/-- Runs between separators: joined words give the words back. -/
theorem splitOnP_joined {p : Char → Bool} (hspace : p ' ' = true) {ws : List String}
    (hws : ∀ w ∈ ws, w ≠ "" ∧ ∀ c ∈ w.toList, p c = false) :
    ((" ".intercalate ws).toList.splitOnP p).filter (· ≠ []) = ws.map String.toList := by
  induction ws with
  | nil => rfl
  | cons w ws ih =>
      obtain ⟨hne, hw⟩ := hws w List.mem_cons_self
      have hrest := ih fun v hv => hws v (List.mem_cons_of_mem w hv)
      have hkept : ∀ runs : List (List Char), (w.toList :: runs).filter (· ≠ []) =
          w.toList :: runs.filter (· ≠ []) := fun runs =>
        List.filter_cons_of_pos (decide_eq_true fun h => hne (String.toList_eq_nil_iff.mp h))
      cases ws with
      | nil =>
          rw [String.intercalate_singleton, List.splitOnP_eq_singleton hw, hkept]
          rfl
      | cons v ws =>
          rw [String.intercalate_cons_cons, toList_append_space,
            List.splitOnP_append_cons_of_forall_mem hw ' ' hspace, hkept, hrest]
          rfl

/-- **Splitting joined words** at white space. -/
theorem split_joined {ws : List String}
    (hws : ∀ w ∈ ws, w ≠ "" ∧ ∀ c ∈ w.toList, U.isSpace c = false) :
    U.split (" ".intercalate ws) = ws := by
  rw [split, splitOnP_joined U.isSpace_space hws, List.map_map]
  exact (List.map_congr_left fun w _ => String.ofList_toList).trans (List.map_id ws)

theorem isAlnum_space : U.isAlnum ' ' = false := by
  rw [Bool.eq_false_iff]
  intro h
  exact absurd U.isSpace_space (by rw [U.isSpace_of_isAlnum ' ' h]; exact Bool.false_ne_true)

/-- The runs of letters and digits of joined words. -/
theorem words_joined {ws : List String}
    (hws : ∀ w ∈ ws, w ≠ "" ∧ ∀ c ∈ w.toList, U.isAlnum c = true) :
    U.words (" ".intercalate ws).toList = ws.map String.toList := by
  refine splitOnP_joined (by rw [isAlnum_space]; rfl) fun w hw => ⟨(hws w hw).1, fun c hc => ?_⟩
  rw [(hws w hw).2 c hc]
  rfl

/-- What acts on both sides of a space acts word by word. -/
theorem map_joined {f : String → String} (hf : ∀ s t, f (s ++ " " ++ t) = f s ++ " " ++ f t)
    (w : String) (ws : List String) :
    f (" ".intercalate (w :: ws)) = " ".intercalate ((w :: ws).map f) := by
  induction ws generalizing w with
  | nil => rw [List.map_singleton, String.intercalate_singleton, String.intercalate_singleton]
  | cons v ws ih =>
      rw [String.intercalate_cons_cons, hf, ih v, List.map_cons, List.map_cons, List.map_cons,
        String.intercalate_cons_cons]

/-! ## Words of letters and digits -/

theorem words_ne_nil {cs w : List Char} (h : w ∈ U.words cs) : w ≠ [] :=
  of_decide_eq_true (List.mem_filter.mp h).2

/-- A character of joined segments is the separator or in a segment. -/
theorem mem_intercalate {sep c : Char} {segments : List (List Char)}
    (h : c ∈ [sep].intercalate segments) : c = sep ∨ ∃ segment ∈ segments, c ∈ segment := by
  induction segments with
  | nil => exact absurd h List.not_mem_nil
  | cons segment segments ih =>
      by_cases hnil : segments = []
      · rw [hnil, List.intercalate_singleton] at h
        exact Or.inr ⟨segment, List.mem_cons_self, h⟩
      · rw [List.intercalate_cons_of_ne_nil hnil, List.mem_append, List.mem_append,
          List.mem_singleton] at h
        rcases h with (h | h) | h
        · exact Or.inr ⟨segment, List.mem_cons_self, h⟩
        · exact Or.inl h
        · exact (ih h).imp_right fun ⟨s, hs, hc⟩ => ⟨s, List.mem_cons_of_mem _ hs, hc⟩

/-- A run between separators is part of the text and has no separator. -/
theorem forall_mem_splitOnP {p : Char → Bool} {cs run : List Char} (h : run ∈ cs.splitOnP p) :
    ∀ c ∈ run, c ∈ cs ∧ p c = false := by
  induction cs generalizing run with
  | nil =>
      rw [List.splitOnP_nil, List.mem_singleton] at h
      rw [h]
      exact fun c hc => absurd hc List.not_mem_nil
  | cons d cs ih =>
      have hrest : ∀ r ∈ cs.splitOnP p, ∀ c ∈ r, c ∈ d :: cs ∧ p c = false := by
        intro r hr c hc
        obtain ⟨hmem, hp⟩ := ih hr c hc
        exact ⟨List.mem_cons_of_mem d hmem, hp⟩
      rw [List.splitOnP_cons_eq_if_modifyHead] at h
      split at h
      · rcases List.mem_cons.mp h with rfl | h
        · exact fun c hc => absurd hc List.not_mem_nil
        · exact hrest run h
      · rename_i hd
        match hruns : cs.splitOnP p with
        | [] => exact absurd hruns (List.splitOnP_ne_nil p cs)
        | first :: rest =>
            rw [hruns] at h hrest
            rcases List.mem_cons.mp h with rfl | h
            · intro c hc
              rcases List.mem_cons.mp hc with rfl | hc
              · exact ⟨List.mem_cons_self, Bool.eq_false_iff.mpr hd⟩
              · exact hrest first List.mem_cons_self c hc
            · exact hrest run (List.mem_cons_of_mem first h)

/-- A word of a text that is split is not empty, and its characters are no white space. -/
theorem mem_split {s w : String} (h : w ∈ U.split s) :
    w ≠ "" ∧ ∀ c ∈ w.toList, c ∈ s.toList ∧ U.isSpace c = false := by
  obtain ⟨run, hrun, rfl⟩ := List.mem_map.mp h
  obtain ⟨hmem, hne⟩ := List.mem_filter.mp hrun
  rw [String.toList_ofList]
  refine ⟨fun hempty => of_decide_eq_true hne ?_, forall_mem_splitOnP hmem⟩
  rw [← String.toList_ofList (l := run), hempty]
  rfl

/-- The words of a text are not empty and have no white space. -/
theorem solid_split (s : String) :
    ∀ w ∈ U.split s, w ≠ "" ∧ ∀ c ∈ w.toList, U.isSpace c = false :=
  fun _ hw => ⟨(mem_split hw).1, fun c hc => ((mem_split hw).2 c hc).2⟩

theorem mem_of_mem_words {cs w : List Char} (h : w ∈ U.words cs) :
    ∀ c ∈ w, c ∈ cs ∧ U.isAlnum c = true := by
  intro c hc
  obtain ⟨hmem, hsep⟩ := forall_mem_splitOnP (List.mem_filter.mp h).1 c hc
  rw [Bool.not_eq_false'] at hsep
  exact ⟨hmem, hsep⟩

/-- **Runs split at a separator.** -/
theorem words_append_cons {c : Char} (hc : U.isAlnum c = false) (cs cs' : List Char) :
    U.words (cs ++ c :: cs') = U.words cs ++ U.words cs' := by
  unfold words
  rw [List.splitOnP_append_cons cs cs' (by rw [hc]; rfl), List.filter_append]

/-- Letters and digits are one run. -/
theorem words_of_isAlnum {w : List Char} (hne : w ≠ []) (h : ∀ c ∈ w, U.isAlnum c = true) :
    U.words w = [w] := by
  have hsep : ∀ c ∈ w, (!U.isAlnum c) = false := fun c hc => by rw [h c hc]; rfl
  rw [words, List.splitOnP_eq_singleton hsep]
  exact List.filter_cons_of_pos (decide_eq_true hne)

/-- A text is letters and digits, or it has a separator behind its first run. -/
theorem run_cases (cs : List Char) : (∀ c ∈ cs, U.isAlnum c = true) ∨
    ∃ w c rest, cs = w ++ c :: rest ∧ (∀ d ∈ w, U.isAlnum d = true) ∧ U.isAlnum c = false := by
  induction cs with
  | nil => exact Or.inl fun c hc => absurd hc List.not_mem_nil
  | cons d cs ih =>
      cases hd : U.isAlnum d with
      | false => exact Or.inr ⟨[], d, cs, rfl, fun c hc => absurd hc List.not_mem_nil, hd⟩
      | true =>
          rcases ih with hall | ⟨w, c, rest, rfl, hw, hc⟩
          · exact Or.inl (List.forall_mem_cons.mpr ⟨hd, hall⟩)
          · exact Or.inr ⟨d :: w, c, rest, rfl, List.forall_mem_cons.mpr ⟨hd, hw⟩, hc⟩

/-- **Induction on the runs**: a text of letters and digits, and a text with a separator between
its first run and the rest. -/
theorem runs_induction {P : List Char → Prop} (hrun : ∀ w, (∀ c ∈ w, U.isAlnum c = true) → P w)
    (hsep : ∀ w c rest, (∀ d ∈ w, U.isAlnum d = true) → U.isAlnum c = false → P w → P rest →
      P (w ++ c :: rest)) (cs : List Char) : P cs := by
  induction hlength : cs.length using Nat.strong_induction_on generalizing cs with
  | h n ih =>
      rcases U.run_cases cs with hall | ⟨w, c, rest, rfl, hw, hc⟩
      · exact hrun cs hall
      · refine hsep w c rest hw hc (hrun w hw) (ih rest.length ?_ rest rfl)
        rw [← hlength, List.length_append, List.length_cons]
        omega

/-- The runs have all the letters and digits, in their order. -/
theorem flatten_words (cs : List Char) : (U.words cs).flatten = cs.filter U.isAlnum := by
  induction cs using runs_induction (U := U) with
  | hrun w hw =>
      rw [List.filter_eq_self.mpr hw]
      by_cases hne : w = []
      · rw [hne]
        rfl
      · rw [words_of_isAlnum hne hw, List.flatten_singleton]
  | hsep w c rest hw hc ihw ihrest =>
      have hskip : ¬ U.isAlnum c = true := by
        rw [hc]
        exact Bool.false_ne_true
      rw [words_append_cons hc, List.flatten_append, ihw, ihrest, List.filter_append,
        List.filter_cons_of_neg hskip]

/-- **Runs of a text whose characters are replaced**, separators by separators. -/
theorem words_flatMap {f : Char → List Char} {cs : List Char}
    (hsep : ∀ c ∈ cs, U.isAlnum c = false → f c ≠ [] ∧ ∀ d ∈ f c, U.isAlnum d = false) :
    U.words (cs.flatMap f) = (U.words cs).flatMap fun w => U.words (w.flatMap f) := by
  induction cs using runs_induction (U := U) with
  | hrun w hw =>
      by_cases hne : w = []
      · rw [hne]
        rfl
      · rw [words_of_isAlnum hne hw, List.flatMap_singleton]
  | hsep w c rest hw hc ihw ihrest =>
      obtain ⟨hfc, hall⟩ := hsep c (List.mem_append_right w List.mem_cons_self) hc
      match hc' : f c with
      | [] => exact absurd hc' hfc
      | d :: ds =>
          rw [hc'] at hall
          have hds : ∀ x ∈ ds, U.isAlnum x = false := fun x hx => hall x (List.mem_cons_of_mem d hx)
          rw [List.flatMap_append, List.flatMap_cons, hc', List.cons_append,
            words_append_cons (hall d List.mem_cons_self), U.words_append_left hds,
            ihw fun x hx => hsep x (List.mem_append_left _ hx),
            ihrest fun x hx => hsep x (List.mem_append_right w (List.mem_cons_of_mem c hx)),
            words_append_cons hc, List.flatMap_append]

/-- A text without runs has no letters or digits. -/
theorem isAlnum_of_words_eq_nil {cs : List Char} (h : U.words cs = []) :
    ∀ c ∈ cs, U.isAlnum c = false := by
  have hfilter := U.flatten_words cs
  rw [h, List.flatten_nil] at hfilter
  intro c hc
  exact Bool.eq_false_iff.mpr (List.filter_eq_nil_iff.mp hfilter.symm c hc)

/-- One run, with separators around it. -/
theorem words_eq_singleton_iff {cs : List Char} : (∃ w, U.words cs = [w]) ↔
    ∃ front w back, cs = front ++ w ++ back ∧ w ≠ [] ∧ (∀ c ∈ w, U.isAlnum c = true) ∧
      ∀ c ∈ front ++ back, U.isAlnum c = false := by
  constructor
  · rintro ⟨w, hw⟩
    have hsplit := List.takeWhile_append_dropWhile (p := fun c => !U.isAlnum c) (l := cs)
    have hfront : ∀ c ∈ cs.takeWhile fun c => !U.isAlnum c, U.isAlnum c = false := by
      intro c hc
      have hsep := List.mem_takeWhile_imp hc
      rwa [Bool.not_eq_true'] at hsep
    rw [← hsplit, U.words_append_left hfront] at hw
    rcases U.run_cases (cs.dropWhile fun c => !U.isAlnum c) with hall | ⟨v, c, rest, heq, hv, hc⟩
    · refine ⟨_, _, [], by rw [List.append_nil, hsplit], ?_, hall, by rwa [List.append_nil]⟩
      intro hnil
      rw [hnil] at hw
      exact List.cons_ne_nil w [] hw.symm
    · have hne : v ≠ [] := by
        rintro rfl
        have hhead := List.head_dropWhile_not (fun c => !U.isAlnum c) (l := cs)
          (by rw [heq]; exact List.cons_ne_nil c rest)
        simp only [heq, List.nil_append, List.head_cons, hc] at hhead
        exact absurd hhead (by decide)
      rw [heq, words_append_cons hc, words_of_isAlnum hne hv, List.singleton_append] at hw
      have hrest := isAlnum_of_words_eq_nil (List.cons.inj hw).2
      refine ⟨_, v, c :: rest, by rw [List.append_assoc, ← heq, hsplit], hne, hv, ?_⟩
      exact List.forall_mem_append.mpr ⟨hfront, List.forall_mem_cons.mpr ⟨hc, hrest⟩⟩
  · rintro ⟨front, w, back, rfl, hne, hw, hother⟩
    obtain ⟨hfront, hback⟩ := List.forall_mem_append.mp hother
    refine ⟨w, ?_⟩
    rw [U.words_append_right hback, U.words_append_left hfront, words_of_isAlnum hne hw]

/-! ## Settled words -/

/-- A text of letters and digits that normalization and case folding leave alone. -/
structure Settled (U : Unicode) (w : String) : Prop where
  isAlnum : ∀ c ∈ w.toList, U.isAlnum c = true
  fold : U.casefold (U.nfkc w) = w

theorem Settled.isSpace {w : String} (h : U.Settled w) : ∀ c ∈ w.toList, U.isSpace c = false :=
  fun c hc => U.isSpace_of_isAlnum c (h.isAlnum c hc)

/-- A space is a boundary of compatibility normalization, case folding acts on each character and
drops none, and both leave alone the letters and digits that they yield. -/
structure FoldLaws (U : Unicode) : Prop where
  nfkc_space : ∀ s t, U.nfkc (s ++ " " ++ t) = U.nfkc s ++ " " ++ U.nfkc t
  casefold_append : ∀ s t, U.casefold (s ++ t) = U.casefold s ++ U.casefold t
  casefold_space : U.casefold " " = " "
  casefold_singleton : ∀ c, U.casefold (String.singleton c) ≠ ""
  settled_word : ∀ s, ∀ w ∈ U.words (U.casefold (U.nfkc s)).toList, U.Settled (String.ofList w)

namespace FoldLaws

variable (h : U.FoldLaws)

include h

/-- Case folding, character by character. -/
theorem toList_casefold (s : String) :
    (U.casefold s).toList = s.toList.flatMap fun c => (U.casefold (String.singleton c)).toList := by
  have hempty : U.casefold "" = "" := by
    have htwice := congrArg String.length (h.casefold_append "" "")
    rw [String.append_empty, String.length_append] at htwice
    exact String.length_eq_zero_iff.mp (by omega)
  have hlist : ∀ cs : List Char, (U.casefold (String.ofList cs)).toList =
      cs.flatMap fun c => (U.casefold (String.singleton c)).toList := by
    intro cs
    induction cs with
    | nil => exact congrArg String.toList hempty
    | cons c cs ih =>
        rw [String.ofList_cons, h.casefold_append, String.toList_append, ih, List.flatMap_cons]
  rw [← hlist, String.ofList_toList]

theorem fold_space (s t : String) :
    U.casefold (U.nfkc (s ++ " " ++ t)) = U.casefold (U.nfkc s) ++ " " ++ U.casefold (U.nfkc t) := by
  rw [h.nfkc_space, h.casefold_append, h.casefold_append, h.casefold_space]

/-- **Joined settled words** are left alone. -/
theorem fold_joined {ws : List String} (hne : ws ≠ []) (hws : ∀ w ∈ ws, U.Settled w) :
    U.casefold (U.nfkc (" ".intercalate ws)) = " ".intercalate ws := by
  match ws, hne with
  | w :: ws, _ =>
      have hjoin := map_joined (f := fun s => U.casefold (U.nfkc s)) h.fold_space w ws
      refine hjoin.trans (congrArg " ".intercalate ?_)
      calc (w :: ws).map (fun s => U.casefold (U.nfkc s)) = (w :: ws).map id :=
            List.map_congr_left fun v hv => (hws v hv).fold
        _ = w :: ws := List.map_id _

end FoldLaws

/-! ## Accents -/

/-- The text without its combining characters. -/
def unaccented (U : Unicode) (w : String) : String :=
  U.nfc (String.ofList ((U.nfd w).toList.filter fun c => !U.combining c))

/-- A space is a boundary of canonical normalization.  The parts of a settled text are settled,
lower-case ASCII letters may be put between settled texts, and a settled text without its accents
is settled and not empty. -/
structure AccentLaws (U : Unicode) : Prop where
  combining_space : U.combining ' ' = false
  nfd_space : ∀ s t, U.nfd (s ++ " " ++ t) = U.nfd s ++ " " ++ U.nfd t
  nfc_space : ∀ s t, U.nfc (s ++ " " ++ t) = U.nfc s ++ " " ++ U.nfc t
  settled_append : ∀ s t, U.Settled (s ++ t) → U.Settled s ∧ U.Settled t
  settled_letter : ∀ s t c, U.Settled s → U.Settled t → 97 ≤ c.toNat ∧ c.toNat ≤ 122 →
    U.Settled (s ++ String.singleton c ++ t)
  settled_unaccented : ∀ w, U.Settled w → U.Settled (U.unaccented w)
  unaccented_ne_empty : ∀ w, U.Settled w → w ≠ "" → U.unaccented w ≠ ""

namespace AccentLaws

variable (h : U.AccentLaws)

include h

theorem unaccented_space (s t : String) :
    U.unaccented (s ++ " " ++ t) = U.unaccented s ++ " " ++ U.unaccented t := by
  have hspace : ∀ l : List Char, (' ' :: l).filter (fun c => !U.combining c) =
      ' ' :: l.filter fun c => !U.combining c := fun l =>
    List.filter_cons_of_pos (by rw [h.combining_space]; rfl)
  have hlist : ∀ l : List Char, ∀ l' : List Char,
      String.ofList (l ++ ' ' :: l') = String.ofList l ++ " " ++ String.ofList l' := by
    intro l l'
    rw [← String.toList_inj, toList_append_space, String.toList_ofList, String.toList_ofList,
      String.toList_ofList]
  unfold unaccented
  rw [h.nfd_space, toList_append_space, List.filter_append, hspace, hlist,
    h.nfc_space]

/-- The accents of joined words are removed word by word. -/
theorem split_unaccented {ws : List String} (hne : ws ≠ [])
    (hws : ∀ w ∈ ws, U.Settled w ∧ w ≠ "") :
    U.split (U.unaccented (" ".intercalate ws)) = ws.map U.unaccented := by
  match ws, hne with
  | w :: ws, _ =>
      rw [map_joined h.unaccented_space w ws]
      refine split_joined fun v hv => ?_
      obtain ⟨v, hmem, rfl⟩ := List.mem_map.mp hv
      obtain ⟨hv, hvne⟩ := hws v hmem
      exact ⟨h.unaccented_ne_empty v hv hvne, (h.settled_unaccented v hv).isSpace⟩

end AccentLaws

/-! ## ASCII text -/

theorem settled_ascii_iff (w : String) : ascii.Settled w ↔
    ∀ c ∈ w.toList, asciiAlnum c = true ∧ asciiLower c = c := by
  have hfold : ascii.casefold (ascii.nfkc w) = w ↔ ∀ c ∈ w.toList, asciiLower c = c := by
    show String.ofList (w.toList.map asciiLower) = w ↔ _
    rw [← String.toList_inj, String.toList_ofList, ← List.map_inj_left, List.map_id']
  constructor
  · intro h c hc
    exact ⟨h.isAlnum c hc, hfold.mp h.fold c hc⟩
  · intro h
    exact ⟨fun c hc => (h c hc).1, hfold.mpr fun c hc => (h c hc).2⟩

/-- The laws of folding on ASCII text. -/
theorem ascii_foldLaws : ascii.FoldLaws := by
  refine ⟨fun s t => rfl, fun s t => ?_, by decide, fun c h => ?_, fun s w hw => ?_⟩
  · show String.ofList ((s ++ t).toList.map asciiLower) = _
    rw [String.toList_append, List.map_append, String.ofList_append]
    rfl
  · have hlist := congrArg String.toList h
    simp [ascii] at hlist
  · rw [settled_ascii_iff, String.toList_ofList]
    intro c hc
    obtain ⟨hmem, halnum⟩ := mem_of_mem_words hw c hc
    obtain ⟨d, -, rfl⟩ := List.mem_map.mp (String.toList_ofList ▸ hmem)
    exact ⟨halnum, asciiLower_asciiLower d⟩

theorem unaccented_ascii (w : String) : ascii.unaccented w = w := by
  show String.ofList (w.toList.filter fun _ => true) = w
  rw [List.filter_true, String.ofList_toList]

/-- ASCII text has no accents. -/
theorem ascii_accentLaws : ascii.AccentLaws := by
  refine ⟨rfl, fun s t => rfl, fun s t => rfl, fun s t h => ?_, fun s t c hs ht hc => ?_,
    fun w h => ?_, fun w _ hne => ?_⟩
  · rw [settled_ascii_iff, String.toList_append] at h
    exact ⟨(settled_ascii_iff s).mpr fun c hc => h c (List.mem_append_left _ hc),
      (settled_ascii_iff t).mpr fun c hc => h c (List.mem_append_right _ hc)⟩
  · rw [settled_ascii_iff] at hs ht ⊢
    intro d hd
    rw [String.toList_append, String.toList_append, List.mem_append, List.mem_append] at hd
    rcases hd with (hd | hd) | hd
    · exact hs d hd
    · rw [String.toList_singleton, List.mem_singleton] at hd
      subst hd
      constructor
      · simp only [asciiAlnum, Bool.or_eq_true, Bool.and_eq_true, decide_eq_true_eq]
        omega
      · exact if_neg (by omega)
    · exact ht d hd
  · rw [unaccented_ascii]
    exact h
  · rw [unaccented_ascii]
    exact hne

end Unicode
