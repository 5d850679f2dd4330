/-
# The expansion of signal terms

`expand_signal_terms` of `signals/taxonomy.py` collects the spellings of the terms it is given and
of their aliases, over a worklist: it is what can be reached from the spellings, so it is monotone
and keeps unions.  A spelling with spaces for underscores is not normalized again, so that an
expansion can have an expansion of its own.

* `mem_expandSignalTerms` : **what an expansion holds**;
* `expandSignalTerms_run` : every run of the worklist ends, with this result;
* `ActsAsClosure` : the laws of a closure operator, and termination;
* `actsAsClosure_iff` : the collections that meet them.
-/
import ProcureSignal.Library.Worklist
import ProcureSignal.Signals.Terms

namespace ProcureSignal.Signals

variable {U : Unicode}

/-! ## Spellings -/

/-- `term.replace(" ", "_")`. -/
abbrev underscored (term : String) : String := replaceChar ' ' '_' term

/-- `term.replace("_", " ")`. -/
abbrev spaced (term : String) : String := replaceChar '_' ' ' term

theorem toList_replaceChar (old new : Char) (term : String) :
    (replaceChar old new term).toList = term.toList.map fun c => if c = old then new else c :=
  String.toList_ofList

/-- Two replacements, character by character. -/
theorem replaceChar_replaceChar {a b c d e f : Char}
    (h : ∀ x, (if (if x = a then b else x) = c then d else if x = a then b else x) =
      if x = e then f else x) (term : String) :
    replaceChar c d (replaceChar a b term) = replaceChar e f term := by
  refine String.toList_inj.mp ?_
  rw [toList_replaceChar, toList_replaceChar, toList_replaceChar, List.map_map]
  exact List.map_congr_left fun x _ => h x

theorem spaced_spaced (term : String) : spaced (spaced term) = spaced term := by
  refine replaceChar_replaceChar (fun x => ?_) term
  by_cases h : x = '_' <;> simp [h]

theorem spaced_underscored (term : String) : spaced (underscored term) = spaced term := by
  refine replaceChar_replaceChar (fun x => ?_) term
  by_cases h : x = ' ' <;> simp [h]

theorem underscored_underscored (term : String) :
    underscored (underscored term) = underscored term := by
  refine replaceChar_replaceChar (fun x => ?_) term
  by_cases h : x = ' ' <;> simp [h]

theorem underscored_spaced (term : String) : underscored (spaced term) = underscored term := by
  refine replaceChar_replaceChar (fun x => ?_) term
  by_cases h : x = '_' <;> simp [h]

theorem mem_signalTermVariants {term a : String} :
    a ∈ signalTermVariants term ↔
      term ≠ "" ∧ (a = term ∨ a = underscored term ∨ a = spaced term) := by
  unfold signalTermVariants
  split <;> simp_all

/-- Spellings agree up to underscores. -/
theorem spaced_of_mem_variants {term a : String} (h : a ∈ signalTermVariants term) :
    spaced a = spaced term := by
  obtain ⟨-, rfl | rfl | rfl⟩ := mem_signalTermVariants.mp h
  · rfl
  · exact spaced_underscored term
  · exact spaced_spaced term

/-- The spellings of a spelling are spellings of the term. -/
theorem variants_subset {term a b : String} (h : a ∈ signalTermVariants term)
    (hb : b ∈ signalTermVariants a) : b ∈ signalTermVariants term := by
  obtain ⟨hne, ha⟩ := mem_signalTermVariants.mp h
  obtain ⟨-, hb⟩ := mem_signalTermVariants.mp hb
  refine mem_signalTermVariants.mpr ⟨hne, ?_⟩
  rcases hb with rfl | rfl | rfl
  · exact ha
  · right; left
    rcases ha with rfl | rfl | rfl
    · rfl
    · exact underscored_underscored term
    · exact underscored_spaced term
  · right; right
    exact spaced_of_mem_variants h

/-! ## Tidy terms -/

/-- Lower-case ASCII, with single spaces and underscores between other characters only. -/
def tidy (afterSeparator : Bool) : List Char → Bool
  | [] => !afterSeparator
  | c :: cs =>
      if c = ' ' ∨ c = '_' then !afterSeparator && tidy true cs
      else
        c.toNat < 0x80 && Unicode.asciiLower c = c && !Unicode.asciiSpace c && tidy false cs

section Tidy

variable (laws : TermLaws U) {f : Char → Char}
  (hseparator : ∀ c, c = ' ' ∨ c = '_' → f c = ' ' ∨ f c = '_')
  (hother : ∀ c, ¬ (c = ' ' ∨ c = '_') → f c = c) {afterSeparator : Bool} {cs : List Char}

include laws hseparator hother

/-- The characters of a tidy term. -/
theorem tidy_cons {c : Char} (h : tidy afterSeparator (c :: cs) = true) :
    U.lower (String.singleton (f c)) = String.singleton (f c) ∧
      (c = ' ' ∨ c = '_') ∧ afterSeparator = false ∧ tidy true cs = true ∨
    U.lower (String.singleton (f c)) = String.singleton (f c) ∧
      U.isSpace (f c) = false ∧ tidy false cs = true := by
  rw [tidy] at h
  split at h
  · rename_i hc
    simp only [Bool.and_eq_true, Bool.not_eq_true'] at h
    exact Or.inl ⟨lower_separator laws (hseparator c hc), hc, h⟩
  · rename_i hc
    simp only [Bool.and_eq_true, Bool.not_eq_true', decide_eq_true_eq] at h
    obtain ⟨⟨⟨hascii, hlower⟩, hspace⟩, hrest⟩ := h
    rw [hother c hc]
    refine Or.inr ⟨?_, (laws.isSpace c hascii).trans hspace, hrest⟩
    have hone : Unicode.IsAscii (String.singleton c) := by
      intro d hd
      rw [String.toList_singleton, List.mem_singleton] at hd
      exact hd ▸ hascii
    rw [laws.lower _ hone]
    show String.ofList ((String.singleton c).toList.map Unicode.asciiLower) = _
    rw [String.toList_singleton, List.map_singleton, hlower, String.singleton_eq_ofList]

theorem tidy_lowered (h : tidy afterSeparator cs = true) :
    ∀ c ∈ cs.map f, U.lower (String.singleton c) = String.singleton c := by
  induction cs generalizing afterSeparator with
  | nil => exact fun c hc => absurd hc List.not_mem_nil
  | cons d cs ih =>
      rw [List.map_cons]
      intro c hc
      rcases tidy_cons laws hseparator hother h with ⟨hlower, -, -, hrest⟩ | ⟨hlower, -, hrest⟩
      all_goals
        rcases List.mem_cons.mp hc with rfl | hc
        · exact hlower
        · exact ih hrest c hc

theorem tidy_head (h : tidy true cs = true) : (cs.map f).head?.any U.isSpace = false := by
  cases cs with
  | nil => rfl
  | cons c cs =>
      rcases tidy_cons laws hseparator hother h with ⟨-, -, hfalse, -⟩ | ⟨-, hspace, -⟩
      · cases hfalse
      · exact hspace

theorem tidy_getLast (h : tidy afterSeparator cs = true) :
    (cs.map f).getLast?.any U.isSpace = false := by
  induction cs generalizing afterSeparator with
  | nil => rfl
  | cons c cs ih =>
      rcases tidy_cons laws hseparator hother h with ⟨-, -, -, hrest⟩ | ⟨-, hspace, hrest⟩
      · cases cs with
        | nil => cases hrest
        | cons d cs =>
            rw [List.map_cons, List.map_cons, List.getLast?_cons_cons]
            exact ih hrest
      · cases cs with
        | nil => exact hspace
        | cons d cs =>
            rw [List.map_cons, List.map_cons, List.getLast?_cons_cons]
            exact ih hrest

theorem tidy_collapse (h : tidy afterSeparator cs = true) :
    collapseSpace U (cs.map f) = cs.map f := by
  induction cs generalizing afterSeparator with
  | nil => rfl
  | cons c cs ih =>
      rw [List.map_cons, collapseSpace]
      rcases tidy_cons laws hseparator hother h with ⟨-, hc, -, hrest⟩ | ⟨-, hspace, hrest⟩
      · rw [ih hrest, tidy_head laws hseparator hother hrest]
        rcases hseparator c hc with heq | heq
        · rw [heq, U.isSpace_space]
          rfl
        · have hunder : U.isSpace '_' = false := (laws.isSpace '_' (by decide)).trans (by decide)
          rw [heq, hunder]
          rfl
      · rw [hspace, ih hrest]
        rfl

/-- A tidy term is normal however its separators are spelled. -/
theorem normal_of_tidy_map (h : tidy true cs = true) : Normal U (String.ofList (cs.map f)) where
  lowered := by
    rw [String.toList_ofList]
    exact tidy_lowered laws hseparator hother h
  strip := by
    rw [strip_eq_self_iff, String.toList_ofList]
    exact ⟨tidy_head laws hseparator hother h, tidy_getLast laws hseparator hother h⟩
  collapse := by
    rw [String.toList_ofList]
    exact tidy_collapse laws hseparator hother h

end Tidy

/-- **The spellings of a tidy term are normal.** -/
theorem normal_of_tidy (laws : TermLaws U) {term a : String} (h : tidy true term.toList = true)
    (ha : a ∈ signalTermVariants term) : Normal U a := by
  obtain ⟨-, rfl | rfl | rfl⟩ := mem_signalTermVariants.mp ha
  · have hself := normal_of_tidy_map (f := id) laws (fun _ hc => hc) (fun _ _ => rfl) h
    rwa [List.map_id, String.ofList_toList] at hself
  · refine normal_of_tidy_map laws (fun c hc => ?_) (fun c hc => ?_) h
    · rcases hc with rfl | rfl
      · exact Or.inr rfl
      · exact Or.inr rfl
    · exact if_neg fun heq => hc (Or.inl heq)
  · refine normal_of_tidy_map laws (fun c hc => ?_) (fun c hc => ?_) h
    · rcases hc with rfl | rfl
      · exact Or.inl rfl
      · exact Or.inl rfl
    · exact if_neg fun heq => hc (Or.inr heq)

/-! ## Aliases -/

/-- The spellings of the aliases of a term. -/
def aliasSpellings (term : String) : List String :=
  (signalAliases term).flatMap signalTermVariants

/-- The aliases of a term are a group of the vocabulary that has it, or there are none. -/
theorem signalAliases_cases (term : String) :
    signalAliases term = [] ∨
      signalAliases term ∈ signalAliasGroups ∧ term ∈ signalAliases term := by
  unfold signalAliases
  cases hlast : (signalAliasGroups.filter fun group => term ∈ group).getLast? with
  | none => exact Or.inl rfl
  | some group =>
      obtain ⟨hgroup, hterm⟩ := List.mem_filter.mp (List.mem_of_getLast? hlast)
      exact Or.inr ⟨hgroup, of_decide_eq_true hterm⟩

/-- Where the spellings of aliases come from. -/
theorem exists_of_mem_aliasSpellings {term a : String} (ha : a ∈ aliasSpellings term) :
    signalAliases term ∈ signalAliasGroups ∧ term ∈ signalAliases term ∧
      ∃ name ∈ signalAliases term, a ∈ signalTermVariants name := by
  obtain ⟨name, hname, ha⟩ := List.mem_flatMap.mp ha
  rcases signalAliases_cases term with hnone | ⟨hgroup, hterm⟩
  · rw [hnone] at hname
    exact absurd hname List.not_mem_nil
  · exact ⟨hgroup, hterm, name, hname, ha⟩

/-- The names of the vocabulary, spaces for underscores, with the number of their group. -/
def numberedNames : List (List Char × ℕ) :=
  signalAliasGroups.zipIdx.flatMap fun p =>
    p.1.map fun name => (name.toList.map fun c => if c = '_' then ' ' else c, p.2)

/-- What is checked of the vocabulary: names of different groups do not agree up to underscores,
every name is tidy and none ends in an "i", and there are enough of them. -/
theorem vocabulary_checked :
    (numberedNames.Pairwise fun p q => p.1 = q.1 → p.2 = q.2) ∧
      (∀ name ∈ signalAliasGroups.flatten,
        tidy true name.toList = true ∧ name.toList.getLast? ≠ some 'i') ∧
      (signalAliasGroups.flatten.take 66).Nodup := by
  obtain ⟨l, hl, hpairs, htidy, hdistinct⟩ : ∃ l,
      signalAliasGroups.map (·.map String.toList) = l ∧
        ((l.zipIdx.flatMap fun p => p.1.map fun cs =>
          (cs.map fun c => if c = '_' then ' ' else c, p.2)).Pairwise
            fun p q => p.1 = q.1 → p.2 = q.2) ∧
        (∀ group ∈ l, ∀ cs ∈ group, tidy true cs = true ∧ cs.getLast? ≠ some 'i') ∧
        (l.flatten.take 66).Nodup := by
    apply Exists.intro
    apply And.intro
    · unfold signalAliasGroups
      -- the characters of every name are read off, and what is checked is about characters
      repeat first
        | exact List.map_nil
        | apply Unicode.map_map_toList_cons
        | apply Unicode.map_toList_cons
    · decide +kernel
  subst hl
  refine ⟨?_, fun name hname => ?_, ?_⟩
  · rw [List.zipIdx_map, List.flatMap_map] at hpairs
    simpa only [numberedNames, Prod.map_fst, Prod.map_snd, id, List.map_map, Function.comp_def]
      using hpairs
  · obtain ⟨group, hgroup, hmem⟩ := List.mem_flatten.mp hname
    exact htidy _ (List.mem_map_of_mem hgroup) _ (List.mem_map_of_mem hmem)
  · rw [← List.map_flatten, ← List.map_take] at hdistinct
    exact hdistinct.of_map _

/-- Two groups have no names that agree up to underscores. -/
theorem group_eq_of_spaced {group group' : List String} {name name' : String}
    (hgroup : group ∈ signalAliasGroups) (hgroup' : group' ∈ signalAliasGroups)
    (hname : name ∈ group) (hname' : name' ∈ group') (h : spaced name = spaced name') :
    group = group' := by
  have hpairs := vocabulary_checked.1
  obtain ⟨i, hi, rfl⟩ := List.getElem_of_mem hgroup
  obtain ⟨j, hj, rfl⟩ := List.getElem_of_mem hgroup'
  have hnumbered : ∀ {k : ℕ} (hk : k < signalAliasGroups.length) {n : String},
      n ∈ signalAliasGroups[k] → ((spaced n).toList, k) ∈ numberedNames := by
    intro k hk n hn
    rw [toList_replaceChar]
    exact List.mem_flatMap.mpr ⟨(signalAliasGroups[k], k),
      List.mem_zipIdx_iff_getElem?.mpr (List.getElem?_eq_getElem hk),
      List.mem_map.mpr ⟨n, hn, rfl⟩⟩
  have hsymm : Std.Symm fun p q : List Char × ℕ => p.1 = q.1 → p.2 = q.2 :=
    ⟨fun _ _ hpq heq => (hpq heq.symm).symm⟩
  have hsame : i = j := by
    by_contra hne
    exact hne (hpairs.forall (hnumbered hi hname) (hnumbered hj hname')
      (fun heq => hne (congrArg Prod.snd heq)) (congrArg String.toList h))
  subst hsame
  rfl

/-- Aliases of aliases are aliases: the groups do not lead into each other. -/
theorem aliasSpellings_subset {term a b : String} (ha : a ∈ aliasSpellings term)
    (hb : b ∈ aliasSpellings a) : b ∈ aliasSpellings term := by
  obtain ⟨hgroup, -, name, hname, hspelling⟩ := exists_of_mem_aliasSpellings ha
  obtain ⟨hgroup', ha', -⟩ := exists_of_mem_aliasSpellings hb
  have hsame := group_eq_of_spaced hgroup' hgroup ha' hname (spaced_of_mem_variants hspelling)
  unfold aliasSpellings at hb ⊢
  rwa [hsame] at hb

/-- The names of the vocabulary are tidy, and none ends in an "i". -/
theorem tidy_vocabulary : ∀ name ∈ signalAliasGroups.flatten,
    tidy true name.toList = true ∧ name.toList.getLast? ≠ some 'i' :=
  vocabulary_checked.2.1

theorem name_mem_aliasVocabulary {name a : String} (hname : name ∈ signalAliasGroups.flatten)
    (ha : a ∈ signalTermVariants name) : a ∈ aliasVocabulary :=
  List.mem_dedup.mpr (List.mem_flatMap.mpr ⟨name, hname, ha⟩)

theorem mem_aliasVocabulary {term a : String} (ha : a ∈ aliasSpellings term) :
    a ∈ aliasVocabulary := by
  obtain ⟨hgroup, -, name, hname, hspelling⟩ := exists_of_mem_aliasSpellings ha
  exact name_mem_aliasVocabulary (List.mem_flatten_of_mem hgroup hname) hspelling

theorem length_signalTermVariants_le (term : String) : (signalTermVariants term).length ≤ 3 := by
  unfold signalTermVariants
  split
  · exact Nat.zero_le 3
  · exact (List.dedup_sublist _).length_le

/-- Three spellings for each of at most twenty-two aliases, and a vocabulary that has more. -/
theorem length_aliasSpellings_le (term : String) :
    (aliasSpellings term).length ≤ aliasVocabulary.length := by
  have hgroups : ∀ group ∈ signalAliasGroups, group.length ≤ 22 := by decide
  have hdistinct := vocabulary_checked.2.2
  have hvocabulary : 66 ≤ aliasVocabulary.length := by
    have hsub : signalAliasGroups.flatten.take 66 ⊆ aliasVocabulary := by
      intro name hname
      have hmem := List.mem_of_mem_take hname
      have hne : name ≠ "" := by
        rintro rfl
        exact absurd (tidy_vocabulary "" hmem).1 (by simp [tidy])
      exact name_mem_aliasVocabulary hmem (mem_signalTermVariants.mpr ⟨hne, Or.inl rfl⟩)
    exact (hdistinct.subperm hsub).length_le
  have hlength : (aliasSpellings term).length ≤ 3 * (signalAliases term).length := by
    rw [aliasSpellings, List.length_flatMap, Nat.mul_comm, ← smul_eq_mul]
    refine (List.sum_le_card_nsmul _ 3 fun n hn => ?_).trans (by rw [List.length_map])
    obtain ⟨name, -, rfl⟩ := List.mem_map.mp hn
    exact length_signalTermVariants_le name
  rcases signalAliases_cases term with hnone | ⟨hgroup, -⟩
  · rw [hnone, List.length_nil] at hlength
    omega
  · have hbound := hgroups _ hgroup
    omega

/-! ## The worklist -/

/-- The queue that the worklist starts with. -/
def initialQueue (U : Unicode) (values : List String) : List String :=
  values.flatMap fun value => signalTermVariants (normalizeSignalTerm U value)

theorem expandLoop_eq_loop (fuel : ℕ) (expanded queue : List String) :
    expandLoop fuel expanded queue = Worklist.loop aliasSpellings fuel expanded queue := by
  induction fuel generalizing expanded queue with
  | zero => rfl
  | succ fuel ih =>
      cases queue with
      | nil => rfl
      | cons term queue =>
          rw [expandLoop, Worklist.loop]
          split
          · exact ih expanded queue
          · exact ih _ _

/-- The terms that a worklist can meet. -/
theorem bounded_aliasSpellings (queue : List String) :
    Worklist.Bounded aliasSpellings (queue ++ aliasVocabulary).toFinset aliasVocabulary.length where
  mem _ _ _ hb := List.mem_toFinset.mpr (List.mem_append_right queue (mem_aliasVocabulary hb))
  length_le _ _ := length_aliasSpellings_le _

/-- **The worklist ends**, however it takes terms out of its queue. -/
theorem acc_initialQueue (U : Unicode) (values : List String) :
    Acc (fun t s => Worklist.Step aliasSpellings s t) (∅, ↑(initialQueue U values)) :=
  Worklist.acc (bounded_aliasSpellings (initialQueue U values)) _ fun _ ha =>
    List.mem_toFinset.mpr (List.mem_append_left _ (Multiset.mem_coe.mp ha))

/-- The loop empties its queue. -/
theorem expandSignalTerms_run (U : Unicode) (values : List String) :
    Relation.ReflTransGen (Worklist.Step aliasSpellings) (∅, ↑(initialQueue U values))
      ((expandSignalTerms U values).toFinset, 0) := by
  have hbounded := bounded_aliasSpellings (initialQueue U values)
  refine List.toFinset_nil (α := String) ▸ ?_
  rw [expandSignalTerms, expandLoop_eq_loop]
  refine Worklist.run_of_loop hbounded _ [] (initialQueue U values)
    (fun a ha => List.mem_toFinset.mpr (List.mem_append_left _ ha)) ?_
  have hcard : ((initialQueue U values ++ aliasVocabulary).toFinset \ ∅).card ≤
      (initialQueue U values).length + aliasVocabulary.length := by
    rw [Finset.sdiff_empty, ← List.length_append]
    exact List.toFinset_card_le _
  have hmul := Nat.mul_le_mul_right aliasVocabulary.length hcard
  show (initialQueue U values).length + _ * _ < (initialQueue U values).length + _ * _ + 1
  exact Nat.lt_succ_of_le (Nat.add_le_add_left hmul _)

/-- **What an expansion holds**: the spellings of its terms and of their aliases. -/
theorem mem_expandSignalTerms {values : List String} {a : String} :
    a ∈ expandSignalTerms U values ↔ ∃ value ∈ values,
      ∃ term ∈ signalTermVariants (normalizeSignalTerm U value),
        a = term ∨ a ∈ aliasSpellings term := by
  rw [← List.mem_toFinset, Worklist.mem_of_run (expandSignalTerms_run U values)]
  have hreaches : ∀ term, Worklist.Reaches aliasSpellings term a ↔
      a = term ∨ a ∈ aliasSpellings term := by
    intro term
    constructor
    · intro h
      induction h with
      | refl => exact Or.inl rfl
      | tail _ hnext ih =>
          rcases ih with rfl | ih
          · exact Or.inr hnext
          · exact Or.inr (aliasSpellings_subset ih hnext)
    · rintro (rfl | h)
      · exact .refl
      · exact .single h
  constructor
  · rintro ⟨term, hterm, h⟩
    obtain ⟨value, hvalue, hterm⟩ := List.mem_flatMap.mp (Multiset.mem_coe.mp hterm)
    exact ⟨value, hvalue, term, hterm, (hreaches term).mp h⟩
  · rintro ⟨value, hvalue, term, hterm, h⟩
    exact ⟨term, Multiset.mem_coe.mpr (List.mem_flatMap.mpr ⟨value, hvalue, hterm⟩),
      (hreaches term).mpr h⟩

/-! ## Expanding again -/

/-- An expansion holds the spellings and the aliases of what it holds. -/
theorem spellings_mem_expandSignalTerms {values : List String} {a b : String}
    (ha : a ∈ expandSignalTerms U values)
    (hb : b ∈ signalTermVariants a ∨ b ∈ aliasSpellings a) : b ∈ expandSignalTerms U values := by
  obtain ⟨value, hvalue, term, hterm, ha⟩ := mem_expandSignalTerms.mp ha
  refine mem_expandSignalTerms.mpr ?_
  rcases ha with rfl | ha
  · rcases hb with hb | hb
    · exact ⟨value, hvalue, b, variants_subset hterm hb, Or.inl rfl⟩
    · exact ⟨value, hvalue, a, hterm, Or.inr hb⟩
  · refine ⟨value, hvalue, term, hterm, Or.inr ?_⟩
    rcases hb with hb | hb
    · obtain ⟨name, hname, ha⟩ := List.mem_flatMap.mp ha
      exact List.mem_flatMap.mpr ⟨name, hname, variants_subset ha hb⟩
    · exact aliasSpellings_subset ha hb

theorem self_mem_variants {term : String} (h : term ≠ "") : term ∈ signalTermVariants term :=
  mem_signalTermVariants.mpr ⟨h, Or.inl rfl⟩

/-- The normalized form of a term is in the expansion. -/
theorem normalizeSignalTerm_mem {values : List String} {value : String} (hvalue : value ∈ values)
    (hne : normalizeSignalTerm U value ≠ "") :
    normalizeSignalTerm U value ∈ expandSignalTerms U values :=
  mem_expandSignalTerms.mpr ⟨value, hvalue, _, self_mem_variants hne, Or.inl rfl⟩

/-- A term with spaces for underscores, normalized. -/
def spelledOut (U : Unicode) (value : String) : String :=
  normalizeSignalTerm U (spaced (normalizeSignalTerm U value))

/-- Each term, spelled out, is empty, or a term of the collection up to underscores, or a spelling
of an alias of one. -/
def SpelledOut (U : Unicode) (values : List String) : Prop :=
  ∀ value ∈ values, spelledOut U value = "" ∨
    (∃ other ∈ values, spaced (normalizeSignalTerm U other) = spelledOut U value) ∨
    ∃ other ∈ values, ∃ term ∈ signalTermVariants (normalizeSignalTerm U other),
      spelledOut U value ∈ aliasSpellings term

instance (values : List String) : Decidable (SpelledOut U values) :=
  inferInstanceAs (Decidable (∀ value ∈ values, _ ∨ (∃ other ∈ values, _) ∨
    ∃ other ∈ values, ∃ term ∈ _, _))

section Laws

variable (laws : TermLaws U)

include laws

/-- The vocabulary is normal. -/
theorem normalizeSignalTerm_alias {term a : String} (ha : a ∈ aliasSpellings term) :
    normalizeSignalTerm U a = a := by
  obtain ⟨hgroup, -, name, hname, hspelling⟩ := exists_of_mem_aliasSpellings ha
  exact (normal_of_tidy laws (tidy_vocabulary name (List.mem_flatten_of_mem hgroup hname)).1
    hspelling).normalize laws

/-- An expansion is in its own expansion. -/
theorem expandSignalTerms_subset_expand (values : List String) :
    expandSignalTerms U values ⊆ expandSignalTerms U (expandSignalTerms U values) := by
  intro a ha
  obtain ⟨value, hvalue, term, hterm, ha⟩ := mem_expandSignalTerms.mp ha
  have hne := (mem_signalTermVariants.mp hterm).1
  refine mem_expandSignalTerms.mpr ⟨_, normalizeSignalTerm_mem hvalue hne, term, ?_, ha⟩
  rw [normalizeSignalTerm_normalizeSignalTerm laws]
  exact hterm

/-- What is new in the expansion of an expansion comes from terms that are not normal. -/
theorem expand_subset_iff (values : List String) :
    expandSignalTerms U (expandSignalTerms U values) ⊆ expandSignalTerms U values ↔
      ∀ value ∈ values, spelledOut U value = "" ∨
        spelledOut U value ∈ expandSignalTerms U values := by
  constructor
  · intro hsub value hvalue
    by_cases hempty : spelledOut U value = ""
    · exact Or.inl hempty
    · have hne : normalizeSignalTerm U value ≠ "" := by
        intro hnil
        have hblank : normalizeSignalTerm U (spaced "") = "" := by
          have hspaced : spaced "" = normalizeSignalTerm U value := by rw [hnil]; rfl
          rw [hspaced, normalizeSignalTerm_normalizeSignalTerm laws, hnil]
        rw [spelledOut, hnil] at hempty
        exact hempty hblank
      have hspaced : spaced (normalizeSignalTerm U value) ∈ expandSignalTerms U values :=
        mem_expandSignalTerms.mpr ⟨value, hvalue, _,
          mem_signalTermVariants.mpr ⟨hne, Or.inr (Or.inr rfl)⟩, Or.inl rfl⟩
      exact Or.inr (hsub (normalizeSignalTerm_mem hspaced hempty))
  · intro hspelled a ha
    obtain ⟨known, hknown, term, hterm, ha⟩ := mem_expandSignalTerms.mp ha
    have hne := (mem_signalTermVariants.mp hterm).1
    -- the normalized form of what is in the expansion is in it
    have hmem : normalizeSignalTerm U known ∈ expandSignalTerms U values := by
      obtain ⟨value, hvalue, spelling, hspelling, hcase⟩ := mem_expandSignalTerms.mp hknown
      rcases hcase with rfl | halias
      · have hnormal := normal_normalizeSignalTerm laws value
        obtain ⟨-, rfl | rfl | rfl⟩ := mem_signalTermVariants.mp hspelling
        · rw [hnormal.normalize laws]
          exact hknown
        · rw [(hnormal.underscored laws).normalize laws]
          exact hknown
        · exact (hspelled value hvalue).resolve_left hne
      · rw [normalizeSignalTerm_alias laws halias]
        exact hknown
    have hterm := spellings_mem_expandSignalTerms hmem (Or.inl hterm)
    rcases ha with rfl | ha
    · exact hterm
    · exact spellings_mem_expandSignalTerms hterm (Or.inr ha)

/-- What is spelled out has no underscores. -/
theorem spaced_spelledOut (value : String) : spaced (spelledOut U value) = spelledOut U value := by
  have hnormal := normal_normalizeSignalTerm laws value
  have hchars : ∀ c ∈ (spaced (normalizeSignalTerm U value)).toList,
      U.lower (String.singleton c) = String.singleton c ∧ c ≠ '_' := by
    intro c hc
    rw [toList_replaceChar] at hc
    obtain ⟨d, hd, rfl⟩ := List.mem_map.mp hc
    by_cases hunder : d = '_'
    · rw [if_pos hunder]
      exact ⟨lower_separator laws (Or.inl rfl), by decide⟩
    · rw [if_neg hunder]
      exact ⟨hnormal.lowered d hd, hunder⟩
  have hlower := laws.lower_eq_self (U.strip (spaced (normalizeSignalTerm U value)))
    fun c hc => (hchars c (Unicode.strip_subset _ hc)).1
  refine String.toList_inj.mp ?_
  rw [toList_replaceChar]
  refine (List.map_congr_left fun c hc => ?_).trans (List.map_id _)
  rw [spelledOut, normalizeSignalTerm, hlower, String.toList_ofList] at hc
  refine if_neg ?_
  rcases collapseSpace_subset _ c hc with rfl | hc
  · decide
  · exact (hchars c (Unicode.strip_subset _ hc)).2

/-- When a term, spelled out, is in an expansion. -/
theorem spelledOut_mem_iff {values : List String} {value : String}
    (hne : spelledOut U value ≠ "") :
    spelledOut U value ∈ expandSignalTerms U values ↔
      (∃ other ∈ values, spaced (normalizeSignalTerm U other) = spelledOut U value) ∨
      ∃ other ∈ values, ∃ term ∈ signalTermVariants (normalizeSignalTerm U other),
        spelledOut U value ∈ aliasSpellings term := by
  rw [mem_expandSignalTerms]
  constructor
  · rintro ⟨other, hother, term, hterm, heq | halias⟩
    · refine Or.inl ⟨other, hother, ?_⟩
      rw [← spaced_of_mem_variants hterm, ← heq, spaced_spelledOut laws]
    · exact Or.inr ⟨other, hother, term, hterm, halias⟩
  · rintro (⟨other, hother, heq⟩ | ⟨other, hother, term, hterm, halias⟩)
    · refine ⟨other, hother, _, mem_signalTermVariants.mpr ⟨?_, Or.inr (Or.inr rfl)⟩,
        Or.inl heq.symm⟩
      intro hnil
      rw [hnil] at heq
      exact hne heq.symm
    · exact ⟨other, hother, term, hterm, Or.inr halias⟩

end Laws

/-! ## Closure -/

/-- The laws of a closure operator at the collections `values` and `others`, with termination: the
worklist ends in whatever order it takes terms, and always with the same terms. -/
structure ActsAsClosure (U : Unicode) (values others : List String) : Prop where
  ends : Acc (fun t s => Worklist.Step aliasSpellings s t) (∅, ↑(initialQueue U values))
  result : ∀ expanded, Relation.ReflTransGen (Worklist.Step aliasSpellings)
    (∅, ↑(initialQueue U values)) (expanded, 0) →
      ∀ a, a ∈ expanded ↔ a ∈ expandSignalTerms U values
  contains : ∀ value ∈ values, U.strip value ≠ "" →
    normalizeSignalTerm U value ∈ expandSignalTerms U values
  monotone : values ⊆ others → expandSignalTerms U values ⊆ expandSignalTerms U others
  union : ∀ a, a ∈ expandSignalTerms U (values ++ others) ↔
    a ∈ expandSignalTerms U values ∨ a ∈ expandSignalTerms U others
  idempotent : ∀ a, a ∈ expandSignalTerms U (expandSignalTerms U values) ↔
    a ∈ expandSignalTerms U values

theorem expandSignalTerms_subset {values others : List String} (h : values ⊆ others) :
    expandSignalTerms U values ⊆ expandSignalTerms U others := fun _ ha => by
  obtain ⟨value, hvalue, hspelling⟩ := mem_expandSignalTerms.mp ha
  exact mem_expandSignalTerms.mpr ⟨value, h hvalue, hspelling⟩

theorem mem_expandSignalTerms_append {values others : List String} {a : String} :
    a ∈ expandSignalTerms U (values ++ others) ↔
      a ∈ expandSignalTerms U values ∨ a ∈ expandSignalTerms U others := by
  simp only [mem_expandSignalTerms, List.mem_append, or_and_right, exists_or]

/-- **When the expansion is a closure.**  It always ends, with one result, holds its terms, is
monotone and keeps unions; it is idempotent exactly at the collections whose terms are spelled
out. -/
theorem actsAsClosure_iff (laws : TermLaws U) (values others : List String) :
    ActsAsClosure U values others ↔ SpelledOut U values := by
  have hspelled : SpelledOut U values ↔
      expandSignalTerms U (expandSignalTerms U values) ⊆ expandSignalTerms U values := by
    rw [expand_subset_iff laws]
    refine forall₂_congr fun value _ => ?_
    by_cases hempty : spelledOut U value = ""
    · exact iff_of_true (Or.inl hempty) (Or.inl hempty)
    · rw [spelledOut_mem_iff laws hempty]
  rw [hspelled]
  constructor
  · exact fun h a ha => (h.idempotent a).mp ha
  · intro hsub
    refine ⟨acc_initialQueue U values, fun expanded hrun a => ?_, fun value hvalue hblank => ?_,
      expandSignalTerms_subset, fun a => mem_expandSignalTerms_append,
      fun a => ⟨fun ha => hsub ha, fun ha => expandSignalTerms_subset_expand laws values ha⟩⟩
    · rw [Worklist.mem_of_run hrun, ← Worklist.mem_of_run (expandSignalTerms_run U values),
        List.mem_toFinset]
    · exact normalizeSignalTerm_mem hvalue (normalizeSignalTerm_ne_empty laws hblank)

/-- A strike and its spellings expand to what they expand to again. -/
theorem actsAsClosure_strike :
    ActsAsClosure .ascii ["Strike", "port_strike", " "] ["tariff"] :=
  (actsAsClosure_iff ascii_termLaws _ _).mpr (by decide +kernel)

/-- A trailing underscore hides the term from its own expansion. -/
theorem actsAsClosure_trailing : ¬ ActsAsClosure .ascii ["strike_"] [] := by
  intro h
  have hspaced : "strike " ∈ expandSignalTerms .ascii ["strike_"] :=
    mem_expandSignalTerms.mpr
      ⟨"strike_", List.mem_singleton_self _, "strike ", by decide +kernel, Or.inl rfl⟩
  have hagain : "strike" ∈ expandSignalTerms .ascii (expandSignalTerms .ascii ["strike_"]) :=
    mem_expandSignalTerms.mpr ⟨"strike ", hspaced, "strike", by decide +kernel, Or.inl rfl⟩
  obtain ⟨value, hvalue, term, hterm, hmem⟩ :=
    mem_expandSignalTerms.mp ((h.idempotent "strike").mp hagain)
  rw [List.mem_singleton.mp hvalue] at hterm
  have hnone : ∀ term ∈ signalTermVariants (normalizeSignalTerm .ascii "strike_"),
      ¬ ("strike" = term ∨ "strike" ∈ aliasSpellings term) := by decide +kernel
  exact hnone term hterm hmem

end ProcureSignal.Signals
