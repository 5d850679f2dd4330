/-
# The evidence of a risk event

A risk type is established by its terms as whole terms of the normalized text; the snippet of the
candidate is cut around the place where the lower-cased text first has one of the terms at all, also
inside of another word, and misses terms that are spelled with other white space.

* `Spelled` : the terms of the detector are spellings of tidy names;
* `evidence_eq` : the snippet is a range of the text;
* `ShownAt` : a term is spelled as a whole term inside of a range of the text;
* `evidenceShows_iff` : **when the snippet shows the match**.
-/
import ProcureSignal.RiskEvents.Detector
import ProcureSignal.Signals.Expansion
import ProcureSignal.Signals.Phrases

namespace ProcureSignal.RiskEvents

open Signals

variable {U : Unicode}

/-! ## The terms -/

/-- A spelling of a tidy name that does not end in an "i". -/
def Spelled (term : String) : Prop :=
  ∃ name : String, tidy true name.toList = true ∧ name.toList.getLast? ≠ some 'i' ∧
    term ∈ signalTermVariants name

theorem tidy_ascii {afterSeparator : Bool} {cs : List Char} (h : tidy afterSeparator cs = true) :
    ∀ c ∈ cs, c.toNat < 0x80 := by
  induction cs generalizing afterSeparator with
  | nil => exact fun c hc => absurd hc List.not_mem_nil
  | cons d cs ih =>
      rw [tidy] at h
      intro c hc
      split at h
      · rename_i hd
        rw [Bool.and_eq_true] at h
        rcases List.mem_cons.mp hc with rfl | hc
        · rcases hd with rfl | rfl <;> decide
        · exact ih h.2 c hc
      · simp only [Bool.and_eq_true, decide_eq_true_eq] at h
        rcases List.mem_cons.mp hc with rfl | hc
        · exact h.1.1.1
        · exact ih h.2 c hc

/-- The terms of tidy names are found in pieces of text, however their separators are spelled. -/
theorem solid_of_tidy_map (laws : TermLaws U) {f : Char → Char}
    (hseparator : ∀ c, c = ' ' ∨ c = '_' → f c = ' ' ∨ f c = '_')
    (hother : ∀ c, ¬ (c = ' ' ∨ c = '_') → f c = c) {cs : List Char}
    (h : tidy true cs = true) (hlast : cs.getLast? ≠ some 'i') : Solid U (cs.map f) where
  ascii d hd := by
    obtain ⟨c, hc, rfl⟩ := List.mem_map.mp hd
    by_cases hsep : c = ' ' ∨ c = '_'
    · rcases hseparator c hsep with heq | heq <;> rw [heq] <;> decide
    · rw [hother c hsep]
      exact tidy_ascii h c hc
  head := by
    have hhead := tidy_head laws hseparator hother h
    cases cs with
    | nil => cases h
    | cons c cs => exact ⟨f c, rfl, hhead⟩
  last := by
    have hsolid := tidy_getLast laws hseparator hother h
    rcases List.eq_nil_or_concat cs with rfl | ⟨cs, c, rfl⟩
    · cases h
    · rw [List.concat_eq_append] at hlast hsolid ⊢
      rw [List.map_append, List.map_singleton, List.getLast?_concat] at hsolid ⊢
      rw [List.getLast?_concat] at hlast
      refine ⟨f c, rfl, hsolid, fun hi => ?_⟩
      by_cases hsep : c = ' ' ∨ c = '_'
      · rcases hseparator c hsep with heq | heq <;> rw [heq] at hi <;> exact absurd hi (by decide)
      · rw [hother c hsep] at hi
        exact hlast (congrArg some hi)

theorem Spelled.solid (laws : TermLaws U) {term : String} (h : Spelled term) :
    Solid U term.toList := by
  obtain ⟨name, htidy, hlast, hspelling⟩ := h
  obtain ⟨-, rfl | rfl | rfl⟩ := mem_signalTermVariants.mp hspelling
  · have hself := solid_of_tidy_map (f := id) laws (fun _ hc => hc) (fun _ _ => rfl) htidy hlast
    rwa [List.map_id] at hself
  · rw [toList_replaceChar]
    refine solid_of_tidy_map laws (fun c hc => ?_) (fun c hc => ?_) htidy hlast
    · rcases hc with rfl | rfl
      · exact Or.inr rfl
      · exact Or.inr rfl
    · exact if_neg fun heq => hc (Or.inl heq)
  · rw [toList_replaceChar]
    refine solid_of_tidy_map laws (fun c hc => ?_) (fun c hc => ?_) htidy hlast
    · rcases hc with rfl | rfl
      · exact Or.inl rfl
      · exact Or.inl rfl
    · exact if_neg fun heq => hc (Or.inr heq)

theorem Spelled.normalize (laws : TermLaws U) {term : String} (h : Spelled term) :
    normalizeSignalTerm U term = term := by
  obtain ⟨name, htidy, -, hspelling⟩ := h
  exact (normal_of_tidy laws htidy hspelling).normalize laws

theorem spelled_name {name : String} (h : tidy true name.toList = true)
    (hlast : name.toList.getLast? ≠ some 'i') {term : String}
    (hterm : term = name ∨ term = spaced name) : Spelled term := by
  refine ⟨name, h, hlast, mem_signalTermVariants.mpr ⟨?_, hterm.imp_right Or.inr⟩⟩
  rintro rfl
  cases h

/-- Spellings expand to spellings. -/
theorem spelled_of_mem_expand (laws : TermLaws U) {values : List String}
    (h : ∀ value ∈ values, Spelled value) {term : String}
    (hterm : term ∈ expandSignalTerms U values) : Spelled term := by
  obtain ⟨value, hvalue, spelling, hspelling, heq | halias⟩ := mem_expandSignalTerms.mp hterm
  · subst heq
    rw [(h value hvalue).normalize laws] at hspelling
    obtain ⟨name, htidy, hlast, hname⟩ := h value hvalue
    exact ⟨name, htidy, hlast, variants_subset hname hspelling⟩
  · obtain ⟨hgroup, -, name, hname, hspelled⟩ := exists_of_mem_aliasSpellings halias
    obtain ⟨htidy, hlast⟩ := tidy_vocabulary name (List.mem_flatten_of_mem hgroup hname)
    exact ⟨name, htidy, hlast, hspelled⟩

/-- The names of the risk taxonomy. -/
def riskNames : List String :=
  riskAliases.flatMap (fun p => p.1 :: p.2) ++ conservativeTextAliases.flatMap (·.2)

/-- What is checked of the names: each is tidy, none ends in an "i", and a risk type is one. -/
theorem riskNames_checked :
    (∀ name ∈ riskNames, tidy true name.toList = true ∧ name.toList.getLast? ≠ some 'i') ∧
      ∀ riskType ∈ riskTypeOrder, riskType ∈ riskNames := by
  obtain ⟨types, htypes, names, hnames, htidy, hsub⟩ : ∃ types,
      riskTypeOrder.map String.toList = types ∧ ∃ names, riskNames.map String.toList = names ∧
        (∀ cs ∈ names, tidy true cs = true ∧ cs.getLast? ≠ some 'i') ∧
        ∀ cs ∈ types, cs ∈ names := by
    apply Exists.intro
    apply And.intro
    · repeat first | exact List.map_nil | apply Unicode.map_toList_cons
    apply Exists.intro
    apply And.intro
    · repeat first | exact List.map_nil | apply Unicode.map_toList_cons
    · decide +kernel
  subst htypes hnames
  refine ⟨fun name hname => htidy _ (List.mem_map_of_mem hname), fun riskType hmem => ?_⟩
  obtain ⟨name, hname, heq⟩ := List.mem_map.mp (hsub _ (List.mem_map_of_mem hmem))
  rwa [← String.toList_inj.mp heq]

theorem spelled_riskNames {name : String} (h : name ∈ riskNames) : Spelled name :=
  spelled_name (riskNames_checked.1 name h).1 (riskNames_checked.1 name h).2 (Or.inl rfl)

/-- A risk type is a name of the taxonomy. -/
theorem riskType_mem_riskNames : ∀ riskType ∈ riskTypeOrder, riskType ∈ riskNames :=
  riskNames_checked.2

theorem mem_riskNames_of_mem {p : String × List String} (hp : p ∈ riskAliases) {name : String}
    (hname : name = p.1 ∨ name ∈ p.2) : name ∈ riskNames :=
  List.mem_append_left _ (List.mem_flatMap.mpr ⟨p, hp, List.mem_cons.mpr hname⟩)

theorem mem_of_lookup {κ : Type} [BEq κ] [LawfulBEq κ] {α : Type} {l : List (κ × α)} {k : κ} {v : α}
    (h : l.lookup k = some v) : (k, v) ∈ l := by
  obtain ⟨front, back, rfl, -⟩ := List.lookup_eq_some_iff.mp h
  exact List.mem_append_right _ List.mem_cons_self

/-- What is expanded for a risk type. -/
theorem mem_expandedValues (laws : TermLaws U) {riskType : String}
    (hmem : riskType ∈ riskTypeOrder) : ∀ value ∈ expandedValues U riskType, value ∈ riskNames := by
  have hself := riskType_mem_riskNames riskType hmem
  have hnormal := (spelled_riskNames hself).normalize laws
  have hregional : ("regional_conflict", regionalConflictAliases) ∈ riskAliases :=
    List.mem_cons_of_mem _ List.mem_cons_self
  have htype : (aliasToType U riskType).getD riskType ∈ riskNames := by
    cases haliased : aliasToType U riskType with
    | none => exact hself
    | some known =>
        obtain ⟨p, hp, rfl⟩ := Option.map_eq_some_iff.mp haliased
        exact mem_riskNames_of_mem (List.mem_filter.mp (List.mem_of_getLast? hp)).1 (Or.inl rfl)
  simp only [expandedValues, hnormal]
  generalize (aliasToType U riskType).getD riskType = known at htype
  intro value hvalue
  rw [List.mem_append, List.mem_cons] at hvalue
  rcases hvalue with (rfl | halias) | hextra
  · exact htype
  · cases hlookup : riskAliases.lookup known with
    | none =>
        rw [hlookup] at halias
        rw [List.mem_singleton.mp halias]
        exact hself
    | some aliases =>
        rw [hlookup] at halias
        exact mem_riskNames_of_mem (mem_of_lookup hlookup) (Or.inr halias)
  · split at hextra
    · rcases List.mem_cons.mp hextra with rfl | hextra
      · exact mem_riskNames_of_mem hregional (Or.inl rfl)
      · exact mem_riskNames_of_mem hregional (Or.inr hextra)
    · exact absurd hextra List.not_mem_nil

/-- The terms of a risk type are spellings. -/
theorem spelled_textTermsFor (laws : TermLaws U) {riskType : String}
    (hmem : riskType ∈ riskTypeOrder) : ∀ term ∈ textTermsFor U riskType, Spelled term := by
  intro term hterm
  unfold textTermsFor at hterm
  split at hterm
  · rw [riskTermsFor, List.flatMap_singleton] at hterm
    split at hterm
    · exact absurd hterm List.not_mem_nil
    · exact spelled_of_mem_expand laws
        (fun value hvalue => spelled_riskNames (mem_expandedValues laws hmem value hvalue))
        (List.mem_filter.mp hterm).1
  · rename_i aliases hlookup
    obtain ⟨name, hname, hterm⟩ := List.mem_flatMap.mp hterm
    have hrisk : name ∈ riskNames := List.mem_append_right _
      (List.mem_flatMap.mpr ⟨_, mem_of_lookup hlookup, hname⟩)
    rw [(spelled_riskNames hrisk).normalize laws, List.mem_cons, List.mem_singleton] at hterm
    obtain ⟨base, htidy, hlast, hspelling⟩ := spelled_riskNames hrisk
    rcases hterm with rfl | rfl
    · exact ⟨base, htidy, hlast, hspelling⟩
    · refine ⟨base, htidy, hlast, variants_subset hspelling (mem_signalTermVariants.mpr
        ⟨?_, Or.inr (Or.inr rfl)⟩)⟩
      rintro rfl
      exact absurd (spelled_riskNames hrisk).solid (fun hsolid => by
        obtain ⟨c, hc, -⟩ := (hsolid laws).head
        cases hc)

/-- So are the terms that are searched for. -/
theorem spelled_searchedTerms (laws : TermLaws U) {riskType : String}
    (hmem : riskType ∈ riskTypeOrder) : ∀ term ∈ searchedTerms U riskType, Spelled term := by
  intro term hterm
  have hterms := spelled_textTermsFor laws hmem
  unfold searchedTerms at hterm
  split at hterm
  · obtain ⟨other, hother, rfl⟩ := List.mem_map.mp hterm
    rw [(hterms other hother).normalize laws]
    exact hterms other hother
  · exact spelled_of_mem_expand laws hterms (List.mem_filter.mp hterm).1

/-! ## The snippet -/

/-- The range that the snippet is cut from: around the place where the lower-cased text first has
one of the terms, inside of a word or not, or the beginning of the text. -/
def evidenceRange (U : Unicode) (text : String) (terms : List String) : ℕ × ℕ :=
  match (matchPositions U text terms).min? with
  | none => (0, 260)
  | some center => (center - 90, center + 170)

/-- **The snippet is a range of the text.** -/
theorem evidence_eq (text : String) (terms : List String) :
    evidence U text terms = U.strip (String.ofList
      ((text.toList.take (evidenceRange U text terms).2).drop (evidenceRange U text terms).1)) := by
  unfold evidence evidenceRange
  cases (matchPositions U text terms).min? with
  | none => rfl
  | some center =>
      dsimp only
      rw [Nat.min_comm, List.take_eq_take_min (i := center + 170)]

theorem normalizeSignalTerm_strip (text : String) :
    normalizeSignalTerm U (U.strip text) = normalizeSignalTerm U text := by
  have hstrip : U.strip (U.strip text) = U.strip text := by
    rw [Unicode.strip, Unicode.strip, String.toList_ofList, Unicode.strip_strip_toList]
  rw [normalizeSignalTerm, hstrip, normalizeSignalTerm]

/-- A stretch of the text between the characters `start` and `stop` normalizes to the term, with no
letter or digit beside it in this range. -/
def ShownAt (U : Unicode) (text : List Char) (start stop : ℕ) (term : String) : Prop :=
  ∃ before stretch after, text = before ++ stretch ++ after ∧
    start ≤ before.length ∧ before.length + stretch.length ≤ stop ∧
    normalizeSignalTerm U (String.ofList stretch) = term ∧
    (before.length = start ∨ endsWord U before = false) ∧
    (before.length + stretch.length = stop ∨ startsWord U after = false)

/-- A stretch of a range of the text is a stretch of the text in this range. -/
theorem shownAt_iff (laws : PhraseLaws U) {text : List Char} {start stop : ℕ} {term : String}
    (hterm : normalizeSignalTerm U (String.ofList []) ≠ term) :
    (∃ before stretch after, (text.take stop).drop start = before ++ stretch ++ after ∧
        normalizeSignalTerm U (String.ofList stretch) = term ∧
        endsWord U before = false ∧ startsWord U after = false) ↔
      ShownAt U text start stop term := by
  constructor
  · rintro ⟨before, stretch, after, hsplit, hstretch, hfront, hback⟩
    have hne : stretch ≠ [] := by
      rintro rfl
      exact hterm hstretch
    have htake : text.take stop = (text.take stop).take start ++ (before ++ stretch ++ after) := by
      rw [← hsplit, List.take_append_drop]
    have hlength := congrArg List.length hsplit
    have hpos := List.length_pos_of_ne_nil hne
    simp only [List.length_drop, List.length_take, List.length_append] at hlength
    have hstart : ((text.take stop).take start).length = start := by
      simp only [List.length_take]
      omega
    refine ⟨(text.take stop).take start ++ before, stretch, after ++ text.drop stop, ?_, ?_, ?_,
      hstretch, ?_, ?_⟩
    · calc text = text.take stop ++ text.drop stop := (List.take_append_drop stop text).symm
        _ = _ := congrArg (· ++ text.drop stop) htake
        _ = _ := by simp only [List.append_assoc]
    · rw [List.length_append, hstart]
      omega
    · rw [List.length_append, hstart]
      omega
    · by_cases hnil : before = []
      · left
        rw [hnil, List.append_nil, hstart]
      · right
        rw [endsWord_append laws hnil]
        exact hfront
    · by_cases hnil : after = []
      · subst hnil
        by_cases hend : stop ≤ text.length
        · left
          rw [List.length_append, hstart]
          simp only [List.length_nil] at hlength
          omega
        · right
          rw [List.nil_append, List.drop_eq_nil_of_le (by omega)]
          exact startsWord_nil laws
      · right
        rw [startsWord_append laws hnil]
        exact hback
  · rintro ⟨before, stretch, after, rfl, hstart, hstop, hstretch, hfront, hback⟩
    refine ⟨before.drop start, stretch, after.take (stop - (before.length + stretch.length)), ?_,
      hstretch, ?_, ?_⟩
    · rw [List.take_append, List.length_append,
        List.take_of_length_le (by rw [List.length_append]; exact hstop), List.append_assoc,
        List.append_assoc, List.drop_append_of_le_length hstart]
    · by_cases hnil : before.drop start = []
      · rw [hnil]
        exact endsWord_nil laws
      · have hlt : start < before.length := by
          by_contra hge
          exact hnil (List.drop_eq_nil_of_le (not_lt.mp hge))
        rw [← endsWord_append laws (a := before.take start) hnil, List.take_append_drop]
        exact hfront.resolve_left (by omega)
    · by_cases hnil : after.take (stop - (before.length + stretch.length)) = []
      · rw [hnil]
        exact startsWord_nil laws
      · have hlt : before.length + stretch.length < stop := by
          by_contra hge
          refine hnil ?_
          rw [Nat.sub_eq_zero_of_le (not_lt.mp hge), List.take_zero]
        rw [← startsWord_append laws (b := after.drop (stop - (before.length + stretch.length)))
          hnil, List.take_append_drop]
        exact hback.resolve_left (by omega)

/-! ## The match and its evidence -/

/-- A term that matches was searched for. -/
theorem mem_searchedTerms {riskType text term : String} (h : term ∈ matchedTerms U riskType text) :
    term ∈ searchedTerms U riskType := by
  unfold matchedTerms at h
  dsimp only at h
  split at h
  · exact absurd h List.not_mem_nil
  · exact (List.mem_filter.mp h).1

/-- The snippet of a candidate whose type was found in the text has a term that matched as a whole
term. -/
def EvidenceShows (U : Unicode) (processed : NewsArticleProcessed) (raw : Option NewsArticleRaw)
    (event : RiskEventCandidate) : Prop :=
  textMatch U event.riskType (articleText U processed raw) = true →
    ∃ term ∈ matchedTerms U event.riskType (articleText U processed raw),
      matchesTerm (normalizeSignalTerm U event.evidenceSnippet) term = true

/-- **When the snippet shows the match.**  A matched term is a whole term of the snippet exactly
when it is spelled, as a whole term, within the range around the first place where the lower-cased
text has any term of the type as a plain substring. -/
theorem evidenceShows_iff (laws : PhraseLaws U) {processed : NewsArticleProcessed}
    {raw : Option NewsArticleRaw} {event : RiskEventCandidate}
    (hmem : event ∈ detectRiskEvents U processed raw) :
    EvidenceShows U processed raw event ↔
      (textMatch U event.riskType (articleText U processed raw) = true →
        ∃ term ∈ matchedTerms U event.riskType (articleText U processed raw),
          ShownAt U (articleText U processed raw).toList
            (evidenceRange U (articleText U processed raw) (textTermsFor U event.riskType)).1
            (evidenceRange U (articleText U processed raw) (textTermsFor U event.riskType)).2
            term) := by
  obtain ⟨htype, hdetected⟩ := mem_detectRiskEvents hmem
  refine imp_congr_right fun _ => exists_congr fun term => and_congr_right fun hterm => ?_
  have hsolid := (spelled_searchedTerms laws.toTermLaws htype term
    (mem_searchedTerms hterm)).solid laws.toTermLaws
  have hempty : normalizeSignalTerm U (String.ofList []) ≠ term := by
    intro heq
    have hlower : U.lower "" = "" :=
      laws.lower_eq_self "" fun c hc => absurd hc List.not_mem_nil
    have hstrip : U.strip (String.ofList []) = "" := rfl
    obtain ⟨c, hc, -⟩ := hsolid.head
    rw [← heq, normalizeSignalTerm, hstrip, hlower] at hc
    cases hc
  rw [(riskType_detectRiskType hdetected).2, evidence_eq, normalizeSignalTerm_strip, matchesTerm,
    search_normalizeSignalTerm_iff laws hsolid, String.toList_ofList, shownAt_iff laws hempty]

/-- An article of a title and a summary. -/
private def article (title summary : String) : NewsArticleProcessed where
  normalizedTitle := title
  summary := summary
  topLevelCategory := "general"
  signalTags := none
  prioritySignal := none
  detectedRegions := none
  detectedSuppliers := none
  detectedCategories := none

/-- The foreign exchange of an article is in its snippet. -/
theorem evidenceShows_fx :
    ∃ event ∈ detectRiskEvents .ascii (article "FX losses" "") none,
      EvidenceShows .ascii (article "FX losses" "") none event := by
  obtain ⟨event, hmem, htype⟩ := @exists_candidate_of_textMatch .ascii (article "FX losses" "")
    none "currency" (by decide) (by decide) (by decide +kernel)
  refine ⟨event, hmem, (evidenceShows_iff ascii_phraseLaws hmem).mpr fun _ => ?_⟩
  rw [htype]
  refine ⟨"fx", by decide +kernel, [], "FX".toList, " losses".toList, ?_, ?_⟩
  · decide +kernel
  · decide +kernel

/-- A line break inside of the term, and special effects ninety characters later. -/
private def effectsText : String :=
  "Foreign\nexchange desks were quiet while a new studio in the old harbour " ++
    "opened its doors for VFX work"

/-- The end of the text that is cut out around the special effects. -/
private def effectsSnippet : String :=
  "ign\nexchange desks were quiet while a new studio in the old harbour " ++
    "opened its doors for VFX work"

private def effects : NewsArticleProcessed := article effectsText ""

/-- What is cut out of a text, from its characters. -/
private theorem evidence_of_toList {text : String} {cs : List Char} (h : text.toList = cs)
    (terms : List String) {center : ℕ}
    (hcenter : ((terms.filter (· ≠ "")).filterMap fun term =>
      findText term.toList (cs.map Unicode.asciiLower)).min? = some center) :
    evidence .ascii text terms = String.ofList
      ((((cs.take (min cs.length (center + 170))).drop (center - 90)).dropWhile
        Unicode.asciiSpace).rdropWhile Unicode.asciiSpace) := by
  have hpositions : (matchPositions .ascii text terms).min? = some center := by
    rw [matchPositions, Unicode.toList_lower_ascii, h]
    exact hcenter
  rw [evidence, hpositions, h]
  exact Unicode.strip_of_toList String.toList_ofList

/-- A normalized text, from its characters. -/
private theorem normalizeSignalTerm_of_toList {text : String} {cs : List Char}
    (h : text.toList = cs) : normalizeSignalTerm .ascii text = String.ofList (collapseSpace .ascii
      (((cs.dropWhile Unicode.asciiSpace).rdropWhile Unicode.asciiSpace).map
        Unicode.asciiLower)) := by
  rw [normalizeSignalTerm, Unicode.toList_lower_ascii, Unicode.strip_of_toList h,
    String.toList_ofList]
  rfl

/-- The terms of a currency risk. -/
private theorem textTermsFor_currency : textTermsFor .ascii "currency" =
    ["foreign exchange", "foreign exchange", "fx", "fx", "exchange rate", "exchange rate",
      "currency risk", "currency risk"] := by
  decide +kernel

private theorem effects_text : articleText .ascii effects none = effectsText := by
  obtain ⟨cs, hcs, hhead, hlast, hcons⟩ : ∃ cs, effectsText.toList = cs ∧
      cs.head?.any Unicode.ascii.isSpace = false ∧ cs.getLast?.any Unicode.ascii.isSpace = false ∧
        cs ≠ [] := ⟨_, Unicode.toList_append_literals, rfl, rfl, List.cons_ne_nil _ _⟩
  have hstrip : Unicode.ascii.strip effectsText = effectsText := by
    rw [strip_eq_self_iff, hcs]
    exact ⟨hhead, hlast⟩
  have hne : effectsText ≠ "" := fun hnil => hcons (by rw [← hcs, hnil, String.toList_empty])
  have hparts : articleText .ascii effects none =
      " ".intercalate ([Unicode.ascii.strip effectsText, Unicode.ascii.strip ""].filter (· ≠ "")) :=
    rfl
  rw [hparts, hstrip, List.filter_cons_of_pos (by simpa using hne),
    List.filter_cons_of_neg (by decide), List.filter_nil, String.intercalate_singleton]

/-- The snippet of the text, in which no term is seen. -/
private theorem effects_evidence :
    evidence .ascii effectsText (textTermsFor .ascii "currency") = effectsSnippet ∧
      ∀ term ∈ searchedTerms .ascii "currency",
        matchesTerm (normalizeSignalTerm .ascii effectsSnippet) term = false := by
  constructor
  · have hevidence := @evidence_of_toList effectsText _ Unicode.toList_append_literals
      (textTermsFor .ascii "currency") 94
    rw [textTermsFor_currency] at hevidence ⊢
    refine (hevidence ?_).trans ?_
    · decide +kernel
    · decide +kernel
  · rw [@normalizeSignalTerm_of_toList effectsSnippet _ Unicode.toList_append_literals]
    simp only [matchesTerm, Regex.search, String.toList_ofList]
    decide +kernel

/-- A studio for special effects is the evidence of a currency risk. -/
theorem evidenceShows_vfx :
    ∃ event ∈ detectRiskEvents .ascii effects none,
      ¬ EvidenceShows .ascii effects none event := by
  have htext : textMatch .ascii "currency" (articleText .ascii effects none) = true := by
    rw [effects_text, textMatch, textTermsFor_currency,
      @normalizeSignalTerm_of_toList effectsText _ Unicode.toList_append_literals]
    simp only [matchesTerm, Regex.search, String.toList_ofList]
    decide +kernel
  obtain ⟨event, hmem, htype⟩ := @exists_candidate_of_textMatch .ascii effects none "currency"
    (by decide) (by decide) htext
  refine ⟨event, hmem, fun hshows => ?_⟩
  have hsnippet := (riskType_detectRiskType (mem_detectRiskEvents hmem).2).2
  rw [htype, effects_text, effects_evidence.1] at hsnippet
  rw [EvidenceShows, htype, hsnippet] at hshows
  obtain ⟨term, hterm, hmatch⟩ := hshows htext
  rw [effects_evidence.2 term (mem_searchedTerms hterm)] at hmatch
  exact Bool.false_ne_true hmatch

end ProcureSignal.RiskEvents
