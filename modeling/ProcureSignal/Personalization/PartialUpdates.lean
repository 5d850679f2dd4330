/-
# Partial updates of preferences

What a body of `POST /preferences` that names some of the fields does to a stored preference.  The
lists that it does not name are kept.  A language that it does not name is set to English.

* `Call` : the calls that write preferences;
* `mirrored_of_execution` : in every run the excluded topics are the excluded categories;
* `Touches` : an update changes what it names and what is derived from it;
* `updatePreferences_touches_iff` : **when an update touches only what it names**.
-/
import ProcureSignal.Library.Ascii
import ProcureSignal.Library.Execution
import ProcureSignal.Personalization.PreferenceManager
import ProcureSignal.Suppliers.Fixpoint

namespace ProcureSignal.Personalization.PreferenceManager

open Suppliers (IsSortedSet publicIdsOf isSortedSet_resolvedPublicIds_diff)

variable (U : Unicode)

/-! ## Runs -/

/-- No preference and no feed. -/
def PreferenceStore.empty : PreferenceStore := ⟨UniqueTable.empty, Table.empty⟩

/-- The calls that write preferences: the two routes, and the backfill, which rewrites the
identifiers.  An update resolves names in the registry of its time. -/
inductive Call
  | update (db : Database) (userId : String) (body : PreferenceUpdate)
  | language (userId : String) (platformLanguage : Option String)
  | backfill (ids : StoredPreference → List String × List String)

/-- What a call does; a rejected call is none. -/
def step (st : PreferenceStore) : Call → Option PreferenceStore
  | .update db userId body => updatePreferences U db st userId body
  | .language userId platformLanguage => updatePreferenceLanguage U st userId platformLanguage
  | .backfill ids =>
      some { st with
        preferences := st.preferences.modify
          (fun _ p => { p with
            preference := { p.preference with
              preferredSupplierIds := (ids p).1
              excludedSupplierIds := (ids p).2 } })
          fun k hk _ _ => by rw [List.mem_singleton.mp hk] }

/-- The excluded topics are the excluded categories. -/
def StoredPreference.Mirrored (p : StoredPreference) : Prop :=
  p.preference.excludedTopics = p.preference.excludedCategories

variable {U} {db : Database} {st st' : PreferenceStore} {userId : String}

/-- A row after a save is the saved one or was there. -/
theorem mem_values_put {t : StoredPreferenceTable} {p q : StoredPreference}
    (h : q ∈ (StoredPreferenceTable.put t p).values) : q = p ∨ q ∈ t.values := by
  rw [StoredPreferenceTable.put, UniqueTable.mem_values_insertNew] at h
  rcases h with h | ⟨rfl, -⟩
  · rw [UniqueTable.toTable_modify, Table.values_modify] at h
    obtain ⟨q', hq', rfl⟩ := List.mem_map.mp h
    split
    · exact Or.inl rfl
    · exact Or.inr hq'
  · exact Or.inl rfl

/-- The row of a user is one of the table. -/
theorem mem_values_of_getPreference {p : StoredPreference} (h : st.getPreference userId = some p) :
    p ∈ st.preferences.values := List.mem_of_find?_eq_some h

/-- A body names no topics, so that a saved row is mirrored. -/
theorem mirrored_savedPreference (body : PreferenceUpdate)
    (h : ∀ p ∈ st.preferences.values, p.Mirrored) :
    (savedPreference U db st userId (body.arguments U)).Mirrored := by
  unfold savedPreference
  cases hstored : st.getPreference userId with
  | some p =>
      have hp : p.preference.excludedTopics = p.preference.excludedCategories :=
        h p (mem_values_of_getPreference hstored)
      show (_ : Option (List String)).getD p.preference.excludedTopics =
        (_ : Option (List String)).getD p.preference.excludedCategories
      rw [hp]
  | none =>
      show orList none _ = orList _ none
      generalize ((body.arguments U).canonical U).excludedCategories = categories
      rw [orList, if_pos (show (none : Option (List String)).getD [] = [] from rfl), orList]
      split
      · rename_i hempty
        exact hempty
      · rfl

/-- Every call keeps the rows mirrored. -/
theorem mirrored_of_step {call : Call} (h : ∀ p ∈ st.preferences.values, p.Mirrored)
    (hstep : step U st call = some st') : ∀ p ∈ st'.preferences.values, p.Mirrored := by
  cases call with
  | update db userId body =>
      rw [step, updatePreferences, Option.ite_none_right_eq_some, createOrUpdatePreference] at hstep
      obtain ⟨-, hsave⟩ := hstep
      rw [Option.ite_none_right_eq_some] at hsave
      obtain rfl := Option.some.inj hsave.2
      intro p hp
      rcases mem_values_put hp with rfl | hold
      · exact mirrored_savedPreference body h
      · exact h p hold
  | language userId platformLanguage =>
      rw [step, updatePreferenceLanguage, Option.ite_none_right_eq_some,
        updatePlatformLanguage] at hstep
      obtain ⟨-, hsave⟩ := hstep
      rw [Option.ite_none_right_eq_some] at hsave
      obtain rfl := Option.some.inj hsave.2
      intro p hp
      rcases mem_values_put hp with rfl | hold
      · unfold languagePreference
        cases hstored : st.getPreference userId with
        | some q =>
            have hq : q.Mirrored := h q (mem_values_of_getPreference hstored)
            exact hq
        | none => rfl
      · exact h p hold
  | backfill ids =>
      obtain rfl := Option.some.inj hstep
      intro p hp
      rw [UniqueTable.toTable_modify, Table.values_modify] at hp
      obtain ⟨q, hq, rfl⟩ := List.mem_map.mp hp
      exact h q hq

/-- **In every run** the excluded topics are the excluded categories. -/
theorem mirrored_of_execution {tr : List (PreferenceStore × Call)}
    (h : Execution (step U) unguarded PreferenceStore.empty tr st) :
    ∀ p ∈ st.preferences.values, p.Mirrored :=
  h.invariant (fun _ hp => absurd hp List.not_mem_nil) fun _ _ _ hp _ hstep =>
    mirrored_of_step hp hstep

/-! ## What an update touches -/

/-- The value of a category field, normalized by the schema and by the manager. -/
def normalizedCategories (U : Unicode) (value : ListValue) : List String :=
  canonicalCategoryList U (normalizeList U value)

/-- **An update touches what it names**: a list that is named gets its normalized value, the others
and a language that is not named are kept; the identifiers are those of the names, without an empty
one, and the topics are the categories. -/
structure Touches (U : Unicode) (db : Database) (body : PreferenceUpdate)
    (before after : StoredPreference) : Prop where
  preferredCategories : after.preference.preferredCategories =
    (body.interestedCategories.map (normalizedCategories U)).getD
      before.preference.preferredCategories
  preferredSuppliers : after.preference.preferredSuppliers =
    (body.interestedSuppliers.map (normalizeList U)).getD before.preference.preferredSuppliers
  preferredRegions : after.preference.preferredRegions =
    (body.interestedRegions.map (normalizeList U)).getD before.preference.preferredRegions
  preferredSignals : after.preference.preferredSignals =
    (body.interestedSignals.map (normalizeList U)).getD before.preference.preferredSignals
  excludedCategories : after.preference.excludedCategories =
    (body.excludedCategories.map (normalizedCategories U)).getD
      before.preference.excludedCategories
  excludedSuppliers : after.preference.excludedSuppliers =
    (body.excludedSuppliers.map (normalizeList U)).getD before.preference.excludedSuppliers
  excludedRegions : after.preference.excludedRegions =
    (body.excludedRegions.map (normalizeList U)).getD before.preference.excludedRegions
  excludedSignals : after.preference.excludedSignals =
    (body.excludedSignals.map (normalizeList U)).getD before.preference.excludedSignals
  platformLanguage : body.platformLanguage = none →
    after.platformLanguage = before.platformLanguage
  preferredSupplierIds : IsSortedSet after.preference.preferredSupplierIds
    (publicIdsOf U db after.preference.preferredSuppliers \ {""})
  excludedSupplierIds : IsSortedSet after.preference.excludedSupplierIds
    (publicIdsOf U db after.preference.excludedSuppliers \ {""})
  mirrored : after.Mirrored

/-- A body without a language has English, for the schema and for the manager. -/
theorem platformLanguage_of_none (laws : U.AsciiLaws) {body : PreferenceUpdate}
    (h : body.platformLanguage = none) :
    ((body.arguments U).canonical U).platformLanguage = "en" := by
  have hascii : Unicode.IsAscii "en" := by decide
  have hnormal : U.lower (U.strip "en") = "en" := by
    rw [Unicode.strip_ascii laws hascii, laws.lower _ hascii.strip]
    decide
  have hschema : normalizePlatformLanguage U none = "en" := by
    rw [normalizePlatformLanguage]
    show orEnglish (U.lower (U.strip "en")) = "en"
    rw [hnormal]
    rfl
  rw [Arguments.canonical, PreferenceUpdate.arguments, h, hschema]
  show orEnglish (U.lower (U.strip "en")) = "en"
  rw [hnormal]
  rfl

/-- The row that an update saves over a stored one. -/
theorem savedPreference_of_getPreference {before : StoredPreference} {a : Arguments}
    (h : st.getPreference userId = some before) :
    savedPreference U db st userId a = resolveSupplierIds U db ((a.canonical U).update before) := by
  rw [savedPreference, h]

/-- What an update saves touches what it names, but for the language. -/
theorem touches_update_iff {before : StoredPreference} {body : PreferenceUpdate}
    (hbefore : before.Mirrored) :
    Touches U db body before
      (resolveSupplierIds U db (((body.arguments U).canonical U).update before)) ↔
    (body.platformLanguage = none →
      ((body.arguments U).canonical U).platformLanguage = before.platformLanguage) := by
  have hcategories : ∀ (value : Option ListValue) (kept : List String),
      ((value.map (normalizeList U)).map (canonicalCategoryList U)).getD kept =
        (value.map (normalizedCategories U)).getD kept := by
    intro value kept
    rw [Option.map_map]
    rfl
  have htopics : ∀ (value : Option (List String)) (kept : List String),
      (value <|> (none : Option (List String))).getD kept = value.getD kept := by
    intro value kept
    cases value with
    | none => rfl
    | some _ => rfl
  constructor
  · exact fun h => h.platformLanguage
  · intro h
    refine ⟨hcategories _ _, rfl, rfl, rfl, ?_, rfl, rfl, rfl, h,
      isSortedSet_resolvedPublicIds_diff U db _, isSortedSet_resolvedPublicIds_diff U db _, ?_⟩
    · exact (htopics _ _).trans (hcategories _ _)
    · have hp : before.preference.excludedTopics = before.preference.excludedCategories := hbefore
      show (_ : Option (List String)).getD before.preference.excludedTopics =
        (_ : Option (List String)).getD before.preference.excludedCategories
      rw [hp]

/-- **When an update touches only what it names**: it names a language, or the stored one is
English. -/
theorem updatePreferences_touches_iff (laws : U.AsciiLaws)
    {tr : List (PreferenceStore × Call)}
    (h : Execution (step U) unguarded PreferenceStore.empty tr st)
    {before : StoredPreference} (hbefore : st.getPreference userId = some before)
    {body : PreferenceUpdate} (hupdate : updatePreferences U db st userId body = some st') :
    (∃ after, st'.getPreference userId = some after ∧ Touches U db body before after ∧
      ∀ other ≠ userId, st'.getPreference other = st.getPreference other) ↔
    (body.platformLanguage = none → before.platformLanguage = "en") := by
  rw [updatePreferences, Option.ite_none_right_eq_some] at hupdate
  obtain ⟨hrows, -⟩ := createOrUpdatePreference_eq_some hupdate.2
  have hmirrored : before.Mirrored :=
    mirrored_of_execution h before (mem_values_of_getPreference hbefore)
  have hafter : st'.getPreference userId =
      some (resolveSupplierIds U db (((body.arguments U).canonical U).update before)) := by
    rw [hrows userId, if_pos rfl, savedPreference_of_getPreference hbefore]
  have hothers : ∀ other ≠ userId, st'.getPreference other = st.getPreference other := by
    intro other hne
    rw [hrows other, if_neg hne]
  rw [hafter]
  simp only [Option.some.injEq, exists_eq_left']
  rw [and_iff_left hothers, touches_update_iff hmirrored]
  refine forall_congr' fun hnone => ?_
  rw [platformLanguage_of_none laws hnone, eq_comm]

/-! ## Two bodies -/

/-- A body that names a language, and one that names a supplier. -/
private def languageBody (language : String) : PreferenceUpdate :=
  ⟨none, none, none, none, none, none, none, none, some language⟩

private def supplierBody : PreferenceUpdate :=
  ⟨none, some (.items [" Bosch", "bosch"]), none, none, none, none, none, none, none⟩

/-- The row of the user whose first body names a language. -/
private def storedWith (language : String) : StoredPreference :=
  ⟨"u-1", Preference.default, language⟩

/-- The first body of a user is saved. -/
private theorem execution_languageBody {language : String}
    (h : (execute (step .ascii) PreferenceStore.empty
        [.update Database.empty "u-1" (languageBody language)]).any (fun st =>
      st.getPreference "u-1" = some (storedWith language) ∧
        (updatePreferences .ascii Database.empty st "u-1" supplierBody).isSome = true) = true) :
    ∃ tr st st', Execution (step .ascii) unguarded PreferenceStore.empty tr st ∧
      st.getPreference "u-1" = some (storedWith language) ∧
      updatePreferences .ascii Database.empty st "u-1" supplierBody = some st' := by
  obtain ⟨first, hfirst, hsaved⟩ := (Option.any_eq_true _ _).mp h
  obtain ⟨tr, st, hrun, hstored, hsome⟩ := @Execution.exists_of_execute _ _ (step .ascii)
    unguarded PreferenceStore.empty
    (fun _ st => st.getPreference "u-1" = some (storedWith language) ∧
      (updatePreferences .ascii Database.empty st "u-1" supplierBody).isSome = true)
    [.update Database.empty "u-1" (languageBody language)]
    ⟨first, hfirst, of_decide_eq_true hsaved⟩ fun _ _ => trivial
  obtain ⟨st', hst'⟩ := Option.isSome_iff_exists.mp hsome
  exact ⟨tr, st, st', hrun, hstored, hst'⟩

/-- A user who reads English adds a supplier. -/
theorem updatePreferences_touches_english :
    ∃ st st' after, st.getPreference "u-1" = some (storedWith "en") ∧
      updatePreferences .ascii Database.empty st "u-1" supplierBody = some st' ∧
      st'.getPreference "u-1" = some after ∧
      Touches .ascii Database.empty supplierBody (storedWith "en") after := by
  obtain ⟨tr, st, st', hrun, hstored, hupdate⟩ :=
    @execution_languageBody "en" (by decide +kernel)
  obtain ⟨after, hafter, htouches, -⟩ := (updatePreferences_touches_iff
    Unicode.ascii_asciiLaws hrun hstored hupdate).mpr fun _ => rfl
  exact ⟨st, st', after, hstored, hupdate, hafter, htouches⟩

/-- A user who reads German adds a supplier, and reads English. -/
theorem updatePreferences_resets_language :
    ∃ tr st st', Execution (step .ascii) unguarded PreferenceStore.empty tr st ∧
      st.getPreference "u-1" = some (storedWith "de") ∧
      updatePreferences .ascii Database.empty st "u-1" supplierBody = some st' ∧
      ¬ ∃ after, st'.getPreference "u-1" = some after ∧
        Touches .ascii Database.empty supplierBody (storedWith "de") after ∧
        ∀ other ≠ "u-1", st'.getPreference other = st.getPreference other := by
  obtain ⟨tr, st, st', hrun, hstored, hupdate⟩ :=
    @execution_languageBody "de" (by decide +kernel)
  refine ⟨tr, st, st', hrun, hstored, hupdate, ?_⟩
  rintro ⟨after, hafter, htouches, -⟩
  have hnone : supplierBody.platformLanguage = none := rfl
  have hmirrored : (storedWith "de").Mirrored := rfl
  rw [updatePreferences, Option.ite_none_right_eq_some] at hupdate
  rw [(createOrUpdatePreference_eq_some hupdate.2).1, if_pos rfl,
    savedPreference_of_getPreference hstored, Option.some.injEq] at hafter
  rw [← hafter, touches_update_iff hmirrored] at htouches
  have hkept := htouches hnone
  rw [platformLanguage_of_none Unicode.ascii_asciiLaws hnone] at hkept
  have hne : "en" ≠ (storedWith "de").platformLanguage := by decide
  exact hne hkept

end ProcureSignal.Personalization.PreferenceManager
