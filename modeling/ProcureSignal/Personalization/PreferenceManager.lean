/-
# Saving preferences

`PreferenceManager` of `personalization/preference_manager.py` with the request schemas of
`api/schemas/preference.py`: a body is normalized, the names a user typed are resolved to
suppliers, and the feed of the user is dropped with the commit.

`createOrUpdatePreference_eq_some` and `updatePlatformLanguage_eq_some` say what an accepted
call leaves behind, for the caller and for everybody else.
-/
import ProcureSignal.Personalization.Pipeline
import ProcureSignal.Suppliers.Backfill

namespace ProcureSignal.Personalization.PreferenceManager

open Suppliers (resolvedPublicIds)

variable (U : Unicode)

/-! ## Request bodies -/

/-- A value that a body gives a list field. -/
inductive ListValue
  | null
  | text (value : String)
  | items (values : List String)
  deriving DecidableEq, Repr

/-- The loop of `_normalize_list`. -/
def normalizeListInto (normalized : List String) : List String → List String
  | [] => normalized
  | item :: items =>
      let text := U.lower (U.strip item)
      normalizeListInto
        (if text ≠ "" ∧ text ∉ normalized then normalized ++ [text] else normalized) items

/-- `_normalize_list`. -/
def normalizeList : ListValue → List String
  | .null => []
  | .text value => normalizeListInto U [] [value]
  | .items values => normalizeListInto U [] values

/-- `text or "en"`. -/
def orEnglish (text : String) : String := if text = "" then "en" else text

/-- `normalize_platform_language`; a body without a language has `en`. -/
def normalizePlatformLanguage (value : Option String) : String :=
  orEnglish (U.lower (U.strip (orEnglish (value.getD ""))))

/-- `Field("en", min_length=2, max_length=10)`. -/
def languageFits (language : String) : Bool := 2 ≤ language.length && language.length ≤ 10

/-- The body of `POST /preferences`: a field that is absent is `none`. -/
structure PreferenceUpdate where
  interestedCategories : Option ListValue
  interestedSuppliers : Option ListValue
  interestedRegions : Option ListValue
  interestedSignals : Option ListValue
  excludedCategories : Option ListValue
  excludedSuppliers : Option ListValue
  excludedRegions : Option ListValue
  excludedSignals : Option ListValue
  platformLanguage : Option String
  deriving DecidableEq, Repr

/-! ## Rows -/

/-- `UserNewsPreference` with all its columns. -/
structure StoredPreference where
  userId : String
  preference : Preference
  platformLanguage : String
  deriving DecidableEq, Repr

/-- `user_news_preferences`, unique in `user_id`. -/
abbrev StoredPreferenceTable := UniqueTable StoredPreference String [fun p => some p.userId]

/-- The tables a preference call writes. -/
structure PreferenceStore where
  preferences : StoredPreferenceTable
  feed : Table UserNewsFeed

/-- `get_preference`. -/
def PreferenceStore.getPreference (st : PreferenceStore) (userId : String) :
    Option StoredPreference :=
  st.preferences.values.find? fun p => p.userId = userId

/-- The column widths of `user_news_preferences`. -/
def preferenceFits (p : StoredPreference) : Bool :=
  p.userId.length ≤ 100 && p.platformLanguage.length ≤ 10

/-- The arguments of `create_or_update_preference`. -/
structure Arguments where
  preferredCategories : Option (List String)
  preferredSuppliers : Option (List String)
  preferredRegions : Option (List String)
  preferredSignals : Option (List String)
  excludedCategories : Option (List String)
  excludedSuppliers : Option (List String)
  excludedRegions : Option (List String)
  excludedSignals : Option (List String)
  excludedTopics : Option (List String)
  platformLanguage : String
  deriving DecidableEq, Repr

/-! ## The calls -/

/-- `xs or ys or []` of two optional lists. -/
def orList (xs ys : Option (List String)) : List String :=
  if xs.getD [] = [] then ys.getD [] else xs.getD []

/-- The arguments with canonical categories and a normal language. -/
def Arguments.canonical (a : Arguments) : Arguments :=
  { a with
    preferredCategories := a.preferredCategories.map (canonicalCategoryList U)
    excludedCategories := a.excludedCategories.map (canonicalCategoryList U)
    excludedTopics := a.excludedTopics.map (canonicalCategoryList U)
    platformLanguage := orEnglish (U.lower (U.strip (orEnglish a.platformLanguage))) }

/-- The branch "Update existing". -/
def Arguments.update (a : Arguments) (p : StoredPreference) : StoredPreference :=
  { p with
    preference :=
      { p.preference with
        preferredCategories := a.preferredCategories.getD p.preference.preferredCategories
        preferredSuppliers := a.preferredSuppliers.getD p.preference.preferredSuppliers
        preferredRegions := a.preferredRegions.getD p.preference.preferredRegions
        preferredSignals := a.preferredSignals.getD p.preference.preferredSignals
        -- the topics follow the categories; given alone, they set both
        excludedCategories :=
          (a.excludedCategories <|> a.excludedTopics).getD p.preference.excludedCategories
        excludedTopics :=
          (a.excludedCategories <|> a.excludedTopics).getD p.preference.excludedTopics
        excludedSuppliers := a.excludedSuppliers.getD p.preference.excludedSuppliers
        excludedRegions := a.excludedRegions.getD p.preference.excludedRegions
        excludedSignals := a.excludedSignals.getD p.preference.excludedSignals }
    platformLanguage := a.platformLanguage }

/-- The branch "Create new". -/
def Arguments.create (a : Arguments) (userId : String) : StoredPreference where
  userId := userId
  preference :=
    { preferredCategories := a.preferredCategories.getD []
      preferredSuppliers := a.preferredSuppliers.getD []
      preferredRegions := a.preferredRegions.getD []
      preferredSignals := a.preferredSignals.getD []
      excludedCategories := orList a.excludedCategories a.excludedTopics
      excludedSuppliers := a.excludedSuppliers.getD []
      excludedRegions := a.excludedRegions.getD []
      excludedSignals := a.excludedSignals.getD []
      excludedTopics := orList a.excludedTopics a.excludedCategories
      preferredSupplierIds := []
      excludedSupplierIds := [] }
  platformLanguage := a.platformLanguage

/-- `_resolve_supplier_ids` of the preferred and of the excluded names. -/
def resolveSupplierIds (db : Database) (p : StoredPreference) : StoredPreference :=
  { p with
    preference :=
      { p.preference with
        preferredSupplierIds := resolvedPublicIds U db p.preference.preferredSuppliers
        excludedSupplierIds := resolvedPublicIds U db p.preference.excludedSuppliers } }

/-- The row that `create_or_update_preference` saves. -/
def savedPreference (db : Database) (st : PreferenceStore) (userId : String) (a : Arguments) :
    StoredPreference :=
  resolveSupplierIds U db <|
    match st.getPreference userId with
    | some p => (a.canonical U).update p
    | none => (a.canonical U).create userId

/-- `INSERT` or `UPDATE` of the row of a user. -/
def StoredPreferenceTable.put (t : StoredPreferenceTable) (p : StoredPreference) :
    StoredPreferenceTable :=
  (t.modify (fun _ q => if q.userId = p.userId then p else q) (by
    intro k hk _ q
    rw [List.mem_singleton.mp hk]
    split
    · rename_i hsame
      exact congrArg some hsame.symm
    · rfl)).insertNew p

/-- `create_or_update_preference`, rolled back when the row does not fit its columns. -/
def createOrUpdatePreference (db : Database) (st : PreferenceStore) (userId : String)
    (a : Arguments) : Option PreferenceStore :=
  let p := savedPreference U db st userId a
  if preferenceFits p then
    some {
      preferences := StoredPreferenceTable.put st.preferences p
      feed := st.feed.delete fun _ row => row.userId = userId }
  else none

/-- The row that `update_platform_language` saves. -/
def languagePreference (st : PreferenceStore) (userId platformLanguage : String) :
    StoredPreference :=
  let language := orEnglish (U.lower (U.strip (orEnglish platformLanguage)))
  match st.getPreference userId with
  | some p => { p with platformLanguage := language }
  | none => ⟨userId, Preference.default, language⟩

/-- `update_platform_language`. -/
def updatePlatformLanguage (st : PreferenceStore) (userId platformLanguage : String) :
    Option PreferenceStore :=
  let p := languagePreference U st userId platformLanguage
  if preferenceFits p then
    some { st with preferences := StoredPreferenceTable.put st.preferences p }
  else none

/-! ## The routes -/

/-- The arguments `update_preferences` passes on; it names no topics. -/
def PreferenceUpdate.arguments (b : PreferenceUpdate) : Arguments where
  preferredCategories := b.interestedCategories.map (normalizeList U)
  preferredSuppliers := b.interestedSuppliers.map (normalizeList U)
  preferredRegions := b.interestedRegions.map (normalizeList U)
  preferredSignals := b.interestedSignals.map (normalizeList U)
  excludedCategories := b.excludedCategories.map (normalizeList U)
  excludedSuppliers := b.excludedSuppliers.map (normalizeList U)
  excludedRegions := b.excludedRegions.map (normalizeList U)
  excludedSignals := b.excludedSignals.map (normalizeList U)
  excludedTopics := none
  platformLanguage := normalizePlatformLanguage U b.platformLanguage

/-- `update_preferences`: a body that meets its schema is saved. -/
def updatePreferences (db : Database) (st : PreferenceStore) (userId : String)
    (b : PreferenceUpdate) : Option PreferenceStore :=
  if languageFits (normalizePlatformLanguage U b.platformLanguage) then
    createOrUpdatePreference U db st userId (b.arguments U)
  else none

/-- `update_preference_language`. -/
def updatePreferenceLanguage (st : PreferenceStore) (userId : String)
    (platformLanguage : Option String) : Option PreferenceStore :=
  if languageFits (normalizePlatformLanguage U platformLanguage) then
    updatePlatformLanguage U st userId (normalizePlatformLanguage U platformLanguage)
  else none

/-! ## What is saved -/

variable {U} {db : Database} {st st' : PreferenceStore} {userId : String}

/-- The stored row has the user it is found under. -/
theorem userId_of_getPreference {p : StoredPreference} (h : st.getPreference userId = some p) :
    p.userId = userId := by
  simpa using List.find?_some h

/-- The row that is saved is that of the caller. -/
theorem userId_savedPreference (db : Database) (st : PreferenceStore) (userId : String)
    (a : Arguments) : (savedPreference U db st userId a).userId = userId := by
  unfold savedPreference resolveSupplierIds
  cases h : st.getPreference userId with
  | some p =>
      have huser : p.userId = userId := userId_of_getPreference h
      exact huser
  | none => rfl

theorem userId_languagePreference (st : PreferenceStore) (userId language : String) :
    (languagePreference U st userId language).userId = userId := by
  unfold languagePreference
  simp only
  cases h : st.getPreference userId with
  | some p =>
      have huser : p.userId = userId := userId_of_getPreference h
      exact huser
  | none => rfl

/-- **A save** puts the row in force for its user and leaves the rows of the others. -/
theorem getPreference_put (st : PreferenceStore) (p : StoredPreference) (userId : String) :
    PreferenceStore.getPreference
        { st with preferences := StoredPreferenceTable.put st.preferences p } userId =
      if userId = p.userId then some p else st.getPreference userId := by
  set g : StoredPreference → StoredPreference := fun q => if q.userId = p.userId then p else q
    with hg
  have hkeep : ∀ q, (g q).userId = q.userId := by
    intro q
    show (if q.userId = p.userId then p else q).userId = _
    split
    · rename_i hsame
      exact hsame.symm
    · rfl
  have hfree : ∀ t : StoredPreferenceTable, t.Free p ↔ p.userId ∉ t.values.map (·.userId) := by
    intro t
    simp [UniqueTable.Free, List.mem_filterMap]
  have hids : (st.preferences.values.map g).map (·.userId) =
      st.preferences.values.map (·.userId) := by
    rw [List.map_map]
    exact List.map_congr_left fun q _ => hkeep q
  have hvalues : (StoredPreferenceTable.put st.preferences p).values =
      st.preferences.values.map g ++
        if p.userId ∈ st.preferences.values.map (·.userId) then [] else [p] := by
    rw [StoredPreferenceTable.put, UniqueTable.insertNew]
    split
    · rename_i hnew
      rw [hfree, UniqueTable.toTable_modify, Table.values_modify, hids] at hnew
      rw [UniqueTable.toTable_insertFree, Table.values_insert, UniqueTable.toTable_modify,
        Table.values_modify, if_neg hnew]
    · rename_i hold
      rw [hfree, UniqueTable.toTable_modify, Table.values_modify, hids, not_not] at hold
      rw [UniqueTable.toTable_modify, Table.values_modify, if_pos hold, List.append_nil]
  have hfind : (st.preferences.values.map g).find? (fun q => q.userId = userId) =
      (st.getPreference userId).map g := by
    rw [List.find?_map]
    unfold PreferenceStore.getPreference
    congr 2
    funext q
    rw [Function.comp_apply, hkeep]
  show (StoredPreferenceTable.put st.preferences p).values.find? (fun q => q.userId = userId) = _
  rw [hvalues, List.find?_append, hfind]
  cases hq : st.getPreference userId with
  | some q =>
      have huser : q.userId = userId := userId_of_getPreference hq
      show some (g q) = _
      simp only [hg, huser]
      split <;> rfl
  | none =>
      have hnot : userId ∉ st.preferences.values.map (·.userId) := by
        intro hmem
        obtain ⟨q, hqmem, huser⟩ := List.mem_map.mp hmem
        exact List.find?_eq_none.mp hq q hqmem (by simpa using huser)
      by_cases huser : userId = p.userId
      · rw [if_pos huser, if_neg (huser ▸ hnot)]
        simp [huser]
      · rw [if_neg huser]
        have hne : p.userId ≠ userId := Ne.symm huser
        split <;> simp [hne]

/-- **An accepted update** puts the saved row in force and drops the feed of its user. -/
theorem createOrUpdatePreference_eq_some {a : Arguments}
    (h : createOrUpdatePreference U db st userId a = some st') :
    (∀ userId', st'.getPreference userId' =
      if userId' = userId then some (savedPreference U db st userId a)
      else st.getPreference userId') ∧
    st'.feed = st.feed.delete fun _ row => row.userId = userId := by
  unfold createOrUpdatePreference at h
  simp only at h
  split at h
  · obtain rfl := Option.some.inj h
    refine ⟨?_, rfl⟩
    intro userId'
    have hput := getPreference_put st (savedPreference U db st userId a) userId'
    rw [userId_savedPreference] at hput
    exact hput
  · cases h

/-- **An accepted change of language** keeps every feed and the lists of every user. -/
theorem updatePlatformLanguage_eq_some {language : String}
    (h : updatePlatformLanguage U st userId language = some st') :
    (∀ userId', st'.getPreference userId' =
      if userId' = userId then some (languagePreference U st userId language)
      else st.getPreference userId') ∧ st'.feed = st.feed := by
  unfold updatePlatformLanguage at h
  simp only at h
  split at h
  · obtain rfl := Option.some.inj h
    refine ⟨?_, rfl⟩
    intro userId'
    have hput := getPreference_put st (languagePreference U st userId language) userId'
    rw [userId_languagePreference] at hput
    exact hput
  · cases h

end ProcureSignal.Personalization.PreferenceManager
