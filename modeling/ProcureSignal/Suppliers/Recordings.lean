/-
# One mention for each article and name

`record_mentions` of `suppliers/mentions.py`, called again and again for one article, with whatever
else changes the database in between.  Within a call the names are told apart by their normal form,
against the stored rows by their spelling.

* `OneMention` : each name that was passed has one mention, and no name has two;
* `Spells` : the condition on a call and the mentions that it meets;
* `oneMention_iff` : **the mentions stay one for each name** exactly when every call spells them so;
* `respelled_twice` : a name in another letter case.
-/
import ProcureSignal.Suppliers.Fixpoint
import ProcureSignal.Suppliers.Progress

namespace ProcureSignal.Suppliers

/-! ## Calls for one article -/

/-- What happens to the database: a call for the article, or anything else. -/
inductive Recording
  | record (surfaceForms : List String)
  | elsewhere (db' : Database)

variable (U : Unicode) (articleId : ℕ)

/-- A call for the article, committed or rolled back; and any change by others that leaves the
spellings recorded against the article as they are. -/
def recordingStep (db : Database) : Recording → Option Database
  | .record forms => some (committed db ((recordMentions U db articleId forms).map (·.1)))
  | .elsewhere db' =>
      if alreadyRecorded db' articleId = alreadyRecorded db articleId then some db' else none

/-- The names that were passed. -/
def passedNames (tr : List (Database × Recording)) : List String :=
  tr.flatMap fun x =>
    match x.2 with
    | .record forms => forms
    | .elsewhere _ => []

/-- The number of mentions of the article whose spelling has the normal form. -/
def mentionCount (db : Database) (key : String) : ℕ :=
  ((alreadyRecorded db articleId).map (normalize U)).count key

/-- No name has two mentions, and every name that was passed has one. -/
structure OneMention (tr : List (Database × Recording)) (db : Database) : Prop where
  atMostOne : ∀ key, mentionCount U articleId db key ≤ 1
  passed : ∀ name ∈ passedNames tr, normalize U name ≠ "" →
    mentionCount U articleId db (normalize U name) = 1

/-- The call spells names as they are recorded: every spelling that it adds fits its column and is
of a name without a mention; or it is rejected, for a spelling that does not fit, and every name
that it passes has a mention already. -/
def Spells (db : Database) : Recording → Prop
  | .record forms =>
      ((∀ f ∈ newSurfaceForms U db articleId forms, f.length ≤ 300) ∧
        ∀ f ∈ newSurfaceForms U db articleId forms, ∀ g ∈ alreadyRecorded db articleId,
          normalize U g ≠ normalize U f) ∨
      (∃ f ∈ newSurfaceForms U db articleId forms, 300 < f.length) ∧
        ∀ f ∈ distinctSurfaceForms U forms, ∃ g ∈ alreadyRecorded db articleId,
          normalize U g = normalize U f
  | .elsewhere _ => True

/-! ## One call -/

section Call

variable {U articleId} {db db' : Database} {forms : List String}

/-- The mentions of resolved spellings are for the article and have these spellings. -/
theorem surfaceForm_mentions (articleId : ℕ) {resolution : String → Resolution}
    (h : ∀ f, (resolution f).surfaceForm = f) (forms : List String) :
    ((forms.map fun f => mentionOf articleId (resolution f)).filter fun m =>
      m.processedArticleId = articleId).map (·.surfaceForm) = forms := by
  induction forms with
  | nil => rfl
  | cons f forms ih =>
      have harticle : (mentionOf articleId (resolution f)).processedArticleId = articleId := rfl
      rw [List.map_cons, List.filter_cons, if_pos (decide_eq_true harticle), List.map_cons, ih]
      exact congrArg (· :: forms) (h f)

/-- The spellings recorded by a call that is accepted, and by one that is not. -/
theorem alreadyRecorded_record (h : recordingStep U articleId db (.record forms) = some db') :
    (∀ f ∈ newSurfaceForms U db articleId forms, f.length ≤ 300) ∧
        alreadyRecorded db' articleId =
          alreadyRecorded db articleId ++ newSurfaceForms U db articleId forms ∨
      (∃ f ∈ newSurfaceForms U db articleId forms, 300 < f.length) ∧
        alreadyRecorded db' articleId = alreadyRecorded db articleId := by
  rw [recordingStep, Option.some.injEq] at h
  subst h
  by_cases hfits : ∀ f ∈ newSurfaceForms U db articleId forms, f.length ≤ 300
  · left
    obtain ⟨db', resolutions, hok⟩ := exists_recordMentions U hfits
    obtain ⟨mentions, rfl, hvalues, -⟩ := recordMentions_eq_ok U hok
    refine ⟨hfits, ?_⟩
    rw [hok]
    show ((mentions.values.filter fun m => m.processedArticleId = articleId).map
      (·.surfaceForm)) = _
    have hnew := surfaceForm_mentions articleId (surfaceForm_resolutionOf U db)
      (newSurfaceForms U db articleId forms)
    change ((newMentions U db articleId forms).filter _).map _ = _ at hnew
    rw [hvalues, List.filter_append, List.map_append, hnew]
    rfl
  · right
    push Not at hfits
    refine ⟨hfits, ?_⟩
    obtain ⟨f, hf, hlong⟩ := hfits
    cases hresult : recordMentions U db articleId forms with
    | error e => rfl
    | ok result =>
        obtain ⟨-, -, -, hshort⟩ := recordMentions_eq_ok U hresult
        exact absurd (hshort f hf) (by omega)

theorem mentionCount_eq_one_of_mem (hone : ∀ key, mentionCount U articleId db key ≤ 1) {f : String}
    (h : f ∈ alreadyRecorded db articleId) : mentionCount U articleId db (normalize U f) = 1 := by
  have hpos := List.count_pos_iff.mpr (List.mem_map_of_mem (f := normalize U) h)
  have hle := hone (normalize U f)
  unfold mentionCount at hle ⊢
  omega

theorem exists_of_mentionCount {key : String} (h : mentionCount U articleId db key = 1) :
    ∃ g ∈ alreadyRecorded db articleId, normalize U g = key := by
  have hmem : key ∈ (alreadyRecorded db articleId).map (normalize U) := by
    rw [← List.count_pos_iff]
    unfold mentionCount at h
    omega
  exact List.mem_map.mp hmem

/-- Every name of a call with a normal form has a spelling of that form among those kept. -/
theorem exists_kept (hstrip : U.StripLaws) {name : String} (h : name ∈ forms)
    (hne : normalize U name ≠ "") :
    ∃ f ∈ distinctSurfaceForms U forms, normalize U f = normalize U name := by
  rw [← normalize_strip U hstrip] at hne ⊢
  exact exists_distinctSurfaceForms U h hne

/-- A kept spelling is a name of the call without the white space around it. -/
theorem exists_name_of_kept {f : String} (h : f ∈ distinctSurfaceForms U forms) :
    ∃ name ∈ forms, U.strip name = f := by
  have hfrom : ∀ seen : List String, f ∈ distinctSurfaceFormsFrom U seen forms →
      ∃ name ∈ forms, U.strip name = f := by
    clear h
    induction forms with
    | nil => exact fun seen h => absurd h List.not_mem_nil
    | cons name forms ih =>
        intro seen h
        have hrest : ∀ seen, f ∈ distinctSurfaceFormsFrom U seen forms →
            ∃ other ∈ name :: forms, U.strip other = f := by
          intro seen h
          obtain ⟨other, hother, heq⟩ := ih seen h
          exact ⟨other, List.mem_cons_of_mem name hother, heq⟩
        rw [distinctSurfaceFormsFrom] at h
        split at h
        · exact hrest seen h
        · rcases List.mem_cons.mp h with rfl | h
          · exact ⟨name, List.mem_cons_self, rfl⟩
          · exact hrest _ h
  exact hfrom [] h

/-- An accepted call keeps one mention for each name exactly when what it adds is new. -/
theorem oneMention_append_iff (hstrip : U.StripLaws) {tr : List (Database × Recording)}
    (hone : OneMention U articleId tr db)
    (hrows : alreadyRecorded db' articleId =
      alreadyRecorded db articleId ++ newSurfaceForms U db articleId forms) :
    OneMention U articleId ((db, .record forms) :: tr) db' ↔
      ∀ f ∈ newSurfaceForms U db articleId forms, ∀ g ∈ alreadyRecorded db articleId,
        normalize U g ≠ normalize U f := by
  have hcount : ∀ key, mentionCount U articleId db' key = mentionCount U articleId db key +
      ((newSurfaceForms U db articleId forms).map (normalize U)).count key := by
    intro key
    rw [mentionCount, hrows, List.map_append, List.count_append]
    rfl
  have hnew : ((newSurfaceForms U db articleId forms).map (normalize U)).Nodup :=
    ((nodup_distinctSurfaceFormsFrom U [] forms).1).sublist (List.filter_sublist.map _)
  constructor
  · intro h f hf g hg heq
    have htwo := h.atMostOne (normalize U f)
    have hold := mentionCount_eq_one_of_mem hone.atMostOne hg
    have hpos := List.count_pos_iff.mpr (List.mem_map_of_mem (f := normalize U) hf)
    rw [hcount, ← heq, hold, heq] at htwo
    omega
  · intro h
    have hatMost : ∀ key, mentionCount U articleId db' key ≤ 1 := by
      intro key
      have hold := hone.atMostOne key
      have hadded := List.nodup_iff_count_le_one.mp hnew key
      rw [hcount]
      by_cases hmem : key ∈ (newSurfaceForms U db articleId forms).map (normalize U)
      · obtain ⟨f, hf, rfl⟩ := List.mem_map.mp hmem
        have hnone : mentionCount U articleId db (normalize U f) = 0 := by
          refine List.count_eq_zero.mpr fun hin => ?_
          obtain ⟨g, hg, heq⟩ := List.mem_map.mp hin
          exact h f hf g hg heq
        omega
      · rw [List.count_eq_zero.mpr hmem]
        omega
    refine ⟨hatMost, fun name hname hne => ?_⟩
    have hle := hatMost (normalize U name)
    rcases List.mem_append.mp (show name ∈ forms ++ passedNames tr from hname) with hname | hname
    · obtain ⟨f, hf, heq⟩ := exists_kept hstrip hname hne
      rw [← heq] at hle ⊢
      by_cases hrecorded : f ∈ alreadyRecorded db articleId
      · have hold := mentionCount_eq_one_of_mem hone.atMostOne hrecorded
        rw [hcount] at hle ⊢
        omega
      · have hadded : f ∈ newSurfaceForms U db articleId forms :=
          List.mem_filter.mpr ⟨hf, decide_eq_true hrecorded⟩
        have hpos := List.count_pos_iff.mpr (List.mem_map_of_mem (f := normalize U) hadded)
        rw [hcount] at hle ⊢
        omega
    · have hold := hone.passed name hname hne
      rw [hcount] at hle ⊢
      omega

/-- A rejected call keeps one mention for each name exactly when all its names have one. -/
theorem oneMention_rejected_iff (hstrip : U.StripLaws) {tr : List (Database × Recording)}
    (hone : OneMention U articleId tr db)
    (hrows : alreadyRecorded db' articleId = alreadyRecorded db articleId) :
    OneMention U articleId ((db, .record forms) :: tr) db' ↔
      ∀ f ∈ distinctSurfaceForms U forms, ∃ g ∈ alreadyRecorded db articleId,
        normalize U g = normalize U f := by
  have hcount : ∀ key, mentionCount U articleId db' key = mentionCount U articleId db key := by
    intro key
    rw [mentionCount, hrows]
    rfl
  constructor
  · intro h f hf
    obtain ⟨name, hname, rfl⟩ := exists_name_of_kept hf
    have hne := ((nodup_distinctSurfaceFormsFrom U [] forms).2 _ hf).1
    rw [normalize_strip U hstrip] at hne ⊢
    have hpassed := h.passed name (List.mem_append_left _ hname) hne
    rw [hcount] at hpassed
    exact exists_of_mentionCount hpassed
  · intro h
    refine ⟨fun key => by rw [hcount]; exact hone.atMostOne key, fun name hname hne => ?_⟩
    rw [hcount]
    rcases List.mem_append.mp (show name ∈ forms ++ passedNames tr from hname) with hname | hname
    · obtain ⟨f, hf, heq⟩ := exists_kept hstrip hname hne
      obtain ⟨g, hg, hsame⟩ := h f hf
      rw [← heq, ← hsame]
      exact mentionCount_eq_one_of_mem hone.atMostOne hg
    · exact hone.passed name hname hne

/-- **One step**: it keeps one mention for each name exactly when it spells them as recorded. -/
theorem oneMention_step_iff (hstrip : U.StripLaws) {tr : List (Database × Recording)}
    {action : Recording} (hone : OneMention U articleId tr db)
    (h : recordingStep U articleId db action = some db') :
    OneMention U articleId ((db, action) :: tr) db' ↔ Spells U articleId db action := by
  cases action with
  | record forms =>
      rcases alreadyRecorded_record h with ⟨hfits, hrows⟩ | ⟨hlong, hrows⟩
      · rw [oneMention_append_iff hstrip hone hrows]
        refine ⟨fun hnew => Or.inl ⟨hfits, hnew⟩, ?_⟩
        rintro (⟨-, hnew⟩ | ⟨⟨f, hf, hlong⟩, -⟩)
        · exact hnew
        · exact absurd (hfits f hf) (by omega)
      · rw [oneMention_rejected_iff hstrip hone hrows]
        refine ⟨fun hall => Or.inr ⟨hlong, hall⟩, ?_⟩
        rintro (⟨hfits, -⟩ | ⟨-, hall⟩)
        · obtain ⟨f, hf, hlong⟩ := hlong
          exact absurd (hfits f hf) (by omega)
        · exact hall
  | elsewhere db₁ =>
      rw [recordingStep] at h
      split at h
      · rename_i hsame
        obtain rfl := Option.some.inj h
        refine iff_of_true ⟨fun key => ?_, fun name hname hne => ?_⟩ trivial
        · rw [mentionCount, hsame]
          exact hone.atMostOne key
        · rw [mentionCount, hsame]
          exact hone.passed name hname hne
      · cases h

end Call

/-! ## A run of calls -/

/-- **When the mentions stay one for each name.**  From an article without mentions, throughout a
run of calls with any lists of names, each name that was passed has exactly one mention and no name
has two, exactly when every call spells the names as they are recorded when it comes. -/
theorem oneMention_iff {U : Unicode} (hstrip : U.StripLaws) {articleId : ℕ} {db₀ db : Database}
    (hstart : alreadyRecorded db₀ articleId = []) {tr : List (Database × Recording)}
    (h : Execution (recordingStep U articleId) unguarded db₀ tr db) :
    Execution.Throughout (OneMention U articleId) tr db ↔
      ∀ x ∈ tr, Spells U articleId x.1 x.2 := by
  refine h.throughout_iff ⟨fun key => ?_, fun name hname => absurd hname List.not_mem_nil⟩
    fun tr p action q _ hthrough hstep => oneMention_step_iff hstrip hthrough.last hstep
  rw [mentionCount, hstart]
  exact Nat.zero_le 1

/-! ## A name in another letter case -/

/-- The database after a call with one name. -/
def afterFirst (name : String) : Database :=
  committed Database.empty ((recordMentions .ascii Database.empty 1 [name]).map (·.1))

theorem execution_afterFirst (name : String) : Execution (recordingStep .ascii 1) unguarded
    Database.empty [(Database.empty, .record [name])] (afterFirst name) :=
  Execution.nil.snoc trivial rfl

theorem oneMention_iff_first :
    Execution.Throughout (OneMention .ascii 1) [(Database.empty, .record ["Siemens AG"])]
        (afterFirst "Siemens AG") ↔
      ∀ x ∈ [(Database.empty, Recording.record ["Siemens AG"])], Spells .ascii 1 x.1 x.2 :=
  oneMention_iff Unicode.ascii_stripLaws rfl (execution_afterFirst "Siemens AG")

/-- **Two mentions of one name.**  A later call spells the name in lower case. -/
theorem respelled_twice : ∃ tr db,
    Execution (recordingStep .ascii 1) unguarded Database.empty tr db ∧
      mentionCount .ascii 1 db "siemens ag" = 2 ∧ ¬ OneMention .ascii 1 tr db := by
  refine ⟨_, committed (afterFirst "Siemens AG")
    ((recordMentions .ascii (afterFirst "Siemens AG") 1 ["siemens ag"]).map (·.1)),
    (execution_afterFirst "Siemens AG").snoc (l := .record ["siemens ag"]) trivial rfl, ?_⟩
  have htwo : mentionCount .ascii 1 (committed (afterFirst "Siemens AG")
      ((recordMentions .ascii (afterFirst "Siemens AG") 1 ["siemens ag"]).map (·.1)))
      "siemens ag" = 2 := by
    decide +kernel
  refine ⟨htwo, fun h => ?_⟩
  have hle := h.atMostOne "siemens ag"
  rw [htwo] at hle
  exact absurd hle (by decide)

end ProcureSignal.Suppliers
