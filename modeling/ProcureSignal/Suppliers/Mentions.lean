/-
# Which suppliers an article names

`_distinct_surface_forms` and `record_mentions` of `suppliers/mentions.py`.
`recordMentions_eq_ok` gives the rows a call appends, `exists_recordMentions` when
the database accepts them: exactly when every new spelling fits its column.
-/
import ProcureSignal.Suppliers.Registry

namespace ProcureSignal.Suppliers

variable (U : Unicode)

/-! ## Distinct spellings -/

/-- The loop of `_distinct_surface_forms`; `seen` holds the normal forms met so far. -/
def distinctSurfaceFormsFrom (seen : List String) : List String → List String
  | [] => []
  | form :: forms =>
      let text := U.strip form
      let key := normalize U text
      if key = "" ∨ key ∈ seen then distinctSurfaceFormsFrom seen forms
      else text :: distinctSurfaceFormsFrom (key :: seen) forms

/-- `_distinct_surface_forms`: blanks dropped, one spelling for each normal form, in
the order given. -/
def distinctSurfaceForms (forms : List String) : List String :=
  distinctSurfaceFormsFrom U [] forms

/-- The normal forms kept are new, not empty and pairwise different. -/
theorem nodup_distinctSurfaceFormsFrom (seen forms : List String) :
    ((distinctSurfaceFormsFrom U seen forms).map (normalize U)).Nodup ∧
      ∀ text ∈ distinctSurfaceFormsFrom U seen forms,
        normalize U text ≠ "" ∧ normalize U text ∉ seen := by
  induction forms generalizing seen with
  | nil => simp [distinctSurfaceFormsFrom]
  | cons form forms ih =>
      simp only [distinctSurfaceFormsFrom]
      split
      · exact ih seen
      · rename_i hnew
        push Not at hnew
        obtain ⟨hnd, hmem⟩ := ih (normalize U (U.strip form) :: seen)
        refine ⟨?_, ?_⟩
        · rw [List.map_cons, List.nodup_cons]
          refine ⟨?_, hnd⟩
          intro hin
          obtain ⟨text, htext, heq⟩ := List.mem_map.mp hin
          refine (hmem text htext).2 ?_
          rw [heq]
          exact List.mem_cons_self
        · intro text htext
          rcases List.mem_cons.mp htext with rfl | htext
          · exact hnew
          · obtain ⟨h₁, h₂⟩ := hmem text htext
            exact ⟨h₁, fun h => h₂ (List.mem_cons_of_mem _ h)⟩

/-- No spelling is kept twice. -/
theorem nodup_distinctSurfaceForms (forms : List String) :
    (distinctSurfaceForms U forms).Nodup :=
  (nodup_distinctSurfaceFormsFrom U [] forms).1.of_map _

/-! ## Recording -/

/-- The width of `surface_form`. -/
def mentionFits (m : ArticleSupplierMention) : Bool := m.surfaceForm.length ≤ 300

/-- The row `record_mentions` adds for a resolution. -/
def mentionOf (processedArticleId : ℕ) (r : Resolution) : ArticleSupplierMention :=
  ⟨processedArticleId, r.supplierId, r.surfaceForm, r.confidence⟩

/-- The spellings already stored against an article. -/
def alreadyRecorded (db : Database) (processedArticleId : ℕ) : List String :=
  (db.mentions.values.filter fun m => m.processedArticleId = processedArticleId).map
    (·.surfaceForm)

/-- `record_mentions`: resolve the names an article used and store those not yet
recorded against it. -/
def recordMentions (db : Database) (processedArticleId : ℕ) (surfaceForms : List String) :
    Except ServiceError (Database × List Resolution) :=
  let cleaned := distinctSurfaceForms U surfaceForms
  if cleaned = [] then .ok (db, [])
  else
    let resolutions := resolveMany U db cleaned
    let recorded := alreadyRecorded db processedArticleId
    let rows := (resolutions.filter fun r => r.surfaceForm ∉ recorded).map
      (mentionOf processedArticleId)
    match insertRows db.mentions mentionFits rows with
    | .ok mentions => .ok ({ db with mentions := mentions }, resolutions)
    | .error e => .error e

/-- The spellings a call adds. -/
def newSurfaceForms (db : Database) (processedArticleId : ℕ) (surfaceForms : List String) :
    List String :=
  (distinctSurfaceForms U surfaceForms).filter fun f => f ∉ alreadyRecorded db processedArticleId

/-- The rows a call adds. -/
def newMentions (db : Database) (processedArticleId : ℕ) (surfaceForms : List String) :
    List ArticleSupplierMention :=
  (newSurfaceForms U db processedArticleId surfaceForms).map fun f =>
    mentionOf processedArticleId (resolutionOf U db f)

theorem filter_resolveMany (db : Database) (processedArticleId : ℕ) (surfaceForms : List String) :
    ((resolveMany U db (distinctSurfaceForms U surfaceForms)).filter fun r =>
        r.surfaceForm ∉ alreadyRecorded db processedArticleId).map (mentionOf processedArticleId)
      = newMentions U db processedArticleId surfaceForms := by
  have hfilter : (distinctSurfaceForms U surfaceForms).filter
        ((fun r : Resolution => decide (r.surfaceForm ∉ alreadyRecorded db processedArticleId)) ∘
          resolutionOf U db)
      = newSurfaceForms U db processedArticleId surfaceForms := by
    apply List.filter_congr
    intro f _hf
    simp only [Function.comp, surfaceForm_resolutionOf]
  rw [resolveMany_eq_map, List.filter_map, List.map_map, hfilter]
  rfl

/-- **What a call stores**: the rows for its new spellings, nothing else. -/
theorem recordMentions_eq_ok {db db' : Database} {articleId : ℕ} {forms : List String}
    {resolutions : List Resolution}
    (h : recordMentions U db articleId forms = .ok (db', resolutions)) :
    ∃ mentions, db' = { db with mentions := mentions } ∧
      mentions.values = db.mentions.values ++ newMentions U db articleId forms ∧
      ∀ f ∈ newSurfaceForms U db articleId forms, f.length ≤ 300 := by
  unfold recordMentions at h
  simp only at h
  split at h
  · rename_i hnil
    rw [Except.ok.injEq, Prod.mk.injEq] at h
    refine ⟨db.mentions, h.1.symm, ?_, ?_⟩
    · simp [newMentions, newSurfaceForms, hnil]
    · simp [newSurfaceForms, hnil]
  · split at h
    · rename_i mentions hins
      rw [Except.ok.injEq, Prod.mk.injEq] at h
      rw [filter_resolveMany] at hins
      obtain ⟨hall, hfits⟩ := insertRows_eq_ok hins
      refine ⟨mentions, h.1.symm, UniqueTable.values_of_insertAll? hall, ?_⟩
      intro f hf
      have := hfits _ (List.mem_map_of_mem hf)
      simpa [mentionFits, mentionOf] using this
    · cases h

/-- The database accepts a call when every new spelling fits its column. -/
theorem exists_recordMentions {db : Database} {articleId : ℕ} {forms : List String}
    (h : ∀ f ∈ newSurfaceForms U db articleId forms, f.length ≤ 300) :
    ∃ db' resolutions, recordMentions U db articleId forms = .ok (db', resolutions) := by
  unfold recordMentions
  simp only
  split
  · exact ⟨_, _, rfl⟩
  rw [filter_resolveMany]
  have hfits : ∀ m ∈ newMentions U db articleId forms, mentionFits m = true := by
    intro m hm
    obtain ⟨f, hf, rfl⟩ := List.mem_map.mp hm
    simpa [mentionFits, mentionOf] using h f hf
  have huniq : ∀ k ∈ [fun m : ArticleSupplierMention => some (m.processedArticleId, m.surfaceForm)],
      ((db.mentions.values ++ newMentions U db articleId forms).filterMap k).Nodup := by
    intro k hk
    rw [List.mem_singleton.mp hk, List.filterMap_append, List.nodup_append]
    refine ⟨db.mentions.unique _ (List.mem_singleton.mpr rfl), ?_, ?_⟩
    · rw [newMentions, List.filterMap_map]
      have hcomp : ((fun m : ArticleSupplierMention => some (m.processedArticleId, m.surfaceForm)) ∘
          fun f => mentionOf articleId (resolutionOf U db f)) = some ∘ fun f => (articleId, f) := by
        funext f
        simp [mentionOf]
      rw [hcomp, List.filterMap_eq_map]
      exact ((nodup_distinctSurfaceForms U forms).filter _).map (fun f g hfg => (Prod.mk.inj hfg).2)
    · intro x hx y hy hxy
      obtain ⟨m, hm, hmx⟩ := List.mem_filterMap.mp hx
      obtain ⟨m', hm', hmy⟩ := List.mem_filterMap.mp hy
      obtain ⟨f, hf, rfl⟩ := List.mem_map.mp hm'
      have hpair : (m.processedArticleId, m.surfaceForm) = (articleId, f) := by
        rw [Option.some.inj hmx, hxy, ← Option.some.inj hmy]
        simp [mentionOf]
      obtain ⟨hid, hform⟩ := Prod.mk.inj hpair
      have hnot := (List.mem_filter.mp hf).2
      have hrec : f ∈ alreadyRecorded db articleId :=
        List.mem_map.mpr ⟨m, List.mem_filter.mpr ⟨hm, by simpa using hid⟩, hform⟩
      simp [hrec] at hnot
  obtain ⟨mentions, hins⟩ := exists_insertRows hfits huniq
  rw [hins]
  exact ⟨_, _, rfl⟩

/-! ## Which articles carry a mention -/

/-- The processed articles with a recorded mention. -/
def alreadyScreened (db : Database) : List ℕ := db.mentions.values.map (·.processedArticleId)

/-- An article carries a mention after a call when it did before, or when the call was
about it with a usable name. -/
theorem mem_alreadyScreened_recordMentions {db db' : Database} {articleId : ℕ}
    {forms : List String} {resolutions : List Resolution}
    (h : recordMentions U db articleId forms = .ok (db', resolutions)) (i : ℕ) :
    i ∈ alreadyScreened db' ↔
      i ∈ alreadyScreened db ∨ (i = articleId ∧ distinctSurfaceForms U forms ≠ []) := by
  obtain ⟨mentions, rfl, hval, -⟩ := recordMentions_eq_ok U h
  have happ : alreadyScreened { db with mentions := mentions }
      = alreadyScreened db ++ (newMentions U db articleId forms).map (·.processedArticleId) := by
    show mentions.values.map (·.processedArticleId) = _
    rw [hval, List.map_append]
    rfl
  rw [happ, List.mem_append]
  constructor
  · rintro (hold | hnew)
    · exact Or.inl hold
    · obtain ⟨m, hm, rfl⟩ := List.mem_map.mp hnew
      obtain ⟨f, hf, rfl⟩ := List.mem_map.mp hm
      exact Or.inr ⟨rfl, List.ne_nil_of_mem (List.mem_filter.mp hf).1⟩
  · rintro (hold | ⟨rfl, hne⟩)
    · exact Or.inl hold
    · obtain ⟨f, hf⟩ := List.exists_mem_of_ne_nil _ hne
      by_cases hrec : f ∈ alreadyRecorded db i
      · obtain ⟨m, hm, -⟩ := List.mem_map.mp hrec
        obtain ⟨hm, hid⟩ := List.mem_filter.mp hm
        exact Or.inl (List.mem_map.mpr ⟨m, hm, by simpa using hid⟩)
      · refine Or.inr (List.mem_map.mpr ⟨mentionOf i (resolutionOf U db f), ?_, rfl⟩)
        exact List.mem_map_of_mem (List.mem_filter.mpr ⟨hf, by simpa using hrec⟩)

end ProcureSignal.Suppliers
