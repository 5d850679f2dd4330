/-
# The fixpoint of a backfill

What `backfill_supplier_identity` leaves, and that a second run leaves it alone.

* `backfilled_of_eq_ok` : what a run that returns has done;
* `Backfilled.settled` : after it nothing is left to do for the stored articles;
* `backfill_of_settled` : where nothing is left to do a run does nothing;
* `complete_iff` : **when a backfill is complete**.
-/
import ProcureSignal.Suppliers.Visits

namespace ProcureSignal.Suppliers

variable (U : Unicode)

/-! ## Names and identifiers -/

/-- One spelling is kept for each normal form of a list of names. -/
theorem exists_distinctSurfaceForms {forms : List String} {form : String} (hform : form ∈ forms)
    (hne : normalize U (U.strip form) ≠ "") :
    ∃ text ∈ distinctSurfaceForms U forms, normalize U text = normalize U (U.strip form) := by
  have hfrom : ∀ seen : List String, normalize U (U.strip form) ∉ seen →
      ∃ text ∈ distinctSurfaceFormsFrom U seen forms,
        normalize U text = normalize U (U.strip form) := by
    induction forms with
    | nil => cases hform
    | cons first forms ih =>
        intro seen hseen
        simp only [distinctSurfaceFormsFrom]
        rcases List.mem_cons.mp hform with rfl | hform
        · rw [if_neg fun h => h.elim hne hseen]
          exact ⟨_, List.mem_cons_self, rfl⟩
        · split_ifs with hskip
          · exact ih hform seen hseen
          · by_cases hsame : normalize U (U.strip form) = normalize U (U.strip first)
            · exact ⟨_, List.mem_cons_self, hsame.symm⟩
            · obtain ⟨text, htext, heq⟩ := ih hform (normalize U (U.strip first) :: seen)
                fun hin => (List.mem_cons.mp hin).elim hsame hseen
              exact ⟨text, List.mem_cons_of_mem _ htext, heq⟩
  exact hfrom [] List.not_mem_nil

/-- Every registered supplier has a public identifier; the registry draws a `uuid4().hex`. -/
def Identified (db : Database) : Prop := ∀ s ∈ db.suppliers.values, s.publicId ≠ ""

/-- The public identifiers that names resolve to. -/
def publicIdsOf (db : Database) (names : List String) : Set String :=
  {x | ∃ name ∈ names, (resolutionOf U db name).publicId = some x}

/-- A list is a set in increasing order. -/
structure IsSortedSet (l : List String) (s : Set String) : Prop where
  sorted : l.Pairwise (· < ·)
  mem_iff : ∀ x, x ∈ l ↔ x ∈ s

/-- A resolved name carries an identifier. -/
theorem publicId_ne_empty {db : Database} (hids : Identified db) {form x : String}
    (h : (resolutionOf U db form).publicId = some x) : x ≠ "" := by
  by_cases hempty : normalize U form = ""
  · rw [resolutionOf, if_pos hempty] at h
    cases h
  · cases hans : answering db (normalize U form) with
    | none =>
        rw [resolutionOf, if_neg hempty, hans] at h
        cases h
    | some r =>
        obtain ⟨i, s⟩ := r
        rw [publicId_resolutionOf U hempty hans] at h
        obtain rfl : s.publicId = x := Option.some.inj h
        obtain ⟨hfind, -, -⟩ := answering_eq_some hans
        exact hids s (Table.mem_values.mpr ⟨i, Table.find?_eq_some_iff.mp hfind⟩)

/-- The identifiers of names are resolved to a sorted set, without an empty one. -/
theorem isSortedSet_resolvedPublicIds_diff (db : Database) (names : List String) :
    IsSortedSet (resolvedPublicIds U db names) (publicIdsOf U db names \ {""}) where
  sorted := by
    have hle := List.pairwise_insertionSort (· ≤ ·)
      (((resolveMany U db names).filterMap (·.publicId)).filter (· ≠ "")).dedup
    have hnodup : (resolvedPublicIds U db names).Nodup :=
      (List.perm_insertionSort _ _).nodup_iff.mpr (List.nodup_dedup _)
    exact hle.imp₂ (fun _ _ hab hne => lt_of_le_of_ne hab hne) hnodup
  mem_iff := by
    intro x
    rw [resolvedPublicIds, (List.perm_insertionSort _ _).mem_iff, List.mem_dedup, List.mem_filter,
      resolveMany_eq_map, List.filterMap_map, List.mem_filterMap, decide_eq_true_eq]
    rfl

/-- **What a backfill writes to a list of identifiers.** -/
theorem isSortedSet_resolvedPublicIds {db : Database} (hids : Identified db)
    (names : List String) :
    IsSortedSet (resolvedPublicIds U db names) (publicIdsOf U db names) := by
  have hempty : publicIdsOf U db names \ {""} = publicIdsOf U db names := by
    refine Set.sdiff_singleton_eq_self fun hmem => ?_
    obtain ⟨name, -, hname⟩ := hmem
    exact publicId_ne_empty U hids hname rfl
  exact hempty ▸ isSortedSet_resolvedPublicIds_diff U db names

/-! ## What a run leaves -/

/-- What a run that returns has done. -/
structure Backfilled (db db' : Database) : Prop where
  processed : db'.processed = db.processed
  suppliers : db'.suppliers = db.suppliers
  aliases : db'.aliases = db.aliases
  fits : ∀ a ∈ db.processed.rows, Fits U db a
  mentions : ∀ i, mentionsOf db' i = if i ∈ db.processed.rows.map (·.1) then
      (mentionsOf db i ++ gain U db db.processed.rows i).map (retried U db)
    else mentionsOf db i
  preferences : db'.preferences.values =
    db.preferences.values.map (backfilledPreference U db)
  riskEvents : db'.riskEvents.values = db.riskEvents.values.map (backfilledRiskEvent U db)

/-- What a backfill writes depends on what names resolve to. -/
theorem resolvedPublicIds_congr {db db' : Database}
    (h : resolutionOf U db' = resolutionOf U db) :
    resolvedPublicIds U db' = resolvedPublicIds U db := by
  funext names
  simp only [resolvedPublicIds, resolveMany_eq_map, h]

theorem backfilledPreference_congr {db db' : Database}
    (h : resolutionOf U db' = resolutionOf U db) :
    backfilledPreference U db' = backfilledPreference U db := by
  funext p
  simp only [backfilledPreference, resolvedPublicIds_congr U h]

theorem backfilledRiskEvent_congr {db db' : Database}
    (h : resolutionOf U db' = resolutionOf U db) :
    backfilledRiskEvent U db' = backfilledRiskEvent U db := by
  funext e
  simp only [backfilledRiskEvent, resolvedPublicIds_congr U h]

/-- The pages of a run, in one list, are the stored articles. -/
theorem flatten_pages_rows (db : Database) {batchSize : ℕ} (hb : 0 < batchSize) :
    (pages db.processed.rows batchSize (db.processed.rows.length + 1) 0).flatten =
      db.processed.rows := by
  rw [flatten_pages hb (by omega), List.drop_zero]

/-- **A run that returns.** -/
theorem backfilled_of_eq_ok {db db' : Database} {batchSize : ℕ} (hb : 0 < batchSize)
    {summary : BackfillSummary}
    (h : backfillSupplierIdentity U db batchSize = (db', .ok summary)) :
    Backfilled U db db' ∧ summary.articlesScanned = db.processed.rows.length := by
  unfold backfillSupplierIdentity at h
  split at h
  · cases h
  · rename_i db₁ summary₁ hloop
    simp only [Prod.mk.injEq, Except.ok.injEq] at h
    obtain ⟨rfl, rfl⟩ := h
    rw [backfillMentions, backfillMentionsLoop_eq] at hloop
    have hrows := flatten_pages_rows db hb
    obtain ⟨hvisited, hscan, -, -⟩ := foldl_visitPage_eq_ok U
      (by rw [hrows]; exact db.processed.nodup_keys) hloop
    rw [hrows] at hvisited hscan
    have hres := hvisited.same.resolutionOf_eq U
    refine ⟨⟨hvisited.same.processed, hvisited.same.suppliers, hvisited.same.aliases,
      hvisited.fits, hvisited.mentions, ?_, ?_⟩, hscan.trans (Nat.zero_add _)⟩
    · show (db₁.preferences.modify fun _ p => backfilledPreference U db₁ p).values = _
      rw [Table.values_modify, hvisited.same.preferences, backfilledPreference_congr U hres]
    · have hevents : ∀ db₂ : Database, resolutionOf U db₂ = resolutionOf U db →
          (db₁.riskEvents.modify fun _ e => backfilledRiskEvent U db₂ e).values =
            db.riskEvents.values.map (backfilledRiskEvent U db) := by
        intro db₂ h₂
        rw [Table.values_modify, hvisited.same.riskEvents, backfilledRiskEvent_congr U h₂]
      exact hevents _ ((resolutionOf_congr U rfl rfl).trans hres)

/-- A run whose names fit returns. -/
theorem exists_backfill {db : Database} {batchSize : ℕ} (hb : 0 < batchSize)
    (hfits : ∀ a ∈ db.processed.rows, Fits U db a) :
    ∃ db' summary, backfillSupplierIdentity U db batchSize = (db', .ok summary) := by
  have hrows := flatten_pages_rows db hb
  obtain ⟨db₁, summary₁, hloop⟩ := exists_foldl_visitPage U
    (by rw [hrows]; exact db.processed.nodup_keys) ⟨0, 0, 0, 0, 0, 0⟩
    (by rw [hrows]; exact hfits)
  rw [← backfillMentionsLoop_eq] at hloop
  simp only [backfillSupplierIdentity, backfillMentions, hloop]
  exact ⟨_, _, rfl⟩

/-! ## The fixpoint -/

/-- Nothing is left to do for the stored articles, the preferences and the events. -/
structure Settled (db : Database) : Prop where
  recorded : ∀ a ∈ db.processed.rows, newSurfaceForms U db a.1 (detected a) = []
  rescued : ∀ m ∈ db.mentions.values, m.processedArticleId ∈ db.processed.rows.map (·.1) →
    m.supplierId = none → (resolutionOf U db m.surfaceForm).supplierId = none
  preferences : ∀ p ∈ db.preferences.values, backfilledPreference U db p = p
  riskEvents : ∀ e ∈ db.riskEvents.values, backfilledRiskEvent U db e = e

variable {U}

/-- Names resolve after a run as before it. -/
theorem Backfilled.resolutionOf_eq {db db' : Database} (h : Backfilled U db db') :
    resolutionOf U db' = resolutionOf U db :=
  resolutionOf_congr U h.suppliers h.aliases

/-- The spellings recorded against an article after a run. -/
theorem Backfilled.alreadyRecorded_eq {db db' : Database} (h : Backfilled U db db')
    {a : ℕ × NewsArticleProcessed} (ha : a ∈ db.processed.rows) :
    alreadyRecorded db' a.1 =
      alreadyRecorded db a.1 ++ newSurfaceForms U db a.1 (detected a) := by
  have hform : (fun m : ArticleSupplierMention => m.surfaceForm) ∘ retried U db =
      fun m => m.surfaceForm := funext fun m => surfaceForm_retried U db m
  have hnew : (newMentions U db a.1 (detected a)).map (·.surfaceForm) =
      newSurfaceForms U db a.1 (detected a) := by
    have hcomp : (fun m : ArticleSupplierMention => m.surfaceForm) ∘
        (fun f => mentionOf a.1 (resolutionOf U db f)) = id := by
      funext f
      simp only [Function.comp_apply, mentionOf, surfaceForm_resolutionOf, id]
    rw [newMentions, List.map_map, hcomp, List.map_id]
  rw [Suppliers.alreadyRecorded_eq, Suppliers.alreadyRecorded_eq, h.mentions,
    if_pos (List.mem_map_of_mem ha), gain_of_mem U db.processed.nodup_keys ha, List.map_map,
    hform, List.map_append, hnew]

/-- **A run leaves nothing to do** for the stored articles. -/
theorem Backfilled.settled {db db' : Database} (h : Backfilled U db db') : Settled U db' where
  recorded := by
    intro a ha
    rw [h.processed] at ha
    refine List.filter_eq_nil_iff.mpr fun f hf => ?_
    rw [decide_eq_true_eq, not_not, h.alreadyRecorded_eq ha, List.mem_append]
    by_cases hold : f ∈ alreadyRecorded db a.1
    · exact Or.inl hold
    · exact Or.inr (List.mem_filter.mpr ⟨hf, decide_eq_true hold⟩)
  rescued := by
    intro m hm harticle hnone
    rw [h.processed] at harticle
    have hmem : m ∈ mentionsOf db' m.processedArticleId := mem_mentionsOf.mpr ⟨hm, rfl⟩
    rw [h.mentions, if_pos harticle] at hmem
    obtain ⟨m₀, -, rfl⟩ := List.mem_map.mp hmem
    rw [h.resolutionOf_eq, surfaceForm_retried]
    exact supplierId_retried_eq_none U hnone
  preferences := by
    intro p hp
    rw [h.preferences] at hp
    obtain ⟨p₀, -, rfl⟩ := List.mem_map.mp hp
    rw [backfilledPreference_congr U h.resolutionOf_eq]
    rfl
  riskEvents := by
    intro e he
    rw [h.riskEvents] at he
    obtain ⟨e₀, -, rfl⟩ := List.mem_map.mp he
    rw [backfilledRiskEvent_congr U h.resolutionOf_eq]
    rfl

variable (U)

/-- Recording names that are all recorded changes nothing. -/
theorem recordMentions_of_recorded {db : Database} {articleId : ℕ} {forms : List String}
    (h : newSurfaceForms U db articleId forms = []) :
    ∃ resolutions, recordMentions U db articleId forms = .ok (db, resolutions) := by
  unfold recordMentions
  simp only
  split_ifs with hnil
  · exact ⟨_, rfl⟩
  · rw [filter_resolveMany, newMentions, h]
    exact ⟨_, rfl⟩

/-- Nothing is recorded from articles whose names are all recorded. -/
theorem recordBatch_of_settled {db : Database} (h : Settled U db)
    {page : List (ℕ × NewsArticleProcessed)} (hpage : ∀ a ∈ page, a ∈ db.processed.rows) :
    recordBatch U db page = .ok db := by
  unfold recordBatch
  induction page with
  | nil => rfl
  | cons a page ih =>
      obtain ⟨ha, hrest⟩ := List.forall_mem_cons.mp hpage
      obtain ⟨resolutions, hrec⟩ := recordMentions_of_recorded U (h.recorded a ha)
      rw [List.foldlM_cons]
      show (recordMentions U db a.1 (detected a)).map (·.1) >>= _ = _
      rw [hrec]
      exact ih hrest

/-- A retry of mentions none of which resolves changes nothing. -/
theorem retryUnresolved_of_settled {db : Database} (h : Settled U db) {articleIds : List ℕ}
    (hids : ∀ i ∈ articleIds, i ∈ db.processed.rows.map (·.1)) :
    retryUnresolved U db articleIds = db := by
  have hkeep : ∀ r ∈ db.mentions.rows,
      (if r.2.processedArticleId ∈ articleIds then retried U db r.2 else r.2) = r.2 := by
    intro r hr
    split_ifs with harticle
    · cases hsupplier : r.2.supplierId with
      | some i =>
          refine retried_of_isSome U ?_
          rw [hsupplier]
          rfl
      | none =>
          exact retried_of_none U
            (h.rescued r.2 (List.mem_map_of_mem hr) (hids _ harticle) hsupplier)
    · rfl
  have hrows : ∀ r ∈ db.mentions.rows, _ = r.2 := fun r hr =>
    (applyRetry_of_mem U articleIds (i := r.1) (m := r.2) hr rfl).trans (hkeep r hr)
  unfold retryUnresolved
  simp only
  split
  · rfl
  · rw [UniqueTable.modify_eq_self _ hrows]

/-- Visiting settled pages changes nothing and creates no mention. -/
theorem foldl_visitPage_of_settled {db : Database} (h : Settled U db)
    {ps : List (List (ℕ × NewsArticleProcessed))}
    (hps : ∀ a ∈ ps.flatten, a ∈ db.processed.rows) (summary : BackfillSummary) :
    ∃ summary', ps.foldl (visitPage U) (db, .ok summary) = (db, .ok summary') ∧
      summary'.mentionsCreated = summary.mentionsCreated ∧
      summary'.preferencesUpdated = summary.preferencesUpdated ∧
      summary'.riskEventsUpdated = summary.riskEventsUpdated := by
  induction ps generalizing summary with
  | nil => exact ⟨summary, rfl, rfl, rfl, rfl⟩
  | cons page ps ih =>
      rw [List.flatten_cons, List.forall_mem_append] at hps
      obtain ⟨hpage, hrest⟩ := hps
      have hids : ∀ i ∈ page.map (·.1), i ∈ db.processed.rows.map (·.1) := by
        intro i hi
        obtain ⟨a, ha, rfl⟩ := List.mem_map.mp hi
        exact List.mem_map_of_mem (hpage a ha)
      rw [List.foldl_cons]
      simp only [visitPage, recordBatch_of_settled U h hpage,
        retryUnresolved_of_settled U h hids, Nat.sub_self, Nat.add_zero]
      exact ih hrest _

/-- **A run where nothing is left to do** changes no row and counts nothing. -/
theorem backfill_of_settled {db : Database} (h : Settled U db) {batchSize : ℕ}
    (hb : 0 < batchSize) :
    ∃ summary, backfillSupplierIdentity U db batchSize = (db, .ok summary) ∧
      summary.mentionsCreated = 0 ∧ summary.preferencesUpdated = 0 ∧
      summary.riskEventsUpdated = 0 := by
  have hrows := flatten_pages_rows db hb
  obtain ⟨summary₁, hloop, hcreated, hpref, hevent⟩ := foldl_visitPage_of_settled U h
    (fun a ha => hrows ▸ ha) ⟨0, 0, 0, 0, 0, 0⟩
  rw [← backfillMentionsLoop_eq] at hloop
  have hprefs : (db.preferences.modify fun _ p => backfilledPreference U db p) =
      db.preferences :=
    Table.modify_eq_self fun r hr => h.preferences r.2 (List.mem_map_of_mem hr)
  have hevents : (db.riskEvents.modify fun _ e => backfilledRiskEvent U db e) =
      db.riskEvents :=
    Table.modify_eq_self fun r hr => h.riskEvents r.2 (List.mem_map_of_mem hr)
  have hprefCount : db.preferences.values.countP (fun p => backfilledPreference U db p ≠ p) = 0 :=
    List.countP_eq_zero.mpr fun p hp => by simp [h.preferences p hp]
  have heventCount : db.riskEvents.values.countP (fun e => backfilledRiskEvent U db e ≠ e) = 0 :=
    List.countP_eq_zero.mpr fun e he => by simp [h.riskEvents e he]
  simp only [backfillSupplierIdentity, backfillMentions, hloop, backfillPreferences,
    backfillRiskEvents, hprefs, hevents, hprefCount, heventCount]
  exact ⟨_, rfl, hcreated, hpref, hevent⟩

/-! ## When a backfill is complete -/

/-- What a backfill is for: every article visited once, every name of an article mentioned,
nothing left unresolved that resolves, the identifiers of preferences and events up to date, and
nothing for a second run to do. -/
structure Complete (db : Database) (batchSize : ℕ) (db' : Database)
    (summary : BackfillSummary) : Prop where
  visits : backfillMentions U db batchSize ⟨0, 0, 0, 0, 0, 0⟩ =
    (pages db.processed.rows batchSize (db.processed.rows.length + 1) 0).foldl (visitPage U)
      (db, .ok ⟨0, 0, 0, 0, 0, 0⟩)
  once : (pages db.processed.rows batchSize (db.processed.rows.length + 1) 0).flatten =
      db.processed.rows ∧ (db.processed.rows.map (·.1)).Nodup
  scanned : summary.articlesScanned = db.processed.rows.length
  mentioned : ∀ a ∈ db.processed.rows, ∀ name ∈ detected a, normalize U name ≠ "" →
    ∃ m ∈ db'.mentions.values,
      m.processedArticleId = a.1 ∧ normalize U m.surfaceForm = normalize U name
  rescued : ∀ m ∈ db'.mentions.values, m.supplierId = none →
    (resolutionOf U db' m.surfaceForm).supplierId = none
  preferences : ∀ p ∈ db'.preferences.values,
    IsSortedSet p.preferredSupplierIds (publicIdsOf U db' p.preferredSuppliers) ∧
      IsSortedSet p.excludedSupplierIds (publicIdsOf U db' p.excludedSuppliers)
  riskEvents : ∀ e ∈ db'.riskEvents.values,
    IsSortedSet e.affectedSupplierIds (publicIdsOf U db' e.affectedSuppliers)
  again : ∀ batchSize', 0 < batchSize' →
    ∃ summary', backfillSupplierIdentity U db' batchSize' = (db', .ok summary') ∧
      summary'.mentionsCreated = 0 ∧ summary'.preferencesUpdated = 0 ∧
      summary'.riskEventsUpdated = 0

variable {U}

/-- An article whose names are all recorded has a mention for each. -/
theorem exists_mention_of_recorded (hstrip : U.StripLaws) {db : Database}
    {a : ℕ × NewsArticleProcessed} (h : newSurfaceForms U db a.1 (detected a) = [])
    {name : String} (hname : name ∈ detected a) (hne : normalize U name ≠ "") :
    ∃ m ∈ db.mentions.values,
      m.processedArticleId = a.1 ∧ normalize U m.surfaceForm = normalize U name := by
  obtain ⟨text, htext, heq⟩ := exists_distinctSurfaceForms U hname
    (by rwa [normalize_strip U hstrip])
  have hrecorded : text ∈ alreadyRecorded db a.1 := by
    have hnot := List.filter_eq_nil_iff.mp h text htext
    rwa [decide_eq_true_eq, not_not] at hnot
  rw [alreadyRecorded_eq] at hrecorded
  obtain ⟨m, hm, rfl⟩ := List.mem_map.mp hrecorded
  obtain ⟨hm, harticle⟩ := mem_mentionsOf.mp hm
  exact ⟨m, hm, harticle, heq.trans (normalize_strip U hstrip name)⟩

/-- Mentions of articles that are gone are as they were. -/
theorem Backfilled.mem_mentions_of_gone {db db' : Database} (h : Backfilled U db db')
    {m : ArticleSupplierMention} (hgone : m.processedArticleId ∉ db.processed.rows.map (·.1)) :
    m ∈ db'.mentions.values ↔ m ∈ db.mentions.values := by
  have heq := h.mentions m.processedArticleId
  rw [if_neg hgone] at heq
  have hmem : m ∈ mentionsOf db' m.processedArticleId ↔
      m ∈ mentionsOf db m.processedArticleId := by
    rw [heq]
  rwa [mem_mentionsOf, mem_mentionsOf, and_iff_left rfl, and_iff_left rfl] at hmem

/-- **When a backfill is complete**: the new spellings of every article fit their column, and no
mention of an article that is gone waits for a name that resolves. -/
theorem complete_iff (hstrip : U.StripLaws) {db : Database} (hids : Identified db)
    {batchSize : ℕ} (hb : 0 < batchSize) :
    (∃ db' summary, backfillSupplierIdentity U db batchSize = (db', .ok summary) ∧
      Complete U db batchSize db' summary) ↔
      (∀ a ∈ db.processed.rows, Fits U db a) ∧
        ∀ m ∈ db.mentions.values, m.processedArticleId ∉ db.processed.rows.map (·.1) →
          m.supplierId = none → (resolutionOf U db m.surfaceForm).supplierId = none := by
  constructor
  · rintro ⟨db', summary, hrun, hcomplete⟩
    obtain ⟨hdone, -⟩ := backfilled_of_eq_ok U hb hrun
    refine ⟨hdone.fits, fun m hm hgone hnone => ?_⟩
    rw [← hdone.resolutionOf_eq]
    exact hcomplete.rescued m ((hdone.mem_mentions_of_gone hgone).mpr hm) hnone
  · rintro ⟨hfits, hgone⟩
    obtain ⟨db', summary, hrun⟩ := exists_backfill U hb hfits
    obtain ⟨hdone, hscan⟩ := backfilled_of_eq_ok U hb hrun
    have hsettled := hdone.settled
    have hids' : Identified db' := by
      rw [Identified, hdone.suppliers]
      exact hids
    refine ⟨db', summary, hrun, backfillMentionsLoop_eq U batchSize _ 0 db _,
      ⟨flatten_pages_rows db hb, db.processed.nodup_keys⟩, hscan, ?_, ?_, ?_, ?_, ?_⟩
    · intro a ha name hname hne
      exact exists_mention_of_recorded hstrip
        (hsettled.recorded a (by rwa [hdone.processed])) hname hne
    · intro m hm hnone
      by_cases harticle : m.processedArticleId ∈ db.processed.rows.map (·.1)
      · exact hsettled.rescued m hm (by rwa [hdone.processed]) hnone
      · rw [hdone.resolutionOf_eq]
        exact hgone m ((hdone.mem_mentions_of_gone harticle).mp hm) harticle hnone
    · intro p hp
      rw [← hsettled.preferences p hp]
      exact ⟨isSortedSet_resolvedPublicIds U hids' _, isSortedSet_resolvedPublicIds U hids' _⟩
    · intro e he
      rw [← hsettled.riskEvents e he]
      exact isSortedSet_resolvedPublicIds U hids' _
    · intro batchSize' hb'
      exact backfill_of_settled U hsettled hb'

/-- One stored article, a supplier registered after it was recorded, and the mention of an article
that carries no supplier yet. -/
def registeredLate (articleId : ℕ) : Database :=
  { Database.empty with
    processed := UniqueTable.empty.insertNew ⟨4, some ["ACME", " Nordwind "]⟩
    suppliers := UniqueTable.empty.insertNew ⟨"5f2b", "Acme", "acme", none, none, true⟩
    aliases := UniqueTable.empty.insertNew ⟨1, "Acme", "acme", .canonical⟩
    mentions := UniqueTable.empty.insertNew ⟨articleId, none, "Acme", 0⟩
    preferences := Table.empty.insert ⟨["Acme", "acme"], [], [], []⟩ }

/-- A backfill of the stored article is complete, whatever the size of its pages. -/
theorem complete_registeredLate : ∃ db' summary,
    backfillSupplierIdentity Unicode.ascii (registeredLate 1) 3 = (db', .ok summary) ∧
      Complete Unicode.ascii (registeredLate 1) 3 db' summary := by
  refine (complete_iff Unicode.ascii_stripLaws ?_ (by decide)).mpr ⟨?_, ?_⟩
  · unfold Identified
    decide +kernel
  · unfold Fits
    decide +kernel
  · decide +kernel

/-- **A mention nothing rescues**: article `2` was pruned, its mention stayed, and the alias that
was added since resolves its name. -/
theorem mention_stranded : Identified (registeredLate 2) ∧ ¬∃ db' summary,
    backfillSupplierIdentity Unicode.ascii (registeredLate 2) 500 = (db', .ok summary) ∧
      Complete Unicode.ascii (registeredLate 2) 500 db' summary := by
  have hgone : (2 : ℕ) ∉ (registeredLate 2).processed.rows.map (·.1) := by decide +kernel
  have hstored : (⟨2, none, "Acme", 0⟩ : ArticleSupplierMention) ∈
      (registeredLate 2).mentions.values := by decide +kernel
  have hresolves : (resolutionOf Unicode.ascii (registeredLate 2) "Acme").supplierId = some 1 := by
    decide +kernel
  refine ⟨by unfold Identified; decide +kernel, ?_⟩
  rintro ⟨db', summary, hrun, hcomplete⟩
  obtain ⟨hdone, -⟩ := backfilled_of_eq_ok Unicode.ascii (by decide) hrun
  have hnone := hcomplete.rescued _ ((hdone.mem_mentions_of_gone hgone).mpr hstored) rfl
  rw [hdone.resolutionOf_eq, hresolves] at hnone
  cases hnone

end ProcureSignal.Suppliers
