/-
# Screening sanctions designations against the registry

`screen_designation` and `screen_processed_articles` of `suppliers/screening.py`.

A screening run is one transaction: a rejected insert rolls all of it back
(`screenRun`).  `screenProcessedArticles_eq_ok` says what a run commits,
`exists_screenProcessedArticles` when it commits.
-/
import ProcureSignal.Suppliers.Mentions

namespace ProcureSignal.Suppliers

variable (U : Unicode)

/-! ## One designation -/

/-- `ScreeningHit`. -/
structure ScreeningHit where
  supplierId : ℕ
  publicId : String
  matchedName : String
  deriving DecidableEq, Repr

/-- `ScreeningResult`. -/
structure ScreeningResult where
  hits : List ScreeningHit
  unmatchedNames : List String
  deriving DecidableEq, Repr

/-- The loop of `screen_designation` over the resolutions; `seen` holds the suppliers
already reported. -/
def collectHits (seen : List ℕ) : List Resolution → ScreeningResult
  | [] => ⟨[], []⟩
  | r :: rs =>
      match r.supplierId, r.publicId with
      | some supplierId, some publicId =>
          if supplierId ∈ seen then collectHits seen rs
          else
            let rest := collectHits (supplierId :: seen) rs
            ⟨⟨supplierId, publicId, r.surfaceForm⟩ :: rest.hits, rest.unmatchedNames⟩
      | _, _ =>
          let rest := collectHits seen rs
          ⟨rest.hits, r.surfaceForm :: rest.unmatchedNames⟩

/-- `screen_designation`: resolve every name a designation carries. -/
def screenDesignation (db : Database) (primaryName : String) (aliases : List String) :
    ScreeningResult :=
  let names := (primaryName :: aliases).filter fun name => U.strip name ≠ ""
  if names = [] then ⟨[], []⟩
  else collectHits [] (resolveMany U db names)

/-- A supplier one of the resolutions names is reported, once. -/
theorem exists_hit_collectHits {rs : List Resolution} {seen : List ℕ} {r : Resolution}
    {i : ℕ} {p : String} (hr : r ∈ rs) (hi : r.supplierId = some i) (hp : r.publicId = some p)
    (hseen : i ∉ seen) : ∃ hit ∈ (collectHits seen rs).hits, hit.supplierId = i := by
  induction rs generalizing seen with
  | nil => simp at hr
  | cons r₀ rs ih =>
      unfold collectHits
      rcases List.mem_cons.mp hr with rfl | hr
      · simp [hi, hp, hseen]
      · cases h₁ : r₀.supplierId with
        | none => simpa using ih hr hseen
        | some j =>
            cases h₂ : r₀.publicId with
            | none => simpa using ih hr hseen
            | some q =>
                simp only
                split
                · exact ih hr hseen
                · by_cases hij : i = j
                  · exact ⟨⟨j, q, r₀.surfaceForm⟩, List.mem_cons_self, hij.symm⟩
                  · have hseen' : i ∉ j :: seen := by simp [hij, hseen]
                    obtain ⟨hit, hhit, hid⟩ := ih hr hseen'
                    exact ⟨hit, List.mem_cons_of_mem _ hhit, hid⟩

/-- Every hit is one of the resolutions. -/
theorem mem_hits_collectHits {rs : List Resolution} {seen : List ℕ} {hit : ScreeningHit}
    (h : hit ∈ (collectHits seen rs).hits) :
    ∃ r ∈ rs, r.supplierId = some hit.supplierId ∧ r.publicId = some hit.publicId := by
  induction rs generalizing seen with
  | nil => simp [collectHits] at h
  | cons r₀ rs ih =>
      unfold collectHits at h
      split at h
      · rename_i i p hi hp
        split at h
        · obtain ⟨r, hr, hrs⟩ := ih h
          exact ⟨r, List.mem_cons_of_mem _ hr, hrs⟩
        · rcases List.mem_cons.mp h with rfl | h
          · exact ⟨r₀, List.mem_cons_self, hi, hp⟩
          · obtain ⟨r, hr, hrs⟩ := ih h
            exact ⟨r, List.mem_cons_of_mem _ hr, hrs⟩
      · obtain ⟨r, hr, hrs⟩ := ih h
        exact ⟨r, List.mem_cons_of_mem _ hr, hrs⟩

/-- **Every supplier a designation names is hit**, under its public id. -/
theorem exists_hit_screenDesignation {db : Database} {primaryName : String}
    {aliases : List String} {name : String} (hname : name ∈ primaryName :: aliases)
    (hne : normalize U name ≠ "") {i : ℕ} {s : Supplier}
    (hans : answering db (normalize U name) = some (i, s)) :
    ∃ hit ∈ (screenDesignation U db primaryName aliases).hits, hit.publicId = s.publicId := by
  have hkept : name ∈ (primaryName :: aliases).filter fun n => U.strip n ≠ "" := by
    refine List.mem_filter.mpr ⟨hname, ?_⟩
    simpa using fun hblank => hne (normalize_eq_empty_of_strip U hblank)
  unfold screenDesignation
  simp only
  rw [if_neg (List.ne_nil_of_mem hkept), resolveMany_eq_map]
  have hres := publicId_resolutionOf U hne hans
  obtain ⟨hit, hhit, hid⟩ := exists_hit_collectHits
    (List.mem_map_of_mem (f := resolutionOf U db) hkept)
    (i := i) (p := s.publicId) (by rw [hres]) (by rw [hres]) List.not_mem_nil
  refine ⟨hit, hhit, ?_⟩
  -- the hit may come from another spelling; its supplier is the same row
  obtain ⟨r, hr, hri, hrp⟩ := mem_hits_collectHits hhit
  obtain ⟨name', _, rfl⟩ := List.mem_map.mp hr
  obtain ⟨hne', s', hans'⟩ := (supplierId_resolutionOf_eq_some_iff U).mp hri
  rw [publicId_resolutionOf U hne' hans', Option.some.injEq] at hrp
  have hs := (answering_eq_some hans).1
  have hs' := (answering_eq_some hans').1
  rw [hid, hs, Option.some.injEq] at hs'
  rw [← hrp, hs']

/-! ## One run -/

/-- `ScreeningRunSummary`. -/
structure ScreeningRunSummary where
  designationsScreened : ℕ
  suppliersFlagged : ℕ
  unmatchedNames : ℕ
  deriving DecidableEq, Repr

/-- The processed articles whose raw row carries a payload and that have no mention
yet, in key order. -/
def screeningCandidates (db : Database) : List (ℕ × RawPayload) :=
  db.processed.rows.filterMap fun r =>
    match db.raws.find? r.2.rawArticleId with
    | some raw =>
        match raw.rawPayloadJson with
        | some payload => if r.1 ∈ alreadyScreened db then none else some (r.1, payload)
        | none => none
    | none => none

/-- The rows of the screening query. -/
def screeningRows (db : Database) (limit : ℕ) : List (ℕ × RawPayload) :=
  (screeningCandidates db).take limit

/-- `record_audit`. -/
def recordAudit (db : Database) (entry : AuditLog) : Database :=
  { db with audits := db.audits.insert entry }

/-- The audit record of one match. -/
def flaggedAudit (articleId : ℕ) (hit : ScreeningHit) : AuditLog where
  action := "sanctions.supplier_flagged"
  outcome := "success"
  resourceType := some "supplier"
  resourceId := some hit.publicId
  detail := [("matched_name", .text hit.matchedName), ("designation_article_id", .number articleId)]

/-- The audit record of one run. -/
def screeningRunAudit (summary : ScreeningRunSummary) : AuditLog where
  action := "sanctions.screening_run"
  outcome := "success"
  resourceType := none
  resourceId := none
  detail := [("designations_screened", .number summary.designationsScreened),
    ("suppliers_flagged", .number summary.suppliersFlagged),
    ("unmatched_names", .number summary.unmatchedNames)]

/-- The body of the loop of `screen_processed_articles`. -/
def screenRow (acc : Database × ScreeningRunSummary) (row : ℕ × RawPayload) :
    Except ServiceError (Database × ScreeningRunSummary) :=
  match RawPayload.designationNames (some row.2) with
  | [] => .ok acc
  | primaryName :: aliases =>
      let result := screenDesignation U acc.1 primaryName aliases
      match recordMentions U acc.1 row.1 (primaryName :: aliases) with
      | .error e => .error e
      | .ok (db, _) =>
          .ok (result.hits.foldl (fun db hit => recordAudit db (flaggedAudit row.1 hit)) db,
            ⟨acc.2.designationsScreened + 1, acc.2.suppliersFlagged + result.hits.length,
              acc.2.unmatchedNames + result.unmatchedNames.length⟩)

/-- `screen_processed_articles`, up to its commit. -/
def screenProcessedArticles (db : Database) (limit : ℕ) :
    Except ServiceError (Database × ScreeningRunSummary) :=
  match (screeningRows db limit).foldlM (screenRow U) (db, ⟨0, 0, 0⟩) with
  | .error e => .error e
  | .ok (db', summary) => .ok (recordAudit db' (screeningRunAudit summary), summary)

/-- A run of the screening task: committed, or rolled back when a statement was
rejected. -/
def screenRun (db : Database) (limit : ℕ) : Database :=
  match screenProcessedArticles U db limit with
  | .ok (db', _) => db'
  | .error _ => db

/-! ## What a run commits -/

/-- The audit records of the matches of one row. -/
def rowAudits (db : Database) (row : ℕ × RawPayload) : List AuditLog :=
  match RawPayload.designationNames (some row.2) with
  | [] => []
  | primaryName :: aliases =>
      (screenDesignation U db primaryName aliases).hits.map (flaggedAudit row.1)

/-- Auditing hits appends their records. -/
theorem foldl_recordAudit (articleId : ℕ) (hits : List ScreeningHit) (db : Database) :
    ∃ audits, hits.foldl (fun db hit => recordAudit db (flaggedAudit articleId hit)) db
        = { db with audits := audits } ∧
      audits.values = db.audits.values ++ hits.map (flaggedAudit articleId) ∧
      (∀ r ∈ db.audits.rows, r ∈ audits.rows) := by
  induction hits generalizing db with
  | nil => exact ⟨db.audits, rfl, by simp, fun r hr => hr⟩
  | cons hit hits ih =>
      obtain ⟨audits, heq, hval, hsub⟩ := ih (recordAudit db (flaggedAudit articleId hit))
      refine ⟨audits, heq, ?_, ?_⟩
      · rw [hval]
        simp [recordAudit]
      · intro r hr
        exact hsub r (Table.mem_rows_insert.mpr (Or.inl hr))

/-- One row of a run: mentions and audit records are appended, and the article now
carries a mention if its names left one. -/
theorem screenRow_eq_ok {acc acc' : Database × ScreeningRunSummary} {row : ℕ × RawPayload}
    (h : screenRow U acc row = .ok acc') :
    ∃ mentions audits, acc'.1 = { acc.1 with mentions := mentions, audits := audits } ∧
      audits.values = acc.1.audits.values ++ rowAudits U acc.1 row ∧
      (∀ i, i ∈ alreadyScreened acc'.1 ↔ i ∈ alreadyScreened acc.1 ∨
        (i = row.1 ∧ distinctSurfaceForms U (RawPayload.designationNames (some row.2)) ≠ [])) := by
  unfold screenRow at h
  unfold rowAudits
  split at h
  · rename_i hnil
    rw [Except.ok.injEq] at h
    refine ⟨acc.1.mentions, acc.1.audits, by rw [← h], by simp, ?_⟩
    intro i
    rw [← h, hnil]
    simp [distinctSurfaceForms, distinctSurfaceFormsFrom]
  · rename_i primaryName aliases hnames
    simp only at h
    split at h
    · cases h
    rename_i db resolutions hrec
    rw [Except.ok.injEq] at h
    obtain ⟨mentions, hdb, -, -⟩ := recordMentions_eq_ok U hrec
    obtain ⟨audits, hfold, hval, -⟩ := foldl_recordAudit row.1
      (screenDesignation U acc.1 primaryName aliases).hits db
    refine ⟨mentions, audits, ?_, ?_, ?_⟩
    · rw [← h, hfold, hdb]
    · rw [hval, hdb]
    · intro i
      rw [← h, hnames, ← mem_alreadyScreened_recordMentions U hrec i, hfold]
      exact Iff.rfl

/-- A run over rows: registry and articles stay, audit records of every row are
appended (against the registry at the start of the run), and exactly the articles
whose names left a mention gain one. -/
theorem foldlM_screenRow_eq_ok {rows : List (ℕ × RawPayload)}
    {acc acc' : Database × ScreeningRunSummary}
    (h : rows.foldlM (screenRow U) acc = .ok acc') :
    ∃ mentions audits, acc'.1 = { acc.1 with mentions := mentions, audits := audits } ∧
      audits.values = acc.1.audits.values ++ rows.flatMap (rowAudits U acc.1) ∧
      (∀ i, i ∈ alreadyScreened acc'.1 ↔ i ∈ alreadyScreened acc.1 ∨ ∃ row ∈ rows, i = row.1 ∧
        distinctSurfaceForms U (RawPayload.designationNames (some row.2)) ≠ []) := by
  induction rows generalizing acc with
  | nil =>
      rw [List.foldlM_nil] at h
      obtain rfl : acc = acc' := Except.ok.inj h
      exact ⟨acc.1.mentions, acc.1.audits, rfl, by simp, by simp⟩
  | cons row rows ih =>
      rw [List.foldlM_cons] at h
      cases hrow : screenRow U acc row with
      | error e => rw [hrow] at h; cases h
      | ok acc₁ =>
          rw [hrow] at h
          obtain ⟨m₁, a₁, heq₁, hval₁, hmem₁⟩ := screenRow_eq_ok U hrow
          obtain ⟨m₂, a₂, heq₂, hval₂, hmem₂⟩ := ih h
          have haud : rowAudits U acc₁.1 = rowAudits U acc.1 := by
            rw [heq₁]
            rfl
          refine ⟨m₂, a₂, by rw [heq₂, heq₁], ?_, ?_⟩
          · rw [hval₂, haud, heq₁, hval₁, List.flatMap_cons, List.append_assoc]
          · intro i
            rw [hmem₂, hmem₁]
            simp only [List.exists_mem_cons_iff]
            exact or_assoc

/-- **What a committed run does.**  The registry and the articles stay as they are;
the matches of every row are audited, and an article gains a mention exactly when it
is a row whose names leave one. -/
theorem screenProcessedArticles_eq_ok {db db' : Database} {limit : ℕ}
    {summary : ScreeningRunSummary} (h : screenProcessedArticles U db limit = .ok (db', summary)) :
    ∃ mentions audits, db' = { db with mentions := mentions, audits := audits } ∧
      audits.values = db.audits.values ++ (screeningRows db limit).flatMap (rowAudits U db) ++
        [screeningRunAudit summary] ∧
      (∀ i, i ∈ alreadyScreened db' ↔ i ∈ alreadyScreened db ∨
        ∃ row ∈ screeningRows db limit, i = row.1 ∧
          distinctSurfaceForms U (RawPayload.designationNames (some row.2)) ≠ []) := by
  unfold screenProcessedArticles at h
  split at h
  · cases h
  rename_i db₁ summary₁ hfold
  rw [Except.ok.injEq, Prod.mk.injEq] at h
  obtain ⟨rfl, rfl⟩ := h
  obtain ⟨mentions, audits, heq, hval, hmem⟩ := foldlM_screenRow_eq_ok U hfold
  simp only at heq hval
  refine ⟨mentions, db₁.audits.insert (screeningRunAudit summary₁), ?_, ?_, hmem⟩
  · rw [recordAudit, heq]
  · rw [Table.values_insert, heq, hval]

/-! ## When a run commits -/

/-- A row that is not a designation, or whose new spellings fit, is screened. -/
theorem exists_screenRow {acc : Database × ScreeningRunSummary} {row : ℕ × RawPayload}
    (hfresh : row.1 ∉ alreadyScreened acc.1) :
    (∃ acc', screenRow U acc row = .ok acc') ↔
      ∀ f ∈ distinctSurfaceForms U (RawPayload.designationNames (some row.2)), f.length ≤ 300 := by
  have hnone : alreadyRecorded acc.1 row.1 = [] := by
    rw [alreadyRecorded, List.map_eq_nil_iff, List.filter_eq_nil_iff]
    intro m hm heq
    exact hfresh (List.mem_map.mpr ⟨m, hm, by simpa using heq⟩)
  have hnew : ∀ forms, newSurfaceForms U acc.1 row.1 forms = distinctSurfaceForms U forms := by
    intro forms
    simp [newSurfaceForms, hnone]
  unfold screenRow
  split
  · rename_i hnil
    simp [hnil, distinctSurfaceForms, distinctSurfaceFormsFrom]
  · rename_i primaryName aliases hnames
    rw [hnames]
    constructor
    · rintro ⟨acc', h⟩
      simp only at h
      split at h
      · cases h
      · rename_i db resolutions hrec
        obtain ⟨-, -, -, hfits⟩ := recordMentions_eq_ok U hrec
        rwa [hnew] at hfits
    · intro hfits
      have hfits' : ∀ f ∈ newSurfaceForms U acc.1 row.1 (primaryName :: aliases),
          f.length ≤ 300 := by
        rwa [hnew]
      obtain ⟨db, resolutions, hrec⟩ := exists_recordMentions U hfits'
      simp only [hrec]
      exact ⟨_, rfl⟩

/-- A run over rows of different unscreened articles commits exactly when every
spelling to store fits its column. -/
theorem exists_foldlM_screenRow {rows : List (ℕ × RawPayload)}
    {acc : Database × ScreeningRunSummary} (hfresh : ∀ row ∈ rows, row.1 ∉ alreadyScreened acc.1)
    (hnd : (rows.map (·.1)).Nodup) :
    (∃ acc', rows.foldlM (screenRow U) acc = .ok acc') ↔
      ∀ row ∈ rows, ∀ f ∈ distinctSurfaceForms U (RawPayload.designationNames (some row.2)),
        f.length ≤ 300 := by
  induction rows generalizing acc with
  | nil => simp [pure, Except.pure]
  | cons row rows ih =>
      rw [List.map_cons, List.nodup_cons] at hnd
      rw [List.forall_mem_cons, List.foldlM_cons,
        ← exists_screenRow U (hfresh row List.mem_cons_self)]
      cases hrow : screenRow U acc row with
      | error e =>
          constructor
          · rintro ⟨acc', h⟩
            cases h
          · rintro ⟨⟨acc', h⟩, -⟩
            cases h
      | ok acc₁ =>
          have hfresh₁ : ∀ r ∈ rows, r.1 ∉ alreadyScreened acc₁.1 := by
            intro r hr hmem
            obtain ⟨-, -, -, -, hiff⟩ := screenRow_eq_ok U hrow
            rcases (hiff r.1).mp hmem with hold | ⟨heq, -⟩
            · exact hfresh r (List.mem_cons_of_mem _ hr) hold
            · exact hnd.1 (List.mem_map.mpr ⟨r, hr, heq⟩)
          constructor
          · intro h
            exact ⟨⟨acc₁, rfl⟩, (ih hfresh₁ hnd.2).mp h⟩
          · rintro ⟨-, h⟩
            exact (ih hfresh₁ hnd.2).mpr h

/-- The candidates are processed articles with a payload and no mention. -/
theorem mem_screeningCandidates {db : Database} {i : ℕ} {payload : RawPayload} :
    (i, payload) ∈ screeningCandidates db ↔ i ∉ alreadyScreened db ∧
      ∃ p raw, (i, p) ∈ db.processed.rows ∧ db.raws.find? p.rawArticleId = some raw ∧
        raw.rawPayloadJson = some payload := by
  unfold screeningCandidates
  rw [List.mem_filterMap]
  constructor
  · rintro ⟨⟨j, p⟩, hr, h⟩
    cases hraw : db.raws.find? p.rawArticleId with
    | none => simp [hraw] at h
    | some raw =>
        cases hpay : raw.rawPayloadJson with
        | none => simp [hraw, hpay] at h
        | some payload' =>
            by_cases hj : j ∈ alreadyScreened db
            · simp [hraw, hpay, hj] at h
            · simp only [hraw, hpay, hj, if_false, Option.some.injEq, Prod.mk.injEq] at h
              obtain ⟨rfl, rfl⟩ := h
              exact ⟨hj, p, raw, hr, hraw, hpay⟩
  · rintro ⟨hi, p, raw, hr, hraw, hpay⟩
    exact ⟨(i, p), hr, by simp [hraw, hpay, hi]⟩

/-- The candidates come in key order. -/
theorem sorted_screeningCandidates (db : Database) :
    (screeningCandidates db).Pairwise (fun r r' => r.1 < r'.1) := by
  unfold screeningCandidates
  rw [List.pairwise_filterMap]
  refine db.processed.sorted.imp ?_
  intro r r' hlt b hb b' hb'
  have hkey : ∀ (x : ℕ × NewsArticleProcessed) (c : ℕ × RawPayload),
      (match db.raws.find? x.2.rawArticleId with
        | some raw =>
            match raw.rawPayloadJson with
            | some payload => if x.1 ∈ alreadyScreened db then none else some (x.1, payload)
            | none => none
        | none => none) = some c → c.1 = x.1 := by
    intro x c hc
    split at hc
    · split at hc
      · split at hc
        · cases hc
        · rw [← Option.some.inj hc]
      · cases hc
    · cases hc
  rw [hkey r b hb, hkey r' b' hb']
  exact hlt

/-- **When a run commits**: exactly when every spelling its designations have to store
fits its column. -/
theorem exists_screenProcessedArticles {db : Database} {limit : ℕ} :
    (∃ db' summary, screenProcessedArticles U db limit = .ok (db', summary)) ↔
      ∀ row ∈ screeningRows db limit,
        ∀ f ∈ distinctSurfaceForms U (RawPayload.designationNames (some row.2)),
          f.length ≤ 300 := by
  have hfresh : ∀ row ∈ screeningRows db limit, row.1 ∉ alreadyScreened db := by
    rintro ⟨i, payload⟩ hrow
    exact (mem_screeningCandidates.mp (List.mem_of_mem_take hrow)).1
  have hnd : ((screeningRows db limit).map (·.1)).Nodup := by
    rw [List.Nodup, List.pairwise_map]
    exact ((sorted_screeningCandidates db).sublist (List.take_sublist _ _)).imp
      (fun h => Nat.ne_of_lt h)
  have hstart : ∀ row ∈ screeningRows db limit,
      row.1 ∉ alreadyScreened ((db, ⟨0, 0, 0⟩) : Database × ScreeningRunSummary).1 := hfresh
  rw [← exists_foldlM_screenRow U hstart hnd]
  unfold screenProcessedArticles
  constructor
  · rintro ⟨db', summary, h⟩
    split at h
    · cases h
    · rename_i db₁ summary₁ hfold
      exact ⟨_, hfold⟩
  · rintro ⟨⟨db₁, summary₁⟩, hfold⟩
    exact ⟨_, _, by rw [hfold]⟩

end ProcureSignal.Suppliers
