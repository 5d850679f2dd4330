/-
# The screening cursor

`screen_processed_articles` takes "this article carries a mention" to mean "this
designation has been screened".  The mention may come from another writer:
`_add_processed` records the suppliers enrichment detected in a designation, and a
backfill those of one stored earlier.  Such a designation leaves the screening query
without having been screened (`cursor_unsound`).

Where neither writer meets an unscreened designation with a usable detected name
(`CursorGuard`), the cursor is sound along every run (`cursor_sound`).
-/
import ProcureSignal.Suppliers.System

namespace ProcureSignal.Suppliers

variable (U : Unicode)

/-! ## What a run leaves in the audit trail -/

/-- A `sanctions.supplier_flagged` record for an article and a supplier. -/
def Flagged (audits : List AuditLog) (articleId : ℕ) (s : Supplier) : Prop :=
  ∃ a ∈ audits, a.action = "sanctions.supplier_flagged" ∧ a.resourceType = some "supplier" ∧
    a.resourceId = some s.publicId ∧ ("designation_article_id", .number articleId) ∈ a.detail

/-- More records flag at least as much. -/
theorem Flagged.mono {audits audits' : List AuditLog} {i : ℕ} {s : Supplier}
    (h : Flagged audits i s) (hsub : audits ⊆ audits') : Flagged audits' i s := by
  obtain ⟨a, ha, hrest⟩ := h
  exact ⟨a, hsub ha, hrest⟩

/-- The run of the screening task on `db` took the article with these names, and wrote
a record for every active supplier a name resolved to. -/
def ScreenedBy (db : Database) (limit i : ℕ) (names : List String) : Prop :=
  (∃ payload, (i, payload) ∈ screeningRows db limit ∧
    RawPayload.designationNames (some payload) = names) ∧
  ∃ db' summary, screenProcessedArticles U db limit = .ok (db', summary) ∧
    ∀ name ∈ names, ∀ j s, (resolve U db name).supplierId = some j →
      db.suppliers.find? j = some s →
      Flagged (db'.audits.values.drop db.audits.values.length) i s

/-- A committed run flags every active supplier the names of its rows resolve to. -/
theorem flagged_of_mem_screeningRows {db db' : Database} {limit : ℕ}
    {summary : ScreeningRunSummary} (h : screenProcessedArticles U db limit = .ok (db', summary))
    {row : ℕ × RawPayload} (hrow : row ∈ screeningRows db limit) {name : String}
    (hname : name ∈ RawPayload.designationNames (some row.2)) {j : ℕ} {s : Supplier}
    (hres : (resolve U db name).supplierId = some j) (hs : db.suppliers.find? j = some s) :
    Flagged (db'.audits.values.drop db.audits.values.length) row.1 s := by
  rw [resolve_eq_resolutionOf, supplierId_resolutionOf_eq_some_iff] at hres
  obtain ⟨hne, s', hans⟩ := hres
  obtain rfl : s = s' := by
    have hs' := (answering_eq_some hans).1
    rw [hs] at hs'
    exact Option.some.inj hs'
  obtain ⟨mentions, audits, heq, hval, -⟩ := screenProcessedArticles_eq_ok U h
  rw [heq, hval, List.append_assoc, List.drop_left]
  -- the names of the row, as the loop splits them
  cases hnames : RawPayload.designationNames (some row.2) with
  | nil => simp [hnames] at hname
  | cons primaryName aliases =>
      rw [hnames] at hname
      obtain ⟨hit, hhit, hpublic⟩ := exists_hit_screenDesignation U hname hne hans
      refine ⟨flaggedAudit row.1 hit, ?_, rfl, rfl, ?_, ?_⟩
      · refine List.mem_append_left _ (List.mem_flatMap.mpr ⟨row, hrow, ?_⟩)
        simp only [rowAudits, hnames]
        exact List.mem_map_of_mem hhit
      · show some hit.publicId = some s.publicId
        rw [hpublic]
      · simp [flaggedAudit]

/-- A row of a committed run is screened by it. -/
theorem screenedBy_of_mem_screeningRows {db db' : Database} {limit : ℕ}
    {summary : ScreeningRunSummary} (h : screenProcessedArticles U db limit = .ok (db', summary))
    {i : ℕ} {payload : RawPayload} (hrow : (i, payload) ∈ screeningRows db limit) :
    ScreenedBy U db limit i (articleNames db i) := by
  have hnames := articleNames_of_mem_screeningCandidates (List.mem_of_mem_take hrow)
  rw [hnames]
  refine ⟨⟨payload, hrow, rfl⟩, db', summary, h, ?_⟩
  intro name hname j s hres hs
  exact flagged_of_mem_screeningRows U h hrow hname hres hs

/-! ## The cursor along a run -/

/-- No writer but screening gives an unscreened designation its first mention. -/
def CursorGuard (db : Database) : Operation → Prop
  | .enrich processed =>
      RawPayload.designationNames
          ((db.raws.find? processed.rawArticleId).bind (·.rawPayloadJson)) ≠ [] →
        Saves U db processed →
        distinctSurfaceForms U (processed.detectedSuppliers.getD []) = []
  | .backfill _ => ∀ i p, db.processed.find? i = some p → articleNames db i ≠ [] →
      i ∉ alreadyScreened db → distinctSurfaceForms U (p.detectedSuppliers.getD []) = []
  | _ => True

/-- An article outside the query was screened by an earlier run. -/
def CursorSound (tr : List (Database × Operation)) (db : Database) : Prop :=
  ∀ i ∈ alreadyScreened db, articleNames db i ≠ [] →
    ∃ p limit, (p, .screen limit) ∈ tr ∧ ScreenedBy U p limit i (articleNames db i)

/-- The new article of an enrichment step is read with the names of its raw article. -/
theorem articleNames_nextId_enrich {db : Database} {processed : NewsArticleProcessed}
    {hfree : db.processed.Free processed} {mentions : MentionTable} {raw : NewsArticleRaw}
    (hraw : db.raws.find? processed.rawArticleId = some raw) :
    articleNames
        { db with processed := db.processed.insertFree processed hfree, mentions := mentions }
        db.processed.nextId
      = RawPayload.designationNames raw.rawPayloadJson := by
  have hfind : (db.processed.insertFree processed hfree).find? db.processed.nextId
      = some processed := by
    rw [UniqueTable.toTable_insertFree, Table.find?_insert, if_pos rfl]
  simp only [articleNames, hfind, hraw]
  rfl

/-- **A guarded operation keeps the cursor sound.** -/
theorem cursorSound_apply {tr : List (Database × Operation)} {db : Database}
    (hc : Consistent db) (hsound : CursorSound U tr db) {op : Operation}
    (hguard : CursorGuard U db op) : CursorSound U ((db, op) :: tr) (apply U db op) := by
  intro i hi hd
  obtain ⟨hraws, hprocessed⟩ := extends_apply U hc op
  rcases mentionSource_of_apply U hc hi with hold | hsource
  · obtain ⟨p, hp⟩ := hc.articleOfMention i hold
    rw [articleNames_of_extends hc hraws hprocessed hp] at hd ⊢
    obtain ⟨q, limit, hmem, hscreened⟩ := hsound i hold hd
    exact ⟨q, limit, List.mem_cons_of_mem _ hmem, hscreened⟩
  · cases op with
    | enrich processed =>
        obtain ⟨rfl, hsaves, hne⟩ := hsource
        obtain ⟨raw, hraw⟩ := hsaves.1
        rcases apply_enrich U hc processed with heq | ⟨-, hfree, mentions, heq, -⟩
        · rw [heq] at hi
          exact absurd hi (nextId_notMem_alreadyScreened hc)
        · rw [heq, articleNames_nextId_enrich hraw] at hd
          refine absurd (hguard ?_ hsaves) hne
          rwa [hraw]
    | screen limit =>
        obtain ⟨⟨summary, hok⟩, payload, hrow⟩ := hsource
        obtain ⟨-, p, -, hp, -, -⟩ := mem_screeningCandidates.mp (List.mem_of_mem_take hrow)
        rw [articleNames_of_extends hc hraws hprocessed (Table.find?_eq_some_iff.mpr hp)]
        exact ⟨db, limit, List.mem_cons_self, screenedBy_of_mem_screeningRows U hok hrow⟩
    | backfill batchSize =>
        obtain ⟨p, hp, hne⟩ := hsource
        rw [articleNames_of_extends hc hraws hprocessed hp] at hd ⊢
        by_cases hold : i ∈ alreadyScreened db
        · obtain ⟨q, limit, hmem, hscreened⟩ := hsound i hold hd
          exact ⟨q, limit, List.mem_cons_of_mem _ hmem, hscreened⟩
        · exact absurd (hguard i p hp hd hold) hne
    | ingest raw => exact hsource.elim
    | register publicId canonicalName country lei => exact hsource.elim
    | addAlias supplierId aliasName source => exact hsource.elim
    | merge keepId mergeId => exact hsource.elim

/-- The cursor is sound after every guarded run. -/
theorem cursorSound_of_execution {G : Database → Operation → Prop}
    (hG : ∀ db op, G db op → CursorGuard U db op) {db₀ db : Database}
    {tr : List (Database × Operation)} (hinit : Initial db₀)
    (h : Execution (step U) G db₀ tr db) : CursorSound U tr db := by
  have hboth : Consistent db ∧ CursorSound U tr db := by
    refine h.traceInvariant (I := fun tr db => Consistent db ∧ CursorSound U tr db) ?_ ?_
    · refine ⟨hinit.consistent, ?_⟩
      intro i hi
      rw [hinit.noMention] at hi
      cases hi
    · rintro tr p op q ⟨hc, hsound⟩ hguard hq
      rw [← Option.some.inj hq]
      exact ⟨consistent_apply U hc op, cursorSound_apply U hc hsound (hG p op hguard)⟩
  exact hboth.2

/-- **Cursor soundness.**  In every run whose enrichment and backfill steps meet the
guard, a designation the screening query excludes was screened, all its names, by an
earlier run. -/
theorem cursor_sound {db₀ db : Database} {tr : List (Database × Operation)}
    (hinit : Initial db₀) (h : Execution (step U) (CursorGuard U) db₀ tr db) {i : ℕ}
    (hi : i ∈ alreadyScreened db) (hd : articleNames db i ≠ []) :
    ∃ p limit, (p, .screen limit) ∈ tr ∧ ScreenedBy U p limit i (articleNames db i) :=
  cursorSound_of_execution U (fun _ _ hguard => hguard) hinit h i hi hd

/-- A designation enriched without detected suppliers, then screened. -/
theorem cursor_sound_screened : ∃ db tr p limit,
    Execution (step Unicode.ascii) (CursorGuard Unicode.ascii) Database.empty tr db ∧
      1 ∈ alreadyScreened db ∧ (p, .screen limit) ∈ tr ∧
      ScreenedBy Unicode.ascii p limit 1 (articleNames db 1) := by
  have hrun : Execution (step Unicode.ascii) (CursorGuard Unicode.ascii) Database.empty _ _ :=
    execution_snoc _ (execution_snoc _ (execution_snoc _ (execution_snoc _ Execution.nil
      (.register "p1" "Acme" none none) trivial)
      (.ingest ⟨some (.object (some ["Acme"]))⟩) trivial)
      (.enrich ⟨1, none⟩) (fun _ _ => rfl)) (.screen 1000) trivial
  obtain ⟨p, limit, hmem, hby⟩ :=
    cursor_sound Unicode.ascii initial_empty hrun (i := 1) (by decide +kernel) (by decide +kernel)
  exact ⟨_, _, p, limit, hrun, by decide +kernel, hmem, hby⟩

/-- **The cursor is not sound.**  Enrichment stores a designation of `Acme` in which it
detected the supplier `Bolt`; the mention of `Bolt` takes the designation out of the
screening query, and the run that follows leaves `Acme` unflagged. -/
theorem cursor_unsound : ∃ db tr i,
    Execution (step Unicode.ascii) unguarded Database.empty tr db ∧
      i ∈ alreadyScreened db ∧ articleNames db i = ["Acme"] ∧
      (resolve Unicode.ascii db "Acme").publicId = some "p1" ∧
      (∀ a ∈ db.audits.values, a.action ≠ "sanctions.supplier_flagged") ∧
      ¬ ∃ p limit, (p, .screen limit) ∈ tr ∧
        ScreenedBy Unicode.ascii p limit i (articleNames db i) := by
  have hrun : Execution (step Unicode.ascii) unguarded Database.empty _ _ :=
    execution_snoc _ (execution_snoc _ (execution_snoc _ (execution_snoc _ Execution.nil
      (.register "p1" "Acme" none none) trivial)
      (.ingest ⟨some (.object (some ["Acme"]))⟩) trivial)
      (.enrich ⟨1, some ["Bolt"]⟩) trivial) (.screen 1000) trivial
  refine ⟨_, _, 1, hrun, by decide +kernel, by decide +kernel, by decide +kernel,
    by decide +kernel, ?_⟩
  rintro ⟨p, limit, hmem, ⟨payload, hrow, -⟩, -⟩
  simp only [List.mem_cons, Prod.mk.injEq, Operation.screen.injEq, reduceCtorEq, and_false,
    List.not_mem_nil, or_false] at hmem
  obtain ⟨rfl, rfl⟩ := hmem
  -- the only screening run of the trace found no row
  have hnone : screeningRows (apply Unicode.ascii (apply Unicode.ascii (apply Unicode.ascii
      Database.empty (.register "p1" "Acme" none none))
      (.ingest ⟨some (.object (some ["Acme"]))⟩)) (.enrich ⟨1, some ["Bolt"]⟩)) 1000 = [] := by
    decide +kernel
  rw [hnone] at hrow
  cases hrow

end ProcureSignal.Suppliers
