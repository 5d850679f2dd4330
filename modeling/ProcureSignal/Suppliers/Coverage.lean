/-
# No unaudited sanctions match

Screening audits what the names of a designation resolve to when it runs.  A spelling
registered later resolves from then on, and a backfill re-points the stored mention
(`_retry_unresolved`), but the designation is never screened again and no audit record
is written (`match_unaudited`).

`CoverageGuard` excludes exactly the registry changes that make a screened name resolve
to a supplier the designation is not flagged for; in every run that meets it, every
match is audited (`every_match_audited`).  A merged supplier answers through its
survivor (`survivor`).
-/
import ProcureSignal.Suppliers.Cursor
import ProcureSignal.Suppliers.Progress

namespace ProcureSignal.Suppliers

variable (U : Unicode)

/-! ## Survivors of merges -/

/-- Where one operation takes a supplier: a merged one to the one kept. -/
def mergedInto (db : Database) (op : Operation) (i : ℕ) : ℕ :=
  match op with
  | .merge keepId mergeId =>
      match mergeSuppliers db keepId mergeId with
      | .ok _ => if i = mergeId then keepId else i
      | .error _ => i
  | _ => i

/-- The supplier that stands for `i` after the merges of a run, oldest first. -/
def survivor (tr : List (Database × Operation)) (i : ℕ) : ℕ :=
  tr.foldr (fun e i => mergedInto e.1 e.2 i) i

theorem survivor_cons (db : Database) (op : Operation) (tr : List (Database × Operation)) (i : ℕ) :
    survivor ((db, op) :: tr) i = mergedInto db op (survivor tr i) := rfl

/-- The article is flagged for the supplier, or for one merged into it. -/
def FlaggedFor (tr : List (Database × Operation)) (db : Database) (i j : ℕ) : Prop :=
  ∃ j' s', survivor tr j' = j ∧ db.suppliers.find? j' = some s' ∧ Flagged db.audits.values i s'

/-! ## Who answers to a name -/

/-- An active supplier answers to the aliases it holds, and to nothing else. -/
theorem answering_eq_some_iff {db : Database} {key : String} {j : ℕ} {s : Supplier} :
    answering db key = some (j, s) ↔ db.suppliers.find? j = some s ∧ s.isActive = true ∧
      ∃ a ∈ db.aliases.values, a.normalizedAlias = key ∧ a.supplierId = j := by
  constructor
  · exact answering_eq_some
  · rintro ⟨hs, hactive, a, ha, rfl, rfl⟩
    exact answering_of_mem ha hs hactive

/-- A screened designation with a name of this normal form is not flagged for `s`. -/
def Uncovered (db : Database) (key : String) (s : Supplier) : Prop :=
  ∃ i ∈ alreadyScreened db, (∃ name ∈ articleNames db i, normalize U name = key) ∧
    ¬ Flagged db.audits.values i s

/-- The cursor guard, and no registry change makes a screened name resolve to a supplier
its designation is not flagged for: a registration that claims such a spelling, an alias
for an active supplier, the merge of an inactive holder into an active supplier. -/
def CoverageGuard (db : Database) (op : Operation) : Prop :=
  CursorGuard U db op ∧
    match op with
    | .register _ canonicalName _ _ =>
        (∀ form ∈ aliasForms U canonicalName, aliasHolder db form = none) →
          ∀ i ∈ alreadyScreened db, ∀ name ∈ articleNames db i,
            normalize U name ∉ aliasForms U canonicalName
    | .addAlias supplierId aliasName _ => ∀ s, db.suppliers.find? supplierId = some s →
        s.isActive = true → aliasHolder db (normalize U aliasName) = none →
        ¬ Uncovered U db (normalize U aliasName) s
    | .merge keepId mergeId => ∀ k l, db.suppliers.find? keepId = some k → k.isActive = true →
        db.suppliers.find? mergeId = some l → l.isActive = false →
        ∀ a ∈ db.aliases.values, a.supplierId = mergeId → ¬ Uncovered U db a.normalizedAlias k
    | _ => True

/-! ## The invariant -/

/-- Every name of a screened designation that resolves is flagged. -/
def Audited (tr : List (Database × Operation)) (db : Database) (i : ℕ) : Prop :=
  ∀ name ∈ articleNames db i, ∀ j s, normalize U name ≠ "" →
    answering db (normalize U name) = some (j, s) → FlaggedFor tr db i j

/-- What every guarded run keeps: foreign keys, active and future suppliers are their
own survivors, screened designations are audited. -/
structure Covered (tr : List (Database × Operation)) (db : Database) : Prop where
  consistent : Consistent db
  survives : ∀ j, (∀ s, db.suppliers.find? j = some s → s.isActive = true) → survivor tr j = j
  audited : ∀ i ∈ alreadyScreened db, Audited U tr db i

/-- The audit trail is append-only. -/
theorem audits_subset_apply {db : Database} (hc : Consistent db) (op : Operation) :
    db.audits.values ⊆ (apply U db op).audits.values := by
  cases op with
  | ingest raw => exact fun _ ha => ha
  | enrich processed =>
      rcases apply_enrich U hc processed with heq | ⟨-, hfree, mentions, heq, -⟩
      · rw [heq]
        exact fun _ ha => ha
      · rw [heq]
        exact fun _ ha => ha
  | screen limit =>
      rcases apply_screen U db limit with heq | ⟨summary, hok⟩
      · rw [heq]
        exact fun _ ha => ha
      · obtain ⟨mentions, audits, heq, hval, -⟩ := screenProcessedArticles_eq_ok U hok
        rw [heq, hval]
        exact fun a ha => List.mem_append_left _ (List.mem_append_left _ ha)
  | backfill batchSize =>
      rw [apply, (mentioned_backfillSupplierIdentity U db batchSize).audits]
      exact fun _ ha => ha
  | register publicId canonicalName country lei =>
      rw [(registryOnly_register U db publicId canonicalName country lei).audits]
      exact fun _ ha => ha
  | addAlias supplierId aliasName source =>
      rw [(registryOnly_addAlias U db supplierId aliasName source).audits]
      exact fun _ ha => ha
  | merge keepId mergeId =>
      rw [(registryOnly_merge U db keepId mergeId).audits]
      exact fun _ ha => ha

/-- An accepted merge moves the loser. -/
theorem mergedInto_of_eq_ok {db db' : Database} {keepId mergeId : ℕ}
    (h : mergeSuppliers db keepId mergeId = .ok db') (i : ℕ) :
    mergedInto db (.merge keepId mergeId) i = if i = mergeId then keepId else i := by
  rw [mergedInto, h]

/-- A supplier keeps its key and its public id; one that is active afterwards was
active before and was not merged. -/
theorem supplier_apply {db : Database} (hc : Consistent db) (op : Operation) {j : ℕ}
    {s : Supplier} (hs : db.suppliers.find? j = some s) :
    ∃ s', (apply U db op).suppliers.find? j = some s' ∧ s'.publicId = s.publicId ∧
      (s'.isActive = true → s.isActive = true ∧ mergedInto db op j = j) := by
  have hsame : (apply U db op).suppliers = db.suppliers → mergedInto db op j = j →
      ∃ s', (apply U db op).suppliers.find? j = some s' ∧ s'.publicId = s.publicId ∧
        (s'.isActive = true → s.isActive = true ∧ mergedInto db op j = j) :=
    fun heq hstay => ⟨s, by rw [heq, hs], rfl, fun hactive => ⟨hactive, hstay⟩⟩
  cases op with
  | ingest raw => exact hsame rfl rfl
  | enrich processed =>
      rcases apply_enrich U hc processed with heq | ⟨-, hfree, mentions, heq, -⟩
      · exact hsame (by rw [heq]) rfl
      · exact hsame (by rw [heq]) rfl
  | screen limit =>
      rcases apply_screen U db limit with heq | ⟨summary, hok⟩
      · exact hsame (by rw [heq]) rfl
      · obtain ⟨mentions, audits, heq, -, -⟩ := screenProcessedArticles_eq_ok U hok
        exact hsame (by rw [heq]) rfl
  | backfill batchSize =>
      exact hsame (mentioned_backfillSupplierIdentity U db batchSize).suppliers rfl
  | register publicId canonicalName country lei =>
      rcases apply_register U db publicId canonicalName country lei
        with heq | ⟨-, suppliers, aliases, heq, hsup, -⟩
      · exact hsame (by rw [heq]) rfl
      · refine ⟨s, ?_, rfl, fun hactive => ⟨hactive, rfl⟩⟩
        have hne : j ≠ db.suppliers.nextId := by
          rintro rfl
          rw [Table.find?_nextId] at hs
          cases hs
        rw [heq, find?_of_insertAll?_singleton hsup, if_neg hne, hs]
  | addAlias supplierId aliasName source =>
      rcases apply_addAlias U db supplierId aliasName source with heq | ⟨-, -, aliases, heq, -⟩
      · exact hsame (by rw [heq]) rfl
      · exact hsame (by rw [heq]) rfl
  | merge keepId mergeId =>
      cases hok : mergeSuppliers db keepId mergeId with
      | error e => exact hsame (by rw [apply, hok]; rfl) (by rw [mergedInto, hok])
      | ok db' =>
          obtain ⟨-, -, -, heq⟩ := mergeSuppliers_eq_ok hok
          rw [apply, hok, committed, heq, find?_deactivate, hs, mergedInto_of_eq_ok hok]
          refine ⟨_, rfl, ?_, ?_⟩
          · split <;> rfl
          · by_cases hj : j = mergeId
            · simp [hj]
            · simp [hj]

/-- A key not yet handed out is not merged, and stays free unless this operation
registers a supplier. -/
theorem mergedInto_of_find?_eq_none {db : Database} {op : Operation} {j : ℕ}
    (hj : db.suppliers.find? j = none) : mergedInto db op j = j := by
  cases op with
  | merge keepId mergeId =>
      cases hok : mergeSuppliers db keepId mergeId with
      | error e => rw [mergedInto, hok]
      | ok db' =>
          obtain ⟨-, -, ⟨l, hl⟩, -⟩ := mergeSuppliers_eq_ok hok
          rw [mergedInto_of_eq_ok hok, if_neg]
          rintro rfl
          rw [hj] at hl
          cases hl
  | ingest raw => rfl
  | enrich processed => rfl
  | screen limit => rfl
  | backfill batchSize => rfl
  | register publicId canonicalName country lei => rfl
  | addAlias supplierId aliasName source => rfl

/-- A flag stays, for the survivor of the supplier it was raised for. -/
theorem flaggedFor_apply {tr : List (Database × Operation)} {db : Database}
    (hc : Consistent db) (op : Operation) {i j : ℕ} (h : FlaggedFor tr db i j) :
    FlaggedFor ((db, op) :: tr) (apply U db op) i (mergedInto db op j) := by
  obtain ⟨j', s', hsurv, hs', hflag⟩ := h
  obtain ⟨s'', hs'', hpublic, -⟩ := supplier_apply U hc op hs'
  refine ⟨j', s'', by rw [survivor_cons, hsurv], hs'', ?_⟩
  obtain ⟨a, ha, haction, htype, hid, hdetail⟩ := hflag
  exact ⟨a, audits_subset_apply U hc op ha, haction, htype, by rw [hid, hpublic], hdetail⟩

/-! ## Who answers after an operation -/

/-- Under the guard, a supplier that newly answers to a name is one every screened
designation of that name is flagged for. -/
def AnswersFlagged (db : Database) (op : Operation) (key : String) (j : ℕ) : Prop :=
  ∀ i ∈ alreadyScreened db, (∃ name ∈ articleNames db i, normalize U name = key) →
    ∃ s, db.suppliers.find? j = some s ∧ s.isActive = true ∧ mergedInto db op j = j ∧
      Flagged db.audits.values i s

/-- The answer was there before, up to the merge of this operation. -/
def AnsweredBefore (db : Database) (op : Operation) (key : String) (j : ℕ) : Prop :=
  ∃ j₀ s₀, answering db key = some (j₀, s₀) ∧ mergedInto db op j₀ = j

/-- With registry and merges unchanged, the answers are the same. -/
theorem answeredBefore_of_eq {db db' : Database} {op : Operation} {key : String} {j : ℕ}
    {s : Supplier} (hs : db'.suppliers = db.suppliers) (ha : db'.aliases = db.aliases)
    (hop : ∀ i, mergedInto db op i = i) (h : answering db' key = some (j, s)) :
    AnsweredBefore db op key j := by
  refine ⟨j, s, ?_, hop j⟩
  rw [answering_eq_some_iff] at h ⊢
  rwa [hs, ha] at h

/-- A registration: only its derived aliases answer anew. -/
theorem answers_register {db : Database} (hc : Consistent db) {publicId canonicalName : String}
    {country lei : Option String}
    (hguard : CoverageGuard U db (.register publicId canonicalName country lei)) {key : String}
    {j : ℕ} {s : Supplier}
    (h : answering (apply U db (.register publicId canonicalName country lei)) key = some (j, s)) :
    AnsweredBefore db (.register publicId canonicalName country lei) key j ∨
      AnswersFlagged U db (.register publicId canonicalName country lei) key j := by
  rcases apply_register U db publicId canonicalName country lei
    with heq | ⟨hfree, suppliers, aliases, heq, hsup, hali⟩
  · exact Or.inl (answeredBefore_of_eq (by rw [heq]) (by rw [heq]) (fun _ => rfl) h)
  · rw [heq, answering_eq_some_iff] at h
    obtain ⟨hs, hactive, a, ha, rfl, rfl⟩ := h
    rw [UniqueTable.values_of_insertAll? hali, List.mem_append] at ha
    rcases ha with ha | ha
    · -- an alias that was there: its supplier was there too
      obtain ⟨s₀, hs₀⟩ := hc.supplierOfAlias a ha
      have hne : a.supplierId ≠ db.suppliers.nextId := by
        intro hid
        rw [hid, Table.find?_nextId] at hs₀
        cases hs₀
      rw [find?_of_insertAll?_singleton hsup, if_neg hne] at hs
      exact Or.inl ⟨a.supplierId, s, answering_eq_some_iff.mpr ⟨hs, hactive, a, ha, rfl, rfl⟩, rfl⟩
    · right
      rintro i hi ⟨name, hname, hkey⟩
      refine absurd ?_ (hguard.2 hfree i hi name hname)
      rw [hkey]
      obtain ⟨⟨form, index⟩, hform, rfl⟩ := List.mem_map.mp ha
      exact (List.mem_zipIdx hform).2.2 ▸ List.getElem_mem _

/-- An alias added to a supplier answers anew when the supplier is active. -/
theorem answers_addAlias {db : Database} {supplierId : ℕ} {aliasName : String}
    {source : AliasSource}
    (hguard : CoverageGuard U db (.addAlias supplierId aliasName source)) {key : String}
    {j : ℕ} {s : Supplier}
    (h : answering (apply U db (.addAlias supplierId aliasName source)) key = some (j, s)) :
    AnsweredBefore db (.addAlias supplierId aliasName source) key j ∨
      AnswersFlagged U db (.addAlias supplierId aliasName source) key j := by
  rcases apply_addAlias U db supplierId aliasName source with heq | ⟨-, hfree, aliases, heq, hali⟩
  · exact Or.inl (answeredBefore_of_eq (by rw [heq]) (by rw [heq]) (fun _ => rfl) h)
  · rw [heq, answering_eq_some_iff] at h
    obtain ⟨hs, hactive, a, ha, rfl, rfl⟩ := h
    rw [UniqueTable.values_of_insertAll? hali, List.mem_append, List.mem_singleton] at ha
    rcases ha with ha | rfl
    · exact Or.inl ⟨a.supplierId, s, answering_eq_some_iff.mpr ⟨hs, hactive, a, ha, rfl, rfl⟩, rfl⟩
    · right
      intro i hi hname
      refine ⟨s, hs, hactive, rfl, ?_⟩
      by_contra hflag
      dsimp only at hname hflag
      exact hguard.2 s hs hactive hfree ⟨i, hi, hname, hflag⟩

/-- A merge: the survivor answers for the loser. -/
theorem answers_merge {db : Database} {keepId mergeId : ℕ}
    (hguard : CoverageGuard U db (.merge keepId mergeId)) {key : String} {j : ℕ} {s : Supplier}
    (h : answering (apply U db (.merge keepId mergeId)) key = some (j, s)) :
    AnsweredBefore db (.merge keepId mergeId) key j ∨
      AnswersFlagged U db (.merge keepId mergeId) key j := by
  cases hok : mergeSuppliers db keepId mergeId with
  | error e =>
      rw [apply, hok] at h
      exact Or.inl ⟨j, s, h, by rw [mergedInto, hok]⟩
  | ok db' =>
      obtain ⟨hne, -, ⟨l, hl⟩, heq⟩ := mergeSuppliers_eq_ok hok
      rw [apply, hok, committed, heq, answering_eq_some_iff] at h
      obtain ⟨hs, hactive, a, ha, rfl, rfl⟩ := h
      rw [find?_deactivate, Option.map_eq_some_iff] at hs
      obtain ⟨s₀, hs₀, hs⟩ := hs
      have hkept : a.supplierId ≠ mergeId := by
        intro hid
        rw [if_pos hid] at hs
        rw [← hs] at hactive
        cases hactive
      rw [if_neg hkept] at hs
      subst hs
      obtain ⟨b, hb, rfl⟩ := mem_values_moveAliases.mp ha
      by_cases hmoved : b.supplierId = mergeId
      · rw [if_pos hmoved] at hs₀ ⊢
        cases hlactive : l.isActive with
        | true =>
            refine Or.inl ⟨mergeId, l, ?_, by rw [mergedInto_of_eq_ok hok, if_pos rfl]⟩
            exact answering_eq_some_iff.mpr ⟨hl, hlactive, b, hb, rfl, hmoved⟩
        | false =>
            right
            intro i hi hname
            refine ⟨s₀, hs₀, hactive, by rw [mergedInto_of_eq_ok hok, if_neg hne], ?_⟩
            by_contra hflag
            exact hguard.2 s₀ l hs₀ hactive hl hlactive b hb hmoved ⟨i, hi, hname, hflag⟩
      · rw [if_neg hmoved] at hs₀ ⊢
        refine Or.inl ⟨b.supplierId, s₀, ?_, by rw [mergedInto_of_eq_ok hok, if_neg hmoved]⟩
        exact answering_eq_some_iff.mpr ⟨hs₀, hactive, b, hb, rfl, rfl⟩

/-- **Who answers after a guarded operation**: whoever answered before, or a supplier
the screened designations are flagged for. -/
theorem answering_apply {db : Database} (hc : Consistent db) {op : Operation}
    (hguard : CoverageGuard U db op) {key : String} {j : ℕ} {s : Supplier}
    (h : answering (apply U db op) key = some (j, s)) :
    AnsweredBefore db op key j ∨ AnswersFlagged U db op key j := by
  cases op with
  | ingest raw => exact Or.inl (answeredBefore_of_eq rfl rfl (fun _ => rfl) h)
  | enrich processed =>
      rcases apply_enrich U hc processed with heq | ⟨-, hfree, mentions, heq, -⟩
      · exact Or.inl (answeredBefore_of_eq (by rw [heq]) (by rw [heq]) (fun _ => rfl) h)
      · exact Or.inl (answeredBefore_of_eq (by rw [heq]) (by rw [heq]) (fun _ => rfl) h)
  | screen limit =>
      rcases apply_screen U db limit with heq | ⟨summary, hok⟩
      · exact Or.inl (answeredBefore_of_eq (by rw [heq]) (by rw [heq]) (fun _ => rfl) h)
      · obtain ⟨mentions, audits, heq, -, -⟩ := screenProcessedArticles_eq_ok U hok
        exact Or.inl (answeredBefore_of_eq (by rw [heq]) (by rw [heq]) (fun _ => rfl) h)
  | backfill batchSize =>
      have hm := mentioned_backfillSupplierIdentity U db batchSize
      exact Or.inl (answeredBefore_of_eq hm.suppliers hm.aliases (fun _ => rfl) h)
  | register publicId canonicalName country lei => exact answers_register U hc hguard h
  | addAlias supplierId aliasName source => exact answers_addAlias U hguard h
  | merge keepId mergeId => exact answers_merge U hguard h

/-! ## The invariant is kept -/

/-- Active and future suppliers stay their own survivors. -/
theorem survives_apply {tr : List (Database × Operation)} {db : Database}
    (hcov : Covered U tr db) (op : Operation) {j : ℕ}
    (hj : ∀ s, (apply U db op).suppliers.find? j = some s → s.isActive = true) :
    survivor ((db, op) :: tr) j = j := by
  rw [survivor_cons]
  cases hs : db.suppliers.find? j with
  | none =>
      rw [hcov.survives j (by rw [hs]; intro s hs'; cases hs')]
      exact mergedInto_of_find?_eq_none hs
  | some s =>
      obtain ⟨s', hs', -, hactive⟩ := supplier_apply U hcov.consistent op hs
      obtain ⟨hbefore, hstay⟩ := hactive (hj s' hs')
      rw [hcov.survives j, hstay]
      intro s₀ hs₀
      rw [hs, Option.some.injEq] at hs₀
      rwa [← hs₀]

/-- A designation screened before stays audited. -/
theorem audited_apply_of_screened {tr : List (Database × Operation)} {db : Database}
    (hcov : Covered U tr db) {op : Operation} (hguard : CoverageGuard U db op) {i : ℕ}
    (hi : i ∈ alreadyScreened db) : Audited U ((db, op) :: tr) (apply U db op) i := by
  have hc := hcov.consistent
  obtain ⟨p, hp⟩ := hc.articleOfMention i hi
  obtain ⟨hraws, hprocessed⟩ := extends_apply U hc op
  intro name hname j s hne hans
  rw [articleNames_of_extends hc hraws hprocessed hp] at hname
  rcases answering_apply U hc hguard hans with ⟨j₀, s₀, hans₀, rfl⟩ | hflagged
  · exact flaggedFor_apply U hc op (hcov.audited i hi name hname j₀ s₀ hne hans₀)
  · obtain ⟨s₁, hs₁, hactive, hstay, hflag⟩ := hflagged i hi ⟨name, hname, rfl⟩
    have hsurv : survivor tr j = j := by
      apply hcov.survives
      intro s₂ hs₂
      rw [hs₁, Option.some.injEq] at hs₂
      rwa [← hs₂]
    rw [← hstay]
    exact flaggedFor_apply U hc op ⟨j, s₁, hsurv, hs₁, hflag⟩

/-- A designation screened by this run is audited. -/
theorem audited_screen {tr : List (Database × Operation)} {db : Database}
    (hcov : Covered U tr db) {limit i : ℕ} {summary : ScreeningRunSummary}
    (hok : screenProcessedArticles U db limit = .ok (apply U db (.screen limit), summary))
    {payload : RawPayload} (hrow : (i, payload) ∈ screeningRows db limit) :
    Audited U ((db, .screen limit) :: tr) (apply U db (.screen limit)) i := by
  have hc := hcov.consistent
  obtain ⟨-, p, raw, hp, -, -⟩ := mem_screeningCandidates.mp (List.mem_of_mem_take hrow)
  obtain ⟨hraws, hprocessed⟩ := extends_apply U hc (.screen limit)
  obtain ⟨mentions, audits, heq, -, -⟩ := screenProcessedArticles_eq_ok U hok
  intro name hname j s hne hans
  rw [articleNames_of_extends hc hraws hprocessed (Table.find?_eq_some_iff.mpr hp),
    articleNames_of_mem_screeningCandidates (List.mem_of_mem_take hrow)] at hname
  have hs : (apply U db (.screen limit)).suppliers.find? j = some s := (answering_eq_some hans).1
  have hactive : s.isActive = true := (answering_eq_some hans).2.1
  have hans₀ : answering db (normalize U name) = some (j, s) := by
    rw [answering_eq_some_iff, heq] at hans
    exact answering_eq_some_iff.mpr hans
  refine ⟨j, s, ?_, hs, ?_⟩
  · apply survives_apply U hcov
    intro s' hs'
    rw [hs, Option.some.injEq] at hs'
    rwa [← hs']
  · have hres : (resolve U db name).supplierId = some j := by
      rw [resolve_eq_resolutionOf, supplierId_resolutionOf_eq_some_iff]
      exact ⟨hne, s, hans₀⟩
    have hflag := flagged_of_mem_screeningRows U hok hrow hname hres (answering_eq_some hans₀).1
    exact hflag.mono (List.drop_subset _ _)

/-- **A guarded operation keeps the invariant.** -/
theorem covered_apply {tr : List (Database × Operation)} {db : Database}
    (hcov : Covered U tr db) {op : Operation} (hguard : CoverageGuard U db op) :
    Covered U ((db, op) :: tr) (apply U db op) := by
  have hc := hcov.consistent
  refine ⟨consistent_apply U hc op, fun j hj => survives_apply U hcov op hj, ?_⟩
  intro i hi
  rcases mentionSource_of_apply U hc hi with hold | hsource
  · exact audited_apply_of_screened U hcov hguard hold
  · obtain ⟨hraws, hprocessed⟩ := extends_apply U hc op
    cases op with
    | enrich processed =>
        obtain ⟨rfl, hsaves, hne⟩ := hsource
        obtain ⟨raw, hraw⟩ := hsaves.1
        intro name hname
        rcases apply_enrich U hc processed with heq | ⟨-, hfree, mentions, heq, -⟩
        · rw [heq] at hi
          exact absurd hi (nextId_notMem_alreadyScreened hc)
        · rw [heq, articleNames_nextId_enrich hraw] at hname
          refine absurd (hguard.1 ?_ hsaves) hne
          rw [hraw]
          exact List.ne_nil_of_mem hname
    | screen limit =>
        obtain ⟨⟨summary, hok⟩, payload, hrow⟩ := hsource
        exact audited_screen U hcov hok hrow
    | backfill batchSize =>
        obtain ⟨p, hp, hne⟩ := hsource
        by_cases hold : i ∈ alreadyScreened db
        · exact audited_apply_of_screened U hcov hguard hold
        · intro name hname
          rw [articleNames_of_extends hc hraws hprocessed hp] at hname
          exact absurd (hguard.1 i p hp (List.ne_nil_of_mem hname) hold) hne
    | ingest raw => exact hsource.elim
    | register publicId canonicalName country lei => exact hsource.elim
    | addAlias supplierId aliasName source => exact hsource.elim
    | merge keepId mergeId => exact hsource.elim

/-- The invariant holds after every guarded run. -/
theorem covered_of_execution {db₀ db : Database} {tr : List (Database × Operation)}
    (hinit : Initial db₀) (h : Execution (step U) (CoverageGuard U) db₀ tr db) :
    Covered U tr db := by
  refine h.traceInvariant ⟨hinit.consistent, fun _ _ => rfl, ?_⟩ ?_
  · intro i hi
    rw [hinit.noMention] at hi
    cases hi
  · intro tr p op q hcov hguard hq
    rw [← Option.some.inj hq]
    exact covered_apply U hcov hguard

/-- **No unaudited match.**  After a guarded run that leaves nothing to screen, every
designation is flagged for every supplier a name of it resolves to, or for a supplier
merged into that one. -/
theorem every_match_audited {db₀ db : Database} {tr : List (Database × Operation)}
    (hinit : Initial db₀) (h : Execution (step U) (CoverageGuard U) db₀ tr db)
    (hleft : ∀ row ∈ pending db, ∀ name ∈ RawPayload.designationNames (some row.2),
      normalize U name = "")
    {i j : ℕ} {name : String} (hname : name ∈ articleNames db i)
    (hres : (resolve U db name).supplierId = some j) : FlaggedFor tr db i j := by
  rw [resolve_eq_resolutionOf, supplierId_resolutionOf_eq_some_iff] at hres
  obtain ⟨hne, s, hans⟩ := hres
  have hscreened : i ∈ alreadyScreened db := by
    by_contra hnot
    obtain ⟨payload, hcand, hnames⟩ :=
      exists_mem_screeningCandidates hnot (List.ne_nil_of_mem hname)
    have hpend : (i, payload) ∈ pending db := by
      refine List.mem_filter.mpr ⟨hcand, ?_⟩
      rw [decide_eq_true_eq, hnames]
      exact List.ne_nil_of_mem hname
    refine hne (hleft _ hpend name ?_)
    rwa [hnames]
  exact (covered_of_execution U hinit h).audited i hscreened name hname j s hne hans

/-- A supplier registered before the designation is screened, and one registered under a
spelling no designation carries after it. -/
theorem every_match_audited_registered : ∃ db tr,
    Execution (step Unicode.ascii) (CoverageGuard Unicode.ascii) Database.empty tr db ∧
      FlaggedFor tr db 1 1 := by
  have hrun : Execution (step Unicode.ascii) (CoverageGuard Unicode.ascii) Database.empty _ _ :=
    execution_snoc _ (execution_snoc _ (execution_snoc _ (execution_snoc _ (execution_snoc _
      (execution_snoc _ Execution.nil
      (.register "p1" "Acme" none none) ⟨trivial, fun _ i hi => by cases hi⟩)
      (.ingest ⟨some (.object (some ["Acme"]))⟩) ⟨trivial, trivial⟩)
      (.enrich ⟨1, none⟩) ⟨fun _ _ => rfl, trivial⟩)
      (.screen 1000) ⟨trivial, trivial⟩)
      (.register "p2" "Bolt" none none) ⟨trivial, fun _ => by decide +kernel⟩)
      (.screen 1000) ⟨trivial, trivial⟩
  refine ⟨_, _, hrun, ?_⟩
  apply every_match_audited Unicode.ascii initial_empty hrun
  · decide +kernel
  · show "Acme" ∈ _
    decide +kernel
  · decide +kernel

/-- **A late registration goes unaudited.**  The designation of `Acme` is screened before
`Acme` is registered; the backfill and the screening run that follow leave nothing to
screen, the name resolves, and no match was ever audited. -/
theorem match_unaudited : ∃ db tr,
    Execution (step Unicode.ascii) unguarded Database.empty tr db ∧ pending db = [] ∧
      "Acme" ∈ articleNames db 1 ∧ (resolve Unicode.ascii db "Acme").supplierId = some 1 ∧
      ¬ FlaggedFor tr db 1 1 := by
  have hrun : Execution (step Unicode.ascii) unguarded Database.empty _ _ :=
    execution_snoc _ (execution_snoc _ (execution_snoc _ (execution_snoc _ (execution_snoc _
      (execution_snoc _ Execution.nil
      (.ingest ⟨some (.object (some ["Acme"]))⟩) trivial)
      (.enrich ⟨1, none⟩) trivial)
      (.screen 1000) trivial)
      (.register "p1" "Acme" none none) trivial)
      (.backfill 500) trivial)
      (.screen 1000) trivial
  refine ⟨_, _, hrun, by decide +kernel, by decide +kernel, by decide +kernel, ?_⟩
  rintro ⟨j', s', -, -, a, ha, haction, -⟩
  revert a
  decide +kernel

end ProcureSignal.Suppliers
