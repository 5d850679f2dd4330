/-
# The supplier subsystem as a whole

The operations that write suppliers, articles, mentions and sanctions audit records,
each as its caller commits it: a rejected call leaves the database as it was, a
backfill keeps the batches it had committed.

* `apply` : one operation; `step` is the same as a step of an execution;
* `Consistent` : the foreign keys, kept by every operation (`consistent_apply`);
* `mentionSource_of_apply` : where an article's first mention can come from.
-/
import ProcureSignal.Library.Execution
import ProcureSignal.Suppliers.Backfill
import ProcureSignal.Suppliers.Screening

namespace ProcureSignal.Suppliers

variable (U : Unicode)

/-! ## Operations -/

/-- A call made by a worker task or an API handler. -/
inductive Operation
  | ingest (raw : NewsArticleRaw)
  | enrich (processed : NewsArticleProcessed)
  | screen (limit : ℕ)
  | backfill (batchSize : ℕ)
  | register (publicId canonicalName : String) (country lei : Option String)
  | addAlias (supplierId : ℕ) (aliasName : String) (source : AliasSource)
  | merge (keepId mergeId : ℕ)

/-- What is committed after a call that returns the new database or raises. -/
def committed (db : Database) : Except ServiceError Database → Database
  | .ok db' => db'
  | .error _ => db

/-- The database after an operation. -/
def apply (db : Database) : Operation → Database
  | .ingest raw => { db with raws := db.raws.insert raw }
  | .enrich processed => committed db ((addProcessed U db processed).map (·.1))
  | .screen limit => screenRun U db limit
  | .backfill batchSize => (backfillSupplierIdentity U db batchSize).1
  | .register publicId canonicalName country lei =>
      committed db ((registerSupplier U db publicId canonicalName country lei).map (·.1))
  | .addAlias supplierId aliasName source =>
      committed db ((addAlias U db supplierId aliasName source).map (·.1))
  | .merge keepId mergeId => committed db (mergeSuppliers db keepId mergeId)

/-- Operations run one after the other; each is enabled everywhere. -/
def step (db : Database) (op : Operation) : Option Database := some (apply U db op)

/-- Every operation extends a run. -/
theorem execution_snoc {G : Database → Operation → Prop} {db₀ db : Database}
    {tr : List (Database × Operation)} (h : Execution (step U) G db₀ tr db) (op : Operation)
    (hG : G db op) : Execution (step U) G db₀ ((db, op) :: tr) (apply U db op) :=
  h.snoc hG rfl

/-- What is committed is the result of an accepted call, or nothing new. -/
theorem committed_map {α : Type} (db : Database) (r : Except ServiceError (Database × α)) :
    (committed db (r.map (·.1)) = db ∧ ∃ e, r = .error e) ∨
      ∃ a, r = .ok (committed db (r.map (·.1)), a) := by
  cases r with
  | error e => exact Or.inl ⟨rfl, e, rfl⟩
  | ok r => exact Or.inr ⟨r.2, rfl⟩

/-! ## The designation behind an article -/

/-- `designation_names` of the raw article a processed article was made from. -/
def articleNames (db : Database) (articleId : ℕ) : List String :=
  match db.processed.find? articleId with
  | some p => RawPayload.designationNames ((db.raws.find? p.rawArticleId).bind (·.rawPayloadJson))
  | none => []

/-- A candidate of the screening query is read with its own designation names. -/
theorem articleNames_of_mem_screeningCandidates {db : Database} {i : ℕ} {payload : RawPayload}
    (h : (i, payload) ∈ screeningCandidates db) :
    articleNames db i = RawPayload.designationNames (some payload) := by
  obtain ⟨-, p, raw, hp, hraw, hpay⟩ := mem_screeningCandidates.mp h
  rw [articleNames, Table.find?_eq_some_iff.mpr hp]
  simp [hraw, hpay]

/-- An unscreened designation is a candidate of the screening query. -/
theorem exists_mem_screeningCandidates {db : Database} {i : ℕ} (hi : i ∉ alreadyScreened db)
    (hd : articleNames db i ≠ []) :
    ∃ payload, (i, payload) ∈ screeningCandidates db ∧
      RawPayload.designationNames (some payload) = articleNames db i := by
  unfold articleNames at hd ⊢
  cases hp : db.processed.find? i with
  | none => simp [hp] at hd
  | some p =>
      cases hraw : db.raws.find? p.rawArticleId with
      | none => simp [hp, hraw, RawPayload.designationNames] at hd
      | some raw =>
          cases hpay : raw.rawPayloadJson with
          | none => simp [hp, hraw, hpay, RawPayload.designationNames] at hd
          | some payload =>
              refine ⟨payload, mem_screeningCandidates.mpr ⟨hi, p, raw, ?_, hraw, hpay⟩, ?_⟩
              · exact Table.find?_eq_some_iff.mp hp
              · simp [hraw, hpay]

/-! ## Foreign keys -/

/-- The foreign keys of the tables the operations write. -/
structure Consistent (db : Database) : Prop where
  rawOfProcessed : ∀ p ∈ db.processed.values, ∃ raw, db.raws.find? p.rawArticleId = some raw
  supplierOfAlias : ∀ a ∈ db.aliases.values, ∃ s, db.suppliers.find? a.supplierId = some s
  articleOfMention : ∀ i ∈ alreadyScreened db, ∃ p, db.processed.find? i = some p

/-- The designation names of an article stay when the articles behind it stay. -/
theorem articleNames_of_extends {db db' : Database} (hc : Consistent db)
    (hraws : db'.raws.Extends db.raws)
    (hprocessed : db'.processed.Extends db.processed.toTable) {i : ℕ} {p : NewsArticleProcessed}
    (hp : db.processed.find? i = some p) : articleNames db' i = articleNames db i := by
  obtain ⟨raw, hraw⟩ := hc.rawOfProcessed p
    (Table.mem_values.mpr ⟨i, Table.find?_eq_some_iff.mp hp⟩)
  simp only [articleNames, hp, hprocessed i p hp, hraw, hraws _ _ hraw]

/-! ## What each operation does to articles and mentions -/

/-- A stored article: the raw article exists, is not processed yet, and every usable
detected name fits the column. -/
def Saves (db : Database) (processed : NewsArticleProcessed) : Prop :=
  (∃ raw, db.raws.find? processed.rawArticleId = some raw) ∧ db.processed.Free processed ∧
    ∀ f ∈ distinctSurfaceForms U (processed.detectedSuppliers.getD []), f.length ≤ 300

/-- An article key not handed out yet carries no mention. -/
theorem nextId_notMem_alreadyScreened {db : Database} (hc : Consistent db) :
    db.processed.nextId ∉ alreadyScreened db := by
  intro h
  obtain ⟨p, hp⟩ := hc.articleOfMention _ h
  exact Table.notMem_of_nextId_le le_rfl p (Table.find?_eq_some_iff.mp hp)

/-- **Enrichment**: nothing, or one new article that carries a mention exactly when a
detected name is usable. -/
theorem addProcessed_eq_ok {db db' : Database} (hc : Consistent db)
    {processed : NewsArticleProcessed} {added : Bool}
    (h : addProcessed U db processed = .ok (db', added)) :
    db' = db ∨
      (Saves U db processed ∧ ∃ (hfree : db.processed.Free processed) (mentions : MentionTable),
        db' = { db with processed := db.processed.insertFree processed hfree, mentions := mentions } ∧
        (∀ i, i ∈ alreadyScreened db' ↔ i ∈ alreadyScreened db ∨
          (i = db.processed.nextId ∧
            distinctSurfaceForms U (processed.detectedSuppliers.getD []) ≠ []))) := by
  unfold addProcessed at h
  split at h
  · rename_i raw table hraw htable
    obtain ⟨hfree, rfl⟩ := UniqueTable.insert?_eq_some_iff.mp htable
    split at h
    · rename_i db₁ resolutions hrec
      rw [Except.ok.injEq, Prod.mk.injEq] at h
      obtain ⟨rfl, -⟩ := h
      obtain ⟨mentions, heq, -, hfits⟩ := recordMentions_eq_ok U hrec
      refine Or.inr ⟨⟨⟨raw, hraw⟩, hfree, ?_⟩, hfree, mentions, heq, ?_⟩
      · -- the article is new, so every usable spelling is a new spelling
        intro f hf
        refine hfits f (List.mem_filter.mpr ⟨hf, ?_⟩)
        have hnone : f ∉ alreadyRecorded
            { db with processed := db.processed.insertFree processed hfree }
            db.processed.nextId := by
          intro hrecd
          obtain ⟨m, hm, -⟩ := List.mem_map.mp hrecd
          obtain ⟨hm, hid⟩ := List.mem_filter.mp hm
          refine nextId_notMem_alreadyScreened hc (List.mem_map.mpr ⟨m, hm, ?_⟩)
          simpa using hid
        simpa using hnone
      · have hiff := mem_alreadyScreened_recordMentions U hrec
        exact hiff
    · cases h
  · rw [Except.ok.injEq, Prod.mk.injEq] at h
    exact Or.inl h.1.symm

/-- An enrichment step, with the rejected one. -/
theorem apply_enrich {db : Database} (hc : Consistent db) (processed : NewsArticleProcessed) :
    apply U db (.enrich processed) = db ∨
      (Saves U db processed ∧ ∃ (hfree : db.processed.Free processed) (mentions : MentionTable),
        apply U db (.enrich processed)
          = { db with processed := db.processed.insertFree processed hfree, mentions := mentions } ∧
        (∀ i, i ∈ alreadyScreened (apply U db (.enrich processed)) ↔ i ∈ alreadyScreened db ∨
          (i = db.processed.nextId ∧
            distinctSurfaceForms U (processed.detectedSuppliers.getD []) ≠ []))) := by
  rcases committed_map db (addProcessed U db processed) with ⟨heq, -⟩ | ⟨added, hok⟩
  · exact Or.inl heq
  · exact addProcessed_eq_ok U hc hok

/-- A screening step commits what `screen_processed_articles` returned, or nothing. -/
theorem apply_screen (db : Database) (limit : ℕ) :
    apply U db (.screen limit) = db ∨
      ∃ summary, screenProcessedArticles U db limit
        = .ok (apply U db (.screen limit), summary) := by
  show screenRun U db limit = db ∨ ∃ summary, _ = Except.ok (screenRun U db limit, summary)
  unfold screenRun
  cases h : screenProcessedArticles U db limit with
  | ok r => exact Or.inr ⟨r.2, rfl⟩
  | error e => exact Or.inl rfl

/-- A registration step, with the rejected one. -/
theorem apply_register (db : Database) (publicId canonicalName : String)
    (country lei : Option String) :
    apply U db (.register publicId canonicalName country lei) = db ∨
      (∀ form ∈ aliasForms U canonicalName, aliasHolder db form = none) ∧ ∃ suppliers aliases,
        apply U db (.register publicId canonicalName country lei)
          = { db with suppliers := suppliers, aliases := aliases } ∧
        db.suppliers.insertAll? [⟨publicId, U.strip canonicalName, normalize U canonicalName,
          country, lei, true⟩] = some suppliers ∧
        db.aliases.insertAll? (derivedAliases U db.suppliers.nextId canonicalName)
          = some aliases := by
  rcases committed_map db (registerSupplier U db publicId canonicalName country lei)
    with ⟨heq, -⟩ | ⟨supplierId, hok⟩
  · exact Or.inl heq
  · obtain ⟨-, rfl, hfree, suppliers, aliases, heq, hsup, hali⟩ := registerSupplier_eq_ok U hok
    exact Or.inr ⟨hfree, suppliers, aliases, heq, hsup, hali⟩

/-- An alias step, with the rejected one. -/
theorem apply_addAlias (db : Database) (supplierId : ℕ) (aliasName : String)
    (source : AliasSource) :
    apply U db (.addAlias supplierId aliasName source) = db ∨
      (∃ s, db.suppliers.find? supplierId = some s) ∧
        aliasHolder db (normalize U aliasName) = none ∧ ∃ aliases,
        apply U db (.addAlias supplierId aliasName source) = { db with aliases := aliases } ∧
        db.aliases.insertAll? [⟨supplierId, aliasName, normalize U aliasName, source⟩]
          = some aliases := by
  rcases committed_map db (addAlias U db supplierId aliasName source) with ⟨heq, -⟩ | ⟨record, hok⟩
  · exact Or.inl heq
  · rcases addAlias_eq_ok U hok with ⟨heq, -⟩ | ⟨hs, -, hfree, aliases, heq, hali⟩
    · exact Or.inl heq
    · exact Or.inr ⟨hs, hfree, aliases, heq, hali⟩

/-- A merge step, with the rejected one. -/
theorem apply_merge (db : Database) (keepId mergeId : ℕ) :
    apply U db (.merge keepId mergeId) = db ∨
      (keepId ≠ mergeId ∧ (∃ s, db.suppliers.find? keepId = some s) ∧
        (∃ s, db.suppliers.find? mergeId = some s) ∧
        apply U db (.merge keepId mergeId) = { db with
          aliases := moveAliases db.aliases keepId mergeId
          mentions := moveMentions db.mentions keepId mergeId
          suppliers := deactivate db.suppliers mergeId }) := by
  have happ : apply U db (.merge keepId mergeId) = committed db (mergeSuppliers db keepId mergeId) :=
    rfl
  rw [happ]
  cases hok : mergeSuppliers db keepId mergeId with
  | error e => exact Or.inl rfl
  | ok db' => exact Or.inr (mergeSuppliers_eq_ok hok)

/-- The articles of mentions that change supplier stay. -/
theorem alreadyScreened_moveMentions (db : Database) (keepId mergeId : ℕ) :
    (moveMentions db.mentions keepId mergeId).values.map (·.processedArticleId)
      = alreadyScreened db := by
  unfold moveMentions
  simp only [alreadyScreened, UniqueTable.toTable_update, Table.update, Table.values,
    Table.modify, List.map_map]
  apply List.map_congr_left
  intro r _hr
  simp only [Function.comp]
  split <;> rfl

/-- The operations that write only suppliers, aliases and suppliers of mentions. -/
structure RegistryOnly (db db' : Database) : Prop where
  raws : db'.raws = db.raws
  processed : db'.processed = db.processed
  audits : db'.audits = db.audits
  screened : alreadyScreened db' = alreadyScreened db

theorem registryOnly_register (db : Database) (publicId canonicalName : String)
    (country lei : Option String) :
    RegistryOnly db (apply U db (.register publicId canonicalName country lei)) := by
  rcases apply_register U db publicId canonicalName country lei
    with heq | ⟨-, suppliers, aliases, heq, -, -⟩
  · rw [heq]
    exact ⟨rfl, rfl, rfl, rfl⟩
  · rw [heq]
    exact ⟨rfl, rfl, rfl, rfl⟩

theorem registryOnly_addAlias (db : Database) (supplierId : ℕ) (aliasName : String)
    (source : AliasSource) :
    RegistryOnly db (apply U db (.addAlias supplierId aliasName source)) := by
  rcases apply_addAlias U db supplierId aliasName source with heq | ⟨-, -, aliases, heq, -⟩
  · rw [heq]
    exact ⟨rfl, rfl, rfl, rfl⟩
  · rw [heq]
    exact ⟨rfl, rfl, rfl, rfl⟩

theorem registryOnly_merge (db : Database) (keepId mergeId : ℕ) :
    RegistryOnly db (apply U db (.merge keepId mergeId)) := by
  rcases apply_merge U db keepId mergeId with heq | ⟨-, -, -, heq⟩
  · rw [heq]
    exact ⟨rfl, rfl, rfl, rfl⟩
  · rw [heq]
    exact ⟨rfl, rfl, rfl, alreadyScreened_moveMentions db keepId mergeId⟩

/-- Where the first mention of an article comes from. -/
def MentionSource (db : Database) (i : ℕ) : Operation → Prop
  | .enrich processed => i = db.processed.nextId ∧ Saves U db processed ∧
      distinctSurfaceForms U (processed.detectedSuppliers.getD []) ≠ []
  | .screen limit => (∃ summary,
        screenProcessedArticles U db limit = .ok (apply U db (.screen limit), summary)) ∧
      ∃ payload, (i, payload) ∈ screeningRows db limit
  | .backfill _ => ∃ p, db.processed.find? i = some p ∧
      distinctSurfaceForms U (p.detectedSuppliers.getD []) ≠ []
  | _ => False

/-- **Only enrichment, screening and backfill give an article its first mention.** -/
theorem mentionSource_of_apply {db : Database} (hc : Consistent db) {op : Operation} {i : ℕ}
    (hi : i ∈ alreadyScreened (apply U db op)) :
    i ∈ alreadyScreened db ∨ MentionSource U db i op := by
  cases op with
  | ingest raw => exact Or.inl hi
  | enrich processed =>
      rcases apply_enrich U hc processed with heq | ⟨hsaves, hfree, mentions, -, hiff⟩
      · exact Or.inl (by rwa [heq] at hi)
      · rcases (hiff i).mp hi with hold | ⟨rfl, hne⟩
        · exact Or.inl hold
        · exact Or.inr ⟨rfl, hsaves, hne⟩
  | screen limit =>
      rcases apply_screen U db limit with heq | ⟨summary, hok⟩
      · exact Or.inl (by rwa [heq] at hi)
      · obtain ⟨mentions, audits, -, -, hiff⟩ := screenProcessedArticles_eq_ok U hok
        rcases (hiff i).mp hi with hold | ⟨row, hrow, rfl, -⟩
        · exact Or.inl hold
        · exact Or.inr ⟨⟨summary, hok⟩, row.2, hrow⟩
  | backfill batchSize =>
      rcases (mentioned_backfillSupplierIdentity U db batchSize).gained i hi with hold | ⟨p, hp, hne⟩
      · exact Or.inl hold
      · exact Or.inr ⟨p, Table.find?_eq_some_iff.mpr hp, hne⟩
  | register publicId canonicalName country lei =>
      exact Or.inl (by rwa [(registryOnly_register U db publicId canonicalName country lei).screened] at hi)
  | addAlias supplierId aliasName source =>
      exact Or.inl (by rwa [(registryOnly_addAlias U db supplierId aliasName source).screened] at hi)
  | merge keepId mergeId =>
      exact Or.inl (by rwa [(registryOnly_merge U db keepId mergeId).screened] at hi)

/-- Articles are never lost or rewritten. -/
theorem extends_apply {db : Database} (hc : Consistent db) (op : Operation) :
    (apply U db op).raws.Extends db.raws ∧
      (apply U db op).processed.Extends db.processed.toTable := by
  have hrefl : db.raws.Extends db.raws ∧ db.processed.Extends db.processed.toTable :=
    ⟨Table.Extends.refl _, Table.Extends.refl _⟩
  cases op with
  | ingest raw => exact ⟨Table.extends_insert _ _, Table.Extends.refl _⟩
  | enrich processed =>
      rcases apply_enrich U hc processed with heq | ⟨-, hfree, mentions, heq, -⟩
      · rwa [heq]
      · rw [heq]
        exact ⟨Table.Extends.refl _, Table.extends_insert _ _⟩
  | screen limit =>
      rcases apply_screen U db limit with heq | ⟨summary, hok⟩
      · rwa [heq]
      · obtain ⟨mentions, audits, heq, -, -⟩ := screenProcessedArticles_eq_ok U hok
        rwa [heq]
  | backfill batchSize =>
      have hm := mentioned_backfillSupplierIdentity U db batchSize
      rwa [apply, hm.raws, hm.processed]
  | register publicId canonicalName country lei =>
      have hr := registryOnly_register U db publicId canonicalName country lei
      rwa [hr.raws, hr.processed]
  | addAlias supplierId aliasName source =>
      have hr := registryOnly_addAlias U db supplierId aliasName source
      rwa [hr.raws, hr.processed]
  | merge keepId mergeId =>
      have hr := registryOnly_merge U db keepId mergeId
      rwa [hr.raws, hr.processed]

/-! ## The foreign keys are kept -/

/-- Mentions stay on stored articles. -/
theorem articleOfMention_apply {db : Database} (hc : Consistent db) (op : Operation) :
    ∀ i ∈ alreadyScreened (apply U db op), ∃ p, (apply U db op).processed.find? i = some p := by
  have hext := (extends_apply U hc op).2
  intro i hi
  rcases mentionSource_of_apply U hc hi with hold | hsource
  · obtain ⟨p, hp⟩ := hc.articleOfMention i hold
    exact ⟨p, hext i p hp⟩
  · cases op with
    | enrich processed =>
        obtain ⟨rfl, -, -⟩ := hsource
        rcases apply_enrich U hc processed with heq | ⟨-, hfree, mentions, heq, -⟩
        · rw [heq] at hi
          exact absurd hi (nextId_notMem_alreadyScreened hc)
        · rw [heq]
          exact ⟨processed, Table.find?_eq_some_iff.mpr (Table.mem_rows_insert.mpr (Or.inr rfl))⟩
    | screen limit =>
        obtain ⟨-, payload, hrow⟩ := hsource
        obtain ⟨-, p, -, hp, -, -⟩ := mem_screeningCandidates.mp (List.mem_of_mem_take hrow)
        exact ⟨p, hext i p (Table.find?_eq_some_iff.mpr hp)⟩
    | backfill batchSize =>
        obtain ⟨p, hp, -⟩ := hsource
        exact ⟨p, hext i p hp⟩
    | ingest raw => exact hsource.elim
    | register publicId canonicalName country lei => exact hsource.elim
    | addAlias supplierId aliasName source => exact hsource.elim
    | merge keepId mergeId => exact hsource.elim

/-- Processed articles keep their raw article. -/
theorem rawOfProcessed_apply {db : Database} (hc : Consistent db) (op : Operation) :
    ∀ p ∈ (apply U db op).processed.values,
      ∃ raw, (apply U db op).raws.find? p.rawArticleId = some raw := by
  have hext := (extends_apply U hc op).1
  have hkept : ∀ p ∈ db.processed.values, ∃ raw, (apply U db op).raws.find? p.rawArticleId = some raw := by
    intro p hp
    obtain ⟨raw, hraw⟩ := hc.rawOfProcessed p hp
    exact ⟨raw, hext _ _ hraw⟩
  cases op with
  | enrich processed =>
      rcases apply_enrich U hc processed with heq | ⟨hsaves, hfree, mentions, heq, -⟩
      · rw [heq] at hkept ⊢
        exact hkept
      · intro p hp
        rw [heq, UniqueTable.toTable_insertFree, Table.values_insert, List.mem_append,
          List.mem_singleton] at hp
        rcases hp with hp | rfl
        · exact hkept p hp
        · obtain ⟨raw, hraw⟩ := hsaves.1
          exact ⟨raw, hext _ _ hraw⟩
  | ingest raw => exact hkept
  | screen limit =>
      rcases apply_screen U db limit with heq | ⟨summary, hok⟩
      · rw [heq] at hkept ⊢
        exact hkept
      · obtain ⟨mentions, audits, heq, -, -⟩ := screenProcessedArticles_eq_ok U hok
        rw [heq] at hkept ⊢
        exact hkept
  | backfill batchSize =>
      have hm := mentioned_backfillSupplierIdentity U db batchSize
      rwa [apply, hm.processed]
  | register publicId canonicalName country lei =>
      rwa [(registryOnly_register U db publicId canonicalName country lei).processed]
  | addAlias supplierId aliasName source =>
      rwa [(registryOnly_addAlias U db supplierId aliasName source).processed]
  | merge keepId mergeId => rwa [(registryOnly_merge U db keepId mergeId).processed]

/-- A registered supplier is found under the key its aliases carry. -/
theorem find?_of_insertAll?_singleton {suppliers suppliers' : SupplierTable} {s : Supplier}
    (h : suppliers.insertAll? [s] = some suppliers') (i : ℕ) :
    suppliers'.find? i = if i = suppliers.nextId then some s else suppliers.find? i := by
  simp only [UniqueTable.insertAll?, Option.bind_eq_some_iff, Option.some.injEq] at h
  obtain ⟨t, ht, rfl⟩ := h
  obtain ⟨hfree, rfl⟩ := UniqueTable.insert?_eq_some_iff.mp ht
  exact Table.find?_insert suppliers.toTable s i

/-- The suppliers after a merge: the loser is inactive. -/
theorem find?_deactivate (suppliers : SupplierTable) (mergeId i : ℕ) :
    (deactivate suppliers mergeId).find? i
      = (suppliers.find? i).map fun s => if i = mergeId then { s with isActive := false } else s := by
  unfold deactivate
  rw [UniqueTable.toTable_update, Table.update, Table.find?_modify]
  congr 1
  funext s
  by_cases hi : i = mergeId <;> simp [hi]

/-- The aliases after a merge. -/
theorem mem_values_moveAliases {aliases : SupplierAliasTable} {keepId mergeId : ℕ}
    {a : SupplierAlias} :
    a ∈ (moveAliases aliases keepId mergeId).values ↔ ∃ b ∈ aliases.values,
      a = if b.supplierId = mergeId then { b with supplierId := keepId } else b := by
  unfold moveAliases
  simp only [UniqueTable.toTable_update, Table.update, Table.values, Table.modify, List.map_map,
    List.mem_map, Function.comp, decide_eq_true_eq]
  constructor
  · rintro ⟨r, hr, rfl⟩
    exact ⟨r.2, ⟨r, hr, rfl⟩, rfl⟩
  · rintro ⟨b, ⟨r, hr, rfl⟩, rfl⟩
    exact ⟨r, hr, rfl⟩

/-- Aliases belong to stored suppliers. -/
theorem supplierOfAlias_apply {db : Database} (hc : Consistent db) (op : Operation) :
    ∀ a ∈ (apply U db op).aliases.values,
      ∃ s, (apply U db op).suppliers.find? a.supplierId = some s := by
  have hold := hc.supplierOfAlias
  cases op with
  | ingest raw => exact hold
  | enrich processed =>
      rcases apply_enrich U hc processed with heq | ⟨-, hfree, mentions, heq, -⟩
      · rwa [heq]
      · rwa [heq]
  | screen limit =>
      rcases apply_screen U db limit with heq | ⟨summary, hok⟩
      · rwa [heq]
      · obtain ⟨mentions, audits, heq, -, -⟩ := screenProcessedArticles_eq_ok U hok
        rwa [heq]
  | backfill batchSize =>
      have hm := mentioned_backfillSupplierIdentity U db batchSize
      rwa [apply, hm.aliases, hm.suppliers]
  | register publicId canonicalName country lei =>
      rcases apply_register U db publicId canonicalName country lei
        with heq | ⟨-, suppliers, aliases, heq, hsup, hali⟩
      · rwa [heq]
      · rw [heq]
        intro a ha
        rw [UniqueTable.values_of_insertAll? hali] at ha
        rw [find?_of_insertAll?_singleton hsup]
        rcases List.mem_append.mp ha with ha | ha
        · split
          · exact ⟨_, rfl⟩
          · exact hold a ha
        · obtain ⟨⟨form, index⟩, -, rfl⟩ := List.mem_map.mp ha
          exact ⟨_, if_pos rfl⟩
  | addAlias supplierId aliasName source =>
      rcases apply_addAlias U db supplierId aliasName source with heq | ⟨hs, -, aliases, heq, hali⟩
      · rwa [heq]
      · rw [heq]
        intro a ha
        rw [UniqueTable.values_of_insertAll? hali, List.mem_append, List.mem_singleton] at ha
        rcases ha with ha | rfl
        · exact hold a ha
        · exact hs
  | merge keepId mergeId =>
      rcases apply_merge U db keepId mergeId with heq | ⟨-, hkeep, -, heq⟩
      · rwa [heq]
      · rw [heq]
        intro a ha
        obtain ⟨b, hb, rfl⟩ := mem_values_moveAliases.mp ha
        rw [find?_deactivate]
        split
        · obtain ⟨s, hs⟩ := hkeep
          exact ⟨_, by rw [hs]; rfl⟩
        · obtain ⟨s, hs⟩ := hold b hb
          exact ⟨_, by rw [hs]; rfl⟩

/-- **Every operation keeps the foreign keys.** -/
theorem consistent_apply {db : Database} (hc : Consistent db) (op : Operation) :
    Consistent (apply U db op) :=
  ⟨rawOfProcessed_apply U hc op, supplierOfAlias_apply U hc op, articleOfMention_apply U hc op⟩

/-- A state the subsystem starts from: the foreign keys hold and no mention is stored. -/
structure Initial (db : Database) : Prop where
  consistent : Consistent db
  noMention : alreadyScreened db = []

theorem initial_empty : Initial Database.empty := by
  refine ⟨⟨?_, ?_, ?_⟩, rfl⟩ <;> intro x hx <;> cases hx

end ProcureSignal.Suppliers
