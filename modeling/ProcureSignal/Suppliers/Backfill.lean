/-
# The other writers of mentions: enrichment and backfill

`_add_processed` of `enrichment/pipeline.py`, which stores a processed article and
records the suppliers it names, and `backfill_supplier_identity` of
`suppliers/backfill.py`, which does the same for the articles stored before.

`Mentioned new db db'` is the frame both keep: registry, articles and audit trail
stay, and only the articles `new` may gain their first mention.
-/
import ProcureSignal.Suppliers.Mentions

namespace ProcureSignal.Suppliers

variable (U : Unicode)

/-! ## Enrichment -/

/-- `_add_processed`: insert under a savepoint, then record the detected suppliers.
The insert is refused (`false`) when the raw article is missing or processed already. -/
def addProcessed (db : Database) (processed : NewsArticleProcessed) :
    Except ServiceError (Database × Bool) :=
  match db.raws.find? processed.rawArticleId, db.processed.insert? processed with
  | some _, some table =>
      match recordMentions U { db with processed := table } db.processed.nextId
          (processed.detectedSuppliers.getD []) with
      | .ok (db', _) => .ok (db', true)
      | .error e => .error e
  | _, _ => .ok (db, false)

/-! ## Backfill -/

/-- `BackfillSummary`. -/
structure BackfillSummary where
  articlesScanned : ℕ
  mentionsCreated : ℕ
  mentionsResolved : ℕ
  mentionsUnresolved : ℕ
  preferencesUpdated : ℕ
  riskEventsUpdated : ℕ
  deriving DecidableEq, Repr

/-- `_resolved_public_ids`. -/
def resolvedPublicIds (db : Database) (names : List String) : List String :=
  (((resolveMany U db names).filterMap (·.publicId)).filter (· ≠ "")).dedup.insertionSort (· ≤ ·)

/-- `_count_mentions`. -/
def countMentions (db : Database) (articleIds : List ℕ) : ℕ :=
  db.mentions.values.countP fun m => m.processedArticleId ∈ articleIds

/-- `_mention_coverage`: resolved and unresolved mentions of the articles. -/
def mentionCoverage (db : Database) (articleIds : List ℕ) : ℕ × ℕ :=
  let rows := db.mentions.values.filter fun m => m.processedArticleId ∈ articleIds
  let resolved := rows.countP fun m => m.supplierId.isSome
  (resolved, rows.length - resolved)

/-- The row update of `_retry_unresolved`. -/
def applyRetry (retries : List ((ℕ × ArticleSupplierMention) × Resolution)) (id : ℕ)
    (m : ArticleSupplierMention) : ArticleSupplierMention :=
  match retries.find? (fun retry => retry.1.1 = id) with
  | some (_, resolution) =>
      match resolution.supplierId with
      | some supplierId =>
          { m with supplierId := some supplierId, confidence := resolution.confidence }
      | none => m
  | none => m

/-- The article and the spelling of a mention are never rewritten by a retry. -/
theorem applyRetry_eq (retries : List ((ℕ × ArticleSupplierMention) × Resolution)) (id : ℕ)
    (m : ArticleSupplierMention) :
    (applyRetry retries id m).processedArticleId = m.processedArticleId ∧
      (applyRetry retries id m).surfaceForm = m.surfaceForm := by
  unfold applyRetry
  split
  · split <;> exact ⟨rfl, rfl⟩
  · exact ⟨rfl, rfl⟩

/-- `_retry_unresolved`: resolve again the mentions that carry no supplier. -/
def retryUnresolved (db : Database) (articleIds : List ℕ) : Database :=
  let stale := db.mentions.rows.filter fun r =>
    r.2.supplierId = none ∧ r.2.processedArticleId ∈ articleIds
  if stale = [] then db
  else
    let retries := stale.zip (resolveMany U db (stale.map (·.2.surfaceForm)))
    { db with mentions := db.mentions.modify (applyRetry retries) (by
        intro k hk i m
        obtain ⟨harticle, hform⟩ := applyRetry_eq retries i m
        simp only [List.mem_singleton] at hk
        subst hk
        simp only [harticle, hform]) }

/-- The mentions of one batch. -/
def recordBatch (db : Database) (articles : List (ℕ × NewsArticleProcessed)) :
    Except ServiceError Database :=
  articles.foldlM (fun db article =>
    (recordMentions U db article.1 (article.2.detectedSuppliers.getD [])).map (·.1)) db

/-- The loop of `_backfill_mentions`; every batch commits.  The offset passes the end
of the table before the fuel `rows + 1` is spent, and a rejected statement stops the
loop with the batches committed so far. -/
def backfillMentionsLoop (batchSize : ℕ) :
    ℕ → ℕ → Database × BackfillSummary → Database × Except ServiceError BackfillSummary
  | 0, _, (db, summary) => (db, .ok summary)
  | fuel + 1, offset, (db, summary) =>
      let articles := (db.processed.rows.drop offset).take batchSize
      if articles = [] then (db, .ok summary)
      else
        let articleIds := articles.map (·.1)
        match recordBatch U db articles with
        | .error e => (db, .error e)
        | .ok recorded =>
            let db' := retryUnresolved U recorded articleIds
            let (resolved, unresolved) := mentionCoverage db' articleIds
            backfillMentionsLoop batchSize fuel (offset + batchSize)
              (db', { summary with
                articlesScanned := summary.articlesScanned + articles.length
                mentionsCreated := summary.mentionsCreated +
                  (countMentions db' articleIds - countMentions db articleIds)
                mentionsResolved := summary.mentionsResolved + resolved
                mentionsUnresolved := summary.mentionsUnresolved + unresolved })

/-- `_backfill_mentions`. -/
def backfillMentions (db : Database) (batchSize : ℕ) (summary : BackfillSummary) :
    Database × Except ServiceError BackfillSummary :=
  backfillMentionsLoop U batchSize (db.processed.rows.length + 1) 0 (db, summary)

/-- The preference a backfill writes. -/
def backfilledPreference (db : Database) (preference : UserNewsPreference) : UserNewsPreference :=
  { preference with
    preferredSupplierIds := resolvedPublicIds U db preference.preferredSuppliers
    excludedSupplierIds := resolvedPublicIds U db preference.excludedSuppliers }

/-- `_backfill_preferences`. -/
def backfillPreferences (db : Database) (summary : BackfillSummary) : Database × BackfillSummary :=
  ({ db with preferences := db.preferences.modify fun _ p => backfilledPreference U db p },
    { summary with preferencesUpdated := summary.preferencesUpdated +
        db.preferences.values.countP fun p => backfilledPreference U db p ≠ p })

/-- The risk event a backfill writes. -/
def backfilledRiskEvent (db : Database) (event : RiskEvent) : RiskEvent :=
  { event with affectedSupplierIds := resolvedPublicIds U db event.affectedSuppliers }

/-- `_backfill_risk_events`. -/
def backfillRiskEvents (db : Database) (summary : BackfillSummary) : Database × BackfillSummary :=
  ({ db with riskEvents := db.riskEvents.modify fun _ e => backfilledRiskEvent U db e },
    { summary with riskEventsUpdated := summary.riskEventsUpdated +
        db.riskEvents.values.countP fun e => backfilledRiskEvent U db e ≠ e })

/-- `DEFAULT_BATCH_SIZE`. -/
def defaultBatchSize : ℕ := 500

/-- `backfill_supplier_identity`: what it leaves committed, and what it returned or
raised. -/
def backfillSupplierIdentity (db : Database) (batchSize : ℕ := defaultBatchSize) :
    Database × Except ServiceError BackfillSummary :=
  match backfillMentions U db batchSize ⟨0, 0, 0, 0, 0, 0⟩ with
  | (db₁, .error e) => (db₁, .error e)
  | (db₁, .ok summary₁) =>
      let (db₂, summary₂) := backfillPreferences U db₁ summary₁
      let (db₃, summary₃) := backfillRiskEvents U db₂ summary₂
      (db₃, .ok summary₃)

/-! ## The frame of the writers -/

/-- Registry, articles and audit trail are the same; articles keep their mentions,
and only those of `new` may have gained a first one. -/
structure Mentioned (new : Set ℕ) (db db' : Database) : Prop where
  raws : db'.raws = db.raws
  processed : db'.processed = db.processed
  suppliers : db'.suppliers = db.suppliers
  aliases : db'.aliases = db.aliases
  audits : db'.audits = db.audits
  kept : ∀ i ∈ alreadyScreened db, i ∈ alreadyScreened db'
  gained : ∀ i ∈ alreadyScreened db', i ∈ alreadyScreened db ∨ i ∈ new

namespace Mentioned

variable {new : Set ℕ} {db₁ db₂ db₃ : Database}

theorem refl (db : Database) : Mentioned new db db :=
  ⟨rfl, rfl, rfl, rfl, rfl, fun _ h => h, fun _ h => Or.inl h⟩

theorem trans (h : Mentioned new db₁ db₂) (h' : Mentioned new db₂ db₃) :
    Mentioned new db₁ db₃ where
  raws := h'.raws.trans h.raws
  processed := h'.processed.trans h.processed
  suppliers := h'.suppliers.trans h.suppliers
  aliases := h'.aliases.trans h.aliases
  audits := h'.audits.trans h.audits
  kept := fun i hi => h'.kept i (h.kept i hi)
  gained := fun i hi => by
    rcases h'.gained i hi with hi | hi
    · exact h.gained i hi
    · exact Or.inr hi

/-- A write to mentions that leaves their articles, or to preferences or risk events. -/
theorem of_alreadyScreened_eq (hr : db₂.raws = db₁.raws) (hp : db₂.processed = db₁.processed)
    (hs : db₂.suppliers = db₁.suppliers) (ha : db₂.aliases = db₁.aliases)
    (hau : db₂.audits = db₁.audits) (hm : alreadyScreened db₂ = alreadyScreened db₁) :
    Mentioned new db₁ db₂ :=
  ⟨hr, hp, hs, ha, hau, fun i hi => by rwa [hm], fun i hi => Or.inl (by rwa [← hm])⟩

end Mentioned

/-- A call of `record_mentions` with a usable name may give the article a mention. -/
theorem mentioned_recordMentions {db db' : Database} {articleId : ℕ} {forms : List String}
    {resolutions : List Resolution}
    (h : recordMentions U db articleId forms = .ok (db', resolutions)) {new : Set ℕ}
    (hnew : distinctSurfaceForms U forms ≠ [] → articleId ∈ new) : Mentioned new db db' := by
  obtain ⟨mentions, hdb, -, -⟩ := recordMentions_eq_ok U h
  have hiff := mem_alreadyScreened_recordMentions U h
  subst hdb
  refine ⟨rfl, rfl, rfl, rfl, rfl, ?_, ?_⟩
  · intro i hi
    exact (hiff i).mpr (Or.inl hi)
  · intro i hi
    rcases (hiff i).mp hi with hi | ⟨rfl, hne⟩
    · exact Or.inl hi
    · exact Or.inr (hnew hne)

/-- A retry rewrites suppliers and confidences of mentions only. -/
theorem mentioned_retryUnresolved (db : Database) (articleIds : List ℕ) (new : Set ℕ) :
    Mentioned new db (retryUnresolved U db articleIds) := by
  unfold retryUnresolved
  simp only
  split
  · exact Mentioned.refl db
  · refine Mentioned.of_alreadyScreened_eq rfl rfl rfl rfl rfl ?_
    simp only [alreadyScreened, UniqueTable.toTable_modify, Table.values, Table.modify,
      List.map_map]
    apply List.map_congr_left
    intro r _hr
    exact (applyRetry_eq _ r.1 r.2).1

/-- One batch gives mentions to its own articles with a usable name. -/
theorem mentioned_recordBatch {articles : List (ℕ × NewsArticleProcessed)} {db db' : Database}
    (h : recordBatch U db articles = .ok db') {new : Set ℕ}
    (hnew : ∀ a ∈ articles, distinctSurfaceForms U (a.2.detectedSuppliers.getD []) ≠ [] →
      a.1 ∈ new) : Mentioned new db db' := by
  unfold recordBatch at h
  induction articles generalizing db with
  | nil =>
      rw [List.foldlM_nil] at h
      obtain rfl : db = db' := Except.ok.inj h
      exact Mentioned.refl db
  | cons a articles ih =>
      rw [List.foldlM_cons] at h
      cases hrec : recordMentions U db a.1 (a.2.detectedSuppliers.getD []) with
      | error e => rw [hrec] at h; cases h
      | ok r =>
          obtain ⟨db₁, resolutions⟩ := r
          rw [hrec] at h
          have h₁ := mentioned_recordMentions U hrec (hnew a List.mem_cons_self)
          exact h₁.trans (ih h fun b hb => hnew b (List.mem_cons_of_mem a hb))

/-- The loop over batches keeps the frame, whether it ends or is stopped. -/
theorem mentioned_backfillMentionsLoop (batchSize fuel offset : ℕ) (db : Database)
    (summary : BackfillSummary) {new : Set ℕ}
    (hnew : ∀ a ∈ db.processed.rows, distinctSurfaceForms U (a.2.detectedSuppliers.getD []) ≠ [] →
      a.1 ∈ new) :
    Mentioned new db (backfillMentionsLoop U batchSize fuel offset (db, summary)).1 := by
  induction fuel generalizing offset db summary with
  | zero => exact Mentioned.refl db
  | succ fuel ih =>
      unfold backfillMentionsLoop
      simp only
      split
      · exact Mentioned.refl db
      split
      · exact Mentioned.refl db
      · rename_i recorded hrec
        have h₁ : Mentioned new db recorded := mentioned_recordBatch U hrec fun a ha =>
          hnew a (List.mem_of_mem_drop (List.mem_of_mem_take ha))
        have h₂ := h₁.trans (mentioned_retryUnresolved U recorded
          (((db.processed.rows.drop offset).take batchSize).map (·.1)) new)
        refine h₂.trans (ih _ _ _ ?_)
        rw [h₂.processed]
        exact hnew

/-- **The frame of a backfill**: only processed articles with a usable detected name
may gain their first mention, and nothing is audited. -/
theorem mentioned_backfillSupplierIdentity (db : Database) (batchSize : ℕ) :
    Mentioned {i | ∃ p, (i, p) ∈ db.processed.rows ∧
        distinctSurfaceForms U (p.detectedSuppliers.getD []) ≠ []}
      db (backfillSupplierIdentity U db batchSize).1 := by
  have hloop : Mentioned {i | ∃ p, (i, p) ∈ db.processed.rows ∧
        distinctSurfaceForms U (p.detectedSuppliers.getD []) ≠ []}
      db (backfillMentions U db batchSize ⟨0, 0, 0, 0, 0, 0⟩).1 :=
    mentioned_backfillMentionsLoop U batchSize (db.processed.rows.length + 1) 0 db _
      fun a ha hne => ⟨a.2, ha, hne⟩
  unfold backfillSupplierIdentity
  split
  · rename_i db₁ e heq
    rw [heq] at hloop
    exact hloop
  · rename_i db₁ summary₁ heq
    rw [heq] at hloop
    exact hloop.trans (Mentioned.of_alreadyScreened_eq rfl rfl rfl rfl rfl rfl)

end ProcureSignal.Suppliers
