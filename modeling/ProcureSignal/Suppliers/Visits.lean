/-
# The visits of a backfill

What the offset loop of `_backfill_mentions` does to the mentions of each article.

* `flatten_pages` : the pages of the loop are the table, each row once;
* `mentionsOf_recordBatch`, `mentionsOf_retryUnresolved` : what a page records and rescues;
* `foldl_visitPage_eq_ok` : what the pages of a run do together.
-/
import ProcureSignal.Suppliers.Backfill

namespace ProcureSignal.Suppliers

variable (U : Unicode)

/-! ## Pages -/

/-- The pages that the offset loop selects. -/
def pages {α : Type} (rows : List α) (batchSize : ℕ) : ℕ → ℕ → List (List α)
  | 0, _ => []
  | fuel + 1, offset =>
      let page := (rows.drop offset).take batchSize
      if page = [] then [] else page :: pages rows batchSize fuel (offset + batchSize)

/-- **Each row once**: the pages together are what is behind the offset. -/
theorem flatten_pages {α : Type} {rows : List α} {batchSize : ℕ} (hb : 0 < batchSize)
    {fuel offset : ℕ} (hfuel : rows.length < offset + fuel) :
    (pages rows batchSize fuel offset).flatten = rows.drop offset := by
  induction fuel generalizing offset with
  | zero =>
      rw [pages, List.drop_eq_nil_of_le (by omega)]
      rfl
  | succ fuel ih =>
      simp only [pages]
      split_ifs with hpage
      · have hdone : rows.drop offset = [] := by
          by_contra hne
          rw [List.take_eq_nil_iff] at hpage
          rcases hpage with hzero | hnil
          · omega
          · exact hne hnil
        rw [hdone]
        rfl
      · rw [List.flatten_cons, ih (by omega), ← List.drop_drop, List.take_append_drop]

/-- One iteration of the loop of `_backfill_mentions`; after an error nothing is done. -/
def visitPage (s : Database × Except ServiceError BackfillSummary)
    (page : List (ℕ × NewsArticleProcessed)) : Database × Except ServiceError BackfillSummary :=
  match s.2 with
  | .error e => (s.1, .error e)
  | .ok summary =>
      let articleIds := page.map (·.1)
      match recordBatch U s.1 page with
      | .error e => (s.1, .error e)
      | .ok recorded =>
          let db' := retryUnresolved U recorded articleIds
          let (resolved, unresolved) := mentionCoverage db' articleIds
          (db', .ok { summary with
            articlesScanned := summary.articlesScanned + page.length
            mentionsCreated := summary.mentionsCreated +
              (countMentions db' articleIds - countMentions s.1 articleIds)
            mentionsResolved := summary.mentionsResolved + resolved
            mentionsUnresolved := summary.mentionsUnresolved + unresolved })

theorem foldl_visitPage_error (db : Database) (e : ServiceError)
    (ps : List (List (ℕ × NewsArticleProcessed))) :
    ps.foldl (visitPage U) (db, .error e) = (db, .error e) := by
  induction ps with
  | nil => rfl
  | cons p ps ih => exact ih

/-- The registry decides what a name resolves to. -/
theorem resolutionOf_congr {db db' : Database} (hs : db'.suppliers = db.suppliers)
    (ha : db'.aliases = db.aliases) : resolutionOf U db' = resolutionOf U db := by
  funext form
  simp only [resolutionOf, answering, hs, ha]

/-- The registry, the articles, the preferences and the events are the same. -/
structure SameButMentions (db db' : Database) : Prop where
  raws : db'.raws = db.raws
  processed : db'.processed = db.processed
  suppliers : db'.suppliers = db.suppliers
  aliases : db'.aliases = db.aliases
  riskEvents : db'.riskEvents = db.riskEvents
  watchlists : db'.watchlists = db.watchlists
  watchlistEntries : db'.watchlistEntries = db.watchlistEntries
  preferences : db'.preferences = db.preferences
  audits : db'.audits = db.audits

namespace SameButMentions

variable {db db' db'' : Database}

theorem refl (db : Database) : SameButMentions db db := ⟨rfl, rfl, rfl, rfl, rfl, rfl, rfl, rfl, rfl⟩

theorem of_mentions (db : Database) (mentions : MentionTable) :
    SameButMentions db { db with mentions := mentions } :=
  ⟨rfl, rfl, rfl, rfl, rfl, rfl, rfl, rfl, rfl⟩

theorem trans (h : SameButMentions db db') (h' : SameButMentions db' db'') :
    SameButMentions db db'' where
  raws := h'.raws.trans h.raws
  processed := h'.processed.trans h.processed
  suppliers := h'.suppliers.trans h.suppliers
  aliases := h'.aliases.trans h.aliases
  riskEvents := h'.riskEvents.trans h.riskEvents
  watchlists := h'.watchlists.trans h.watchlists
  watchlistEntries := h'.watchlistEntries.trans h.watchlistEntries
  preferences := h'.preferences.trans h.preferences
  audits := h'.audits.trans h.audits

/-- Names resolve as before. -/
theorem resolutionOf_eq (h : SameButMentions db db') : resolutionOf U db' = resolutionOf U db :=
  resolutionOf_congr U h.suppliers h.aliases

end SameButMentions

/-! ## The mentions of each article -/

/-- The mentions of an article, oldest first. -/
def mentionsOf (db : Database) (articleId : ℕ) : List ArticleSupplierMention :=
  db.mentions.values.filter fun m => m.processedArticleId = articleId

theorem alreadyRecorded_eq (db : Database) (articleId : ℕ) :
    alreadyRecorded db articleId = (mentionsOf db articleId).map (·.surfaceForm) := rfl

theorem mem_mentionsOf {db : Database} {articleId : ℕ} {m : ArticleSupplierMention} :
    m ∈ mentionsOf db articleId ↔ m ∈ db.mentions.values ∧ m.processedArticleId = articleId := by
  rw [mentionsOf, List.mem_filter, decide_eq_true_eq]

/-- The rows of a call depend on the registry and on the mentions of its article. -/
theorem newMentions_congr {db db' : Database} (h : SameButMentions db db') {articleId : ℕ}
    (hm : mentionsOf db' articleId = mentionsOf db articleId) (forms : List String) :
    newMentions U db' articleId forms = newMentions U db articleId forms ∧
      newSurfaceForms U db' articleId forms = newSurfaceForms U db articleId forms := by
  have hforms : newSurfaceForms U db' articleId forms = newSurfaceForms U db articleId forms := by
    rw [newSurfaceForms, newSurfaceForms, alreadyRecorded_eq, alreadyRecorded_eq, hm]
  refine ⟨?_, hforms⟩
  simp only [newMentions, hforms, h.resolutionOf_eq U]

/-- A call adds its rows to its article. -/
theorem mentionsOf_recordMentions {db db' : Database} {articleId : ℕ} {forms : List String}
    {resolutions : List Resolution}
    (h : recordMentions U db articleId forms = .ok (db', resolutions)) :
    SameButMentions db db' ∧ ∀ i, mentionsOf db' i =
      if i = articleId then mentionsOf db i ++ newMentions U db articleId forms
      else mentionsOf db i := by
  obtain ⟨mentions, rfl, hvalues, -⟩ := recordMentions_eq_ok U h
  refine ⟨.of_mentions db mentions, fun i => ?_⟩
  have hnew : (newMentions U db articleId forms).filter (fun m => m.processedArticleId = i) =
      if i = articleId then newMentions U db articleId forms else [] := by
    have harticle : ∀ m ∈ newMentions U db articleId forms,
        m.processedArticleId = articleId := by
      intro m hm
      obtain ⟨f, -, rfl⟩ := List.mem_map.mp hm
      rfl
    split_ifs with hi
    · refine List.filter_eq_self.mpr fun m hm => ?_
      rw [harticle m hm, hi, decide_eq_true_eq]
    · refine List.filter_eq_nil_iff.mpr fun m hm => ?_
      rw [harticle m hm, decide_eq_true_eq]
      exact fun heq => hi heq.symm
  show mentions.values.filter _ = _
  rw [hvalues, List.filter_append, hnew]
  split_ifs with hi
  · rfl
  · exact List.append_nil _

/-- The names of an article as they are stored. -/
def detected (a : ℕ × NewsArticleProcessed) : List String := a.2.detectedSuppliers.getD []

/-- Every new spelling of the article fits its column. -/
def Fits (db : Database) (a : ℕ × NewsArticleProcessed) : Prop :=
  ∀ f ∈ newSurfaceForms U db a.1 (detected a), f.length ≤ 300

/-- What a page adds to the mentions of an article. -/
def gain (db : Database) (page : List (ℕ × NewsArticleProcessed)) (i : ℕ) :
    List ArticleSupplierMention :=
  match page.find? fun a => a.1 = i with
  | some a => newMentions U db i (detected a)
  | none => []

/-- An article that is on no page gains nothing. -/
theorem gain_eq_nil {db : Database} {page : List (ℕ × NewsArticleProcessed)} {i : ℕ}
    (hi : i ∉ page.map (·.1)) : gain U db page i = [] := by
  have hnone : page.find? (fun a => a.1 = i) = none := by
    refine List.find?_eq_none.mpr fun a ha => ?_
    rw [decide_eq_true_eq]
    rintro rfl
    exact hi (List.mem_map_of_mem ha)
  rw [gain, hnone]

/-- The first article of a page gains its own rows, the others theirs. -/
theorem gain_cons (db : Database) (a : ℕ × NewsArticleProcessed)
    (page : List (ℕ × NewsArticleProcessed)) (i : ℕ) : gain U db (a :: page) i =
      if i = a.1 then newMentions U db a.1 (detected a) else gain U db page i := by
  rw [gain, gain, List.find?_cons]
  by_cases hi : i = a.1
  · subst hi
    simp
  · have hne : ¬a.1 = i := fun heq => hi heq.symm
    simp [hi, hne]

/-- The rows of a page, in a database with the same registry and the same mentions of it. -/
theorem gain_congr {db db' : Database} (h : SameButMentions db db')
    {page : List (ℕ × NewsArticleProcessed)} {i : ℕ}
    (hm : i ∈ page.map (·.1) → mentionsOf db' i = mentionsOf db i) :
    gain U db' page i = gain U db page i := by
  by_cases hi : i ∈ page.map (·.1)
  · rw [gain, gain]
    cases page.find? fun a => a.1 = i with
    | none => rfl
    | some a => exact (newMentions_congr U h (hm hi) _).1
  · rw [gain_eq_nil U hi, gain_eq_nil U hi]

/-- **What a page records.** -/
theorem mentionsOf_recordBatch {page : List (ℕ × NewsArticleProcessed)}
    (hnodup : (page.map (·.1)).Nodup) {db : Database} (hfits : ∀ a ∈ page, Fits U db a) :
    ∃ db', recordBatch U db page = .ok db' ∧ SameButMentions db db' ∧
      ∀ i, mentionsOf db' i = mentionsOf db i ++ gain U db page i := by
  unfold recordBatch
  induction page generalizing db with
  | nil =>
      refine ⟨db, rfl, .refl db, fun i => ?_⟩
      rw [gain_eq_nil U (by simp), List.append_nil]
  | cons a page ih =>
      obtain ⟨ha, hnodup⟩ := List.nodup_cons.mp hnodup
      obtain ⟨db₁, resolutions, hrec⟩ :=
        exists_recordMentions U (hfits a List.mem_cons_self)
      obtain ⟨hsame, hmentions⟩ := mentionsOf_recordMentions U hrec
      -- the other articles of the page have the mentions they had
      have hother : ∀ i ∈ page.map (·.1), mentionsOf db₁ i = mentionsOf db i := by
        intro i hi
        rw [hmentions, if_neg]
        rintro rfl
        exact ha hi
      have hfits₁ : ∀ b ∈ page, Fits U db₁ b := by
        intro b hb f hf
        rw [(newMentions_congr U hsame (hother b.1 (List.mem_map_of_mem hb)) _).2] at hf
        exact hfits b (List.mem_cons_of_mem _ hb) f hf
      obtain ⟨db', hrest, hsame', hmentions'⟩ := ih hnodup hfits₁
      refine ⟨db', ?_, hsame.trans hsame', fun i => ?_⟩
      · rw [List.foldlM_cons]
        show (recordMentions U db a.1 (detected a)).map (·.1) >>= _ = _
        rw [hrec]
        exact hrest
      · rw [hmentions', gain_congr U hsame (hother i), hmentions, gain_cons]
        split_ifs with hi
        · subst hi
          rw [gain_eq_nil U ha, List.append_nil]
        · rfl

/-- A page that is accepted fits. -/
theorem fits_of_recordBatch {page : List (ℕ × NewsArticleProcessed)}
    (hnodup : (page.map (·.1)).Nodup) {db db' : Database}
    (h : recordBatch U db page = .ok db') : ∀ a ∈ page, Fits U db a := by
  unfold recordBatch at h
  induction page generalizing db with
  | nil => exact List.forall_mem_nil _
  | cons a page ih =>
      obtain ⟨ha, hnodup⟩ := List.nodup_cons.mp hnodup
      rw [List.foldlM_cons] at h
      cases hrec : recordMentions U db a.1 (a.2.detectedSuppliers.getD []) with
      | error e =>
          rw [hrec] at h
          cases h
      | ok r =>
          obtain ⟨db₁, resolutions⟩ := r
          rw [hrec] at h
          obtain ⟨hsame, hmentions⟩ := mentionsOf_recordMentions U hrec
          obtain ⟨-, -, -, hfits⟩ := recordMentions_eq_ok U hrec
          refine List.forall_mem_cons.mpr ⟨hfits, fun b hb f hf => ?_⟩
          have hmem : b.1 ∈ page.map (·.1) := List.mem_map_of_mem hb
          have hother : mentionsOf db₁ b.1 = mentionsOf db b.1 := by
            rw [hmentions, if_neg]
            intro heq
            rw [heq] at hmem
            exact ha hmem
          refine ih hnodup h b hb f ?_
          rwa [(newMentions_congr U hsame hother _).2]

/-! ## Retries -/

/-- A mention resolved again, if it carries no supplier. -/
def retried (db : Database) (m : ArticleSupplierMention) : ArticleSupplierMention :=
  match m.supplierId, (resolutionOf U db m.surfaceForm).supplierId with
  | none, some supplierId => { m with
      supplierId := some supplierId
      confidence := (resolutionOf U db m.surfaceForm).confidence }
  | _, _ => m

@[simp] theorem processedArticleId_retried (db : Database) (m : ArticleSupplierMention) :
    (retried U db m).processedArticleId = m.processedArticleId := by
  unfold retried
  split <;> rfl

@[simp] theorem surfaceForm_retried (db : Database) (m : ArticleSupplierMention) :
    (retried U db m).surfaceForm = m.surfaceForm := by
  unfold retried
  split <;> rfl

/-- A mention that carries a supplier is left. -/
theorem retried_of_isSome {db : Database} {m : ArticleSupplierMention}
    (h : m.supplierId.isSome = true) : retried U db m = m := by
  unfold retried
  rw [Option.isSome_iff_exists] at h
  obtain ⟨i, hi⟩ := h
  rw [hi]

/-- A mention whose name does not resolve is left. -/
theorem retried_of_none {db : Database} {m : ArticleSupplierMention}
    (h : (resolutionOf U db m.surfaceForm).supplierId = none) : retried U db m = m := by
  unfold retried
  rw [h]
  cases m.supplierId <;> rfl

/-- **A retry rescues what resolves**: a retried mention carries no supplier only if its name
does not resolve. -/
theorem supplierId_retried_eq_none {db : Database} {m : ArticleSupplierMention}
    (h : (retried U db m).supplierId = none) :
    (resolutionOf U db m.surfaceForm).supplierId = none := by
  unfold retried at h
  split at h
  · cases h
  · rename_i hnot
    cases hres : (resolutionOf U db m.surfaceForm).supplierId with
    | none => rfl
    | some i => exact absurd hres (hnot i h)

/-- The rows of a retry beside what their names resolve to. -/
theorem zip_resolveMany (db : Database) (stale : List (ℕ × ArticleSupplierMention)) :
    stale.zip (resolveMany U db (stale.map fun r => r.2.surfaceForm)) =
      stale.map fun r => (r, resolutionOf U db r.2.surfaceForm) := by
  rw [resolveMany_eq_map]
  induction stale with
  | nil => rfl
  | cons r stale ih => rw [List.map_cons, List.map_cons, List.zip_cons_cons, ih, List.map_cons]

/-- The row update of a retry, at a row of the table. -/
theorem applyRetry_of_mem {db : Database} (articleIds : List ℕ) {i : ℕ}
    {m : ArticleSupplierMention} (hm : (i, m) ∈ db.mentions.rows)
    {stale : List (ℕ × ArticleSupplierMention)}
    (hstale : stale = db.mentions.rows.filter fun r =>
      r.2.supplierId = none ∧ r.2.processedArticleId ∈ articleIds) :
    applyRetry (stale.zip (resolveMany U db (stale.map (·.2.surfaceForm)))) i m =
      if m.processedArticleId ∈ articleIds then retried U db m else m := by
  have hmem : ∀ r, r ∈ stale ↔ r ∈ db.mentions.rows ∧
      r.2.supplierId = none ∧ r.2.processedArticleId ∈ articleIds := by
    intro r
    rw [hstale, List.mem_filter, decide_eq_true_eq]
  -- the keys of the table find the row itself
  have hfind : ∀ r, stale.find? (fun r => r.1 = i) = some r → r = (i, m) := by
    intro r hr
    obtain ⟨j, m'⟩ := r
    have hj : j = i := by simpa using List.find?_some hr
    have hrow := ((hmem _).mp (List.mem_of_find?_eq_some hr)).1
    rw [hj] at hrow ⊢
    rw [Table.eq_of_mem hrow hm]
  unfold applyRetry
  rw [zip_resolveMany, List.find?_map]
  have hcomp : ((fun retry : (ℕ × ArticleSupplierMention) × Resolution =>
      decide (retry.1.1 = i)) ∘ fun r => (r, resolutionOf U db r.2.surfaceForm)) =
        fun r => decide (r.1 = i) := rfl
  rw [hcomp]
  cases hf : stale.find? fun r => r.1 = i with
  | none =>
      have hnot : (i, m) ∉ stale := by
        intro hin
        have := List.find?_eq_none.mp hf _ hin
        simp at this
      rw [hmem] at hnot
      split_ifs with harticle
      · refine (retried_of_isSome U ?_).symm
        rw [Option.isSome_iff_ne_none]
        exact fun hnone => hnot ⟨hm, hnone, harticle⟩
      · rfl
  | some r =>
      obtain rfl := hfind r hf
      obtain ⟨-, hnone, harticle⟩ := (hmem _).mp (List.mem_of_find?_eq_some hf)
      rw [if_pos harticle]
      simp only [Option.map_some, retried]
      rw [hnone]
      cases (resolutionOf U db m.surfaceForm).supplierId <;> rfl

/-- The rows after a retry. -/
theorem values_retryUnresolved (db : Database) (articleIds : List ℕ) :
    SameButMentions db (retryUnresolved U db articleIds) ∧
      (retryUnresolved U db articleIds).mentions.values = db.mentions.values.map fun m =>
        if m.processedArticleId ∈ articleIds then retried U db m else m := by
  have hrows : ∀ r ∈ db.mentions.rows, _ = _ := fun r hr =>
    applyRetry_of_mem U articleIds (i := r.1) (m := r.2) hr rfl
  unfold retryUnresolved
  simp only
  split
  · rename_i hnil
    refine ⟨.refl db, ?_⟩
    rw [Table.values, List.map_map]
    refine List.map_congr_left fun r hr => ?_
    have hrow := hrows r hr
    rw [hnil] at hrow
    exact hrow
  · refine ⟨.of_mentions db _, ?_⟩
    rw [UniqueTable.toTable_modify, Table.values, Table.values, Table.modify, List.map_map,
      List.map_map]
    exact List.map_congr_left hrows

/-- **What a retry does to the mentions of each article.** -/
theorem mentionsOf_retryUnresolved (db : Database) (articleIds : List ℕ) (i : ℕ) :
    mentionsOf (retryUnresolved U db articleIds) i =
      if i ∈ articleIds then (mentionsOf db i).map (retried U db) else mentionsOf db i := by
  rw [mentionsOf, (values_retryUnresolved U db articleIds).2, List.filter_map]
  have hfilter : db.mentions.values.filter ((fun m => decide (m.processedArticleId = i)) ∘
      fun m => if m.processedArticleId ∈ articleIds then retried U db m else m) =
        mentionsOf db i := by
    refine List.filter_congr fun m _ => ?_
    rw [Function.comp_apply]
    split_ifs <;> simp
  rw [hfilter]
  split_ifs with hi
  · refine List.map_congr_left fun m hm => ?_
    rw [if_pos]
    rw [(mem_mentionsOf.mp hm).2]
    exact hi
  · have hid : (mentionsOf db i).map (fun m =>
        if m.processedArticleId ∈ articleIds then retried U db m else m) =
          (mentionsOf db i).map id := by
      refine List.map_congr_left fun m hm => ?_
      rw [if_neg]
      · rfl
      · rw [(mem_mentionsOf.mp hm).2]
        exact hi
    rw [hid, List.map_id]

/-! ## Runs -/

/-- The offset loop visits its pages in order. -/
theorem backfillMentionsLoop_eq (batchSize fuel offset : ℕ) (db : Database)
    (summary : BackfillSummary) :
    backfillMentionsLoop U batchSize fuel offset (db, summary) =
      (pages db.processed.rows batchSize fuel offset).foldl (visitPage U) (db, .ok summary) := by
  induction fuel generalizing offset db summary with
  | zero => rfl
  | succ fuel ih =>
      simp only [backfillMentionsLoop, pages]
      split_ifs with hpage
      · rfl
      · rw [List.foldl_cons]
        simp only [visitPage]
        cases hrec : recordBatch U db ((db.processed.rows.drop offset).take batchSize) with
        | error e => exact (foldl_visitPage_error U db e _).symm
        | ok recorded =>
            have hframe : Mentioned Set.univ db recorded :=
              mentioned_recordBatch U hrec fun _ _ _ => Set.mem_univ _
            have hprocessed : (retryUnresolved U recorded
                (((db.processed.rows.drop offset).take batchSize).map (·.1))).processed =
                  db.processed :=
              (mentioned_retryUnresolved U recorded _ Set.univ).processed.trans hframe.processed
            simp only
            rw [ih, hprocessed]

/-- The retry of a mention depends on the registry. -/
theorem SameButMentions.retried_eq {db db' : Database} (h : SameButMentions db db') :
    retried U db' = retried U db := by
  funext m
  simp only [retried, h.resolutionOf_eq U]

/-- What an article fits is what its new spellings fit. -/
theorem fits_congr {db db' : Database} (h : SameButMentions db db')
    {a : ℕ × NewsArticleProcessed} (hm : mentionsOf db' a.1 = mentionsOf db a.1) :
    Fits U db' a ↔ Fits U db a := by
  rw [Fits, Fits, (newMentions_congr U h hm _).2]

/-- The articles of two lists of pages, one behind the other. -/
theorem gain_append (db : Database) (page rest : List (ℕ × NewsArticleProcessed)) (i : ℕ) :
    gain U db (page ++ rest) i =
      if i ∈ page.map (·.1) then gain U db page i else gain U db rest i := by
  induction page with
  | nil => rfl
  | cons a page ih =>
      rw [List.cons_append, gain_cons, gain_cons, ih, List.map_cons]
      by_cases hi : i = a.1
      · simp [hi]
      · rw [if_neg hi]
        simp only [List.mem_cons, hi, false_or, if_false]

/-- The rows of a stored article among those of its page. -/
theorem gain_of_mem {db : Database} {page : List (ℕ × NewsArticleProcessed)}
    (hnodup : (page.map (·.1)).Nodup) {a : ℕ × NewsArticleProcessed} (ha : a ∈ page) :
    gain U db page a.1 = newMentions U db a.1 (detected a) := by
  induction page with
  | nil => cases ha
  | cons b page ih =>
      obtain ⟨hb, hnodup⟩ := List.nodup_cons.mp hnodup
      rw [gain_cons]
      rcases List.mem_cons.mp ha with rfl | ha
      · rw [if_pos rfl]
      · rw [if_neg, ih hnodup ha]
        intro heq
        have hin : a.1 ∈ page.map (·.1) := List.mem_map_of_mem ha
        rw [heq] at hin
        exact hb hin

/-- The mentions after visits: the articles visited have gained their rows, and what carries no
supplier was tried again. -/
structure Visited (articles : List (ℕ × NewsArticleProcessed)) (db db' : Database) : Prop where
  same : SameButMentions db db'
  fits : ∀ a ∈ articles, Fits U db a
  mentions : ∀ i, mentionsOf db' i =
    if i ∈ articles.map (·.1) then (mentionsOf db i ++ gain U db articles i).map (retried U db)
    else mentionsOf db i

/-- **One page.** -/
theorem visitPage_eq_ok {page : List (ℕ × NewsArticleProcessed)}
    (hnodup : (page.map (·.1)).Nodup) {db db' : Database} {summary summary' : BackfillSummary}
    (h : visitPage U (db, .ok summary) page = (db', .ok summary')) :
    Visited U page db db' ∧
      summary'.articlesScanned = summary.articlesScanned + page.length ∧
      summary'.preferencesUpdated = summary.preferencesUpdated ∧
      summary'.riskEventsUpdated = summary.riskEventsUpdated := by
  simp only [visitPage] at h
  cases hrec : recordBatch U db page with
  | error e =>
      rw [hrec] at h
      cases h
  | ok recorded =>
      rw [hrec] at h
      simp only [Prod.mk.injEq, Except.ok.injEq] at h
      obtain ⟨rfl, rfl⟩ := h
      have hfits := fits_of_recordBatch U hnodup hrec
      obtain ⟨recorded', hrec', hsame, hmentions⟩ := mentionsOf_recordBatch U hnodup hfits
      obtain rfl : recorded = recorded' := Except.ok.inj (hrec.symm.trans hrec')
      refine ⟨⟨hsame.trans (values_retryUnresolved U recorded _).1, hfits, fun i => ?_⟩,
        rfl, rfl, rfl⟩
      rw [mentionsOf_retryUnresolved, hmentions, hsame.retried_eq U]
      split_ifs with hi
      · rfl
      · rw [gain_eq_nil U hi, List.append_nil]

/-- A page whose names fit is visited. -/
theorem exists_visitPage {page : List (ℕ × NewsArticleProcessed)}
    (hnodup : (page.map (·.1)).Nodup) {db : Database} (summary : BackfillSummary)
    (hfits : ∀ a ∈ page, Fits U db a) :
    ∃ db' summary', visitPage U (db, .ok summary) page = (db', .ok summary') := by
  obtain ⟨recorded, hrec, -, -⟩ := mentionsOf_recordBatch U hnodup hfits
  simp only [visitPage, hrec]
  exact ⟨_, _, rfl⟩

/-- **All pages.** -/
theorem foldl_visitPage_eq_ok {ps : List (List (ℕ × NewsArticleProcessed))}
    (hnodup : (ps.flatten.map (·.1)).Nodup) {db db' : Database}
    {summary summary' : BackfillSummary}
    (h : ps.foldl (visitPage U) (db, .ok summary) = (db', .ok summary')) :
    Visited U ps.flatten db db' ∧
      summary'.articlesScanned = summary.articlesScanned + ps.flatten.length ∧
      summary'.preferencesUpdated = summary.preferencesUpdated ∧
      summary'.riskEventsUpdated = summary.riskEventsUpdated := by
  induction ps generalizing db summary with
  | nil =>
      simp only [List.foldl_nil, Prod.mk.injEq, Except.ok.injEq] at h
      obtain ⟨rfl, rfl⟩ := h
      refine ⟨⟨.refl db, List.forall_mem_nil _, fun i => ?_⟩, rfl, rfl, rfl⟩
      rw [if_neg (by simp)]
  | cons page ps ih =>
      rw [List.flatten_cons, List.map_append, List.nodup_append] at hnodup
      obtain ⟨hpage, hrest, hdisjoint⟩ := hnodup
      rw [List.foldl_cons] at h
      obtain ⟨⟨db₁, result⟩, hvisit⟩ : ∃ r, visitPage U (db, .ok summary) page = r := ⟨_, rfl⟩
      rw [hvisit] at h
      cases result with
      | error e =>
          rw [foldl_visitPage_error] at h
          cases h
      | ok summary₁ =>
          obtain ⟨hfirst, hscan, hpref, hevent⟩ := visitPage_eq_ok U hpage hvisit
          obtain ⟨hthen, hscan', hpref', hevent'⟩ := ih hrest h
          -- the articles behind the page have the mentions they had
          have hother : ∀ i ∈ ps.flatten.map (·.1), mentionsOf db₁ i = mentionsOf db i := by
            intro i hi
            rw [hfirst.mentions, if_neg fun hin => hdisjoint i hin i hi rfl]
          refine ⟨⟨hfirst.same.trans hthen.same, ?_, fun i => ?_⟩, ?_, hpref'.trans hpref,
            hevent'.trans hevent⟩
          · intro a ha
            rw [List.flatten_cons] at ha
            rcases List.mem_append.mp ha with ha | ha
            · exact hfirst.fits a ha
            · exact (fits_congr U hfirst.same (hother a.1 (List.mem_map_of_mem ha))).mp
                (hthen.fits a ha)
          · have hmem : i ∈ (page ++ ps.flatten).map (·.1) ↔
                i ∈ page.map (·.1) ∨ i ∈ ps.flatten.map (·.1) := by
              rw [List.map_append, List.mem_append]
            rw [hthen.mentions, List.flatten_cons, gain_append, hfirst.same.retried_eq U,
              gain_congr U hfirst.same (hother i), hfirst.mentions]
            by_cases hi : i ∈ page.map (·.1)
            · have hnot : i ∉ ps.flatten.map (·.1) := fun hin => hdisjoint i hi i hin rfl
              rw [if_neg hnot, if_pos hi, if_pos (hmem.mpr (Or.inl hi)), if_pos hi]
            · rw [if_neg hi, if_neg hi]
              by_cases hin : i ∈ ps.flatten.map (·.1)
              · rw [if_pos hin, if_pos (hmem.mpr (Or.inr hin))]
              · rw [if_neg hin, if_neg]
                exact fun hor => (hmem.mp hor).elim hi hin
          · rw [hscan', hscan, List.flatten_cons, List.length_append, Nat.add_assoc]

/-- Pages whose names fit are all visited. -/
theorem exists_foldl_visitPage {ps : List (List (ℕ × NewsArticleProcessed))}
    (hnodup : (ps.flatten.map (·.1)).Nodup) {db : Database} (summary : BackfillSummary)
    (hfits : ∀ a ∈ ps.flatten, Fits U db a) :
    ∃ db' summary', ps.foldl (visitPage U) (db, .ok summary) = (db', .ok summary') := by
  induction ps generalizing db summary with
  | nil => exact ⟨db, summary, rfl⟩
  | cons page ps ih =>
      rw [List.flatten_cons, List.map_append, List.nodup_append] at hnodup
      obtain ⟨hpage, hrest, hdisjoint⟩ := hnodup
      rw [List.flatten_cons, List.forall_mem_append] at hfits
      obtain ⟨db₁, summary₁, hvisit⟩ := exists_visitPage U hpage summary hfits.1
      obtain ⟨hfirst, -⟩ := visitPage_eq_ok U hpage hvisit
      rw [List.foldl_cons, hvisit]
      refine ih hrest summary₁ fun a ha => ?_
      refine (fits_congr U hfirst.same ?_).mpr (hfits.2 a ha)
      have hi : a.1 ∈ ps.flatten.map (·.1) := List.mem_map_of_mem ha
      rw [hfirst.mentions, if_neg fun hin => hdisjoint _ hin _ hi rfl]

end ProcureSignal.Suppliers
