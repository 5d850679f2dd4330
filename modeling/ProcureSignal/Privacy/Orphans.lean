/-
# Articles and the rows they were made from

Ingestion writes raw articles, enrichment writes a processed article for a raw one, and
retention prunes both tables, each by a column and a window of its own.  No foreign key ties
the two.

* `paired_prune_iff` : what one prune leaves of the pairs;
* `paired_iff` : **when no run leaves a processed article without its raw article**.
-/
import ProcureSignal.Privacy.Retention
import ProcureSignal.Library.Execution

namespace ProcureSignal.Privacy

open Relational TableName Execution

/-! ## The system -/

/-- What runs on the articles. -/
inductive Activity
  | ingest (columns : Row)
  | enrich (rawId : ℕ) (columns : Row)
  | prune

/-- A raw article that ingestion writes. -/
def rawRow (now : Instant) (columns : Row) : Row := fun c =>
  if c = "ingested_at" then .time now else columns c

/-- The processed article that enrichment writes for a raw one. -/
def processedRow (now : Instant) (rawId : ℕ) (columns : Row) : Row := fun c =>
  if c = "raw_article_id" then .num rawId
  else if c = "processed_at" then .time now else columns c

/-- A raw article that is stored, and of which no processed article is. -/
def Unprocessed (db : Store) (rawId : ℕ) : Prop :=
  (∃ r ∈ (db newsArticlesRaw).rows, r.1 = rawId) ∧
    ∀ r ∈ (db newsArticlesProcessed).rows, r.2 "raw_article_id" ≠ .num rawId

instance (db : Store) (rawId : ℕ) : Decidable (Unprocessed db rawId) :=
  inferInstanceAs (Decidable (_ ∧ _))

/-- One run of a job. -/
def perform (db : Store) (now : Instant) : Activity → Option Store
  | .ingest columns => some (insertInto db newsArticlesRaw (rawRow now columns))
  | .enrich rawId columns =>
      if Unprocessed db rawId then
        some (insertInto db newsArticlesProcessed (processedRow now rawId columns))
      else none
  | .prune => some (pruneExpiredRecords {} now db).1

/-- The store and the time of the last run. -/
structure Archive where
  db : Store
  clock : Instant

/-- One run, not before the last one. -/
def step (s : Archive) (l : Instant × Activity) : Option Archive :=
  if s.clock ≤ l.1 then (perform s.db l.1 l.2).map (⟨·, l.1⟩) else none

/-- The pairs of the readers: `news_articles_processed JOIN news_articles_raw`. -/
def Joined (db : Store) (i : ℕ) (processed : Row) (j : ℕ) (raw : Row) : Prop :=
  (i, processed) ∈ (db newsArticlesProcessed).rows ∧ (j, raw) ∈ (db newsArticlesRaw).rows ∧
    processed "raw_article_id" = .num j

/-- Every processed article is in the join. -/
def Paired (db : Store) : Prop :=
  ∀ i processed, (i, processed) ∈ (db newsArticlesProcessed).rows →
    ∃ j raw, Joined db i processed j raw

/-! ## One step -/

variable {db db' : Store} {now : Instant}

/-- Ingestion and enrichment keep the pairs. -/
theorem paired_perform {a : Activity} (hprune : a ≠ .prune) (h : Paired db)
    (hstep : perform db now a = some db') : Paired db' := by
  cases a with
  | ingest columns =>
      cases hstep
      intro i processed hi
      have hi := (mem_insertInto.mp hi).resolve_right fun hnew => nomatch hnew.1
      obtain ⟨j, raw, -, hraw, href⟩ := h i processed hi
      exact ⟨j, raw, mem_insertInto.mpr (Or.inl hi), mem_insertInto.mpr (Or.inl hraw), href⟩
  | enrich rawId columns =>
      rw [perform] at hstep
      split_ifs at hstep with hunprocessed
      cases hstep
      intro i processed hi
      rcases mem_insertInto.mp hi with hold | ⟨-, hnew⟩
      · obtain ⟨j, raw, -, hraw, href⟩ := h i processed hold
        exact ⟨j, raw, hi, mem_insertInto.mpr (Or.inl hraw), href⟩
      · obtain ⟨⟨⟨j, raw⟩, hraw, rfl⟩, -⟩ := hunprocessed
        cases hnew
        exact ⟨j, raw, hi, mem_insertInto.mpr (Or.inl hraw), rfl⟩
  | prune => exact absurd rfl hprune

/-- The tables of articles lose expired rows and no others. -/
theorem doomed_article_iff {t : TableName}
    (ht : t = newsArticlesRaw ∨ t = newsArticlesProcessed) {i : ℕ} {r : Row}
    (hr : (i, r) ∈ (db t).rows) :
    schema.Doomed db (Expired {} now) t i ↔ Expired {} now t i r := by
  have hchild : ∀ fk ∈ foreignKeys, fk.child ≠ newsArticlesRaw ∧
      fk.child ≠ newsArticlesProcessed := by decide
  constructor
  · intro hd
    cases hd with
    | matched hrow hexp => exact Table.eq_of_mem hr hrow ▸ hexp
    | cascade hfk _ _ _ _ => exact absurd ht (not_or.mpr (hchild _ hfk))
  · exact .matched hr

/-- The columns of articles stay as they are. -/
theorem nulls_article {t : TableName}
    (ht : t = newsArticlesRaw ∨ t = newsArticlesProcessed) {r r' : Row}
    (hn : Nulls schema t r r') : r' = r := by
  have hchild : ∀ fk ∈ foreignKeys, fk.child ≠ newsArticlesRaw ∧
      fk.child ≠ newsArticlesProcessed := by decide
  funext c
  refine hn.eq_of_not_nullable ?_
  rintro ⟨fk, hfk, -, rfl, -⟩
  exact absurd ht (not_or.mpr (hchild fk hfk))

/-- What is left of the articles. -/
theorem mem_prune_article {t : TableName}
    (ht : t = newsArticlesRaw ∨ t = newsArticlesProcessed) {i : ℕ} {r : Row} :
    (i, r) ∈ ((pruneExpiredRecords {} now db).1 t).rows ↔
      (i, r) ∈ (db t).rows ∧ ¬Expired {} now t i r := by
  have hkept := kept_prune {} now db
  constructor
  · intro hr
    obtain ⟨r₀, hr₀, hnot, hn⟩ := hkept.of_mem hr
    obtain rfl := nulls_article ht hn
    exact ⟨hr₀, mt (doomed_article_iff ht hr₀).mpr hnot⟩
  · rintro ⟨hr, hexp⟩
    obtain ⟨r', hr', hn⟩ := hkept.to_mem hr (mt (doomed_article_iff ht hr).mp hexp)
    obtain rfl := nulls_article ht hn
    exact hr'

/-- Past the window of the raw articles. -/
theorem expired_raw_iff (i : ℕ) (r : Row) : Expired {} now newsArticlesRaw i r ↔
    olderThan now 14 (r "ingested_at") = true :=
  expired_iff 14 "ingested_at" (by decide) i r

/-- Past the window of the processed articles. -/
theorem expired_processed_iff (i : ℕ) (r : Row) : Expired {} now newsArticlesProcessed i r ↔
    olderThan now 30 (r "processed_at") = true :=
  expired_iff 30 "processed_at" (by decide) i r

/-- No raw article is past its window before the article made from it is past its own. -/
def InStep (db : Store) (now : Instant) : Prop :=
  ∀ i processed j raw, Joined db i processed j raw →
    olderThan now 14 (raw "ingested_at") = true → olderThan now 30 (processed "processed_at") = true

/-- **What one prune leaves of the pairs.** -/
theorem paired_prune_iff (h : Paired db) :
    Paired (pruneExpiredRecords {} now db).1 ↔ InStep db now := by
  constructor
  · rintro hpaired i processed j raw ⟨hi, hj, href⟩ hraw
    by_contra hprocessed
    rw [← expired_processed_iff i] at hprocessed
    obtain ⟨j', raw', -, hj', href'⟩ := hpaired i processed
      ((mem_prune_article (Or.inr rfl)).mpr ⟨hi, hprocessed⟩)
    obtain ⟨hj', hraw'⟩ := (mem_prune_article (Or.inl rfl)).mp hj'
    cases href.symm.trans href'
    cases Table.eq_of_mem hj hj'
    exact hraw' ((expired_raw_iff j raw).mpr hraw)
  · intro hstep i processed hi
    obtain ⟨hi₀, hexp⟩ := (mem_prune_article (Or.inr rfl)).mp hi
    obtain ⟨j, raw, hjoined⟩ := h i processed hi₀
    have hraw : ¬Expired {} now newsArticlesRaw j raw := fun hraw =>
      hexp ((expired_processed_iff i processed).mpr
        (hstep i processed j raw hjoined ((expired_raw_iff j raw).mp hraw)))
    exact ⟨j, raw, hi, (mem_prune_article (Or.inl rfl)).mpr ⟨hjoined.2.1, hraw⟩, hjoined.2.2⟩

/-! ## Runs -/

/-- A prune finds no raw article past its window whose processed article is to stay. -/
def PrunesInStep (s : Archive) (l : Instant × Activity) : Prop :=
  l.2 = .prune → InStep s.db l.1

/-- **When no run leaves a processed article without its raw article**: exactly when every
prune finds the two windows in step. -/
theorem paired_iff {s t : Archive} {tr : List (Archive × (Instant × Activity))}
    (h : Execution step unguarded s tr t) (hs : Paired s.db) :
    Throughout (fun _ s => Paired s.db) tr t ↔ ∀ x ∈ tr, PrunesInStep x.1 x.2 := by
  refine h.throughout_iff hs fun tr p l q _ hall hstep => ?_
  have hpaired : Paired p.db := hall.last
  rw [step] at hstep
  split_ifs at hstep
  obtain ⟨db', hperform, rfl⟩ := Option.map_eq_some_iff.mp hstep
  by_cases hprune : l.2 = .prune
  · rw [hprune, perform, Option.some.injEq] at hperform
    subst hperform
    exact (paired_prune_iff hpaired).trans ⟨fun hin _ => hin, fun hin => hin hprune⟩
  · exact iff_of_true (paired_perform hprune hpaired hperform) fun heq => absurd heq hprune

/-! ### An article for four weeks -/

/-- Nothing is stored. -/
def emptyArchive : Archive := ⟨fun _ => Table.empty, 0⟩

/-- The article comes on the first day and is processed the day after. -/
def firstDays : Store :=
  insertInto (insertInto (fun _ => Table.empty) newsArticlesRaw (rawRow 0 fun _ => .null))
    newsArticlesProcessed (processedRow (days 1) 1 fun _ => .null)

/-- The trace of the two days. -/
def firstTrace : List (Archive × (Instant × Activity)) :=
  [(⟨insertInto (fun _ => Table.empty) newsArticlesRaw (rawRow 0 fun _ => .null), 0⟩,
      (days 1, .enrich 1 fun _ => .null)),
   (emptyArchive, (0, .ingest fun _ => .null))]

/-- The two days as runs of the jobs. -/
theorem execution_firstDays :
    Execution step unguarded emptyArchive firstTrace ⟨firstDays, days 1⟩ := by
  refine (nil.snoc trivial ?_).snoc trivial ?_
  · rfl
  · rfl

theorem paired_emptyArchive : Paired emptyArchive.db := fun _ _ hi => nomatch hi

theorem paired_firstDays : Paired firstDays :=
  paired_perform (a := .enrich 1 fun _ => .null) nofun
    (paired_perform (a := .ingest fun _ => .null) nofun
      paired_emptyArchive rfl) rfl

/-- The one pair of the two days. -/
theorem joined_firstDays {i j : ℕ} {processed raw : Row}
    (h : Joined firstDays i processed j raw) :
    processed = processedRow (days 1) 1 (fun _ => .null) ∧ raw = rawRow 0 fun _ => .null := by
  obtain ⟨hi, hj, -⟩ := h
  cases List.mem_singleton.mp hi
  cases List.mem_singleton.mp hj
  exact ⟨rfl, rfl⟩

/-- Two weeks on, the raw article goes and the processed one stays. -/
theorem orphaned : ∃ tr t, Execution step unguarded emptyArchive tr t ∧
    ¬Throughout (fun _ s => Paired s.db) tr t := by
  refine ⟨_, _, execution_firstDays.snoc (l := (days 15, .prune)) trivial rfl, fun hall => ?_⟩
  have hin := (paired_prune_iff paired_firstDays).mp hall.1
  have hold := hin 1 _ 1 _
    ⟨List.mem_singleton_self _, List.mem_singleton_self _, rfl⟩ (by decide)
  revert hold
  decide

/-- Before that, a prune leaves both. -/
theorem paired_iff_early : ∃ tr t, Execution step unguarded emptyArchive tr t ∧
    tr.length = 3 ∧ Throughout (fun _ s => Paired s.db) tr t := by
  have hrun := execution_firstDays.snoc (l := (days 10, .prune)) trivial rfl
  refine ⟨_, _, hrun, rfl, (paired_iff hrun paired_emptyArchive).mpr ?_⟩
  simp only [firstTrace, List.forall_mem_cons, PrunesInStep]
  refine ⟨fun _ i processed j raw hjoined hraw => ?_, nofun, nofun, List.forall_mem_nil _⟩
  obtain ⟨rfl, rfl⟩ := joined_firstDays hjoined
  revert hraw
  decide

end ProcureSignal.Privacy
