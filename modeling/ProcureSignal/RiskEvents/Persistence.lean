/-
# Persisting risk events

`generate_risk_events` of `risk_events/persistence.py`: the articles that have not been scanned are
scanned one after the other, each inside of a savepoint, and the candidates are upserted under a key
that is a digest of the article, the type, the suppliers and the locations.

* An exception can be raised in the detector, at any candidate and at the flush; what the savepoint
  has done before is rolled back, so that it makes no difference how far a candidate has come.
* `generateRiskEvents` : the function;
* `Keyed` : each stored event has the key of its own columns;
* `AllOrNothing` : the two outcomes of a scanned article;
* `generateRiskEvents_allOrNothing` : **in every run, each scanned article is stored as a whole or
  not at all**, and the counts say which.
-/
import ProcureSignal.Library.Batch
import ProcureSignal.Library.Delimited
import ProcureSignal.Library.Execution
import ProcureSignal.RiskEvents.Detector
import ProcureSignal.Suppliers.Backfill

namespace ProcureSignal.RiskEvents

open Suppliers (resolvedPublicIds)

/-! ## Tables -/

/-- `NewsArticleProcessed`, with the columns by which articles are selected and marked. -/
structure StoredArticle extends NewsArticleProcessed where
  rawArticleId : ℕ
  processedAt : Instant
  riskEventCheckedAt : Option Instant
  deriving DecidableEq, Repr

/-- `RiskEvent`. -/
structure RiskEvent where
  eventKey : String
  processedArticleId : ℕ
  riskType : String
  severity : String
  confidence : ℚ
  affectedSuppliers : List String
  affectedSupplierIds : List String
  affectedLocations : List String
  affectedCategories : List String
  evidenceSnippet : String
  recommendation : String
  sourceName : String
  sourceUrl : String
  publishedAt : Instant
  status : String
  deriving DecidableEq, Repr

/-- `risk_events`, with `uq_risk_events_event_key`. -/
abbrev EventTable := UniqueTable RiskEvent String [fun event => some event.eventKey]

/-- The tables that are read and written. -/
structure Store where
  registry : Database
  rawArticles : Table NewsArticleRaw
  processedArticles : Table StoredArticle
  events : EventTable

/-- The tables before the first row. -/
def Store.empty : Store := ⟨Database.empty, Table.empty, Table.empty, UniqueTable.empty⟩

section Persistence

variable (U : Unicode) (digest : String → String)

/-! ## Keys -/

/-- `sorted({value.strip().lower() for value in values if value.strip()})`. -/
def namesOf (values : List String) : List String :=
  ((values.filter (U.strip · ≠ "")).map fun value => U.lower (U.strip value)).dedup.insertionSort
    (· ≤ ·)

/-- What a risk event is about: the article, the type, the suppliers and the locations. -/
abbrev Incident := ℕ × String × List String × List String

/-- The incident of an event of an article. -/
def incidentOf (processedArticleId : ℕ) (riskType : String) (suppliers locations : List String) :
    Incident :=
  (processedArticleId, riskType, namesOf U suppliers, namesOf U locations)

/-- The text of an incident that is digested. -/
def keyText (incident : Incident) : String :=
  toString incident.1 ++ ":" ++ incident.2.1 ++ ":" ++ ",".intercalate incident.2.2.1 ++ ":" ++
    ",".intercalate incident.2.2.2

/-- `build_event_key`; `digest` is the first forty hexadecimal digits of SHA-256. -/
def buildEventKey (processedArticleId : ℕ) (riskType : String)
    (suppliers locations : List String) : String :=
  digest (keyText (incidentOf U processedArticleId riskType suppliers locations))

/-! ## Upserts -/

/-- `_resolved_supplier_ids`. -/
def resolvedSupplierIds (registry : Database) (names : List String) : List String :=
  resolvedPublicIds U registry names

/-- The row that `_upsert_event` adds for a candidate. -/
def newEvent (registry : Database) (processedArticleId : ℕ) (raw : NewsArticleRaw)
    (candidate : RiskEventCandidate) : RiskEvent where
  eventKey := buildEventKey U digest processedArticleId candidate.riskType
    candidate.affectedSuppliers candidate.affectedLocations
  processedArticleId := processedArticleId
  riskType := candidate.riskType
  severity := candidate.severity
  confidence := candidate.confidence
  affectedSuppliers := candidate.affectedSuppliers
  affectedSupplierIds := resolvedSupplierIds U registry candidate.affectedSuppliers
  affectedLocations := candidate.affectedLocations
  affectedCategories := candidate.affectedCategories
  evidenceSnippet := candidate.evidenceSnippet
  recommendation := candidate.recommendation
  sourceName := raw.sourceName
  sourceUrl := raw.articleUrl
  publishedAt := raw.publishedAt
  status := "new"

/-- What `_upsert_event` writes to the row that is there: neither the key nor the article, the type
or the status. -/
def refresh (registry : Database) (raw : NewsArticleRaw) (candidate : RiskEventCandidate)
    (existing : RiskEvent) : RiskEvent :=
  { existing with
    severity := candidate.severity
    confidence := candidate.confidence
    affectedSuppliers := candidate.affectedSuppliers
    affectedSupplierIds := resolvedSupplierIds U registry candidate.affectedSuppliers
    affectedLocations := candidate.affectedLocations
    affectedCategories := candidate.affectedCategories
    evidenceSnippet := candidate.evidenceSnippet
    recommendation := candidate.recommendation
    sourceName := raw.sourceName
    sourceUrl := raw.articleUrl
    publishedAt := raw.publishedAt }

/-- `_upsert_event`; the flag is what it returns. -/
def upsertEvent (registry : Database) (processedArticleId : ℕ) (raw : NewsArticleRaw)
    (candidate : RiskEventCandidate) (events : EventTable) : EventTable × Bool :=
  events.upsert (newEvent U digest registry processedArticleId raw candidate)
    (refresh U registry raw candidate) fun _ => rfl

/-! ## Articles -/

/-- Where an exception can be raised while an article is processed. -/
inductive Place
  | detect
  | candidate (position : ℕ)
  | flush
  deriving DecidableEq, Repr

/-- The loop over the candidates, with the counts of what was created and updated; `none` is an
exception. -/
def upsertAll (registry : Database) (processedArticleId : ℕ) (raw : NewsArticleRaw)
    (raises : Place → Bool) (position : ℕ) :
    List RiskEventCandidate → EventTable × ℕ × ℕ → Option (EventTable × ℕ × ℕ)
  | [], progress => some progress
  | candidate :: candidates, (events, created, updated) =>
      if raises (.candidate position) then none
      else
        let (events, wasCreated) :=
          upsertEvent U digest registry processedArticleId raw candidate events
        upsertAll registry processedArticleId raw raises (position + 1) candidates
          (if wasCreated then (events, created + 1, updated) else (events, created, updated + 1))

/-- A selected row: an article with its key, joined with its raw article. -/
structure ScanRow where
  processedId : ℕ
  processed : StoredArticle
  raw : NewsArticleRaw
  deriving DecidableEq, Repr

/-- `detect_risk_events(processed, raw)`. -/
def ScanRow.candidates (row : ScanRow) : List RiskEventCandidate :=
  detectRiskEvents U row.processed.toNewsArticleProcessed (some row.raw)

/-- The parameters of a run: the clock at its start and when each article is marked, the arguments,
and where exceptions are raised. -/
structure Generation where
  now : Instant
  daysBack : ℤ
  limit : ℕ
  clock : ℕ → Instant
  raises : ℕ → Place → Bool

/-- `processed.risk_event_checked_at = now`. -/
def markChecked (processedId : ℕ) (now : Instant) (articles : Table StoredArticle) :
    Table StoredArticle :=
  articles.update (fun i _ => i = processedId) fun article =>
    { article with riskEventCheckedAt := some now }

/-- What the loop over the articles has reached. -/
structure Progress where
  events : EventTable
  articles : Table StoredArticle
  created : ℕ
  updated : ℕ
  errors : ℕ

/-- One iteration: the savepoint of an article. -/
def processArticle (registry : Database) (g : Generation) (p : Progress) (row : ScanRow) :
    Progress :=
  let raises := g.raises row.processedId
  if raises .detect then { p with errors := p.errors + 1 }
  else
    match upsertAll U digest registry row.processedId row.raw raises 0 (row.candidates U)
      (p.events, 0, 0) with
    | none => { p with errors := p.errors + 1 }
    | some (events, articleCreated, articleUpdated) =>
        if raises .flush then { p with errors := p.errors + 1 }
        else
          { events := events
            articles := markChecked row.processedId (g.clock row.processedId) p.articles
            created := p.created + articleCreated
            updated := p.updated + articleUpdated
            errors := p.errors }

/-- `ORDER BY processed_at, id`. -/
def ScanRow.Before (r s : ScanRow) : Prop :=
  toLex (r.processed.processedAt, r.processedId) ≤ toLex (s.processed.processedAt, s.processedId)

instance : DecidableRel ScanRow.Before := fun r s =>
  inferInstanceAs (Decidable (toLex (r.processed.processedAt, r.processedId) ≤
    toLex (s.processed.processedAt, s.processedId)))

/-- The join of the articles with their raw articles. -/
def Store.joined (st : Store) : List ScanRow :=
  st.processedArticles.rows.filterMap fun r =>
    (st.rawArticles.find? r.2.rawArticleId).map fun raw => ⟨r.1, r.2, raw⟩

/-- The rows that a run selects. -/
def Generation.rows (g : Generation) (st : Store) : List ScanRow :=
  ((st.joined.filter fun row =>
    g.now - days g.daysBack ≤ row.processed.processedAt ∧
      row.processed.riskEventCheckedAt = none).insertionSort ScanRow.Before).take g.limit

/-- `RiskEventGenerationResult`. -/
structure RiskEventGenerationResult where
  created : ℕ
  updated : ℕ
  scanned : ℕ
  errors : ℕ
  deriving DecidableEq, Repr

/-- The loop over the selected articles. -/
def articleLoop (g : Generation) (st : Store) : Progress :=
  (g.rows st).foldl (processArticle U digest st.registry g)
    ⟨st.events, st.processedArticles, 0, 0, 0⟩

/-- `generate_risk_events`. -/
def generateRiskEvents (g : Generation) (st : Store) : Store × RiskEventGenerationResult :=
  let p := articleLoop U digest g st
  ({ st with processedArticles := p.articles, events := p.events },
    ⟨p.created, p.updated, (g.rows st).length, p.errors⟩)

/-! ## Incidents and keys -/

/-- The incident of a stored event. -/
def RiskEvent.incident (event : RiskEvent) : Incident :=
  incidentOf U event.processedArticleId event.riskType event.affectedSuppliers
    event.affectedLocations

/-- The incident of a candidate. -/
def ScanRow.incident (row : ScanRow) (candidate : RiskEventCandidate) : Incident :=
  incidentOf U row.processedId candidate.riskType candidate.affectedSuppliers
    candidate.affectedLocations

/-- A stored event has the key of its own columns, and no colon in its type. -/
structure RiskEvent.Keyed (event : RiskEvent) : Prop where
  key : event.eventKey = digest (keyText (event.incident U))
  colon : ':' ∉ event.riskType.toList

/-- Each stored event is keyed, by one of the given texts. -/
def Sound (texts : Set String) (events : EventTable) : Prop :=
  ∀ r ∈ events.rows, r.2.Keyed U digest ∧ keyText (r.2.incident U) ∈ texts

/-- An event shows the fields of a candidate, the resolved suppliers and the source. -/
def Records (registry : Database) (row : ScanRow) (candidate : RiskEventCandidate)
    (event : RiskEvent) : Prop :=
  event = { newEvent U digest registry row.processedId row.raw candidate with
    status := event.status }

/-- What the store has of an article: its row and its events. -/
structure ArticleState where
  article : Option StoredArticle
  events : List (ℕ × RiskEvent)

/-- What there is of an article. -/
def articleState (articles : Table StoredArticle) (events : EventTable) (i : ℕ) : ArticleState :=
  ⟨articles.find? i, events.rows.filter (·.2.processedArticleId = i)⟩

/-- `risk_event_checked_at` is set. -/
def ArticleState.checked (a : ArticleState) : Bool :=
  a.article.any (·.riskEventCheckedAt.isSome)

/-- **All or nothing**: the article is marked, each candidate has exactly one event, which shows it,
and no other event of the article is added or changed; or the article and its events are as they
were. -/
def AllOrNothing (registry : Database) (row : ScanRow) (before after : ArticleState) : Prop :=
  ((∃ now, after.article = some { row.processed with riskEventCheckedAt := some now }) ∧
    (∀ candidate ∈ row.candidates U, ∃ r ∈ after.events,
      Records U digest registry row candidate r.2 ∧
        ∀ r' ∈ after.events, r'.2.incident U = row.incident U candidate → r' = r) ∧
    ∀ r ∈ after.events, r ∈ before.events ∨
      ∃ candidate ∈ row.candidates U, r.2.incident U = row.incident U candidate) ∨
  (row.processed.riskEventCheckedAt = none ∧ after.article = some row.processed ∧
    after.events = before.events)

variable {U digest} {registry : Database} {texts : Set String} {events events' : EventTable}
  {row : ScanRow} {candidate : RiskEventCandidate}

/-- The text of an incident tells the article and the type. -/
theorem eq_of_keyText_eq {a b : Incident} (h : keyText a = keyText b)
    (ha : ':' ∉ a.2.1.toList) (hb : ':' ∉ b.2.1.toList) : a.1 = b.1 ∧ a.2.1 = b.2.1 := by
  have hjoined : ∀ i : Incident, keyText i = Delimited.joined ':' (toString i.1)
      (Delimited.joined ':' i.2.1
        (Delimited.joined ':' (",".intercalate i.2.2.1) (",".intercalate i.2.2.2))) := by
    intro i
    rw [← String.toList_inj]
    simp [keyText]
  have hdigits : ∀ n : ℕ, ':' ∉ (toString n).toList := by
    intro n hmem
    rw [Nat.toString_eq_repr, Nat.toList_repr] at hmem
    exact absurd (Nat.isDigit_of_mem_toDigits (by decide) (by decide) hmem) (by decide)
  rw [hjoined, hjoined, Delimited.joined_inj_left (hdigits _) (hdigits _),
    Delimited.joined_inj_left ha hb] at h
  refine ⟨?_, h.2.1⟩
  have hchars := congrArg String.toList h.1
  rw [Nat.toString_eq_repr, Nat.toList_repr, Nat.toString_eq_repr, Nat.toList_repr] at hchars
  have hvalue := congrArg (Nat.ofDigitChars 10 · 0) hchars
  rwa [Nat.ofDigitChars_ten_toDigits, Nat.ofDigitChars_ten_toDigits] at hvalue

/-- No risk type has a colon. -/
theorem colon_not_mem_riskTypeOrder : ∀ riskType ∈ riskTypeOrder, ':' ∉ riskType.toList := by
  decide

/-- The candidates of a row have different types, without colons. -/
theorem ScanRow.colon_not_mem {row : ScanRow} (h : candidate ∈ row.candidates U) :
    ':' ∉ candidate.riskType.toList :=
  colon_not_mem_riskTypeOrder _ (mem_detectRiskEvents h).1

/-- Two keyed events of one incident are one row. -/
theorem Sound.eq_of_incident_eq (hsound : Sound U digest texts events) {r r' : ℕ × RiskEvent}
    (hr : r ∈ events.rows) (hr' : r' ∈ events.rows)
    (h : r.2.incident U = r'.2.incident U) : r = r' := by
  refine UniqueTable.eq_of_unique (t := events) List.mem_cons_self hr hr'
    (v := digest (keyText (r.2.incident U))) ?_ ?_
  · rw [(hsound r hr).1.key]
  · rw [(hsound r' hr').1.key, h]

/-! ## One candidate -/

/-- What shows a candidate has its incident. -/
theorem Records.incident_eq {event : RiskEvent}
    (h : Records U digest registry row candidate event) :
    event.incident U = row.incident U candidate := by
  rw [Records] at h
  rw [h]
  rfl

/-- What shows a candidate has its key. -/
theorem Records.key_eq {event : RiskEvent} (h : Records U digest registry row candidate event) :
    event.eventKey = digest (keyText (row.incident U candidate)) := by
  rw [Records] at h
  rw [h]
  rfl

/-- Without collisions, an event with the key of a candidate is of its article and type. -/
theorem Sound.eq_of_key (hinj : Set.InjOn digest texts) (hsound : Sound U digest texts events)
    (htext : keyText (row.incident U candidate) ∈ texts)
    (hcolon : ':' ∉ candidate.riskType.toList) {r : ℕ × RiskEvent} (hr : r ∈ events.rows)
    (hkey : r.2.eventKey = digest (keyText (row.incident U candidate))) :
    r.2.processedArticleId = row.processedId ∧ r.2.riskType = candidate.riskType := by
  obtain ⟨hkeyed, hmem⟩ := hsound r hr
  have heq : keyText (r.2.incident U) = keyText (row.incident U candidate) :=
    hinj hmem htext (hkeyed.key.symm.trans hkey)
  exact eq_of_keyText_eq heq hkeyed.colon hcolon

/-- A refreshed event shows the candidate. -/
theorem records_refresh {event : RiskEvent}
    (hkey : event.eventKey = digest (keyText (row.incident U candidate)))
    (hid : event.processedArticleId = row.processedId)
    (htype : event.riskType = candidate.riskType) :
    Records U digest registry row candidate (refresh U registry row.raw candidate event) := by
  rw [Records, refresh, newEvent, hid, htype, hkey]
  rfl

/-- The row of the key shows the candidate after an upsert. -/
theorem records_of_mem_upsertEvent (hinj : Set.InjOn digest texts)
    (hsound : Sound U digest texts events)
    (htext : keyText (row.incident U candidate) ∈ texts)
    (hcolon : ':' ∉ candidate.riskType.toList) {event : RiskEvent}
    (h : event = newEvent U digest registry row.processedId row.raw candidate ∨
      ∃ r ∈ events.rows, r.2.eventKey = digest (keyText (row.incident U candidate)) ∧
        event = refresh U registry row.raw candidate r.2) :
    Records U digest registry row candidate event := by
  rcases h with rfl | ⟨r, hr, hkey, rfl⟩
  · rfl
  · obtain ⟨hid, htype⟩ := hsound.eq_of_key hinj htext hcolon hr hkey
    exact records_refresh hkey hid htype

/-- **One candidate**: the table stays sound, the events of other articles and of other keys stay,
and there is an event that shows the candidate. -/
theorem upsertEvent_spec (hinj : Set.InjOn digest texts) (hsound : Sound U digest texts events)
    (htext : keyText (row.incident U candidate) ∈ texts)
    (hcolon : ':' ∉ candidate.riskType.toList)
    (h : (upsertEvent U digest registry row.processedId row.raw candidate events).1 = events') :
    Sound U digest texts events' ∧
      (∀ i ≠ row.processedId, events'.rows.filter (·.2.processedArticleId = i) =
        events.rows.filter (·.2.processedArticleId = i)) ∧
      (∀ r, r.2.eventKey ≠ digest (keyText (row.incident U candidate)) →
        (r ∈ events'.rows ↔ r ∈ events.rows)) ∧
      ∃ r ∈ events'.rows, Records U digest registry row candidate r.2 := by
  subst h
  refine ⟨?_, ?_, ?_, ?_⟩
  · intro r hr
    rcases UniqueTable.cases_mem_rows_upsert hr with ⟨-, hold⟩ | ⟨-, hnew⟩
    · exact hsound r hold
    · have hrecords := records_of_mem_upsertEvent hinj hsound htext hcolon hnew
      have hincident := hrecords.incident_eq
      have htype : r.2.riskType = candidate.riskType := congrArg (·.2.1) hincident
      refine ⟨⟨?_, ?_⟩, ?_⟩
      · rw [hincident]
        exact hrecords.key_eq
      · rw [htype]
        exact hcolon
      · rw [hincident]
        exact htext
  · intro i hi
    refine UniqueTable.filter_rows_upsert (fun j => ?_) fun r hr hkey => ?_
    · exact decide_eq_false hi.symm
    · obtain ⟨hid, -⟩ := hsound.eq_of_key hinj htext hcolon hr hkey
      have hother : r.2.processedArticleId ≠ i := by
        rw [hid]
        exact hi.symm
      exact ⟨decide_eq_false hother, decide_eq_false hother⟩
  · intro r hne
    exact UniqueTable.mem_rows_upsert_of_ne hne
  · obtain ⟨r, hr, -, hcases⟩ := @UniqueTable.exists_mem_rows_upsert RiskEvent String _
      (·.eventKey) events (newEvent U digest registry row.processedId row.raw candidate)
      (refresh U registry row.raw candidate) fun _ => rfl
    exact ⟨r, hr, records_of_mem_upsertEvent hinj hsound htext hcolon hcases⟩

/-! ## The candidates of an article -/

/-- What storing candidates leaves. -/
structure Stored (U : Unicode) (digest : String → String) (texts : Set String)
    (registry : Database) (row : ScanRow) (candidates : List RiskEventCandidate)
    (before after : EventTable) : Prop where
  sound : Sound U digest texts after
  others : ∀ i ≠ row.processedId, after.rows.filter (·.2.processedArticleId = i) =
    before.rows.filter (·.2.processedArticleId = i)
  kept : ∀ r : ℕ × RiskEvent, (∀ candidate ∈ candidates,
    r.2.eventKey ≠ digest (keyText (row.incident U candidate))) →
      (r ∈ after.rows ↔ r ∈ before.rows)
  recorded : ∀ candidate ∈ candidates, ∃ r ∈ after.rows,
    Records U digest registry row candidate r.2

/-- Candidates of different types have different keys. -/
theorem key_ne_of_riskType_ne (hinj : Set.InjOn digest texts) {candidate' : RiskEventCandidate}
    (htext : keyText (row.incident U candidate) ∈ texts)
    (htext' : keyText (row.incident U candidate') ∈ texts)
    (hcolon : ':' ∉ candidate.riskType.toList) (hcolon' : ':' ∉ candidate'.riskType.toList)
    (hne : candidate.riskType ≠ candidate'.riskType) :
    digest (keyText (row.incident U candidate)) ≠ digest (keyText (row.incident U candidate')) :=
  fun h => hne (eq_of_keyText_eq (hinj htext htext' h) hcolon hcolon').2

/-- **The loop over the candidates**, when it raises no exception: each candidate is stored, and
counted once. -/
theorem upsertAll_spec (hinj : Set.InjOn digest texts) {raises : Place → Bool}
    {candidates : List RiskEventCandidate} {position created updated created' updated' : ℕ}
    (hsound : Sound U digest texts events)
    (htexts : ∀ candidate ∈ candidates, keyText (row.incident U candidate) ∈ texts ∧
      ':' ∉ candidate.riskType.toList)
    (hpairwise : candidates.Pairwise fun a b => a.riskType ≠ b.riskType)
    (h : upsertAll U digest registry row.processedId row.raw raises position candidates
      (events, created, updated) = some (events', created', updated')) :
    Stored U digest texts registry row candidates events events' ∧
      created' + updated' = created + updated + candidates.length := by
  induction candidates generalizing position events created updated with
  | nil =>
      simp only [upsertAll, Option.some.injEq, Prod.mk.injEq] at h
      obtain ⟨rfl, rfl, rfl⟩ := h
      exact ⟨⟨hsound, fun _ _ => rfl, fun _ _ => Iff.rfl,
        fun _ hmem => absurd hmem List.not_mem_nil⟩, rfl⟩
  | cons candidate candidates ih =>
      rw [upsertAll] at h
      split at h
      · cases h
      obtain ⟨htext, hcolon⟩ := htexts candidate List.mem_cons_self
      rw [List.pairwise_cons] at hpairwise
      obtain ⟨hhead, hpairwise⟩ := hpairwise
      have htail := fun c hc => htexts c (List.mem_cons_of_mem candidate hc)
      generalize hupsert : upsertEvent U digest registry row.processedId row.raw candidate events =
        stepped at h
      obtain ⟨middle, wasCreated⟩ := stepped
      obtain ⟨hmiddle, hothers, hkept, r, hr, hrecords⟩ :=
        upsertEvent_spec hinj hsound htext hcolon (congrArg Prod.fst hupsert)
      have hrest : ∃ c u, c + u = created + updated + 1 ∧
          upsertAll U digest registry row.processedId row.raw raises (position + 1) candidates
            (middle, c, u) = some (events', created', updated') := by
        cases wasCreated
        · exact ⟨created, updated + 1, by omega, h⟩
        · exact ⟨created + 1, updated, by omega, h⟩
      obtain ⟨c, u, hcount, hrest⟩ := hrest
      obtain ⟨hstored, hsum⟩ := ih hmiddle htail hpairwise hrest
      refine ⟨⟨hstored.sound, fun i hi => (hstored.others i hi).trans (hothers i hi), ?_, ?_⟩, ?_⟩
      · intro r' hne
        rw [hstored.kept r' fun c hc => hne c (List.mem_cons_of_mem candidate hc)]
        exact hkept r' (hne candidate List.mem_cons_self)
      · intro c hc
        rcases List.mem_cons.mp hc with rfl | hc
        · -- the later candidates have other types, and so other keys
          refine ⟨r, (hstored.kept r fun c' hc' => ?_).mpr hr, hrecords⟩
          rw [hrecords.key_eq]
          exact key_ne_of_riskType_ne hinj htext (htail c' hc').1 hcolon (htail c' hc').2
            (hhead c' hc')
        · exact hstored.recorded c hc
      · rw [List.length_cons]
        omega

/-! ## One article -/

/-- An iteration stores the article, or counts an error. -/
theorem processArticle_cases (registry : Database) (g : Generation) (p : Progress)
    (row : ScanRow) :
    (∃ events created updated,
      upsertAll U digest registry row.processedId row.raw (g.raises row.processedId) 0
        (row.candidates U) (p.events, 0, 0) = some (events, created, updated) ∧
      processArticle U digest registry g p row =
        { events := events
          articles := markChecked row.processedId (g.clock row.processedId) p.articles
          created := p.created + created
          updated := p.updated + updated
          errors := p.errors }) ∨
    processArticle U digest registry g p row = { p with errors := p.errors + 1 } := by
  unfold processArticle
  dsimp only
  split
  · exact Or.inr rfl
  · split
    · exact Or.inr rfl
    · rename_i events created updated hupsert
      split
      · exact Or.inr rfl
      · exact Or.inl ⟨events, created, updated, hupsert, rfl⟩

/-- A mark leaves the other articles. -/
theorem find?_markChecked (articles : Table StoredArticle) (processedId : ℕ) (now : Instant)
    (i : ℕ) :
    (markChecked processedId now articles).find? i =
      if i = processedId then
        (articles.find? i).map fun article => { article with riskEventCheckedAt := some now }
      else articles.find? i := by
  rw [markChecked, Table.update, Table.find?_modify]
  by_cases hi : i = processedId
  · simp [hi]
  · simp [hi]

/-- What the loop has of an article. -/
def Progress.state (i : ℕ) (p : Progress) : ArticleState := articleState p.articles p.events i

/-- The texts of the candidates of a row are among the given ones. -/
def ScanRow.Within (U : Unicode) (texts : Set String) (row : ScanRow) : Prop :=
  ∀ candidate ∈ row.candidates U, keyText (row.incident U candidate) ∈ texts

theorem ScanRow.Within.candidates (h : row.Within U texts) :
    ∀ candidate ∈ row.candidates U, keyText (row.incident U candidate) ∈ texts ∧
      ':' ∉ candidate.riskType.toList :=
  fun candidate hmem => ⟨h candidate hmem, ScanRow.colon_not_mem hmem⟩

/-- An iteration keeps the table sound, and what there is of other articles. -/
theorem processArticle_frame (hinj : Set.InjOn digest texts) {g : Generation} {p : Progress}
    (hwithin : row.Within U texts) (hsound : Sound U digest texts p.events) :
    Sound U digest texts (processArticle U digest registry g p row).events ∧
      ∀ i ≠ row.processedId,
        (processArticle U digest registry g p row).state i = p.state i := by
  rcases @processArticle_cases U digest registry g p row with
    ⟨events, created, updated, hupsert, heq⟩ | heq
  · obtain ⟨hstored, -⟩ := upsertAll_spec hinj hsound hwithin.candidates
      pairwise_riskType_detectRiskEvents hupsert
    rw [heq]
    refine ⟨hstored.sound, fun i hi => ?_⟩
    rw [Progress.state, Progress.state, articleState, articleState, find?_markChecked, if_neg hi,
      hstored.others i hi]
  · rw [heq]
    exact ⟨hsound, fun _ _ => rfl⟩

/-- The outcome of an iteration on an article that is as it was selected. -/
theorem processArticle_allOrNothing (hinj : Set.InjOn digest texts) {g : Generation}
    {p : Progress} (hwithin : row.Within U texts) (hsound : Sound U digest texts p.events)
    (hrow : (p.state row.processedId).article = some row.processed)
    (hunchecked : row.processed.riskEventCheckedAt = none) :
    let p' := processArticle U digest registry g p row
    AllOrNothing U digest registry row (p.state row.processedId) (p'.state row.processedId) ∧
      p'.created + p'.updated = p.created + p.updated +
        (if (p'.state row.processedId).checked then (row.candidates U).length else 0) ∧
      p'.errors = p.errors + if (p'.state row.processedId).checked then 0 else 1 := by
  intro p'
  have hrow' : p.articles.find? row.processedId = some row.processed := hrow
  rcases @processArticle_cases U digest registry g p row with
    ⟨events, created, updated, hupsert, heq⟩ | heq
  · obtain ⟨hstored, hcount⟩ := upsertAll_spec hinj hsound hwithin.candidates
      pairwise_riskType_detectRiskEvents hupsert
    have harticle : (p'.state row.processedId).article =
        some { row.processed with
          riskEventCheckedAt := some (g.clock row.processedId) } := by
      rw [show p' = _ from heq, Progress.state, articleState, find?_markChecked, if_pos rfl, hrow']
      rfl
    have hevents : (p'.state row.processedId).events =
        events.rows.filter (·.2.processedArticleId = row.processedId) := by
      rw [show p' = _ from heq]
      rfl
    have hchecked : (p'.state row.processedId).checked = true := by
      rw [ArticleState.checked, harticle]
      rfl
    have hmem : ∀ r, r ∈ (p'.state row.processedId).events ↔
        r ∈ events.rows ∧ r.2.processedArticleId = row.processedId := by
      intro r
      rw [hevents, List.mem_filter, decide_eq_true_eq]
    refine ⟨Or.inl ⟨⟨_, harticle⟩, ?_, ?_⟩, ?_, ?_⟩
    · intro candidate hcandidate
      obtain ⟨r, hr, hrecords⟩ := hstored.recorded candidate hcandidate
      have hid : r.2.processedArticleId = row.processedId := congrArg (·.1) hrecords.incident_eq
      refine ⟨r, (hmem r).mpr ⟨hr, hid⟩, hrecords, fun r' hr' hincident => ?_⟩
      exact hstored.sound.eq_of_incident_eq ((hmem r').mp hr').1 hr
        (hincident.trans hrecords.incident_eq.symm)
    · intro r hr
      obtain ⟨hr, hid⟩ := (hmem r).mp hr
      by_cases hkey : ∃ candidate ∈ row.candidates U,
          r.2.eventKey = digest (keyText (row.incident U candidate))
      · obtain ⟨candidate, hcandidate, hkey⟩ := hkey
        obtain ⟨r', hr', hrecords⟩ := hstored.recorded candidate hcandidate
        have heq : r = r' := UniqueTable.eq_of_unique (t := events) List.mem_cons_self hr hr'
          (congrArg some hkey) (congrArg some hrecords.key_eq)
        exact Or.inr ⟨candidate, hcandidate, heq ▸ hrecords.incident_eq⟩
      · have hold := (hstored.kept r fun candidate hcandidate heq =>
          hkey ⟨candidate, hcandidate, heq⟩).mp hr
        exact Or.inl (List.mem_filter.mpr ⟨hold, decide_eq_true hid⟩)
    · rw [if_pos hchecked, show p' = _ from heq]
      dsimp only
      omega
    · rw [if_pos hchecked, show p' = _ from heq]
      rfl
  · have hstate : p'.state row.processedId = p.state row.processedId := by
      rw [show p' = _ from heq]
      rfl
    have hchecked : (p'.state row.processedId).checked = false := by
      rw [hstate, ArticleState.checked, hrow, Option.any_some, hunchecked]
      rfl
    refine ⟨Or.inr ⟨hunchecked, ?_, ?_⟩, ?_, ?_⟩
    · rw [hstate, hrow]
    · rw [hstate]
    · rw [hchecked, if_neg Bool.false_ne_true, show p' = _ from heq]
      rfl
    · rw [hchecked, if_neg Bool.false_ne_true, show p' = _ from heq]

/-! ## One run -/

/-- A selected row is an article of the table that is not marked. -/
theorem Generation.mem_rows {g : Generation} {st : Store} (h : row ∈ g.rows st) :
    st.processedArticles.find? row.processedId = some row.processed ∧
      row.processed.riskEventCheckedAt = none := by
  have hfilter := (List.mem_insertionSort _).mp (List.mem_of_mem_take h)
  obtain ⟨hjoined, hselected⟩ := List.mem_filter.mp hfilter
  rw [decide_eq_true_eq] at hselected
  obtain ⟨r, hr, hraw⟩ := List.mem_filterMap.mp hjoined
  obtain ⟨raw, -, rfl⟩ := Option.map_eq_some_iff.mp hraw
  exact ⟨Table.find?_eq_some_iff.mpr hr, hselected.2⟩

/-- No article is selected twice. -/
theorem Generation.nodup_rows (g : Generation) (st : Store) :
    ((g.rows st).map (·.processedId)).Nodup := by
  have hjoined : (st.joined.map (·.processedId)).Nodup := by
    have hkeys : st.joined.map (·.processedId) = (st.processedArticles.rows.filter fun r =>
        (st.rawArticles.find? r.2.rawArticleId).isSome).map (·.1) := by
      rw [Store.joined]
      induction st.processedArticles.rows with
      | nil => rfl
      | cons r l ih =>
          cases hraw : st.rawArticles.find? r.2.rawArticleId with
          | none => simp [hraw, ih]
          | some raw => simp [hraw, ih]
    rw [hkeys]
    exact st.processedArticles.nodup_keys.sublist (List.filter_sublist.map _)
  have hsorted := (List.perm_insertionSort ScanRow.Before (st.joined.filter fun row =>
    g.now - days g.daysBack ≤ row.processed.processedAt ∧
      row.processed.riskEventCheckedAt = none)).map (·.processedId)
  exact (hsorted.nodup_iff.mpr (hjoined.sublist (List.filter_sublist.map _))).sublist
    ((List.take_sublist _ _).map _)

/-- The texts that a run digests, or has digested for the stored events. -/
def Generation.digested (U : Unicode) (g : Generation) (st : Store) : Set String :=
  {text | (∃ r ∈ st.events.rows, keyText (r.2.incident U) = text) ∨
    ∃ row ∈ g.rows st, ∃ candidate ∈ row.candidates U,
      keyText (row.incident U candidate) = text}

/-- What a store has of an article. -/
def Store.state (i : ℕ) (st : Store) : ArticleState := articleState st.processedArticles st.events i

/-- What the counts of a run say, by the articles it has selected and how they are afterwards. -/
def Counted (U : Unicode) (rows : List ScanRow) (after : Store)
    (result : RiskEventGenerationResult) : Prop :=
  result.created + result.updated =
      (rows.map fun row =>
        if (after.state row.processedId).checked then (row.candidates U).length else 0).sum ∧
    result.errors = rows.countP (fun row => !(after.state row.processedId).checked) ∧
    result.scanned =
      rows.countP (fun row => (after.state row.processedId).checked) + result.errors

/-- Each stored event is keyed. -/
def Store.Keyed (U : Unicode) (digest : String → String) (st : Store) : Prop :=
  ∀ r ∈ st.events.rows, r.2.Keyed U digest

section Loop

variable {g : Generation} {st : Store}

/-- The candidates of the selected articles are among the digested texts. -/
theorem Generation.within_of_mem_rows (h : row ∈ g.rows st) : row.Within U (g.digested U st) :=
  fun candidate hcandidate => Or.inr ⟨row, h, candidate, hcandidate, rfl⟩

/-- The events of a keyed store are keyed by digested texts. -/
theorem Store.Keyed.sound (h : st.Keyed U digest) :
    Sound U digest (g.digested U st) st.events :=
  fun r hr => ⟨h r hr, Or.inl ⟨r, hr, rfl⟩⟩

/-- The iterations do not meet in an article. -/
theorem independent_processArticle (hinj : Set.InjOn digest (g.digested U st)) :
    Batch.Independent (processArticle U digest st.registry g) (·.processedId) Progress.state
      (fun p => Sound U digest (g.digested U st) p.events) (g.rows st) :=
  fun _ _ hrow hsound =>
    processArticle_frame hinj (Generation.within_of_mem_rows hrow) hsound

/-- The outcome of an iteration of the loop, when it finds its article as it was selected. -/
theorem processArticle_of_mem_rows (hinj : Set.InjOn digest (g.digested U st)) {p : Progress}
    (hrow : row ∈ g.rows st) (hsound : Sound U digest (g.digested U st) p.events)
    (hstate : p.state row.processedId = st.state row.processedId) :
    let p' := processArticle U digest st.registry g p row
    AllOrNothing U digest st.registry row (st.state row.processedId)
        (p'.state row.processedId) ∧
      p'.created + p'.updated = p.created + p.updated +
        (if (p'.state row.processedId).checked then (row.candidates U).length else 0) ∧
      p'.errors = p.errors + if (p'.state row.processedId).checked then 0 else 1 := by
  obtain ⟨hfind, hunchecked⟩ := Generation.mem_rows hrow
  rw [← hstate]
  exact processArticle_allOrNothing hinj (Generation.within_of_mem_rows hrow) hsound
    ((congrArg ArticleState.article hstate).trans hfind) hunchecked

/-- The loop leaves each selected article in one of the two outcomes. -/
theorem articleLoop_allOrNothing (hinj : Set.InjOn digest (g.digested U st))
    (hkeyed : st.Keyed U digest) (hrow : row ∈ g.rows st) :
    AllOrNothing U digest st.registry row (st.state row.processedId)
      ((articleLoop U digest g st).state row.processedId) := by
  obtain ⟨p, hsound, hbefore, hafter⟩ := Batch.exists_step (independent_processArticle hinj)
    (g.nodup_rows st) (s := ⟨st.events, st.processedArticles, 0, 0, 0⟩) hkeyed.sound hrow
  rw [articleLoop, hafter]
  exact (processArticle_of_mem_rows hinj hrow hsound hbefore).1

/-- What the loop has created and updated: the candidates of the marked articles. -/
theorem articleLoop_created (hinj : Set.InjOn digest (g.digested U st))
    (hkeyed : st.Keyed U digest) :
    (articleLoop U digest g st).created + (articleLoop U digest g st).updated =
      ((g.rows st).map fun row =>
        if ((articleLoop U digest g st).state row.processedId).checked then
          (row.candidates U).length else 0).sum := by
  have hcount := Batch.count_foldl (c := fun p : Progress => p.created + p.updated)
    (w := fun (row : ScanRow) (a : ArticleState) =>
      if a.checked then (row.candidates U).length else 0)
    (independent_processArticle hinj) (g.nodup_rows st)
    (s := ⟨st.events, st.processedArticles, 0, 0, 0⟩) hkeyed.sound ?_
  · rw [articleLoop, hcount, Nat.add_zero, Nat.zero_add]
  · intro p row hrow hsound hstate
    exact (processArticle_of_mem_rows hinj hrow hsound hstate).2.1

/-- The errors of the loop: the articles that are not marked. -/
theorem articleLoop_errors (hinj : Set.InjOn digest (g.digested U st))
    (hkeyed : st.Keyed U digest) :
    (articleLoop U digest g st).errors =
      (g.rows st).countP fun row =>
        !((articleLoop U digest g st).state row.processedId).checked := by
  have hcount := Batch.count_foldl (c := Progress.errors)
    (w := fun (_ : ScanRow) (a : ArticleState) => if a.checked then 0 else 1)
    (independent_processArticle hinj) (g.nodup_rows st)
    (s := ⟨st.events, st.processedArticles, 0, 0, 0⟩) hkeyed.sound ?_
  swap
  · intro p row hrow hsound hstate
    exact (processArticle_of_mem_rows hinj hrow hsound hstate).2.2
  have hsum : ∀ (checked : ScanRow → Bool) (rows : List ScanRow),
      (rows.map fun row => if checked row then 0 else 1).sum =
        rows.countP fun row => !checked row := by
    intro checked rows
    induction rows with
    | nil => rfl
    | cons row rows ih =>
        rw [List.map_cons, List.sum_cons, ih, List.countP_cons, Nat.add_comm]
        cases checked row
        · rfl
        · rfl
  rw [articleLoop, hcount, Nat.zero_add]
  exact hsum _ _

/-- **One run**, from a store whose events are keyed. -/
theorem generateRiskEvents_spec (hinj : Set.InjOn digest (g.digested U st))
    (hkeyed : st.Keyed U digest) :
    let run := generateRiskEvents U digest g st
    run.1.Keyed U digest ∧
      (∀ row ∈ g.rows st, AllOrNothing U digest st.registry row (st.state row.processedId)
        (run.1.state row.processedId)) ∧
      Counted U (g.rows st) run.1 run.2 := by
  refine ⟨fun r hr => ?_, fun row hrow => articleLoop_allOrNothing hinj hkeyed hrow,
    articleLoop_created hinj hkeyed, articleLoop_errors hinj hkeyed, ?_⟩
  · have hsound := ((independent_processArticle hinj).foldl
      (s := ⟨st.events, st.processedArticles, 0, 0, 0⟩) hkeyed.sound).1
    exact (hsound r hr).1
  · have hlength := List.length_eq_countP_add_countP
      (fun row : ScanRow => ((articleLoop U digest g st).state row.processedId).checked)
      (l := g.rows st)
    rw [generateRiskEvents]
    dsimp only
    rw [articleLoop_errors hinj hkeyed, hlength]
    congr 1
    refine List.countP_congr fun row _ => ?_
    simp

end Loop

/-! ## Every run -/

variable (U digest)

/-- What is written to the tables: by a run, by the ingestion, processing and retention of articles,
to the registry of suppliers, and to the events by the backfill of suppliers, the review of their
status and the retention. -/
inductive Write
  | generate (g : Generation)
  | articles (rawArticles : Table NewsArticleRaw) (processedArticles : Table StoredArticle)
  | registry (db : Database)
  | backfill (supplierIds : ℕ → List String)
  | review (riskEventId : ℕ) (status : String)
  | prune (expired : ℕ → RiskEvent → Bool)

/-- What a write does. -/
def step (st : Store) : Write → Option Store
  | .generate g => some (generateRiskEvents U digest g st).1
  | .articles rawArticles processedArticles =>
      some { st with rawArticles := rawArticles, processedArticles := processedArticles }
  | .registry db => some { st with registry := db }
  | .backfill supplierIds =>
      some { st with
        events := st.events.modify
          (fun i event => { event with affectedSupplierIds := supplierIds i })
          fun k hk _ _ => by rw [List.mem_singleton.mp hk] }
  | .review riskEventId status =>
      some { st with
        events := st.events.update (fun i _ => i = riskEventId)
          (fun event => { event with status := status })
          fun k hk _ => by rw [List.mem_singleton.mp hk] }
  | .prune expired => some { st with events := st.events.delete expired }

/-- A run digests no two texts, of stored events or of candidates, to one key. -/
def NoCollision (st : Store) : Write → Prop
  | .generate g => Set.InjOn digest (g.digested U st)
  | _ => True

variable {U digest}

/-- Every write keeps the events keyed. -/
theorem keyed_of_step {st st' : Store} {w : Write} (hkeyed : st.Keyed U digest)
    (hguard : NoCollision U digest st w) (h : step U digest st w = some st') :
    st'.Keyed U digest := by
  have hmodify : ∀ {f : ℕ → RiskEvent → RiskEvent},
      (∀ i event, event.Keyed U digest → (f i event).Keyed U digest) →
      ∀ r ∈ (st.events.toTable.modify f).rows, r.2.Keyed U digest := by
    intro f hkeep r hr
    obtain ⟨event, hevent, heq⟩ := Table.mem_rows_modify.mp hr
    rw [heq]
    exact hkeep r.1 event (hkeyed (r.1, event) hevent)
  cases w with
  | generate g =>
      obtain rfl := Option.some.inj h
      exact (generateRiskEvents_spec hguard hkeyed).1
  | articles rawArticles processedArticles =>
      obtain rfl := Option.some.inj h
      exact hkeyed
  | registry db =>
      obtain rfl := Option.some.inj h
      exact hkeyed
  | backfill supplierIds =>
      obtain rfl := Option.some.inj h
      exact hmodify fun _ _ hevent => ⟨hevent.key, hevent.colon⟩
  | review riskEventId status =>
      obtain rfl := Option.some.inj h
      refine hmodify fun i event hevent => ?_
      split
      · exact ⟨hevent.key, hevent.colon⟩
      · exact hevent
  | prune expired =>
      obtain rfl := Option.some.inj h
      exact fun r hr => hkeyed r (Table.mem_rows_delete.mp hr).1

/-- The events are keyed in every run from a keyed store. -/
theorem keyed_of_execution {st st' : Store} {tr : List (Store × Write)}
    (h : Execution (step U digest) (NoCollision U digest) st tr st')
    (hkeyed : st.Keyed U digest) : st'.Keyed U digest :=
  h.invariant hkeyed fun _ _ _ hkeyed hguard hstep => keyed_of_step hkeyed hguard hstep

/-- **All or nothing, in every run**: each article that is scanned is stored and marked as a whole
or left as it was, the counts say which, and no later write makes a second event of an incident. -/
theorem generateRiskEvents_allOrNothing {st : Store} {tr : List (Store × Write)}
    (h : Execution (step U digest) (NoCollision U digest) Store.empty tr st) {g : Generation}
    (hg : NoCollision U digest st (.generate g)) :
    let run := generateRiskEvents U digest g st
    (∀ row ∈ g.rows st, AllOrNothing U digest st.registry row (st.state row.processedId)
      (run.1.state row.processedId)) ∧
    Counted U (g.rows st) run.1 run.2 ∧
    ∀ st' tr', Execution (step U digest) (NoCollision U digest) run.1 tr' st' →
      ∀ r ∈ st'.events.rows, ∀ r' ∈ st'.events.rows, r.2.incident U = r'.2.incident U →
        r = r' := by
  have hkeyed : st.Keyed U digest := keyed_of_execution h fun r hr => absurd hr List.not_mem_nil
  obtain ⟨hkeyed', houtcome, hcounted⟩ := generateRiskEvents_spec hg hkeyed
  refine ⟨houtcome, hcounted, fun st' tr' h' r hr r' hr' hincident => ?_⟩
  have hlater := keyed_of_execution h' hkeyed'
  have hsound : Sound U digest Set.univ st'.events :=
    fun r hr => ⟨hlater r hr, Set.mem_univ _⟩
  exact hsound.eq_of_incident_eq hr hr' hincident

end Persistence

/-! ## An article -/

/-- The digest of one text, and other keys for the others. -/
private def sampleDigest (text : String) : String :=
  if text = "1:currency::" then "a4b96c2403130c5fd299a7617d064eff76727ba4" else "sha256 " ++ text

private theorem sampleDigest_injective : Function.Injective sampleDigest := by
  intro a b h
  have hne : ∀ s, "a4b96c2403130c5fd299a7617d064eff76727ba4" ≠ "sha256 " ++ s := by
    intro s heq
    have hhead := congrArg (·.toList.head?) heq
    simp at hhead
  unfold sampleDigest at h
  split at h
  · rename_i ha
    split at h
    · rename_i hb
      rw [ha, hb]
    · exact absurd h (hne b)
  · split at h
    · exact absurd h.symm (hne a)
    · exact (String.append_right_inj _).mp h

/-- A raw article and its processed article. -/
private def sampleArticles : Write :=
  .articles
    (Table.empty.insert
      { title := "FX losses", description := none, contentSnippet := none,
        articleUrl := "https://example.com/fx", sourceName := "Reuters", publishedAt := 0 })
    (Table.empty.insert
      { normalizedTitle := "FX losses", summary := "", topLevelCategory := "general",
        signalTags := none, prioritySignal := none, detectedRegions := none,
        detectedSuppliers := none, detectedCategories := none, rawArticleId := 1,
        processedAt := 0, riskEventCheckedAt := none })

/-- A run in which an exception is raised at the second candidate of each article. -/
private def sampleRun : Generation where
  now := 1
  daysBack := 7
  limit := 500
  clock := fun _ => 2
  raises := fun _ place => place = .candidate 1

/-- The article is scanned, in a run after its ingestion. -/
theorem generateRiskEvents_allOrNothing_fx :
    ∃ st, (sampleRun.rows st).map (·.processedId) = [1] ∧
      let run := generateRiskEvents .ascii sampleDigest sampleRun st
      (∀ row ∈ sampleRun.rows st, AllOrNothing .ascii sampleDigest st.registry row
        (st.state row.processedId) (run.1.state row.processedId)) ∧
      Counted .ascii (sampleRun.rows st) run.1 run.2 := by
  obtain ⟨tr, st, h, hrows⟩ := @Execution.exists_of_execute _ _ (step .ascii sampleDigest)
    (NoCollision .ascii sampleDigest) Store.empty
    (fun _ st => (sampleRun.rows st).map (·.processedId) = [1]) [sampleArticles]
    ⟨_, rfl, by decide⟩ (by
      intro x hx
      rw [List.mem_singleton.mp hx]
      trivial)
  obtain ⟨houtcome, hcounted, -⟩ := generateRiskEvents_allOrNothing h (g := sampleRun)
    sampleDigest_injective.injOn
  exact ⟨st, hrows, houtcome, hcounted⟩

end ProcureSignal.RiskEvents
