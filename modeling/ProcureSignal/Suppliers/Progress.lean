/-
# Screening progress

Repeated screening runs with no other writer.  The limit is applied before the rows
without designation names are skipped, only a stored mention takes a designation out
of the query, and one rejected mention rolls back the whole run.  So a designation may
wait for ever behind rows that never leave (`screening_stalls`).

`screensAll_iff` gives the exact condition: every pending designation has a usable name,
all its usable names fit their column, and fewer than `limit` rows without designation
names come before it.
-/
import ProcureSignal.Suppliers.System

namespace ProcureSignal.Suppliers

variable (U : Unicode)

/-! ## Pending designations -/

/-- The designations among the candidates of the screening query. -/
def pending (db : Database) : List (ℕ × RawPayload) :=
  (screeningCandidates db).filter fun row => RawPayload.designationNames (some row.2) ≠ []

/-- `n` runs of the screening task. -/
def screenRuns (limit : ℕ) : ℕ → Database → Database
  | 0, db => db
  | n + 1, db => screenRuns limit n (screenRun U db limit)

/-- Every pending designation is screened after finitely many runs, and each run on the
way screens at least one. -/
def ScreensAll (db : Database) (limit : ℕ) : Prop :=
  (∃ n, pending (screenRuns U limit n db) = []) ∧
    ∀ n, pending (screenRuns U limit n db) ≠ [] →
      (pending (screenRuns U limit (n + 1) db)).length < (pending (screenRuns U limit n db)).length

/-- A row with usable names that all fit, behind fewer than `limit` rows without
designation names. -/
def Reachable (db : Database) (limit : ℕ) (row : ℕ × RawPayload) : Prop :=
  distinctSurfaceForms U (RawPayload.designationNames (some row.2)) ≠ [] ∧
    (∀ f ∈ distinctSurfaceForms U (RawPayload.designationNames (some row.2)), f.length ≤ 300) ∧
    (screeningCandidates db).countP (fun r =>
      r.1 < row.1 ∧ RawPayload.designationNames (some r.2) = []) < limit

/-! ## What one run does to the candidates -/

/-- A row keeps its place in the query unless this run stores a mention for it. -/
def Stays (db : Database) (limit : ℕ) (row : ℕ × RawPayload) : Prop :=
  ¬ ((∃ db' summary, screenProcessedArticles U db limit = .ok (db', summary)) ∧
    row ∈ screeningRows db limit ∧
    distinctSurfaceForms U (RawPayload.designationNames (some row.2)) ≠ [])

/-- With the same articles and more mentions, the candidates are those not mentioned. -/
theorem screeningCandidates_of_mentions {db : Database} {mentions : MentionTable}
    {audits : Table AuditLog} (hsub : ∀ i ∈ alreadyScreened db,
      i ∈ alreadyScreened { db with mentions := mentions, audits := audits }) :
    screeningCandidates { db with mentions := mentions, audits := audits }
      = (screeningCandidates db).filter fun row =>
          row.1 ∉ alreadyScreened { db with mentions := mentions, audits := audits } := by
  unfold screeningCandidates
  rw [List.filter_filterMap]
  apply List.filterMap_congr
  rintro ⟨i, p⟩ _hr
  cases hraw : db.raws.find? p.rawArticleId with
  | none => simp
  | some raw =>
      cases hpay : raw.rawPayloadJson with
      | none => simp [hpay]
      | some payload =>
          by_cases hold : i ∈ alreadyScreened db
          · simp [hpay, hold, hsub i hold]
          · by_cases hnew : i ∈ alreadyScreened { db with mentions := mentions, audits := audits }
            · simp [hpay, hold, hnew, Option.filter]
            · simp [hpay, hold, hnew, Option.filter]

/-- The query returns one row for each article. -/
theorem eq_of_mem_screeningCandidates {db : Database} {row row' : ℕ × RawPayload}
    (h : row ∈ screeningCandidates db) (h' : row' ∈ screeningCandidates db)
    (hkey : row.1 = row'.1) : row = row' := by
  obtain ⟨i, payload⟩ := row
  obtain ⟨j, payload'⟩ := row'
  obtain rfl : i = j := hkey
  obtain ⟨-, p, raw, hp, hraw, hpay⟩ := mem_screeningCandidates.mp h
  obtain ⟨-, p', raw', hp', hraw', hpay'⟩ := mem_screeningCandidates.mp h'
  obtain rfl := Table.eq_of_mem hp hp'
  rw [hraw, Option.some.injEq] at hraw'
  rw [← hraw', hpay, Option.some.injEq] at hpay'
  rw [hpay']

/-- **One run.**  Exactly the rows it stores a mention for leave the query. -/
theorem screeningCandidates_screenRun (db : Database) (limit : ℕ) :
    ∃ p : ℕ × RawPayload → Bool,
      screeningCandidates (screenRun U db limit) = (screeningCandidates db).filter p ∧
      ∀ row ∈ screeningCandidates db, (p row = true ↔ Stays U db limit row) := by
  unfold screenRun Stays
  cases h : screenProcessedArticles U db limit with
  | error e =>
      refine ⟨fun _ => true, by rw [List.filter_true], ?_⟩
      simp
  | ok r =>
      obtain ⟨db', summary⟩ := r
      obtain ⟨mentions, audits, rfl, -, hiff⟩ := screenProcessedArticles_eq_ok U h
      refine ⟨_, screeningCandidates_of_mentions fun i hi => (hiff i).mpr (Or.inl hi), ?_⟩
      intro row hcand
      have hfresh : row.1 ∉ alreadyScreened db := (mem_screeningCandidates.mp hcand).1
      rw [decide_eq_true_eq, hiff row.1]
      refine not_congr ⟨?_, ?_⟩
      · rintro (hold | ⟨row', hrow', hkey, hne⟩)
        · exact absurd hold hfresh
        · obtain rfl := eq_of_mem_screeningCandidates hcand (List.mem_of_mem_take hrow') hkey
          exact ⟨⟨_, _, rfl⟩, hrow', hne⟩
      · rintro ⟨-, hrow, hne⟩
        exact Or.inr ⟨row, hrow, rfl, hne⟩

/-- A row without designation names never leaves. -/
theorem stays_of_designationNames_eq_nil {db : Database} {limit : ℕ} {row : ℕ × RawPayload}
    (h : RawPayload.designationNames (some row.2) = []) : Stays U db limit row := by
  rintro ⟨-, -, hne⟩
  rw [h] at hne
  exact hne rfl

/-- The rows without designation names ahead of a key stay the same. -/
theorem countP_screenRun (db : Database) (limit i : ℕ) :
    (screeningCandidates (screenRun U db limit)).countP (fun r =>
        r.1 < i ∧ RawPayload.designationNames (some r.2) = [])
      = (screeningCandidates db).countP (fun r =>
        r.1 < i ∧ RawPayload.designationNames (some r.2) = []) := by
  obtain ⟨p, heq, hp⟩ := screeningCandidates_screenRun U db limit
  rw [heq, List.countP_filter]
  apply List.countP_congr
  intro row hrow
  simp only [Bool.and_eq_true, decide_eq_true_eq, and_iff_left_iff_imp]
  rintro ⟨-, hnil⟩
  exact (hp row hrow).mpr (stays_of_designationNames_eq_nil U hnil)

/-- What is pending after a run: what was pending and stays. -/
theorem mem_pending_screenRun {db : Database} {limit : ℕ} {row : ℕ × RawPayload} :
    row ∈ pending (screenRun U db limit) ↔ row ∈ pending db ∧ Stays U db limit row := by
  obtain ⟨p, heq, hp⟩ := screeningCandidates_screenRun U db limit
  unfold pending
  rw [heq, List.mem_filter, List.mem_filter, List.mem_filter]
  constructor
  · rintro ⟨⟨hcand, hstay⟩, hne⟩
    exact ⟨⟨hcand, hne⟩, (hp row hcand).mp hstay⟩
  · rintro ⟨⟨hcand, hne⟩, hstay⟩
    exact ⟨⟨hcand, (hp row hcand).mpr hstay⟩, hne⟩

/-- A run that screens a pending designation leaves fewer. -/
theorem length_pending_screenRun_lt {db : Database} {limit : ℕ} {row : ℕ × RawPayload}
    (hrow : row ∈ pending db) (hleave : ¬ Stays U db limit row) :
    (pending (screenRun U db limit)).length < (pending db).length := by
  obtain ⟨p, heq, hp⟩ := screeningCandidates_screenRun U db limit
  have hfilter : pending (screenRun U db limit) = (pending db).filter p := by
    unfold pending
    rw [heq, List.filter_comm]
  rw [hfilter]
  refine List.length_filter_lt_length_iff_exists.mpr ⟨row, hrow, ?_⟩
  rwa [hp row (List.mem_filter.mp hrow).1]

/-! ## The condition is enough -/

/-- The condition is kept by a run. -/
theorem reachable_screenRun {db : Database} {limit : ℕ} {row : ℕ × RawPayload} :
    Reachable U (screenRun U db limit) limit row ↔ Reachable U db limit row := by
  unfold Reachable
  rw [countP_screenRun]

/-- The first pending designation is taken by the query. -/
theorem exists_mem_screeningRows {db : Database} {limit : ℕ}
    (hall : ∀ row ∈ pending db, Reachable U db limit row) (hne : pending db ≠ []) :
    ∃ row ∈ pending db, row ∈ screeningRows db limit := by
  cases hlist : pending db with
  | nil => exact absurd hlist hne
  | cons first rest =>
      have hfirst : first ∈ pending db := by
        rw [hlist]
        exact List.mem_cons_self
      refine ⟨first, List.mem_cons_self, ?_⟩
      have hcand := (List.mem_filter.mp hfirst).1
      refine (mem_take_iff_countP_lt (sorted_screeningCandidates db) hcand limit).mpr ?_
      refine lt_of_eq_of_lt ?_ (hall first hfirst).2.2
      -- a candidate ahead of the first pending designation is not a designation
      apply List.countP_congr
      intro r hr
      simp only [decide_eq_true_eq, iff_self_and]
      intro hlt
      by_contra hdesignation
      have hpend : r ∈ pending db := List.mem_filter.mpr ⟨hr, by simpa using hdesignation⟩
      have hsorted : (pending db).Pairwise (fun r r' => r.1 < r'.1) :=
        (sorted_screeningCandidates db).sublist List.filter_sublist
      rw [hlist] at hpend hsorted
      rcases List.mem_cons.mp hpend with rfl | hpend
      · omega
      · have := (List.pairwise_cons.mp hsorted).1 r hpend
        omega

/-- **Each run screens a designation while one is pending.** -/
theorem exists_not_stays {db : Database} {limit : ℕ}
    (hall : ∀ row ∈ pending db, Reachable U db limit row) (hne : pending db ≠ []) :
    ∃ row ∈ pending db, ¬ Stays U db limit row := by
  obtain ⟨row, hpend, hrow⟩ := exists_mem_screeningRows U hall hne
  refine ⟨row, hpend, not_not_intro ⟨?_, hrow, (hall row hpend).1⟩⟩
  refine (exists_screenProcessedArticles U).mpr ?_
  intro r hr f hf
  by_cases hnil : RawPayload.designationNames (some r.2) = []
  · rw [hnil] at hf
    cases hf
  · have hr' : r ∈ pending db :=
      List.mem_filter.mpr ⟨List.mem_of_mem_take hr, by simpa using hnil⟩
    exact (hall r hr').2.1 f hf

/-- The condition is kept along the runs. -/
theorem reachable_screenRuns {limit : ℕ} (n : ℕ) {db : Database}
    (hall : ∀ row ∈ pending db, Reachable U db limit row) :
    ∀ row ∈ pending (screenRuns U limit n db), Reachable U (screenRuns U limit n db) limit row := by
  induction n generalizing db with
  | zero => exact hall
  | succ n ih =>
      apply ih
      intro row hrow
      exact (reachable_screenRun U).mpr (hall row ((mem_pending_screenRun U).mp hrow).1)

/-- The last run of a series. -/
theorem screenRuns_succ (limit n : ℕ) (db : Database) :
    screenRuns U limit (n + 1) db = screenRun U (screenRuns U limit n db) limit := by
  induction n generalizing db with
  | zero => rfl
  | succ n ih => exact ih (screenRun U db limit)

/-- Under the condition the runs end with nothing pending. -/
theorem exists_pending_eq_nil {limit : ℕ} (k : ℕ) {db : Database}
    (hall : ∀ row ∈ pending db, Reachable U db limit row) (hk : (pending db).length ≤ k) :
    ∃ n, pending (screenRuns U limit n db) = [] := by
  induction k generalizing db with
  | zero => exact ⟨0, List.eq_nil_of_length_eq_zero (Nat.le_zero.mp hk)⟩
  | succ k ih =>
      by_cases hne : pending db = []
      · exact ⟨0, hne⟩
      · obtain ⟨row, hrow, hleave⟩ := exists_not_stays U hall hne
        have hlt := length_pending_screenRun_lt U hrow hleave
        have hkept : ∀ row ∈ pending (screenRun U db limit),
            Reachable U (screenRun U db limit) limit row := reachable_screenRuns U 1 hall
        obtain ⟨n, hn⟩ := ih hkept (by omega)
        exact ⟨n + 1, hn⟩

/-! ## The condition is necessary -/

/-- A designation that is screened by one of the runs meets the condition. -/
theorem reachable_of_pending_eq_nil {limit : ℕ} (n : ℕ) {db : Database}
    (hnil : pending (screenRuns U limit n db) = []) {row : ℕ × RawPayload}
    (hrow : row ∈ pending db) : Reachable U db limit row := by
  induction n generalizing db with
  | zero =>
      have hempty : pending db = [] := hnil
      rw [hempty] at hrow
      cases hrow
  | succ n ih =>
      by_cases hstay : Stays U db limit row
      · -- still pending after this run
        exact (reachable_screenRun U).mp (ih hnil ((mem_pending_screenRun U).mpr ⟨hrow, hstay⟩))
      · -- screened by this run
        obtain ⟨hok, htaken, hne⟩ := not_not.mp hstay
        have hcand := (List.mem_filter.mp hrow).1
        refine ⟨hne, (exists_screenProcessedArticles U).mp hok row htaken, ?_⟩
        refine lt_of_le_of_lt ?_
          ((mem_take_iff_countP_lt (sorted_screeningCandidates db) hcand limit).mp htaken)
        apply List.countP_mono_left
        intro r _hr
        simp only [decide_eq_true_eq]
        exact fun h => h.1

/-- **Screening progress.**  Repeated runs screen every pending designation, at least
one in each run, exactly when each of them is reachable. -/
theorem screensAll_iff (db : Database) (limit : ℕ) :
    ScreensAll U db limit ↔ ∀ row ∈ pending db, Reachable U db limit row := by
  constructor
  · rintro ⟨⟨n, hn⟩, -⟩ row hrow
    exact reachable_of_pending_eq_nil U n hn hrow
  · intro hall
    refine ⟨exists_pending_eq_nil U _ hall le_rfl, ?_⟩
    intro n hne
    rw [screenRuns_succ]
    obtain ⟨row, hrow, hleave⟩ := exists_not_stays U (reachable_screenRuns U n hall) hne
    exact length_pending_screenRun_lt U hrow hleave

/-! ## Designations that wait for ever -/

/-- Processed articles over raw payloads, without detected suppliers. -/
def designationsOnly (payloads : List RawPayload) : Database :=
  payloads.zipIdx.foldl (fun db (payload, index) =>
    apply Unicode.ascii (apply Unicode.ascii db (.ingest ⟨some payload⟩))
      (.enrich ⟨index + 1, none⟩)) Database.empty

/-- A word of one letter repeated is its own normal form. -/
theorem normalize_replicate (n : ℕ) :
    normalize Unicode.ascii (String.ofList (List.replicate (n + 1) 'a'))
      = String.ofList (List.replicate (n + 1) 'a') := by
  have hsub : ∀ n, Unicode.ascii.subNonAlphanumeric (List.replicate n 'a')
      = List.replicate n 'a' := by
    intro n
    induction n with
    | zero => rfl
    | succ n ih =>
        rw [List.replicate_succ, Unicode.subNonAlphanumeric, if_pos (by decide), ih]
  have hfold :
      Unicode.ascii.casefold (Unicode.ascii.nfkc (String.ofList (List.replicate (n + 1) 'a')))
        = String.ofList (List.replicate (n + 1) 'a') := by
    show String.ofList ((String.ofList _).toList.map Unicode.asciiLower) = _
    rw [String.toList_ofList, List.map_replicate]
    rfl
  have hsplit : (List.replicate (n + 1) 'a').splitOnP Unicode.ascii.isSpace
      = [List.replicate (n + 1) 'a'] := by
    apply List.splitOnP_eq_singleton
    intro c hc
    rw [List.eq_of_mem_replicate hc]
    decide
  rw [normalize, hfold, String.toList_ofList, hsub, Unicode.split, String.toList_ofList, hsplit]
  simp

/-- Such a word is kept as a surface form, whatever its length. -/
theorem distinctSurfaceForms_replicate (n : ℕ) :
    distinctSurfaceForms Unicode.ascii [String.ofList (List.replicate (n + 1) 'a')]
      = [String.ofList (List.replicate (n + 1) 'a')] := by
  have hstrip : Unicode.ascii.strip (String.ofList (List.replicate (n + 1) 'a'))
      = String.ofList (List.replicate (n + 1) 'a') := by
    have hspace : Unicode.ascii.isSpace 'a' = false := by decide
    rw [Unicode.strip, String.toList_ofList, List.rdropWhile]
    simp [hspace]
  simp only [distinctSurfaceForms, distinctSurfaceFormsFrom, hstrip, normalize_replicate]
  simp

/-- Both designations are in the window. -/
theorem screeningRows_designationsOnly (name : String) :
    screeningRows (designationsOnly [.object (some [name]), .object (some ["Acme"])]) 1000
      = [(1, .object (some [name])), (2, .object (some ["Acme"]))] := rfl

/-- A run that meets a name of more than 300 letters commits nothing. -/
theorem screenRun_long_name {n : ℕ} (hn : 300 ≤ n) :
    screenRun Unicode.ascii (designationsOnly [.object
        (some [String.ofList (List.replicate (n + 1) 'a')]), .object (some ["Acme"])]) 1000
      = designationsOnly [.object (some [String.ofList (List.replicate (n + 1) 'a')]),
        .object (some ["Acme"])] := by
  unfold screenRun
  split
  · rename_i db' summary hok
    have hfits := (exists_screenProcessedArticles Unicode.ascii).mp ⟨db', summary, hok⟩
      (1, .object (some [String.ofList (List.replicate (n + 1) 'a')]))
      (by rw [screeningRows_designationsOnly]; exact List.mem_cons_self)
      (String.ofList (List.replicate (n + 1) 'a'))
      (by
        show _ ∈ distinctSurfaceForms Unicode.ascii [_]
        rw [distinctSurfaceForms_replicate]
        exact List.mem_cons_self)
    rw [String.length_ofList, List.length_replicate] at hfits
    omega
  · rfl

/-- **Screening stalls**: behind an ordinary article that fills the window, at a
designation whose names normalise to nothing, and on a name too long for its column,
which keeps every other designation of the run unscreened too. -/
theorem screening_stalls :
    ¬ ScreensAll Unicode.ascii
        (designationsOnly [.object none, .object (some ["Acme"])]) 1 ∧
      ¬ ScreensAll Unicode.ascii
        (designationsOnly [.object (some ["..."]), .object (some ["Acme"])]) 1 ∧
      ¬ ScreensAll Unicode.ascii
        (designationsOnly [.object (some [String.ofList (List.replicate 301 'a')]),
          .object (some ["Acme"])]) 1000 := by
  refine ⟨?_, ?_, ?_⟩
  · rintro ⟨-, hprogress⟩
    have hlt := hprogress 0 (by decide +kernel)
    revert hlt
    decide +kernel
  · rintro ⟨-, hprogress⟩
    have hlt := hprogress 0 (by decide +kernel)
    revert hlt
    decide +kernel
  · rintro ⟨-, hprogress⟩
    have hlt := hprogress 0 (by decide +kernel)
    rw [screenRuns_succ] at hlt
    simp only [screenRuns] at hlt
    rw [screenRun_long_name le_rfl] at hlt
    exact lt_irrefl _ hlt

end ProcureSignal.Suppliers
