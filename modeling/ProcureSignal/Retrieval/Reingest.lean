/-
# Fetching a body twice

A response body is fetched, saved, fetched again later and saved again.  The hash of an
article contains its publication date, and the adapters take the time of retrieval where the
body has no date.

* `reingest_iff` : for which bodies the second retrieval adds nothing;
* `undated_twice` : a feed with an entry without a date.
-/
import ProcureSignal.Retrieval.Ingest

namespace ProcureSignal.Retrieval

variable {P : Parsers} {H : Hashing}

/-! ## Items of NewsAPI and GDELT -/

/-- An item of NewsAPI that does not raise: an object whose source is an object. -/
def newsapiWellFormed : Json → Bool
  | .object item =>
      match (item.lookup "source").getD (.object []) with
      | .object _ => true
      | _ => false
  | _ => false

/-- The date in an item of NewsAPI. -/
def newsapiItemDate (P : Parsers) : Json → Option Instant
  | .object item => newsapiDate P ((item.lookup "publishedAt").getD .null)
  | _ => none

/-- An item of GDELT that does not raise: an object whose date has a length or is false. -/
def gdeltWellFormed (P : Parsers) : Json → Bool
  | .object item => (gdeltDate P ((item.lookup "sedate").getD .null)).isSome
  | _ => false

/-- The date in an item of GDELT. -/
def gdeltItemDate (P : Parsers) : Json → Option Instant
  | .object item => (gdeltDate P ((item.lookup "sedate").getD .null)).join
  | _ => none

/-- An item that does not raise becomes an article that depends on the clock in its date only,
and there only when it has none. -/
structure Timed (article : Json → Instant → Option FetchedArticle) (good : Json → Bool)
    (date : Json → Option Instant) : Prop where
  some_of_good : ∀ item, good item = true → ∃ base : FetchedArticle, ∀ now,
    article item now = some { base with publishedAt := (date item).getD now }
  none_of_bad : ∀ item, good item = false → ∀ now, article item now = none

/-- The article at one time gives the article at every time. -/
theorem exists_base {f : Instant → Option FetchedArticle} {date : Option Instant}
    (hsome : (f 0).isSome = true)
    (h : ∀ now, f now = (f 0).map fun a => { a with publishedAt := date.getD now }) :
    ∃ base : FetchedArticle, ∀ now, f now = some { base with publishedAt := date.getD now } := by
  obtain ⟨base, hbase⟩ := Option.isSome_iff_exists.mp hsome
  refine ⟨base, fun now => ?_⟩
  rw [h now, hbase, Option.map_some]

theorem timed_newsapi (query : String) :
    Timed (newsapiArticle P query) newsapiWellFormed (newsapiItemDate P) where
  some_of_good item h := by
    unfold newsapiWellFormed at h
    split at h
    · rename_i fields
      split at h
      · rename_i source hsource
        apply exists_base
        · simp only [newsapiArticle, hsource, Option.isSome_some]
        · intro now
          simp only [newsapiArticle, newsapiItemDate, hsource]
          rfl
      · exact absurd h Bool.false_ne_true
    · exact absurd h Bool.false_ne_true
  none_of_bad item h now := by
    unfold newsapiArticle
    split
    · rename_i fields
      split
      · rename_i source hsource
        simp only [newsapiWellFormed, hsource] at h
        exact absurd h.symm Bool.false_ne_true
      · rfl
    · rfl

theorem timed_headlines (country : String) :
    Timed (headlineArticle P country) newsapiWellFormed (newsapiItemDate P) where
  some_of_good item h := by
    obtain ⟨base, hbase⟩ := (timed_newsapi (P := P) "europe_business").some_of_good item h
    cases item with
    | object item =>
        apply exists_base
        · simp only [headlineArticle, hbase, Option.map_some, Option.isSome_some]
        · intro now
          simp only [headlineArticle, hbase, Option.map_some]
    | _ => exact absurd h Bool.false_ne_true
  none_of_bad item h now := by
    have hnone := (timed_newsapi (P := P) "europe_business").none_of_bad item h now
    cases item with
    | object item => rw [headlineArticle, hnone, Option.map_none]
    | _ => rfl

theorem timed_gdelt (queryGroup : String) :
    Timed (gdeltArticle P queryGroup) (gdeltWellFormed P) (gdeltItemDate P) where
  some_of_good item h := by
    unfold gdeltWellFormed at h
    split at h
    · rename_i fields
      obtain ⟨date, hdate⟩ := Option.isSome_iff_exists.mp h
      apply exists_base
      · simp only [gdeltArticle, hdate, Option.map_some, Option.isSome_some]
      · intro now
        simp only [gdeltArticle, gdeltItemDate, hdate, Option.map_some, Option.join_some]
    · exact absurd h Bool.false_ne_true
  none_of_bad item h now := by
    unfold gdeltWellFormed at h
    split at h
    · rename_i fields
      have hnone : gdeltDate P ((fields.lookup "sedate").getD .null) = none :=
        Option.isNone_iff_eq_none.mp (by simpa using h)
      rw [gdeltArticle, hnone, Option.map_none]
    · rename_i hobject
      unfold gdeltArticle
      split
      · rename_i fields
        exact absurd rfl (hobject fields)
      · rfl

section Items

variable {article : Json → Instant → Option FetchedArticle} {good : Json → Bool}
  {date : Json → Option Instant} {clock₁ clock₂ : ℕ → Instant}

/-- The articles before the first item that raises. -/
theorem collectItems_cons (h : Timed article good date) (clock : ℕ → Instant) (k : ℕ)
    (item : Json) (items : List Json) :
    (good item = false ∧ collectItems article clock k (item :: items) = []) ∨
      good item = true ∧ ∃ base : FetchedArticle, ∀ clock : ℕ → Instant,
        collectItems article clock k (item :: items) =
          { base with publishedAt := (date item).getD (clock k) } ::
            collectItems article clock (k + 1) items := by
  cases hgood : good item with
  | false =>
      refine Or.inl ⟨rfl, ?_⟩
      rw [collectItems, h.none_of_bad item hgood]
  | true =>
      obtain ⟨base, hbase⟩ := h.some_of_good item hgood
      refine Or.inr ⟨rfl, base, fun clock => ?_⟩
      rw [collectItems, hbase]

/-- **Two passes over the items** agree but for the dates, and in the dates exactly when every
item that becomes an article has one. -/
theorem collectItems_twice (h : Timed article good date)
    (hlater : ∀ j k, clock₁ j < clock₂ k) (k : ℕ) (items : List Json) :
    (collectItems article clock₁ k items).map (·.untimed) =
        (collectItems article clock₂ k items).map (·.untimed) ∧
      ((collectItems article clock₁ k items).map (·.publishedAt) =
          (collectItems article clock₂ k items).map (·.publishedAt) ↔
        ∀ item ∈ items.takeWhile good, (date item).isSome = true) := by
  induction items generalizing k with
  | nil =>
      refine ⟨rfl, iff_of_true rfl ?_⟩
      exact fun item hitem => absurd hitem List.not_mem_nil
  | cons item items ih =>
      obtain ⟨huntimed, hdates⟩ := ih (k + 1)
      rcases collectItems_cons h clock₁ k item items with ⟨hbad, hnil⟩ | ⟨hgood, base, hbase⟩
      · have hnil₂ : collectItems article clock₂ k (item :: items) = [] := by
          rw [collectItems, h.none_of_bad item hbad]
        rw [hnil, hnil₂, List.takeWhile_cons_of_neg (by rw [hbad]; exact Bool.false_ne_true)]
        exact ⟨rfl, iff_of_true rfl fun item hitem => absurd hitem List.not_mem_nil⟩
      · rw [hbase clock₁, hbase clock₂, List.takeWhile_cons_of_pos hgood]
        simp only [List.map_cons, List.cons.injEq, List.forall_mem_cons, hdates]
        refine ⟨⟨rfl, huntimed⟩, and_congr_left fun _ => ?_⟩
        cases date item with
        | some d => exact iff_of_true rfl rfl
        | none => exact iff_of_false (hlater k k).ne Bool.false_ne_true

end Items

/-! ## Entries of a feed -/

/-- The date of an entry in UTC; the outer value is absent when reading it raises. -/
def Entry.date (P : Parsers) (entry : Entry) : Option (Option Instant) :=
  (entry.parsedDate P).bind fun
    | some d => d.utc.map some
    | none => some none

theorem timestamp_eq (entry : Entry) (now : Instant) :
    entry.timestamp P now = (entry.date P).map fun date =>
      (min (date.getD (P.utcOfLocal now)) now,
        if entry.rawDate = "" then none else some entry.rawDate) := by
  rw [Entry.timestamp, Entry.date]
  cases entry.parsedDate P with
  | none => rfl
  | some parsed =>
      cases parsed with
      | none => rfl
      | some d =>
          simp only [Option.bind_some, Option.map_map]
          rfl

/-- An entry with a link raises when one of its texts, its date or its link cannot be read. -/
def RSSProvider.Raises (P : Parsers) (p : RSSProvider) (finalUrl : Option String)
    (entry : Entry) : Prop :=
  match p.link P finalUrl entry with
  | none => True
  | some link => link ≠ "" ∧
      (entry.description? P = none ∨ entry.date P = none ∨ plainText P entry.title 500 = none ∨
        canonicalizeUrl P.unicode P.urls link = none)

/-- The publication date of an entry is the same at two retrievals: it has a date that is not
later than the first, or it has none and the process's time zone maps both times to one. -/
def Entry.Dated (P : Parsers) (now₁ now₂ : Instant) (entry : Entry) : Prop :=
  match entry.date P with
  | some (some d) => d ≤ now₁
  | some none => min (P.utcOfLocal now₁) now₁ = min (P.utcOfLocal now₂) now₂
  | none => True

theorem dated_iff {now₁ now₂ : Instant} (hlater : now₁ < now₂) {entry : Entry}
    {date : Option Instant} (hdate : entry.date P = some date) :
    min (date.getD (P.utcOfLocal now₁)) now₁ = min (date.getD (P.utcOfLocal now₂)) now₂ ↔
      entry.Dated P now₁ now₂ := by
  rw [Entry.Dated, hdate]
  cases date with
  | none => exact Iff.rfl
  | some d =>
      simp only [Option.getD_some]
      constructor
      · intro h
        have hle : min d now₂ ≤ now₁ := h ▸ min_le_right d now₁
        rcases min_le_iff.mp hle with hd | hnow
        · exact hd
        · exact absurd hnow (not_le.mpr hlater)
      · intro hd
        rw [min_eq_left hd, min_eq_left (hd.trans hlater.le)]

theorem exists_base_of_times {f : Instant → FetchedArticle} {g : Instant → Instant}
    (h : ∀ now, f now = { f 0 with publishedAt := g now, retrievedAt := some now }) :
    ∃ base : FetchedArticle, ∀ now, some (some (f now)) =
      some (some { base with publishedAt := g now, retrievedAt := some now }) :=
  ⟨f 0, fun now => congrArg (some ∘ some) (h now)⟩

/-- **An entry** raises, is skipped, or becomes an article whose times alone depend on the
clock. -/
theorem article_cases (P : Parsers) (p : RSSProvider) (finalUrl feedLanguage : Option String)
    (entry : Entry) :
    p.Raises P finalUrl entry ∧ (∀ now, p.article P finalUrl feedLanguage entry now = none) ∨
    ¬ p.Raises P finalUrl entry ∧ (p.link P finalUrl entry = some "" ∧
        (∀ now, p.article P finalUrl feedLanguage entry now = some none) ∨
      p.link P finalUrl entry ≠ some "" ∧ ∃ date, ∃ base : FetchedArticle, entry.date P = some date ∧
        ∀ now, p.article P finalUrl feedLanguage entry now =
          some (some { base with
            publishedAt := min (date.getD (P.utcOfLocal now)) now
            retrievedAt := some now })) := by
  simp only [RSSProvider.Raises, RSSProvider.article, timestamp_eq]
  cases hlink : p.link P finalUrl entry with
  | none => exact Or.inl ⟨trivial, fun now => rfl⟩
  | some link =>
      by_cases hempty : link = ""
      · subst hempty
        exact Or.inr ⟨fun h => h.1 rfl, Or.inl ⟨rfl, fun now => rfl⟩⟩
      · simp only [Option.bind_some, if_neg hempty]
        cases hdescription : entry.description? P with
        | none => exact Or.inl ⟨⟨hempty, Or.inl rfl⟩, fun now => rfl⟩
        | some description =>
            cases hdate : entry.date P with
            | none => exact Or.inl ⟨⟨hempty, Or.inr (Or.inl rfl)⟩, fun now => rfl⟩
            | some date =>
                cases htitle : plainText P entry.title 500 with
                | none => exact Or.inl ⟨⟨hempty, Or.inr (Or.inr (Or.inl rfl))⟩, fun now => rfl⟩
                | some title =>
                    cases hcanonical : canonicalizeUrl P.unicode P.urls link with
                    | none =>
                        exact Or.inl ⟨⟨hempty, Or.inr (Or.inr (Or.inr rfl))⟩, fun now => rfl⟩
                    | some canonicalUrl =>
                        refine Or.inr ⟨by simp, Or.inr ⟨by simpa using hempty, date, ?_⟩⟩
                        simp only [Option.bind_some, Option.map_some, true_and]
                        exact exists_base_of_times fun now => rfl

/-- **Two passes over the entries** both raise, or agree but for the times, and in the dates
exactly when every entry with a link is dated. -/
theorem fetchEntries_twice (p : RSSProvider) (finalUrl feedLanguage : Option String)
    {now₁ now₂ : Instant} (hlater : now₁ < now₂) (entries : List Entry) :
    (∃ entry ∈ entries, p.Raises P finalUrl entry) ∧
      (∀ now, entries.mapM (p.article P finalUrl feedLanguage · now) = none) ∨
    (∀ entry ∈ entries, ¬ p.Raises P finalUrl entry) ∧ ∃ l₁ l₂,
      entries.mapM (p.article P finalUrl feedLanguage · now₁) = some l₁ ∧
      entries.mapM (p.article P finalUrl feedLanguage · now₂) = some l₂ ∧
      l₁.reduceOption.map (·.untimed) = l₂.reduceOption.map (·.untimed) ∧
      (l₁.reduceOption.map (·.publishedAt) = l₂.reduceOption.map (·.publishedAt) ↔
        ∀ entry ∈ entries, p.link P finalUrl entry = some "" ∨ entry.Dated P now₁ now₂) := by
  induction entries with
  | nil =>
      exact Or.inr ⟨fun entry h => absurd h List.not_mem_nil, [], [], rfl, rfl, rfl,
        iff_of_true rfl fun entry h => absurd h List.not_mem_nil⟩
  | cons entry entries ih =>
      rcases article_cases P p finalUrl feedLanguage entry with
        ⟨hraises, hnone⟩ | ⟨hgood, hcases⟩
      · refine Or.inl ⟨⟨entry, List.mem_cons_self, hraises⟩, fun now => ?_⟩
        rw [List.mapM_cons, hnone]
        rfl
      rcases ih with ⟨⟨other, hother, hraises⟩, hnone⟩ | ⟨hrest, l₁, l₂, h₁, h₂, huntimed, hdates⟩
      · refine Or.inl ⟨⟨other, List.mem_cons_of_mem _ hother, hraises⟩, fun now => ?_⟩
        rw [List.mapM_cons, hnone]
        cases p.article P finalUrl feedLanguage entry now <;> rfl
      refine Or.inr ⟨List.forall_mem_cons.mpr ⟨hgood, hrest⟩, ?_⟩
      rcases hcases with ⟨hlink, hskip⟩ | ⟨hlink, date, base, hdate, hbase⟩
      · refine ⟨none :: l₁, none :: l₂, ?_, ?_, ?_, ?_⟩
        · rw [List.mapM_cons, hskip, h₁]
          rfl
        · rw [List.mapM_cons, hskip, h₂]
          rfl
        · simpa only [List.reduceOption_cons_of_none] using huntimed
        · simp only [List.reduceOption_cons_of_none, List.forall_mem_cons, hdates, hlink,
            true_or, true_and]
      · refine ⟨some { base with
              publishedAt := min (date.getD (P.utcOfLocal now₁)) now₁
              retrievedAt := some now₁ } :: l₁,
          some { base with
              publishedAt := min (date.getD (P.utcOfLocal now₂)) now₂
              retrievedAt := some now₂ } :: l₂, ?_, ?_, ?_, ?_⟩
        · rw [List.mapM_cons, hbase, h₁]
          rfl
        · rw [List.mapM_cons, hbase, h₂]
          rfl
        · simp only [List.reduceOption_cons_of_some, List.map_cons, huntimed]
          rfl
        · simp only [List.reduceOption_cons_of_some, List.map_cons, List.cons.injEq,
            List.forall_mem_cons, hdates, hlink, false_or]
          exact and_congr_left fun _ => dated_iff hlater hdate

/-! ## Bodies -/

/-- Every item that becomes an article has a date: one that can be read, and in a feed one that
is not later than the first retrieval. -/
def Body.Dated (P : Parsers) (clock₁ clock₂ : ℕ → Instant) : Body → Prop
  | .rss _ _ none => True
  | .rss p finalUrl (some feed) =>
      (∃ entry ∈ feed.entries.take p.source.itemLimit, p.Raises P finalUrl entry) ∨
        ∀ entry ∈ feed.entries.take p.source.itemLimit,
          p.link P finalUrl entry = some "" ∨ entry.Dated P (clock₁ 0) (clock₂ 0)
  | .newsapi _ result | .headlines _ result =>
      ∀ item ∈ (newsapiItems result).takeWhile newsapiWellFormed,
        (newsapiItemDate P item).isSome = true
  | .gdelt _ result =>
      ∀ item ∈ (gdeltItems result).takeWhile (gdeltWellFormed P),
        (gdeltItemDate P item).isSome = true

section Bodies

variable {clock₁ clock₂ : ℕ → Instant}

/-- **Two retrievals of a body** both raise, or agree but for the times, and in the dates
exactly when the body is dated. -/
theorem fetch_twice (hlater : ∀ j k, clock₁ j < clock₂ k) (body : Body) :
    (body.fetch P clock₁ = none ∧ body.fetch P clock₂ = none ∧ body.Dated P clock₁ clock₂) ∨
      ∃ l₁ l₂, body.fetch P clock₁ = some l₁ ∧ body.fetch P clock₂ = some l₂ ∧
        l₁.map (·.untimed) = l₂.map (·.untimed) ∧
        (l₁.map (·.publishedAt) = l₂.map (·.publishedAt) ↔ body.Dated P clock₁ clock₂) := by
  cases body with
  | rss p finalUrl feed =>
      cases feed with
      | none => exact Or.inr ⟨[], [], rfl, rfl, rfl, iff_of_true rfl trivial⟩
      | some feed =>
          simp only [Body.fetch, RSSProvider.fetchArticles, Body.Dated]
          rcases fetchEntries_twice (P := P) p finalUrl feed.language (hlater 0 0)
              (feed.entries.take p.source.itemLimit) with
            ⟨hraises, hnone⟩ | ⟨hgood, l₁, l₂, h₁, h₂, huntimed, hdates⟩
          · rw [hnone, hnone]
            exact Or.inl ⟨rfl, rfl, Or.inl hraises⟩
          · rw [h₁, h₂]
            refine Or.inr ⟨_, _, rfl, rfl, huntimed, hdates.trans ?_⟩
            refine (or_iff_right ?_).symm
            rintro ⟨entry, hentry, hraises⟩
            exact hgood entry hentry hraises
  | newsapi query result =>
      exact Or.inr ⟨_, _, rfl, rfl, collectItems_twice (timed_newsapi query) hlater 0 _⟩
  | headlines country result =>
      exact Or.inr ⟨_, _, rfl, rfl, collectItems_twice (timed_headlines country) hlater 0 _⟩
  | gdelt queryGroup result =>
      exact Or.inr ⟨_, _, rfl, rfl, collectItems_twice (timed_gdelt queryGroup) hlater 0 _⟩

theorem exists_item_of_mem {article : Json → Instant → Option FetchedArticle}
    {clock : ℕ → Instant} {k : ℕ} {items : List Json} {a : FetchedArticle}
    (h : a ∈ collectItems article clock k items) : ∃ item now, article item now = some a := by
  induction items generalizing k with
  | nil => exact absurd h List.not_mem_nil
  | cons item items ih =>
      rw [collectItems] at h
      split at h
      · rename_i b hb
        rcases List.mem_cons.mp h with rfl | h
        · exact ⟨item, _, hb⟩
        · exact ih h
      · exact absurd h List.not_mem_nil

theorem exists_entry_of_mem {f : Entry → Option (Option FetchedArticle)} {entries : List Entry}
    {l : List (Option FetchedArticle)} (h : entries.mapM f = some l) {a : FetchedArticle}
    (ha : a ∈ l.reduceOption) : ∃ entry, f entry = some (some a) := by
  rw [List.reduceOption_mem_iff] at ha
  induction entries generalizing l with
  | nil =>
      rw [List.mapM_nil] at h
      rw [← Option.some.inj h] at ha
      exact absurd ha List.not_mem_nil
  | cons entry entries ih =>
      rw [List.mapM_cons] at h
      obtain ⟨b, hb, h⟩ := Option.bind_eq_some_iff.mp h
      obtain ⟨l', hl', h⟩ := Option.bind_eq_some_iff.mp h
      rw [← Option.some.inj h, List.mem_cons] at ha
      rcases ha with ha | ha
      · exact ⟨entry, ha ▸ hb⟩
      · exact ih hl' ha

/-- No adapter of a body is one with stable identifiers. -/
theorem provider_of_fetch {clock : ℕ → Instant} {body : Body} {l : List FetchedArticle}
    (h : body.fetch P clock = some l) : ∀ a ∈ l, a.provider ∉ stableIdProviders := by
  have hnewsapi : ∀ query item now a, newsapiArticle P query item now = some a →
      a.provider = "newsapi" := by
    intro query item now a ha
    unfold newsapiArticle at ha
    split at ha
    · split at ha
      · exact Option.some.inj ha ▸ rfl
      · exact absurd ha (by simp)
    · exact absurd ha (by simp)
  intro a ha
  cases body with
  | rss p finalUrl feed =>
      cases feed with
      | none =>
          rw [← Option.some.inj h] at ha
          exact absurd ha List.not_mem_nil
      | some feed =>
          obtain ⟨articles, harticles, rfl⟩ := Option.map_eq_some_iff.mp h
          obtain ⟨entry, hentry⟩ := exists_entry_of_mem harticles ha
          have hrss : a.provider = "rss" := by
            unfold RSSProvider.article at hentry
            obtain ⟨link, -, hentry⟩ := Option.bind_eq_some_iff.mp hentry
            split at hentry
            · exact absurd (Option.some.inj hentry) (by simp)
            · obtain ⟨text, -, hentry⟩ := Option.bind_eq_some_iff.mp hentry
              obtain ⟨times, -, hentry⟩ := Option.bind_eq_some_iff.mp hentry
              obtain ⟨headline, -, hentry⟩ := Option.bind_eq_some_iff.mp hentry
              obtain ⟨url, -, hentry⟩ := Option.map_eq_some_iff.mp hentry
              exact Option.some.inj hentry ▸ rfl
          rw [hrss]
          decide
  | newsapi query result =>
      rw [← Option.some.inj h] at ha
      obtain ⟨item, now, hitem⟩ := exists_item_of_mem ha
      rw [hnewsapi query item now a hitem]
      decide
  | headlines country result =>
      rw [← Option.some.inj h] at ha
      obtain ⟨item, now, hitem⟩ := exists_item_of_mem ha
      have hprovider : a.provider = "newsapi" := by
        unfold headlineArticle at hitem
        split at hitem
        · obtain ⟨b, hb, rfl⟩ := Option.map_eq_some_iff.mp hitem
          exact hnewsapi _ _ _ b hb
        · exact absurd hitem (by simp)
      rw [hprovider]
      decide
  | gdelt queryGroup result =>
      rw [← Option.some.inj h] at ha
      obtain ⟨item, now, hitem⟩ := exists_item_of_mem ha
      have hprovider : a.provider = "gdelt" := by
        unfold gdeltArticle at hitem
        split at hitem
        · obtain ⟨date, -, rfl⟩ := Option.map_eq_some_iff.mp hitem
          rfl
        · exact absurd hitem (by simp)
      rw [hprovider]
      decide

/-- **When a body is stored once.**  A body is fetched and saved, and fetched again later and
saved into the table, from which nothing has been deleted.  The second time nothing is inserted
and every item has the hash that it had, exactly when the body is dated. -/
theorem reingest_iff (hsha : Function.Injective H.sha256) (hiso : Function.Injective H.isoformat)
    (hlater : ∀ j k, clock₁ j < clock₂ k) (body : Body) (saved₁ saved₂ : ℕ → Instant)
    (t t' : RawTable)
    (hkept : t'.toTable.Extends (saveFetched H saved₁ t (body.fetch P clock₁)).toTable) :
    ((saveFetched H saved₂ t' (body.fetch P clock₂)).values = t'.values ∧
      (body.fetch P clock₂).map (List.map (createIngestHash H)) =
        (body.fetch P clock₁).map (List.map (createIngestHash H))) ↔
      body.Dated P clock₁ clock₂ := by
  rcases fetch_twice (P := P) hlater body with
    ⟨h₁, h₂, hdated⟩ | ⟨l₁, l₂, h₁, h₂, huntimed, hdates⟩
  · rw [h₁, h₂]
    exact iff_of_true ⟨rfl, rfl⟩ hdated
  · have hhashes := hashes_eq_iff hsha hiso huntimed (provider_of_fetch h₁)
    rw [h₁] at hkept
    rw [h₁, h₂, ← hdates, ← hhashes, Option.map_some, Option.map_some, Option.some.injEq]
    refine ⟨fun h => h.2.symm, fun h => ⟨?_, h.symm⟩⟩
    have htaken : ∀ b ∈ l₂, b.storable = true →
        createIngestHash H b ∈ t'.values.map (·.ingestHash) := by
      intro b hb hstorable
      obtain ⟨i, hi, rfl⟩ := List.getElem_of_mem hb
      have hlength : l₁.length = l₂.length := by simpa using congrArg List.length h
      have hi₁ : i < l₁.length := hlength ▸ hi
      have hhash : createIngestHash H l₁[i] = createIngestHash H l₂[i] := by
        have := congrArg (fun l : List String => l[i]?) h
        simpa [hi, hi₁] using this
      have huntimed : l₁[i].untimed = l₂[i].untimed := by
        have := congrArg (fun l : List FetchedArticle => l[i]?) huntimed
        simpa [hi, hi₁] using this
      have hstorable₁ : l₁[i].storable = true := by
        rw [← storable_untimed, huntimed, storable_untimed]
        exact hstorable
      have hsaved := (@hash_mem_saveArticles H saved₁ 0 l₁ t).2 l₁[i]
        (List.getElem_mem hi₁) hstorable₁
      obtain ⟨row, hrow, heq⟩ := List.mem_map.mp hsaved
      rw [← hhash]
      exact List.mem_map.mpr ⟨row, hkept.mem_values hrow, heq⟩
    show (saveArticles H saved₂ 0 l₂ t').1.values = t'.values
    rw [saveArticles_of_taken 0 htaken]

end Bodies

/-! ## One item, retrieved twice -/

/-- Of the date formats only this one is met: `2024-04-30T10:30:00Z`. -/
def isoParsers : Parsers where
  parsedateToDatetime _ := some none
  fromisoformat _ := some ⟨1714473000 * 1000000, some 0⟩
  strptime _ := none
  utcOfLocal := id
  unescape := id
  htmlEvents _ := some []
  urls := ⟨fun _ => none, fun _ _ => none, fun _ => [], fun _ => "", fun _ _ _ _ => ""⟩
  unicode := .ascii

/-- The dates that are met, and one text for every other. -/
def writtenDate (t : Instant) : String :=
  if t = 0 then "1970-01-01T00:00:00"
  else if t = minutes 60 then "1970-01-01T01:00:00"
  else if t = 1714473000 * 1000000 then "2024-04-30T10:30:00"
  else String.ofList (List.replicate (Encodable.encode t + 1) 'x')

theorem writtenDate_injective : Function.Injective writtenDate := by
  have hx : ∀ (s : String) (n : ℕ), s.toList.head? ≠ some 'x' →
      s ≠ String.ofList (List.replicate (n + 1) 'x') := by
    rintro s n hs rfl
    exact hs (by rw [String.toList_ofList, List.replicate_succ, List.head?_cons])
  intro t t' h
  unfold writtenDate at h
  split_ifs at h with h₁ h₁' h₂' h₃' h₂ h₁' h₂' h₃' h₃ h₁' h₂' h₃' h₁' h₂' h₃'
  all_goals first
    | exact absurd h (by decide)
    | exact absurd h (hx _ _ (by decide))
    | exact absurd h.symm (hx _ _ (by decide))
    | exact h₁.trans h₁'.symm
    | exact h₂.trans h₂'.symm
    | exact h₃.trans h₃'.symm
    | skip
  have hlength := congrArg (fun s : String => s.toList.length) h
  simp only [String.toList_ofList, List.length_replicate, Nat.add_right_cancel_iff] at hlength
  exact Encodable.encode_injective hlength

/-- A digest without collisions. -/
def plainHashing : Hashing := ⟨fun s => "sha256 " ++ s, writtenDate, fun _ => "None"⟩

theorem plainHashing_injective : Function.Injective plainHashing.sha256 :=
  fun _ _ h => (String.append_right_inj _).mp h

/-- A body of NewsAPI with one item. -/
def oneItem (publishedAt : Json) : Body :=
  .newsapi "supplier_risk" (.object [("status", .string "ok"), ("articles", .array [.object
    [("title", .string "Strike"), ("source", .object [("name", .string "Wire")]),
      ("publishedAt", publishedAt)]])])

/-- The table after the retrieval at time `0`. -/
def firstSaved (publishedAt : Json) : RawTable :=
  saveFetched plainHashing (fun _ => 0) UniqueTable.empty
    ((oneItem publishedAt).fetch isoParsers fun _ => 0)

/-- And after one an hour later. -/
def secondSaved (publishedAt : Json) : RawTable :=
  saveFetched plainHashing (fun _ => minutes 60) (firstSaved publishedAt)
    ((oneItem publishedAt).fetch isoParsers fun _ => minutes 60)

/-- An item with a date is stored by the first alone. -/
theorem reingest_iff_dated_item :
    (secondSaved (.string "2024-04-30T10:30:00Z")).values =
      (firstSaved (.string "2024-04-30T10:30:00Z")).values := by
  refine ((reingest_iff plainHashing_injective writtenDate_injective ?_
    (oneItem (.string "2024-04-30T10:30:00Z")) (fun _ => 0) (fun _ => minutes 60)
    UniqueTable.empty _ (Table.Extends.refl _)).mpr ?_).1
  · exact fun _ _ => by decide
  · intro item hitem
    have hitems : ∀ items : List Json, items = [.object [("title", .string "Strike"),
        ("source", .object [("name", .string "Wire")]),
        ("publishedAt", .string "2024-04-30T10:30:00Z")]] →
        item ∈ items → (newsapiItemDate isoParsers item).isSome = true := by
      rintro items rfl hmem
      rw [List.mem_singleton.mp hmem]
      rfl
    exact hitems _ rfl (List.takeWhile_subset _ hitem)

/-- An item without a date is stored by both. -/
theorem undated_twice : (firstSaved .null).values.length = 1 ∧
    (secondSaved .null).values.length = 2 := by
  decide +kernel

end ProcureSignal.Retrieval
