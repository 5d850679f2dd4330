/-
# Deduplication within a run

`deduplicate_within_run` of `retrieval/deduplication.py`.  Articles with one fingerprint form
a group; the preferred article of every group is kept.

* `articleFingerprint`, `articleProjection` : the identity of an article, and what it is
  compared by;
* `retained`, `deduplicateWithinRun` : the groups and their winners;
* `mem_retained_iff` : an article is kept exactly when none with its fingerprint is preferred.
-/
import ProcureSignal.Library.Collections
import ProcureSignal.Retrieval.Ingest

namespace ProcureSignal.Retrieval

/-! ## The identity of an article -/

/-- What `json` and `datetime` print. -/
structure Serializing extends Hashing where
  /-- `json.dumps(·, sort_keys=True, separators=(",", ":"))` -/
  dumps : Json → String
  /-- `date().isoformat()` of a UTC time -/
  dateIsoformat : Instant → String

/-- Text, where a value is one. -/
def Json.text : Json → Option String
  | .string s => some s
  | _ => none

variable (S : Serializing) (U : Unicode) (L : UrlParsing)

/-- `canonicalize_url(article.canonical_url or article.article_url)`; absent when it raises. -/
def FetchedArticle.canonical (a : FetchedArticle) : Option String :=
  (if a.canonicalUrl.truthy then a.canonicalUrl else a.articleUrl).text.bind (canonicalizeUrl U L)

/-- `article_fingerprint`; absent when it raises. -/
def articleFingerprint (a : FetchedArticle) : Option String :=
  if hasStableProviderId a.provider a.providerArticleId then
    some (S.sha256 ("provider\x00" ++ a.provider ++ "\x00" ++ S.format a.providerArticleId))
  else
    (a.canonical U L).bind fun url =>
      if url ≠ "" then some (S.sha256 ("url\x00" ++ url))
      else
        a.title.text.bind fun title =>
        (if a.description.truthy then a.description else .string "").text.map fun description =>
          S.sha256 ("content\x00" ++ U.strip (U.casefold title) ++ "\x00" ++
            U.strip (U.casefold description) ++ "\x00" ++ S.isoformat a.publishedAt)

/-! ## The order of articles -/

/-- A decoded number that is no integer. -/
def isFloat (text : String) : Bool := text.toList.any fun c => !(c.isDigit || c = '-')

mutual

/-- `_payload_projection`. -/
def payloadProjection : Json → Json
  | .null => .null
  | .bool b => .bool b
  | .string s => .string s
  | .number text =>
      if isFloat text then .object [("$float", .string text)] else .number text
  | .array items => .object [("$sequence", .array (projectItems items))]
  | .object fields =>
      .object [("$dict", .array
        ((projectFields fields).insertionSort fun x y => S.dumps x ≤ S.dumps y))]

def projectItems : List Json → List Json
  | [] => []
  | item :: items => payloadProjection item :: projectItems items

def projectFields : List (String × Json) → List Json
  | [] => []
  | (key, item) :: fields => .array [.string key, payloadProjection item] :: projectFields fields

end

/-- `json.dumps((tag, value))`. -/
def tagged (tag : String) (value : Json) : String := S.dumps (.array [.string tag, value])

/-- `_optional_text`. -/
def optionalText : Json → String
  | .null => tagged S "none" (.string "")
  | value => tagged S "str" value

/-- `_optional_datetime`. -/
def optionalDatetime : Option Instant → String
  | none => tagged S "none" (.string "")
  | some t => tagged S "datetime" (.string (S.isoformat t))

/-- `_optional_payload`. -/
def optionalPayload : Json → String
  | .null => tagged S "none" (.string "")
  | payload => tagged S "payload" (.string (S.dumps (payloadProjection S payload)))

/-- `_article_projection`; absent when `canonicalize_url` raises, or where a field that is
declared as text holds something else. -/
def articleProjection (a : FetchedArticle) : Option (List String) := do
  let title ← a.title.text
  let articleUrl ← a.articleUrl.text
  let canonical ← a.canonical U L
  let sourceName ← a.sourceName.text
  let language ← a.language.text
  pure
    [a.provider, optionalText S a.providerArticleId, a.queryGroup, title,
      optionalText S a.description, optionalText S a.contentSnippet, articleUrl, canonical,
      optionalText S a.canonicalUrl, sourceName, optionalText S (Json.ofOption a.sourceUrl),
      S.isoformat a.publishedAt, language, optionalPayload S a.rawPayloadJson,
      optionalText S (Json.ofOption a.sourceId), optionalText S (Json.ofOption a.sourceClass),
      "\x00".intercalate a.sourceDomains, "\x00".intercalate a.sourceCountries,
      optionalText S (Json.ofOption a.registryVersion), optionalDatetime S a.retrievedAt,
      optionalText S (Json.ofOption a.sourcePublishedAtRaw)]

/-- `_AUTHORITY.get(source_class or "", 0)`. -/
def authority (sourceClass : Option String) : ℕ :=
  (([("official", 3), ("established_media", 2), ("industry", 1)] : List (String × ℕ)).lookup
    (sourceClass.getD "")).getD 0

/-- An article with the values it is grouped and compared by. -/
structure KeyedArticle where
  article : FetchedArticle
  fingerprint : String
  projection : List String

/-- `_preference`. -/
def KeyedArticle.preference (a : KeyedArticle) : ℤ ×ₗ List String :=
  toLex (-(authority a.article.sourceClass : ℤ), a.projection)

/-- `_result_order`. -/
def KeyedArticle.resultOrder (a : KeyedArticle) : List String := a.projection ++ [a.fingerprint]

/-- The keys of an article; absent when computing them raises. -/
def keyed (a : FetchedArticle) : Option KeyedArticle := do
  let fingerprint ← articleFingerprint S U L a
  let projection ← articleProjection S U L a
  pure ⟨a, fingerprint, projection⟩

/-! ## Groups and winners -/

section Groups

variable {α κ : Type*} [LinearOrder κ]

/-- `groups.values()`: for each key, in the order of first occurrence, the items with it. -/
def groups (keyOf : α → String) (items : List α) : List (List α) :=
  (items.map keyOf).reverse.dedup.reverse.map fun key => items.filter (keyOf · = key)

/-- `min(group, key=preference) for group in groups.values()`. -/
def winners (keyOf : α → String) (preference : α → κ) (items : List α) : List α :=
  (groups keyOf items).filterMap (List.argmin preference)

/-- One winner for each key. -/
theorem map_winners (keyOf : α → String) (preference : α → κ) (items : List α) :
    (winners keyOf preference items).map keyOf = (items.map keyOf).reverse.dedup.reverse := by
  have hkeys : ∀ keys : List String, (∀ key ∈ keys, key ∈ items.map keyOf) →
      ((keys.map fun key => items.filter (keyOf · = key)).filterMap
        (List.argmin preference)).map keyOf = keys := by
    intro keys hmem
    induction keys with
    | nil => rfl
    | cons key keys ih =>
        obtain ⟨b, hb, hkey⟩ := List.mem_map.mp (hmem key List.mem_cons_self)
        have hgroup : items.filter (keyOf · = key) ≠ [] :=
          List.ne_nil_of_mem (List.mem_filter.mpr ⟨hb, by simpa using hkey⟩)
        obtain ⟨a, ha⟩ := Option.ne_none_iff_exists'.mp
          (fun hnone => hgroup (List.argmin_eq_none.mp hnone) :
            (items.filter (keyOf · = key)).argmin preference ≠ none)
        have hkey : keyOf a = key := by simpa using (List.mem_filter.mp (List.argmin_mem ha)).2
        rw [List.map_cons, List.filterMap_cons_some ha, List.map_cons, hkey,
          ih fun key' h => hmem key' (List.mem_cons_of_mem _ h)]
  refine hkeys _ fun key hkey => ?_
  simpa using hkey

/-- No two winners share their key. -/
theorem nodup_map_winners (keyOf : α → String) (preference : α → κ) (items : List α) :
    ((winners keyOf preference items).map keyOf).Nodup := by
  rw [map_winners, List.nodup_reverse]
  exact List.nodup_dedup _

/-- There are no more winners than items. -/
theorem length_winners_le (keyOf : α → String) (preference : α → κ) (items : List α) :
    (winners keyOf preference items).length ≤ items.length := by
  have hsublist := (List.dedup_sublist (items.map keyOf).reverse).length_le
  have hlength := congrArg List.length (map_winners keyOf preference items)
  rw [List.length_map, List.length_reverse] at hlength
  rw [List.length_reverse, List.length_map] at hsublist
  omega

/-- A winner is the least of its group. -/
theorem mem_winners_iff {keyOf : α → String} {preference : α → κ} {items : List α} {a : α} :
    a ∈ winners keyOf preference items ↔
      (items.filter (keyOf · = keyOf a)).argmin preference = some a := by
  rw [winners, groups, List.mem_filterMap]
  constructor
  · rintro ⟨group, hgroup, ha⟩
    obtain ⟨key, -, rfl⟩ := List.mem_map.mp hgroup
    have hkey : keyOf a = key := by simpa using (List.mem_filter.mp (List.argmin_mem ha)).2
    rwa [hkey]
  · intro ha
    refine ⟨_, List.mem_map.mpr ⟨keyOf a, ?_, rfl⟩, ha⟩
    have hmem : a ∈ items := List.mem_of_mem_filter (List.argmin_mem ha)
    simpa using ⟨a, hmem, rfl⟩

/-- **The first least item** of those with a property: no other with the property is smaller,
and none before it is as small. -/
theorem argmin_filter_eq_some_iff {p : α → Bool} {f : α → κ} {items : List α} {a : α} :
    (items.filter p).argmin f = some a ↔ ∃ i : ℕ, items[i]? = some a ∧ p a = true ∧
      ∀ j b, items[j]? = some b → p b = true → f a < f b ∨ f a = f b ∧ i ≤ j := by
  induction items generalizing a with
  | nil => simp
  | cons x items ih =>
      by_cases hx : p x = true
      · rw [List.filter_cons_of_pos hx, List.argmin_cons]
        cases hrest : (items.filter p).argmin f with
        | none =>
            have hempty : ∀ b ∈ items, ¬ p b = true :=
              List.filter_eq_nil_iff.mp (List.argmin_eq_none.mp hrest)
            simp only [Option.some.injEq]
            constructor
            · rintro rfl
              refine ⟨0, rfl, hx, ?_⟩
              intro j b hb hpb
              cases j with
              | zero => exact Or.inr ⟨congrArg f (Option.some.inj hb), le_rfl⟩
              | succ j => exact absurd hpb (hempty b (List.mem_of_getElem? hb))
            · rintro ⟨i, ha, hpa, -⟩
              cases i with
              | zero => exact Option.some.inj ha
              | succ i => exact absurd hpa (hempty a (List.mem_of_getElem? ha))
        | some c =>
            obtain ⟨k, hk, hpc, hleast⟩ := ih.mp hrest
            dsimp only
            split
            · rename_i hlt
              rw [Option.some.injEq]
              constructor
              · rintro rfl
                refine ⟨k + 1, hk, hpc, ?_⟩
                intro j b hb hpb
                cases j with
                | zero =>
                    obtain rfl := Option.some.inj hb
                    exact Or.inl hlt
                | succ j =>
                    rcases hleast j b hb hpb with h | ⟨h, hle⟩
                    · exact Or.inl h
                    · exact Or.inr ⟨h, Nat.succ_le_succ hle⟩
              · rintro ⟨i, ha, hpa, hall⟩
                cases i with
                | zero =>
                    obtain rfl := Option.some.inj ha
                    rcases hall (k + 1) c hk hpc with h | ⟨h, -⟩
                    · exact absurd (h.trans hlt) (lt_irrefl _)
                    · exact absurd (h ▸ hlt) (lt_irrefl _)
                | succ i =>
                    have hargmin := ih.mpr ⟨i, ha, hpa, fun j b hb hpb => by
                      rcases hall (j + 1) b hb hpb with h | ⟨h, hle⟩
                      · exact Or.inl h
                      · exact Or.inr ⟨h, Nat.le_of_succ_le_succ hle⟩⟩
                    exact Option.some.inj (hrest.symm.trans hargmin)
            · rename_i hge
              rw [not_lt] at hge
              rw [Option.some.injEq]
              constructor
              · rintro rfl
                refine ⟨0, rfl, hx, ?_⟩
                intro j b hb hpb
                cases j with
                | zero => exact Or.inr ⟨congrArg f (Option.some.inj hb), le_rfl⟩
                | succ j =>
                    have hcb : f c ≤ f b := by
                      rcases hleast j b hb hpb with h | ⟨h, -⟩
                      · exact h.le
                      · exact h.le
                    rcases (hge.trans hcb).lt_or_eq with h | h
                    · exact Or.inl h
                    · exact Or.inr ⟨h, Nat.zero_le _⟩
              · rintro ⟨i, ha, hpa, hall⟩
                cases i with
                | zero => exact Option.some.inj ha
                | succ i =>
                    rcases hall 0 x rfl hx with h | ⟨-, hle⟩
                    · have hca : f c ≤ f a := by
                        rcases hleast i a ha hpa with h | ⟨h, -⟩
                        · exact h.le
                        · exact h.le
                      exact absurd (h.trans_le (hge.trans hca)) (lt_irrefl _)
                    · omega
      · rw [List.filter_cons_of_neg hx, ih]
        constructor
        · rintro ⟨i, ha, hpa, hall⟩
          refine ⟨i + 1, ha, hpa, ?_⟩
          intro j b hb hpb
          cases j with
          | zero =>
              obtain rfl := Option.some.inj hb
              exact absurd hpb hx
          | succ j =>
              rcases hall j b hb hpb with h | ⟨h, hle⟩
              · exact Or.inl h
              · exact Or.inr ⟨h, Nat.succ_le_succ hle⟩
        · rintro ⟨i, ha, hpa, hall⟩
          cases i with
          | zero =>
              obtain rfl := Option.some.inj ha
              exact absurd hpa hx
          | succ i =>
              refine ⟨i, ha, hpa, ?_⟩
              intro j b hb hpb
              rcases hall (j + 1) b hb hpb with h | ⟨h, hle⟩
              · exact Or.inl h
              · exact Or.inr ⟨h, Nat.le_of_succ_le_succ hle⟩

end Groups

/-- `retained`: the winners in the order of the results. -/
def retained (items : List KeyedArticle) : List KeyedArticle :=
  (winners (·.fingerprint) (·.preference) items).insertionSort fun a b =>
    a.resultOrder ≤ b.resultOrder

/-- `DeduplicationResult`. -/
structure DeduplicationResult where
  articles : List FetchedArticle
  duplicates : ℕ

/-- `deduplicate_within_run`; absent when it raises. -/
def deduplicateWithinRun (articles : List FetchedArticle) : Option DeduplicationResult :=
  (articles.mapM (keyed S U L)).map fun items =>
    ⟨(retained items).map (·.article), articles.length - (retained items).length⟩

/-- **What is kept**: the articles that no article with their fingerprint is preferred to. -/
theorem mem_retained_iff {items : List KeyedArticle} {a : KeyedArticle} :
    a ∈ retained items ↔ ∃ i : ℕ, items[i]? = some a ∧ ∀ j b, items[j]? = some b →
      b.fingerprint = a.fingerprint →
        a.preference < b.preference ∨ a.preference = b.preference ∧ i ≤ j := by
  rw [retained, List.mem_insertionSort, mem_winners_iff, argmin_filter_eq_some_iff]
  simp only [decide_true, true_and, decide_eq_true_eq]

/-- No two articles that are kept share their fingerprint. -/
theorem nodup_fingerprint_retained (items : List KeyedArticle) :
    ((retained items).map (·.fingerprint)).Nodup :=
  ((List.perm_insertionSort _ _).map _).nodup_iff.mpr (nodup_map_winners _ _ items)

/-- Every article is kept or counted as a duplicate. -/
theorem length_retained_le (items : List KeyedArticle) :
    (retained items).length ≤ items.length := by
  rw [retained, List.length_insertionSort]
  exact length_winners_le _ _ items

end ProcureSignal.Retrieval
