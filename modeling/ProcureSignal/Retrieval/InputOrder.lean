/-
# Deduplication and the order of its input

`deduplicate_within_run` of `retrieval/deduplication.py` on articles with all the data of their
fields: times with or without an offset from UTC, payloads with lists and tuples.  The winner of a
group is the least in an order that does not tell all of these apart.

* `forall₂_kept_iff` : sorted winners do not depend on the order exactly when ties do not differ;
* `RunArticle`, `RunArticle.Same` : articles, and their equality field by field;
* `orderIndependent_iff` : **when the order plays no role**;
* `zone_decides` : two times that print alike.
-/
import ProcureSignal.Retrieval.Designations

namespace ProcureSignal.Retrieval

/-! ## Sorted winners -/

section Winners

variable {α κ ω : Type*} [LinearOrder κ] [LinearOrder ω] {keyOf : α → String}
  {preference : α → κ} {rank : α → ω} {l l₁ l₂ : List α} {a b : α}

/-- The winners in the order of their ranks. -/
def kept (keyOf : α → String) (preference : α → κ) (rank : α → ω) (items : List α) : List α :=
  (winners keyOf preference items).insertionSort fun a b => rank a ≤ rank b

theorem mem_kept : a ∈ kept keyOf preference rank l ↔ a ∈ winners keyOf preference l :=
  List.mem_insertionSort _

/-- A winner is an item that none with its key is preferred to. -/
theorem le_of_mem_winners (h : a ∈ winners keyOf preference l) :
    a ∈ l ∧ ∀ b ∈ l, keyOf b = keyOf a → preference a ≤ preference b := by
  obtain ⟨i, ha, -, hleast⟩ := argmin_filter_eq_some_iff.mp (mem_winners_iff.mp h)
  refine ⟨List.mem_of_getElem? ha, fun b hb hkey => ?_⟩
  obtain ⟨j, hj⟩ := List.mem_iff_getElem?.mp hb
  rcases hleast j b hj (decide_eq_true hkey) with hlt | ⟨heq, -⟩
  · exact hlt.le
  · exact heq.le

/-- Every key has a winner. -/
theorem exists_winner (ha : a ∈ l) : ∃ b ∈ winners keyOf preference l, keyOf b = keyOf a := by
  have hkey : keyOf a ∈ (winners keyOf preference l).map keyOf := by
    rw [map_winners]
    simpa using ⟨a, ha, rfl⟩
  exact List.mem_map.mp hkey

/-- An item that none is preferred to wins when it comes first. -/
theorem mem_winners_cons (hleast : ∀ b ∈ l, keyOf b = keyOf a → preference a ≤ preference b) :
    a ∈ winners keyOf preference (a :: l) := by
  rw [mem_winners_iff, argmin_filter_eq_some_iff]
  refine ⟨0, rfl, decide_eq_true rfl, fun j b hb hkey => ?_⟩
  cases j with
  | zero =>
      obtain rfl := Option.some.inj hb
      exact Or.inr ⟨rfl, le_rfl⟩
  | succ j =>
      have hle := hleast b (List.mem_of_getElem? hb) (of_decide_eq_true hkey)
      exact hle.lt_or_eq.imp_right fun heq => ⟨heq, Nat.zero_le _⟩

/-- The winners of two orders have the same keys and preferences. -/
theorem exists_winner_perm (hperm : l₁.Perm l₂) (h : a ∈ winners keyOf preference l₁) :
    ∃ b ∈ winners keyOf preference l₂, keyOf b = keyOf a ∧ preference b = preference a := by
  obtain ⟨ha, hleast⟩ := le_of_mem_winners h
  obtain ⟨b, hb, hkey⟩ : ∃ b ∈ winners keyOf preference l₂, keyOf b = keyOf a :=
    exists_winner (hperm.mem_iff.mp ha)
  obtain ⟨hmem, hleast'⟩ := le_of_mem_winners hb
  exact ⟨b, hb, hkey, le_antisymm (hleast' a (hperm.mem_iff.mp ha) hkey.symm)
    (hleast b (hperm.mem_iff.mpr hmem) hkey)⟩

section Rank

variable (hrank : ∀ a b, keyOf a = keyOf b → preference a = preference b → rank a = rank b)
  (hkey : ∀ a b, rank a = rank b → keyOf a = keyOf b)

include hkey

/-- No two that are kept have the same rank. -/
theorem nodup_rank_kept (l : List α) : ((kept keyOf preference rank l).map rank).Nodup := by
  have hkeys := nodup_map_winners keyOf preference l
  rw [List.Nodup, List.pairwise_map] at hkeys
  have hranks : ((winners keyOf preference l).map rank).Nodup := by
    rw [List.Nodup, List.pairwise_map]
    exact hkeys.imp fun {a b} hne heq => hne (hkey a b heq)
  exact ((List.perm_insertionSort _ _).map rank).nodup_iff.mpr hranks

include hrank

/-- The ranks of what is kept do not depend on the order. -/
theorem map_rank_kept (hperm : l₁.Perm l₂) :
    (kept keyOf preference rank l₁).map rank = (kept keyOf preference rank l₂).map rank := by
  have hsub : ∀ {m₁ m₂ : List α}, m₁.Perm m₂ → ∀ x ∈ (kept keyOf preference rank m₁).map rank,
      x ∈ (kept keyOf preference rank m₂).map rank := by
    intro m₁ m₂ hm x hx
    obtain ⟨a, ha, rfl⟩ := List.mem_map.mp hx
    obtain ⟨b, hb, hkeys, hpref⟩ := exists_winner_perm hm (mem_kept.mp ha)
    rw [← hrank b a hkeys hpref]
    exact List.mem_map_of_mem (mem_kept.mpr hb)
  have hsorted : ∀ m : List α, ((kept keyOf preference rank m).map rank).Pairwise (· ≤ ·) := by
    intro m
    rw [List.pairwise_map]
    exact List.pairwise_insertionSort _ _
  refine List.Perm.eq_of_pairwise' (hsorted l₁) (hsorted l₂) ?_
  rw [List.perm_ext_iff_of_nodup (nodup_rank_kept hkey l₁) (nodup_rank_kept hkey l₂)]
  exact fun x => ⟨hsub hperm x, hsub hperm.symm x⟩

omit hrank hkey in
/-- An item that none is preferred to wins in some order. -/
theorem exists_order_winner (ha : a ∈ l)
    (hleast : ∀ c ∈ l, keyOf c = keyOf a → preference a ≤ preference c) :
    ∃ l', l'.Perm l ∧ a ∈ winners keyOf preference l' := by
  obtain ⟨before, after, rfl⟩ := List.append_of_mem ha
  refine ⟨a :: (before ++ after), List.perm_middle.symm, mem_winners_cons fun c hc => ?_⟩
  exact hleast c (List.perm_middle.mem_iff.mpr (List.mem_cons_of_mem a hc))

/-- **When sorted winners do not depend on the order**: exactly when items with one key that are
both the least of their group do not differ. -/
theorem forall₂_kept_iff {R : α → α → Prop} :
    (∀ l₁ l₂, l₁.Perm l → l₂.Perm l → List.Forall₂ R (kept keyOf preference rank l₁)
        (kept keyOf preference rank l₂)) ↔
      ∀ a ∈ l, ∀ b ∈ l, keyOf a = keyOf b → preference a = preference b →
        (∀ c ∈ l, keyOf c = keyOf a → preference a ≤ preference c) → R a b := by
  constructor
  · intro h a ha b hb hkeys hpref hleast
    obtain ⟨l₁, h₁, hwin₁⟩ := exists_order_winner ha hleast
    obtain ⟨l₂, h₂, hwin₂⟩ := exists_order_winner hb
      fun c hc (hkeyc : keyOf c = keyOf b) => hpref ▸ hleast c hc (hkeyc.trans hkeys.symm)
    have hranks := map_rank_kept hrank hkey (h₁.trans h₂.symm)
    have hnodup : ((kept keyOf preference rank l₁).map rank).Nodup := nodup_rank_kept hkey l₁
    have hmem₁ : a ∈ kept keyOf preference rank l₁ := mem_kept.mpr hwin₁
    have hmem₂ : b ∈ kept keyOf preference rank l₂ := mem_kept.mpr hwin₂
    obtain ⟨i, hi⟩ := List.mem_iff_getElem?.mp hmem₁
    obtain ⟨j, hj⟩ := List.mem_iff_getElem?.mp hmem₂
    -- the two have one rank, so they stand at one place
    have hij : i = j := by
      have hat : ((kept keyOf preference rank l₁).map rank)[i]? =
          ((kept keyOf preference rank l₁).map rank)[j]? := by
        rw [List.getElem?_map, hi, hranks, List.getElem?_map, hj, Option.map_some, Option.map_some,
          hrank a b hkeys hpref]
      have hlength : i < ((kept keyOf preference rank l₁).map rank).length := by
        rw [List.length_map]
        exact (List.getElem?_eq_some_iff.mp hi).1
      exact (List.getElem?_inj hlength hnodup).mp hat
    subst hij
    obtain ⟨hi', rfl⟩ := List.getElem?_eq_some_iff.mp hi
    obtain ⟨hj', rfl⟩ := List.getElem?_eq_some_iff.mp hj
    exact (h l₁ l₂ h₁ h₂).get hi' hj'
  · intro h l₁ l₂ h₁ h₂
    have hranks := map_rank_kept hrank hkey (h₁.trans h₂.symm)
    have hsame : List.Forall₂ (fun a b => rank a = rank b) (kept keyOf preference rank l₁)
        (kept keyOf preference rank l₂) := by
      rw [← List.forall₂_map_right_iff (f := rank), ← List.forall₂_map_left_iff (f := rank), hranks]
      exact List.forall₂_same.mpr fun x _ => rfl
    refine List.forall₂_iff_zip.mpr ⟨hsame.length_eq, fun {a b} hzip => ?_⟩
    obtain ⟨ha, hb⟩ := List.of_mem_zip hzip
    have hkeys := hkey a b (List.forall₂_zip hsame hzip)
    obtain ⟨ha, hleast₁⟩ := le_of_mem_winners (mem_kept.mp ha)
    obtain ⟨hb, hleast₂⟩ := le_of_mem_winners (mem_kept.mp hb)
    have hpref : preference a = preference b :=
      le_antisymm (hleast₁ b (h₁.mem_iff.mpr (h₂.mem_iff.mp hb)) hkeys.symm)
        (hleast₂ a (h₂.mem_iff.mpr (h₁.mem_iff.mp ha)) hkeys)
    exact h a (h₁.mem_iff.mp ha) b (h₂.mem_iff.mp hb) hkeys hpref
      fun c hc hkeyc => hleast₁ c (h₁.mem_iff.mpr hc) hkeyc

end Rank

end Winners

/-! ## Articles -/

/-- A JSON-like payload; `null` is `None`. -/
inductive Payload
  | null
  | bool (b : Bool)
  | number (text : String)
  | string (s : String)
  | list (items : List Payload)
  | tuple (items : List Payload)
  | dict (fields : List (String × Payload))

namespace Payload

mutual

/-- The payload as `_payload_projection` sees it: a tuple is a list. -/
def toJson : Payload → Json
  | null => .null
  | bool b => .bool b
  | number text => .number text
  | string s => .string s
  | list items => .array (itemsToJson items)
  | tuple items => .array (itemsToJson items)
  | dict fields => .object (fieldsToJson fields)

def itemsToJson : List Payload → List Json
  | [] => []
  | item :: items => item.toJson :: itemsToJson items

def fieldsToJson : List (String × Payload) → List (String × Json)
  | [] => []
  | (key, item) :: fields => (key, item.toJson) :: fieldsToJson fields

end

/-- `==` on payloads: the order of the keys of a dictionary plays no role, and a list is no
tuple. -/
inductive Same : Payload → Payload → Prop
  | null : Same null null
  | bool (b : Bool) : Same (bool b) (bool b)
  | number (text : String) : Same (number text) (number text)
  | string (s : String) : Same (string s) (string s)
  | list {items items' : List Payload} (h : List.Forall₂ Same items items') :
      Same (list items) (list items')
  | tuple {items items' : List Payload} (h : List.Forall₂ Same items items') :
      Same (tuple items) (tuple items')
  | dict {fields fields' : List (String × Payload)}
      (h : ∀ key, Option.Rel Same (fields.lookup key) (fields'.lookup key)) :
      Same (dict fields) (dict fields')

end Payload

/-- `==` on times: a time without an offset equals none with one, and two with an offset are equal
when they are one instant. -/
def Datetime.Same (d e : Datetime) : Prop :=
  d.utcoffset.isSome = e.utcoffset.isSome ∧
    d.wall - d.utcoffset.getD 0 = e.wall - e.utcoffset.getD 0

/-- The instant that `_datetime_key` prints; absent when the conversion to UTC raises. -/
def Datetime.key (d : Datetime) : Option Instant :=
  match d.utcoffset with
  | some _ => d.utc
  | none => some d.wall

/-- `RawArticle`. -/
structure RunArticle where
  provider : String
  providerArticleId : Option String
  queryGroup : String
  title : String
  description : Option String
  contentSnippet : Option String
  articleUrl : String
  canonicalUrl : Option String
  sourceName : String
  sourceUrl : Option String
  publishedAt : Datetime
  language : String
  rawPayloadJson : Payload
  sourceId : Option String
  sourceClass : Option String
  sourceDomains : List String
  sourceCountries : List String
  registryVersion : Option String
  retrievedAt : Option Datetime
  sourcePublishedAtRaw : Option String

namespace RunArticle

/-- Equality field by field. -/
structure Same (a b : RunArticle) : Prop where
  provider : a.provider = b.provider
  providerArticleId : a.providerArticleId = b.providerArticleId
  queryGroup : a.queryGroup = b.queryGroup
  title : a.title = b.title
  description : a.description = b.description
  contentSnippet : a.contentSnippet = b.contentSnippet
  articleUrl : a.articleUrl = b.articleUrl
  canonicalUrl : a.canonicalUrl = b.canonicalUrl
  sourceName : a.sourceName = b.sourceName
  sourceUrl : a.sourceUrl = b.sourceUrl
  publishedAt : a.publishedAt.Same b.publishedAt
  language : a.language = b.language
  rawPayloadJson : a.rawPayloadJson.Same b.rawPayloadJson
  sourceId : a.sourceId = b.sourceId
  sourceClass : a.sourceClass = b.sourceClass
  sourceDomains : a.sourceDomains = b.sourceDomains
  sourceCountries : a.sourceCountries = b.sourceCountries
  registryVersion : a.registryVersion = b.registryVersion
  retrievedAt : Option.Rel Datetime.Same a.retrievedAt b.retrievedAt
  sourcePublishedAtRaw : a.sourcePublishedAtRaw = b.sourcePublishedAtRaw

/-- The instant that is printed of the time of retrieval, if there is one. -/
def retrievedKey (a : RunArticle) : Option (Option Instant) :=
  match a.retrievedAt with
  | some d => d.key.map some
  | none => some none

/-- The article as the fingerprint and the projection see it.  The fingerprint prints
`published_at` in its last branch only, which no article reaches (`canonicalizeUrl` returns a path),
so the offset is not seen there either. -/
def view (a : RunArticle) : Option FetchedArticle := do
  let publishedAt ← a.publishedAt.key
  let retrievedAt ← a.retrievedKey
  pure
    { provider := a.provider
      providerArticleId := Json.ofOption a.providerArticleId
      queryGroup := a.queryGroup
      title := .string a.title
      description := Json.ofOption a.description
      contentSnippet := Json.ofOption a.contentSnippet
      articleUrl := .string a.articleUrl
      canonicalUrl := Json.ofOption a.canonicalUrl
      sourceName := .string a.sourceName
      sourceUrl := a.sourceUrl
      publishedAt := publishedAt
      language := .string a.language
      rawPayloadJson := a.rawPayloadJson.toJson
      sourceId := a.sourceId
      sourceClass := a.sourceClass
      sourceDomains := a.sourceDomains
      sourceCountries := a.sourceCountries
      registryVersion := a.registryVersion
      retrievedAt := retrievedAt
      sourcePublishedAtRaw := a.sourcePublishedAtRaw }

/-- What the article is grouped and compared by; absent when computing it raises. -/
def keys (S : Serializing) (U : Unicode) (L : UrlParsing) (a : RunArticle) : Option KeyedArticle :=
  a.view.bind (keyed S U L)

end RunArticle

/-! ## What a tie leaves open -/

/-- Articles that print alike: they have the same text fields and the same instants, and what is
left open is the offset of a time, where the domains and countries begin and end, and the payload up
to its projection. -/
structure RunArticle.PrintsAs (S : Serializing) (a b : RunArticle) : Prop where
  provider : a.provider = b.provider
  providerArticleId : a.providerArticleId = b.providerArticleId
  queryGroup : a.queryGroup = b.queryGroup
  title : a.title = b.title
  description : a.description = b.description
  contentSnippet : a.contentSnippet = b.contentSnippet
  articleUrl : a.articleUrl = b.articleUrl
  canonicalUrl : a.canonicalUrl = b.canonicalUrl
  sourceName : a.sourceName = b.sourceName
  sourceUrl : a.sourceUrl = b.sourceUrl
  publishedAt : a.publishedAt.key = b.publishedAt.key
  language : a.language = b.language
  rawPayloadJson : optionalPayload S a.rawPayloadJson.toJson =
    optionalPayload S b.rawPayloadJson.toJson
  sourceId : a.sourceId = b.sourceId
  sourceClass : a.sourceClass = b.sourceClass
  sourceDomains : "\x00".intercalate a.sourceDomains = "\x00".intercalate b.sourceDomains
  sourceCountries : "\x00".intercalate a.sourceCountries = "\x00".intercalate b.sourceCountries
  registryVersion : a.registryVersion = b.registryVersion
  retrievedAt : a.retrievedAt.map (·.key) = b.retrievedAt.map (·.key)
  sourcePublishedAtRaw : a.sourcePublishedAtRaw = b.sourcePublishedAtRaw

/-- A tagged text can be read back from what `json` prints of it, and a time from what `datetime`
prints. -/
structure Serializing.Legible (S : Serializing) : Prop where
  tagged : ∀ tag ∈ ["none", "str", "datetime"], ∀ tag' ∈ ["none", "str", "datetime"], ∀ v v',
    tagged S tag (.string v) = tagged S tag' (.string v') → tag = tag' ∧ v = v'
  isoformat : Function.Injective S.isoformat

/-- `_optional_text` tells texts apart, and text from none. -/
theorem optionalText_ofOption {S : Serializing} (hS : S.Legible) {x y : Option String}
    (h : optionalText S (Json.ofOption x) = optionalText S (Json.ofOption y)) : x = y := by
  have hread := fun tag htag tag' htag' v v' => hS.tagged tag htag tag' htag' v v'
  cases x with
  | none =>
      cases y with
      | none => rfl
      | some y => exact absurd (hread "none" (by simp) "str" (by simp) _ _ h).1 (by decide)
  | some x =>
      cases y with
      | none => exact absurd (hread "str" (by simp) "none" (by simp) _ _ h).1 (by decide)
      | some y => rw [(hread "str" (by simp) "str" (by simp) _ _ h).2]

theorem optionalDatetime_inj {S : Serializing} (hS : S.Legible) {x y : Option Instant}
    (h : optionalDatetime S x = optionalDatetime S y) : x = y := by
  have hread := fun tag htag tag' htag' v v' => hS.tagged tag htag tag' htag' v v'
  cases x with
  | none =>
      cases y with
      | none => rfl
      | some y => exact absurd (hread "none" (by simp) "datetime" (by simp) _ _ h).1 (by decide)
  | some x =>
      cases y with
      | none => exact absurd (hread "datetime" (by simp) "none" (by simp) _ _ h).1 (by decide)
      | some y =>
          have htime := (hread "datetime" (by simp) "datetime" (by simp) _ _ h).2
          rw [hS.isoformat htime]

/-- The projection of an article, field by field. -/
theorem projection_of_keys {S : Serializing} {U : Unicode} {L : UrlParsing} {a : RunArticle}
    {k : KeyedArticle} (h : a.keys S U L = some k) :
    ∃ t r canonical, a.publishedAt.key = some t ∧ a.retrievedAt.map (·.key) = r.map some ∧
      k.projection =
        [a.provider, optionalText S (Json.ofOption a.providerArticleId), a.queryGroup, a.title,
          optionalText S (Json.ofOption a.description),
          optionalText S (Json.ofOption a.contentSnippet), a.articleUrl, canonical,
          optionalText S (Json.ofOption a.canonicalUrl), a.sourceName,
          optionalText S (Json.ofOption a.sourceUrl), S.isoformat t, a.language,
          optionalPayload S a.rawPayloadJson.toJson, optionalText S (Json.ofOption a.sourceId),
          optionalText S (Json.ofOption a.sourceClass), "\x00".intercalate a.sourceDomains,
          "\x00".intercalate a.sourceCountries, optionalText S (Json.ofOption a.registryVersion),
          optionalDatetime S r, optionalText S (Json.ofOption a.sourcePublishedAtRaw)] := by
  obtain ⟨view, hview, hkeyed⟩ := Option.bind_eq_some_iff.mp h
  obtain ⟨t, ht, hview⟩ := Option.bind_eq_some_iff.mp hview
  obtain ⟨r, hr, hview⟩ := Option.bind_eq_some_iff.mp hview
  obtain ⟨fingerprint, -, hkeyed⟩ := Option.bind_eq_some_iff.mp hkeyed
  obtain ⟨projection, hprojection, hkeyed⟩ := Option.bind_eq_some_iff.mp hkeyed
  rw [← Option.some.inj hkeyed]
  rw [← Option.some.inj hview] at hprojection
  -- the four required texts are read from a string, so only the canonical URL can fail
  obtain ⟨canonical, -, hprojection⟩ := Option.bind_eq_some_iff.mp hprojection
  refine ⟨t, r, canonical, ht, ?_, (Option.some.inj hprojection).symm⟩
  unfold RunArticle.retrievedKey at hr
  cases hretrieved : a.retrievedAt with
  | none =>
      rw [hretrieved] at hr
      rw [← Option.some.inj hr]
      rfl
  | some d =>
      rw [hretrieved] at hr
      obtain ⟨u, hu, rfl⟩ := Option.map_eq_some_iff.mp hr
      rw [Option.map_some, Option.map_some, hu]

/-- **Articles of one projection print alike.** -/
theorem printsAs_of_projection_eq {S : Serializing} {U : Unicode} {L : UrlParsing}
    (hS : S.Legible) {a b : RunArticle} {k k' : KeyedArticle} (ha : a.keys S U L = some k)
    (hb : b.keys S U L = some k') (h : k.projection = k'.projection) : a.PrintsAs S b := by
  obtain ⟨t, r, canonical, ht, hr, hk⟩ := projection_of_keys ha
  obtain ⟨t', r', canonical', ht', hr', hk'⟩ := projection_of_keys hb
  rw [hk, hk'] at h
  simp only [List.cons.injEq, and_true] at h
  obtain ⟨hprovider, hid, hgroup, htitle, hdescription, hsnippet, hurl, -, hcanonical, hsource,
    hsourceUrl, hpublished, hlanguage, hpayload, hsourceId, hclass, hdomains, hcountries, hversion,
    hretrieved, hraw⟩ := h
  have htext := fun {x y : Option String} => optionalText_ofOption (x := x) (y := y) hS
  exact
    { provider := hprovider
      providerArticleId := htext hid
      queryGroup := hgroup
      title := htitle
      description := htext hdescription
      contentSnippet := htext hsnippet
      articleUrl := hurl
      canonicalUrl := htext hcanonical
      sourceName := hsource
      sourceUrl := htext hsourceUrl
      publishedAt := by rw [ht, ht', hS.isoformat hpublished]
      language := hlanguage
      rawPayloadJson := hpayload
      sourceId := htext hsourceId
      sourceClass := htext hclass
      sourceDomains := hdomains
      sourceCountries := hcountries
      registryVersion := htext hversion
      retrievedAt := by rw [hr, hr', optionalDatetime_inj hS hretrieved]
      sourcePublishedAtRaw := htext hraw }

/-- Articles that print alike are seen alike, but for the payload, the domains and the
countries. -/
theorem view_of_printsAs {S : Serializing} {a b : RunArticle} (h : a.PrintsAs S b) :
    b.view = a.view.map fun v => { v with
      rawPayloadJson := b.rawPayloadJson.toJson
      sourceDomains := b.sourceDomains
      sourceCountries := b.sourceCountries } := by
  have hretrieved : b.retrievedKey = a.retrievedKey := by
    have hkeys := h.retrievedAt
    unfold RunArticle.retrievedKey
    cases ha : a.retrievedAt with
    | none =>
        rw [ha, Option.map_none, eq_comm, Option.map_eq_none_iff] at hkeys
        rw [hkeys]
    | some d =>
        rw [ha, Option.map_some, eq_comm, Option.map_eq_some_iff] at hkeys
        obtain ⟨e, he, hkey⟩ := hkeys
        rw [he]
        show e.key.map some = d.key.map some
        rw [hkey]
  simp only [RunArticle.view, hretrieved, ← h.provider, ← h.providerArticleId, ← h.queryGroup,
    ← h.title, ← h.description, ← h.contentSnippet, ← h.articleUrl, ← h.canonicalUrl,
    ← h.sourceName, ← h.sourceUrl, ← h.publishedAt, ← h.language, ← h.sourceId, ← h.sourceClass,
    ← h.registryVersion, ← h.sourcePublishedAtRaw]
  cases a.publishedAt.key with
  | none => rfl
  | some t =>
      cases a.retrievedKey with
      | none => rfl
      | some r => rfl

/-- **What ties**: articles that print alike, and no others, have one fingerprint and one
preference. -/
theorem tie_iff {S : Serializing} {U : Unicode} {L : UrlParsing} (hS : S.Legible)
    {a b : RunArticle} {k k' : KeyedArticle} (ha : a.keys S U L = some k)
    (hb : b.keys S U L = some k') :
    k.fingerprint = k'.fingerprint ∧ k.preference = k'.preference ↔ a.PrintsAs S b := by
  constructor
  · rintro ⟨-, hpref⟩
    exact printsAs_of_projection_eq hS ha hb (Prod.mk.inj (toLex_inj.mp hpref)).2
  · intro h
    obtain ⟨view, hview, hkeyed⟩ := Option.bind_eq_some_iff.mp ha
    have hview' := view_of_printsAs h
    rw [hview, Option.map_some] at hview'
    rw [RunArticle.keys, hview', Option.bind_some] at hb
    obtain ⟨fingerprint, hfingerprint, hkeyed⟩ := Option.bind_eq_some_iff.mp hkeyed
    obtain ⟨projection, hprojection, hkeyed⟩ := Option.bind_eq_some_iff.mp hkeyed
    obtain ⟨fingerprint', hfingerprint', hb⟩ := Option.bind_eq_some_iff.mp hb
    obtain ⟨projection', hprojection', hb⟩ := Option.bind_eq_some_iff.mp hb
    have hsameFingerprint : fingerprint = fingerprint' :=
      Option.some.inj (hfingerprint.symm.trans hfingerprint')
    have hpayload : view.rawPayloadJson = a.rawPayloadJson.toJson ∧
        view.sourceDomains = a.sourceDomains ∧ view.sourceCountries = a.sourceCountries := by
      obtain ⟨t, -, hview⟩ := Option.bind_eq_some_iff.mp hview
      obtain ⟨r, -, hview⟩ := Option.bind_eq_some_iff.mp hview
      rw [← Option.some.inj hview]
      exact ⟨rfl, rfl, rfl⟩
    obtain ⟨hpayload, hdomains, hcountries⟩ := hpayload
    have hsameProjection : projection = projection' := by
      refine Option.some.inj (hprojection.symm.trans (Eq.trans ?_ hprojection'))
      simp only [articleProjection, hpayload, hdomains, hcountries, h.rawPayloadJson,
        h.sourceDomains, h.sourceCountries]
      rfl
    rw [← Option.some.inj hkeyed, ← Option.some.inj hb, KeyedArticle.preference,
      KeyedArticle.preference, hsameProjection]
    exact ⟨hsameFingerprint, rfl⟩

/-! ## Deduplication -/

/-- `DeduplicationResult`. -/
structure RunResult where
  articles : List RunArticle
  duplicates : ℕ

/-- The articles are equal field by field, and the counts are equal. -/
def RunResult.Same (r r' : RunResult) : Prop :=
  List.Forall₂ RunArticle.Same r.articles r'.articles ∧ r.duplicates = r'.duplicates

variable (S : Serializing) (U : Unicode) (L : UrlParsing)

/-- The winners in the order of the result. -/
def keptArticles (items : List (RunArticle × KeyedArticle)) : List (RunArticle × KeyedArticle) :=
  kept (·.2.fingerprint) (·.2.preference) (·.2.resultOrder) items

/-- An article with its keys. -/
def withKeys (a : RunArticle) : Option (RunArticle × KeyedArticle) :=
  (a.keys S U L).map fun k => (a, k)

/-- `deduplicate_within_run`; absent when it raises. -/
def deduplicateRun (articles : List RunArticle) : Option RunResult :=
  (articles.mapM (withKeys S U L)).map fun items =>
    ⟨(keptArticles items).map (·.1), articles.length - (keptArticles items).length⟩

/-- Articles that print alike do not differ, when none in their group is preferred to them. -/
def TiesAgree (articles : List RunArticle) : Prop :=
  (∀ a ∈ articles, (a.keys S U L).isSome = true) →
    ∀ a ∈ articles, ∀ b ∈ articles, a.PrintsAs S b →
      (∀ c ∈ articles, ∀ k k', a.keys S U L = some k → c.keys S U L = some k' →
        k'.fingerprint = k.fingerprint → k.preference ≤ k'.preference) →
      a.Same b

section Deduplicate

variable {S U L}

/-- The same preference, the same place in the result. -/
theorem resultOrder_eq {k k' : KeyedArticle} (hkey : k.fingerprint = k'.fingerprint)
    (hpref : k.preference = k'.preference) : k.resultOrder = k'.resultOrder := by
  have hprojection : k.projection = k'.projection := (Prod.mk.inj (toLex_inj.mp hpref)).2
  rw [KeyedArticle.resultOrder, KeyedArticle.resultOrder, hkey, hprojection]

theorem fingerprint_eq {k k' : KeyedArticle} (h : k.resultOrder = k'.resultOrder) :
    k.fingerprint = k'.fingerprint :=
  (List.cons.inj (List.append_inj_right' h rfl)).1

/-- The keyed articles are the articles with their keys. -/
theorem mapM_withKeys_eq_some_iff {l : List RunArticle} {items : List (RunArticle × KeyedArticle)} :
    l.mapM (withKeys S U L) = some items ↔
      items.map (·.1) = l ∧ ∀ x ∈ items, x.1.keys S U L = some x.2 :=
  mapM_keyed_eq_some_iff

theorem deduplicateRun_eq {l : List RunArticle} {items : List (RunArticle × KeyedArticle)}
    (h : l.mapM (withKeys S U L) = some items) : deduplicateRun S U L l =
      some ⟨(keptArticles items).map (·.1), l.length - (keptArticles items).length⟩ := by
  rw [deduplicateRun, h, Option.map_some]

/-- The orders of keyed articles, as they are sorted and as they tie. -/
theorem forall₂_keptArticles_iff (items : List (RunArticle × KeyedArticle)) :
    (∀ l₁ l₂, l₁.Perm items → l₂.Perm items →
      List.Forall₂ (fun x y => x.1.Same y.1) (keptArticles l₁) (keptArticles l₂)) ↔
    ∀ x ∈ items, ∀ y ∈ items, x.2.fingerprint = y.2.fingerprint →
      x.2.preference = y.2.preference →
      (∀ z ∈ items, z.2.fingerprint = x.2.fingerprint → x.2.preference ≤ z.2.preference) →
      x.1.Same y.1 :=
  forall₂_kept_iff (fun _ _ => resultOrder_eq) fun _ _ => fingerprint_eq

/-- **When the order plays no role.**  Any two orders of the articles, on which nothing raises, give
the same articles, field by field, and the same count exactly when articles that print alike and are
the first of their group do not differ. -/
theorem orderIndependent_iff {S : Serializing} (hS : S.Legible) (U : Unicode) (L : UrlParsing)
    (articles : List RunArticle) :
    (∀ l₁ l₂ r₁ r₂, l₁.Perm articles → l₂.Perm articles → deduplicateRun S U L l₁ = some r₁ →
      deduplicateRun S U L l₂ = some r₂ → r₁.Same r₂) ↔ TiesAgree S U L articles := by
  constructor
  · intro h hsome a ha b hb hprint hleast
    obtain ⟨items, hitems⟩ := @exists_mapM _ _ (withKeys S U L) articles
      fun c hc => by rw [withKeys, Option.isSome_map]; exact hsome c hc
    have hmem : ∀ {x}, x ∈ items ↔ x.1 ∈ articles ∧ x.1.keys S U L = some x.2 :=
      mem_of_mapM_keyed hitems
    obtain ⟨k, hk⟩ := Option.isSome_iff_exists.mp (hsome a ha)
    obtain ⟨k', hk'⟩ := Option.isSome_iff_exists.mp (hsome b hb)
    obtain ⟨hkey, hpref⟩ := (tie_iff hS hk hk').mpr hprint
    refine (forall₂_keptArticles_iff items).mp ?_ (a, k) (hmem.mpr ⟨ha, hk⟩) (b, k')
      (hmem.mpr ⟨hb, hk'⟩) hkey hpref fun z hz hkeyz => ?_
    · intro l₁ l₂ h₁ h₂
      have horder : ∀ {l : List (RunArticle × KeyedArticle)}, l.Perm items →
          (l.map (·.1)).Perm articles ∧ (l.map (·.1)).mapM (withKeys S U L) = some l := by
        intro l hl
        refine ⟨?_, mapM_withKeys_eq_some_iff.mpr ⟨rfl, fun x hx =>
          (hmem.mp (hl.mem_iff.mp hx)).2⟩⟩
        rw [← (mapM_withKeys_eq_some_iff.mp hitems).1]
        exact hl.map _
      have hresult := (h _ _ _ _ (horder h₁).1 (horder h₂).1 (deduplicateRun_eq (horder h₁).2)
        (deduplicateRun_eq (horder h₂).2)).1
      rwa [List.forall₂_map_left_iff, List.forall₂_map_right_iff] at hresult
    · exact hleast z.1 (hmem.mp hz).1 k z.2 hk (hmem.mp hz).2 hkeyz
  · intro hties l₁ l₂ r₁ r₂ h₁ h₂ hr₁ hr₂
    obtain ⟨items₁, hitems₁, rfl⟩ := Option.map_eq_some_iff.mp hr₁
    obtain ⟨items₂, hitems₂, rfl⟩ := Option.map_eq_some_iff.mp hr₂
    have hmem : ∀ {x}, x ∈ items₁ ↔ x.1 ∈ articles ∧ x.1.keys S U L = some x.2 := by
      intro x
      rw [mem_of_mapM_keyed hitems₁, h₁.mem_iff]
    have hsome : ∀ a ∈ articles, (a.keys S U L).isSome = true := by
      intro a ha
      rw [← h₁.mem_iff, ← (mapM_withKeys_eq_some_iff.mp hitems₁).1] at ha
      obtain ⟨x, hx, rfl⟩ := List.mem_map.mp ha
      rw [(hmem.mp hx).2]
      rfl
    have hkept := (forall₂_keptArticles_iff items₁).mpr ?_ items₁ items₂ (List.Perm.refl _)
      (perm_of_mapM (h₂.trans h₁.symm) hitems₂ hitems₁)
    · refine ⟨?_, ?_⟩
      · rwa [List.forall₂_map_left_iff, List.forall₂_map_right_iff]
      · show l₁.length - _ = l₂.length - _
        rw [hkept.length_eq, (h₁.trans h₂.symm).length_eq]
    · intro x hx y hy hkey hpref hleast
      obtain ⟨hxmem, hxkeys⟩ := hmem.mp hx
      obtain ⟨hymem, hykeys⟩ := hmem.mp hy
      refine hties hsome x.1 hxmem y.1 hymem ((tie_iff hS hxkeys hykeys).mp ⟨hkey, hpref⟩) ?_
      intro c hc k k' hk hk' hkeyc
      obtain rfl := Option.some.inj (hk.symm.trans hxkeys)
      exact hleast (c, k') (hmem.mpr ⟨hc, hk'⟩) hkeyc

end Deduplicate

/-! ## Two times that print alike -/

/-- An article of the catalog, published at a time of the given offset. -/
def published (utcoffset : Option ℤ) : RunArticle where
  provider := "rss"
  providerArticleId := some "1"
  queryGroup := "sanctions"
  title := "Port strike"
  description := none
  contentSnippet := none
  articleUrl := "https://news.example/1"
  canonicalUrl := none
  sourceName := "News"
  sourceUrl := none
  publishedAt := ⟨days (Sanctions.toOrdinal 2024 1 2), utcoffset⟩
  language := "en"
  rawPayloadJson := .null
  sourceId := none
  sourceClass := none
  sourceDomains := []
  sourceCountries := []
  registryVersion := none
  retrievedAt := none
  sourcePublishedAtRaw := none

/-- A text for every time: its sign and its digits, in unary. -/
def unary (t : Instant) : String :=
  String.ofList ((if 0 ≤ t then '+' else '-') :: List.replicate t.natAbs '1')

theorem unary_injective : Function.Injective unary := by
  intro (s : ℤ) (t : ℤ) h
  obtain ⟨hsign, hdigits⟩ := List.cons.inj (String.ofList_injective h)
  have habs : s.natAbs = t.natAbs := by
    simpa only [List.length_replicate] using congrArg List.length hdigits
  have hsigns : 0 ≤ s ↔ 0 ≤ t := by
    by_cases hs : 0 ≤ s <;> by_cases ht : 0 ≤ t <;> simp [hs, ht] at hsign ⊢
  show (s : ℤ) = t
  omega

theorem unary_ne (t : Instant) : unary t ≠ "2024-01-02T00:00:00" := by
  intro h
  have hhead := congrArg (fun s => s.toList.head?) h
  by_cases ht : 0 ≤ t <;> simp [unary, ht] at hhead

/-- `Sanctions.plainSerializing`, with a text of its own for every time. -/
def timedSerializing : Serializing :=
  { Sanctions.plainSerializing with
    isoformat := fun t =>
      if t = days (Sanctions.toOrdinal 2024 1 2) then "2024-01-02T00:00:00" else unary t }

theorem tagged_timedSerializing (tag v : String) :
    (tagged timedSerializing tag (.string v)).toList =
      '[' :: '"' :: (tag.toList ++ '"' :: ',' :: '"' :: (v.toList ++ ['"', ']'])) := by
  show ("[" ++ ",".intercalate ["\"" ++ tag ++ "\"", "\"" ++ v ++ "\""] ++ "]").toList = _
  simp [String.intercalate_cons_cons]

theorem timedSerializing_legible : timedSerializing.Legible where
  tagged tag htag tag' htag' v v' h := by
    have hchars := congrArg String.toList h
    rw [tagged_timedSerializing, tagged_timedSerializing] at hchars
    simp only [List.mem_cons, List.not_mem_nil, or_false] at htag htag'
    rcases htag with rfl | rfl | rfl <;> rcases htag' with rfl | rfl | rfl <;>
      simp [String.toList_inj] at hchars <;> exact ⟨rfl, hchars⟩
  isoformat s t h := by
    by_cases hs : s = days (Sanctions.toOrdinal 2024 1 2)
    · by_cases ht : t = days (Sanctions.toOrdinal 2024 1 2)
      · rw [hs, ht]
      · simp only [timedSerializing, if_pos hs, if_neg ht] at h
        exact absurd h.symm (unary_ne t)
    · by_cases ht : t = days (Sanctions.toOrdinal 2024 1 2)
      · simp only [timedSerializing, if_neg hs, if_pos ht] at h
        exact absurd h (unary_ne s)
      · simp only [timedSerializing, if_neg hs, if_neg ht] at h
        exact unary_injective h

/-- One article is returned as it is, in every order. -/
theorem orderIndependent_iff_published :
    deduplicateRun timedSerializing .ascii Sanctions.plainUrls [published none] =
        some ⟨[published none], 0⟩ ∧
      ∀ l₁ l₂ r₁ r₂, l₁.Perm [published none] → l₂.Perm [published none] →
        deduplicateRun timedSerializing .ascii Sanctions.plainUrls l₁ = some r₁ →
        deduplicateRun timedSerializing .ascii Sanctions.plainUrls l₂ = some r₂ → r₁.Same r₂ := by
  refine ⟨rfl,
    (orderIndependent_iff timedSerializing_legible .ascii Sanctions.plainUrls _).mpr ?_⟩
  intro _ a ha b hb _ _
  rw [List.mem_singleton.mp ha, List.mem_singleton.mp hb]
  constructor <;> first | rfl | exact ⟨rfl, rfl⟩ | exact .null | exact .none

/-- **The order decides.**  Two articles differ in whether their time has an offset; the one that
comes first is returned. -/
theorem zone_decides :
    ∃ r₁ r₂, deduplicateRun timedSerializing .ascii Sanctions.plainUrls
        [published none, published (some 0)] = some r₁ ∧
      deduplicateRun timedSerializing .ascii Sanctions.plainUrls
        [published (some 0), published none] = some r₂ ∧ ¬ r₁.Same r₂ := by
  have hfirst : deduplicateRun timedSerializing .ascii Sanctions.plainUrls
      [published none, published (some 0)] = some ⟨[published none], 1⟩ := by
    rfl
  have hsecond : deduplicateRun timedSerializing .ascii Sanctions.plainUrls
      [published (some 0), published none] = some ⟨[published (some 0)], 1⟩ := by
    rfl
  refine ⟨_, _, hfirst, hsecond, fun hsame => ?_⟩
  cases hsame.1 with
  | cons h _ => exact absurd h.publishedAt.1 (by decide)

end ProcureSignal.Retrieval
