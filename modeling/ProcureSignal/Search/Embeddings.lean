/-
# Which vector belongs to which article

`embed` of `search/embeddings.py` orders the items of a response by their index fields and hands out
their vectors; `embed_pending_articles` checks how many there are and how wide they are, and stores
them beside the articles of the batch.

* `Accepted` : the responses that a batch is stored from;
* `Paired` : every article of a batch has the vector of the item with its index;
* `embed_paired_iff` : **when no vector is stored with the wrong article**.
-/
import ProcureSignal.Library.Collections
import ProcureSignal.Library.Unicode

namespace ProcureSignal.Search.Embeddings

/-! ## JSON -/

/-- A number of Python, an integer or a float. -/
inductive Number
  | finite (q : ℚ)
  | nan
  | infinity (negative : Bool)
  deriving DecidableEq, Repr

/-- `<` of numbers. -/
def Number.less : Number → Number → Bool
  | finite a, finite b => a < b
  | finite _, infinity negative => !negative
  | infinity negative, finite _ => negative
  | infinity negative, infinity negative' => negative && !negative'
  | _, _ => false

/-- A decoded JSON value. -/
inductive Json
  | null
  | bool (b : Bool)
  | number (x : Number)
  | string (s : String)
  | array (items : List Json)
  | object (fields : List (String × Json))

namespace Json

/-- The truth value. -/
def truthy : Json → Bool
  | null => false
  | bool b => b
  | number x => x ≠ .finite 0
  | string s => s ≠ ""
  | array items => !items.isEmpty
  | object fields => !fields.isEmpty

/-- The number that a number or a truth value equals. -/
def asNumber : Json → Option Number
  | number x => some x
  | bool b => some (.finite (if b then 1 else 0))
  | _ => none

/-- The fields of an object; anything else has no `get`. -/
def asObject : Json → Option (List (String × Json))
  | object fields => some fields
  | _ => none

/-- `for x in value`: the items of an array, the keys of an object, the characters of a text;
anything else raises. -/
def iterated : Json → Option (List Json)
  | array items => some items
  | object fields => some (fields.map fun f => string f.1)
  | string s => some (s.toList.map fun c => string (String.singleton c))
  | _ => none

end Json

/-- `mapping.get(key)`. -/
def get (fields : List (String × Json)) (key : String) : Option Json :=
  (fields.find? fun f => f.1 = key).map (·.2)

/-- What is used of the language: `float` and `int` of a value, and `<` of lists; an exception is
`none`. -/
structure Python (F : Type) where
  float : Json → Option F
  int : Json → Option ℤ
  arrayLess : List Json → List Json → Option Bool

variable {F : Type} (P : Python F)

/-- `a < b`; values of different kinds raise, and so do two that are no numbers, texts or lists. -/
def less (a b : Json) : Option Bool :=
  match a.asNumber, b.asNumber with
  | some x, some y => some (x.less y)
  | _, _ =>
      match a, b with
      | .string s, .string t => some (s < t)
      | .array l, .array m => P.arrayLess l m
      | _, _ => none

/-! ## The provider -/

section Sorting

variable {β : Type}

/-- A keyed item goes in front of the first whose key is not less. -/
def insertBy (e : β × Json) : List (β × Json) → Option (List (β × Json))
  | [] => some [e]
  | f :: l => do
      let further ← less P f.2 e.2
      if further then
        let rest ← insertBy e l
        return f :: rest
      else return e :: f :: l

/-- `sorted` by a key: stable, and an exception of a comparison is one of the sort. -/
def sortedBy : List (β × Json) → Option (List (β × Json))
  | [] => some []
  | e :: l => do
      let rest ← sortedBy l
      insertBy P e rest

end Sorting

/-- `item.get("index", 0)`. -/
def indexOf (item : Json) : Option Json := do
  let fields ← item.asObject
  return (get fields "index").getD (.number (.finite 0))

/-- `[float(value) for value in item["embedding"]]`. -/
def vectorOf (item : Json) : Option (List F) := do
  let fields ← item.asObject
  let embedding ← get fields "embedding"
  let values ← embedding.iterated
  values.mapM P.float

/-- `data.get("data") or []`, as it is gone through. -/
def itemsOf (fields : List (String × Json)) : Option (List Json) :=
  match get fields "data" with
  | none => some []
  | some v => if v.truthy then v.iterated else some []

/-- `int(usage.get("total_tokens") or 0)`. -/
def totalTokens (fields : List (String × Json)) : Option ℤ := do
  let usage ← match get fields "usage" with
    | none => some []
    | some v => if v.truthy then v.asObject else some []
  match get usage "total_tokens" with
  | none => some 0
  | some v => if v.truthy then P.int v else some 0

/-- `sorted(items, key=lambda item: item.get("index", 0))`. -/
def sortedItems (items : List Json) : Option (List Json) := do
  let keyed ← items.mapM fun item => (indexOf item).map fun key => (item, key)
  let ordered ← sortedBy P keyed
  return ordered.map (·.1)

/-- `embed`, from the body of the response: the tokens used and the vectors. -/
def embed (data : Json) : Option (ℤ × List (List F)) := do
  let fields ← data.asObject
  let used ← totalTokens P fields
  let items ← itemsOf fields
  let ordered ← sortedItems P items
  let vectors ← ordered.mapM (vectorOf P)
  return (used, vectors)

/-! ## The backfill -/

/-- What the backfill reads of a `NewsArticleProcessed`. -/
structure Article where
  id : ℕ
  normalizedTitle : String
  summary : String
  deriving DecidableEq, Repr

/-- `ArticleEmbedding`. -/
structure ArticleEmbedding (F : Type) where
  processedArticleId : ℕ
  model : String
  dimensions : ℕ
  embedding : List F
  deriving DecidableEq, Repr

/-- An `EmbeddingProvider`: the model it is for, and how wide its vectors are. -/
structure Provider where
  name : String
  dimensions : ℕ

/-- What the backfill meets, by the number of the batch. -/
structure Environment where
  /-- `within_budget`, for an estimate -/
  withinBudget : ℕ → ℕ → Bool
  /-- the body of the response to these texts; absent where the request raises -/
  response : ℕ → List String → Option Json
  /-- the statements that charge an estimate go through -/
  charged : ℕ → ℕ → Bool
  /-- the commit goes through -/
  committed : ℕ → Bool

variable (U : Unicode)

/-- `_text_for`. -/
def textFor (article : Article) : String :=
  U.strip (article.normalizedTitle ++ "\n\n" ++ article.summary)

/-- `_estimate_tokens`. -/
def estimateTokens (texts : List String) : ℕ := max 1 ((texts.map String.length).sum / 4)

/-- `_reject_unusable` lets the vectors pass. -/
def usable (vectors : List (List F)) (count dimensions : ℕ) : Bool :=
  vectors.length = count && vectors.all (·.length = dimensions)

/-- The rows of a batch. -/
def rowsOf (provider : Provider) (batch : List Article) (vectors : List (List F)) :
    List (ArticleEmbedding F) :=
  List.zipWith (fun article vector =>
    ⟨article.id, provider.name, provider.dimensions, vector⟩) batch vectors

/-- A batch that is within the budget: the rows that are committed; an exception is `none`. -/
def embedBatch (provider : Provider) (env : Environment) (n : ℕ) (batch : List Article) :
    Option (List (ArticleEmbedding F)) := do
  let texts := batch.map (textFor U)
  let data ← env.response n texts
  let (_, vectors) ← embed P data
  if env.charged n (estimateTokens texts) && usable vectors texts.length provider.dimensions &&
      env.committed n then
    return rowsOf provider batch vectors
  else none

/-- The batches from the `n`-th on: what is stored for each of them.  The loop ends at a batch that
is not within the budget, and at an exception. -/
def embedBatches (provider : Provider) (env : Environment) :
    ℕ → List (List Article) → List (List (ArticleEmbedding F))
  | _, [] => []
  | n, batch :: batches =>
      if env.withinBudget n (estimateTokens (batch.map (textFor U))) = false then
        [] :: batches.map fun _ => []
      else
        match embedBatch P U provider env n batch with
        | none => [] :: batches.map fun _ => []
        | some rows => rows :: embedBatches provider env (n + 1) batches

/-- The batches; a `range` with step zero raises, and one with a negative step is empty. -/
def batchesOf (batchSize : ℤ) (articles : List Article) : List (List Article) :=
  if 0 < batchSize then articles.toChunks batchSize.toNat else []

/-- `embed_pending_articles`, from the articles that are pending: what is stored for each batch. -/
def embedPendingArticles (provider : Provider) (env : Environment) (batchSize : ℤ)
    (articles : List Article) : List (List (ArticleEmbedding F)) :=
  embedBatches P U provider env 0 (batchesOf batchSize articles)

/-! ## Which items a batch is stored from -/

/-- The items of the response to a batch. -/
def responseItems (env : Environment) (n : ℕ) (batch : List Article) : Option (List Json) := do
  let data ← env.response n (batch.map (textFor U))
  let fields ← data.asObject
  itemsOf fields

/-- The number in the index field of an item; with `defaulted` an item without the field has 0. -/
def indexNumber (defaulted : Bool) (item : Json) : Option Number := do
  let fields ← item.asObject
  match get fields "index" with
  | none => if defaulted then some (.finite 0) else none
  | some v => v.asNumber

/-- Every article of the batch has the vector of the item whose index is its position. -/
structure Paired (defaulted : Bool) (provider : Provider) (batch : List Article)
    (items : List Json) (rows : List (ArticleEmbedding F)) : Prop where
  length : rows.length = batch.length
  row : ∀ (i : ℕ) article, batch[i]? = some article → ∃ item ∈ items, ∃ vector,
    indexNumber defaulted item = some (.finite i) ∧ vectorOf P item = some vector ∧
      vector.length = provider.dimensions ∧
      rows[i]? = some ⟨article.id, provider.name, provider.dimensions, vector⟩

/-- The indices are the positions of the batch, each once, in any order. -/
def Aligned (defaulted : Bool) (items : List Json) (count : ℕ) : Prop :=
  (items.map (indexNumber defaulted)).Perm
    ((List.range count).map fun i : ℕ => some (Number.finite i))

/-- A response that is let through: as many items as texts, each with a vector as wide as the
provider's, and index fields that can be compared. -/
structure Accepted (dimensions count : ℕ) (data : Json) (items : List Json) : Prop where
  usage : ∃ fields, data.asObject = some fields ∧ itemsOf fields = some items ∧
    (totalTokens P fields).isSome = true
  sortable : (sortedItems P items).isSome = true
  count : items.length = count
  vector : ∀ item ∈ items, ∃ v, vectorOf P item = some v ∧ v.length = dimensions

/-- The batch is within the budget, its response is let through, and its statements are. -/
structure Completed (provider : Provider) (env : Environment) (n : ℕ) (batch : List Article) :
    Prop where
  withinBudget : env.withinBudget n (estimateTokens (batch.map (textFor U))) = true
  accepted : ∃ data items, env.response n (batch.map (textFor U)) = some data ∧
    Accepted P provider.dimensions batch.length data items
  charged : env.charged n (estimateTokens (batch.map (textFor U))) = true
  committed : env.committed n = true

/-! ## The sort -/

section Sorting

variable {P : Python F} {β : Type}

theorem insertBy_cons_eq_some_iff {e f : β × Json} {l s : List (β × Json)} :
    insertBy P e (f :: l) = some s ↔
      (∃ rest, less P f.2 e.2 = some true ∧ insertBy P e l = some rest ∧ s = f :: rest) ∨
        less P f.2 e.2 = some false ∧ s = e :: f :: l := by
  rw [insertBy]
  rcases less P f.2 e.2 with _ | _ | _
  · simp
  · simp [eq_comm]
  · cases insertBy P e l <;> simp [eq_comm]

/-- An insertion adds the item. -/
theorem perm_of_insertBy {e : β × Json} {l s : List (β × Json)} (h : insertBy P e l = some s) :
    s.Perm (e :: l) := by
  induction l generalizing s with
  | nil => rw [← Option.some.inj h]
  | cons f l ih =>
      rcases insertBy_cons_eq_some_iff.mp h with ⟨rest, -, hrest, rfl⟩ | ⟨-, rfl⟩
      · exact ((ih hrest).cons f).trans (List.Perm.swap e f l)
      · rfl

/-- A sort that does not raise gives the same items. -/
theorem perm_of_sortedBy {l s : List (β × Json)} (h : sortedBy P l = some s) : s.Perm l := by
  induction l generalizing s with
  | nil => rw [← Option.some.inj h]
  | cons e l ih =>
      obtain ⟨rest, hrest, hinsert⟩ := Option.bind_eq_some_iff.mp h
      exact (perm_of_insertBy hinsert).trans ((ih hrest).cons e)

/-- The keys are finite numbers. -/
def Finite (l : List (β × Json)) : Prop := ∀ e ∈ l, ∃ q, e.2.asNumber = some (.finite q)

/-- Finite numbers are in order. -/
def NumberLe (x y : Option Number) : Prop :=
  ∀ p q, x = some (.finite p) → y = some (.finite q) → p ≤ q

/-- The number of one key is at most that of the other. -/
def AtMost (e f : β × Json) : Prop := NumberLe e.2.asNumber f.2.asNumber

theorem less_eq_of_finite {a b : Json} {p q : ℚ} (ha : a.asNumber = some (.finite p))
    (hb : b.asNumber = some (.finite q)) : less P a b = some (decide (p < q)) := by
  unfold less
  rw [ha, hb]
  rfl

theorem atMost_of_less {e f : β × Json} {p q : ℚ} (he : e.2.asNumber = some (.finite p))
    (hf : f.2.asNumber = some (.finite q)) (h : less P f.2 e.2 = some false) : AtMost e f := by
  rw [less_eq_of_finite hf he, Option.some_inj, decide_eq_false_iff_not, not_lt] at h
  intro p' q' hp' hq'
  rw [he, Option.some_inj, Number.finite.injEq] at hp'
  rw [hf, Option.some_inj, Number.finite.injEq] at hq'
  rwa [← hp', ← hq']

/-- An insertion into a list in the order of its keys gives one. -/
theorem pairwise_of_insertBy {e : β × Json} {l s : List (β × Json)} (hfinite : Finite (e :: l))
    (hsorted : l.Pairwise AtMost) (h : insertBy P e l = some s) : s.Pairwise AtMost := by
  induction l generalizing s with
  | nil =>
      rw [← Option.some.inj h]
      exact List.pairwise_singleton _ _
  | cons f l ih =>
      obtain ⟨p, hp⟩ := hfinite e List.mem_cons_self
      obtain ⟨q, hq⟩ := hfinite f (List.mem_cons_of_mem _ List.mem_cons_self)
      rw [List.pairwise_cons] at hsorted
      rcases insertBy_cons_eq_some_iff.mp h with ⟨rest, hless, hrest, rfl⟩ | ⟨hless, rfl⟩
      · refine List.pairwise_cons.mpr
          ⟨fun g hg => ?_, ih (fun g hg => hfinite g ?_) hsorted.2 hrest⟩
        · rcases List.mem_cons.mp ((perm_of_insertBy hrest).mem_iff.mp hg) with rfl | hg
          · rw [less_eq_of_finite hq hp, Option.some_inj, decide_eq_true_eq] at hless
            intro q' p' hq' hp'
            rw [hq, Option.some_inj, Number.finite.injEq] at hq'
            rw [hp, Option.some_inj, Number.finite.injEq] at hp'
            rw [← hq', ← hp']
            exact le_of_lt hless
          · exact hsorted.1 g hg
        · rcases List.mem_cons.mp hg with rfl | hg
          · exact List.mem_cons_self
          · exact List.mem_cons_of_mem _ (List.mem_cons_of_mem _ hg)
      · have hle : AtMost e f := atMost_of_less hp hq hless
        refine List.pairwise_cons.mpr ⟨fun g hg => ?_, List.pairwise_cons.mpr hsorted⟩
        rcases List.mem_cons.mp hg with rfl | hg
        · exact hle
        · intro p' r hp' hr
          exact (hle p' q hp' hq).trans (hsorted.1 g hg q r hq hr)

/-- **A sort by numbers** is in their order. -/
theorem pairwise_of_sortedBy {l s : List (β × Json)} (hfinite : Finite l)
    (h : sortedBy P l = some s) : s.Pairwise AtMost := by
  induction l generalizing s with
  | nil =>
      rw [← Option.some.inj h]
      exact List.Pairwise.nil
  | cons e l ih =>
      obtain ⟨rest, hrest, hinsert⟩ := Option.bind_eq_some_iff.mp h
      refine pairwise_of_insertBy (fun f hf => hfinite f ?_)
        (ih (fun f hf => hfinite f (List.mem_cons_of_mem _ hf)) hrest) hinsert
      rcases List.mem_cons.mp hf with rfl | hf
      · exact List.mem_cons_self
      · exact List.mem_cons_of_mem _ ((perm_of_sortedBy hrest).mem_iff.mp hf)

end Sorting

/-! ## The items of a response -/

section Items

variable {P : Python F} {defaulted : Bool} {items ordered : List Json} {count : ℕ}

theorem sortedItems_eq_some_iff : sortedItems P items = some ordered ↔
    ∃ keyed sorted : List (Json × Json), keyed.map (·.1) = items ∧
      (∀ e ∈ keyed, indexOf e.1 = some e.2) ∧ sortedBy P keyed = some sorted ∧
      sorted.map (·.1) = ordered := by
  constructor
  · intro h
    obtain ⟨keyed, hkeyed, h⟩ := Option.bind_eq_some_iff.mp h
    obtain ⟨sorted, hsorted, h⟩ := Option.bind_eq_some_iff.mp h
    obtain ⟨hitems, hkeys⟩ := mapM_keyed_eq_some_iff.mp hkeyed
    exact ⟨keyed, sorted, hitems, hkeys, hsorted, Option.some.inj h⟩
  · rintro ⟨keyed, sorted, hitems, hkeys, hsorted, rfl⟩
    exact Option.bind_eq_some_iff.mpr ⟨keyed, mapM_keyed_eq_some_iff.mpr ⟨hitems, hkeys⟩,
      Option.bind_eq_some_iff.mpr ⟨sorted, hsorted, rfl⟩⟩

theorem perm_of_sortedItems (h : sortedItems P items = some ordered) : ordered.Perm items := by
  obtain ⟨keyed, sorted, rfl, -, hsorted, rfl⟩ := sortedItems_eq_some_iff.mp h
  exact (perm_of_sortedBy hsorted).map _

/-- An item is sorted by the number in its index field. -/
theorem asNumber_of_indexNumber {item key : Json} {x : Number} (hkey : indexOf item = some key)
    (h : indexNumber defaulted item = some x) : key.asNumber = some x := by
  obtain ⟨fields, hfields, hkey⟩ := Option.bind_eq_some_iff.mp hkey
  obtain ⟨fields', hfields', h⟩ := Option.bind_eq_some_iff.mp h
  rw [hfields, Option.some_inj] at hfields'
  subst hfields'
  rw [← Option.some.inj hkey]
  cases hindex : get fields "index" with
  | some v => rwa [hindex] at h
  | none =>
      rw [hindex] at h
      cases defaulted with
      | false => exact absurd h (Option.some_ne_none _).symm
      | true => exact h

/-- Numbers that are the positions are in order. -/
theorem pairwise_positions (count : ℕ) :
    ((List.range count).map fun i : ℕ => some (Number.finite i)).Pairwise NumberLe := by
  refine List.pairwise_map.mpr (List.pairwise_lt_range.imp fun {i j} hij p q hp hq => ?_)
  rw [Option.some_inj, Number.finite.injEq] at hp hq
  rw [← hp, ← hq]
  exact Nat.cast_le.mpr (le_of_lt hij)

/-- **The sort puts every item at its index.** -/
theorem map_indexNumber_of_sortedItems (haligned : Aligned defaulted items count)
    (h : sortedItems P items = some ordered) : ordered.map (indexNumber defaulted) =
      (List.range count).map fun i : ℕ => some (Number.finite i) := by
  have hperm := ((perm_of_sortedItems h).map (indexNumber defaulted)).trans haligned
  obtain ⟨keyed, sorted, rfl, hkeys, hsorted, rfl⟩ := sortedItems_eq_some_iff.mp h
  -- the number of a key is the index of its item
  have hnumber : ∀ e ∈ keyed, ∃ i : ℕ, indexNumber defaulted e.1 = some (.finite i) ∧
      e.2.asNumber = some (.finite i) := by
    intro e he
    obtain ⟨i, -, hi⟩ := List.mem_map.mp
      (haligned.mem_iff.mp (List.mem_map_of_mem (List.mem_map_of_mem he)))
    exact ⟨i, hi.symm, asNumber_of_indexNumber (hkeys e he) hi.symm⟩
  have hmem : ∀ {e}, e ∈ sorted → e ∈ keyed := fun he => (perm_of_sortedBy hsorted).mem_iff.mp he
  have hpairwise : sorted.Pairwise AtMost :=
    pairwise_of_sortedBy (fun e he => (hnumber e he).elim fun i hi => ⟨i, hi.2⟩) hsorted
  have hindices : ((sorted.map (·.1)).map (indexNumber defaulted)).Pairwise NumberLe := by
    rw [List.pairwise_map, List.pairwise_map]
    refine hpairwise.imp_of_mem fun {e f} he hf hle => ?_
    obtain ⟨i, hi, hi'⟩ := hnumber e (hmem he)
    obtain ⟨j, hj, hj'⟩ := hnumber f (hmem hf)
    rw [hi, hj, ← hi', ← hj']
    exact hle
  refine hperm.eq_of_pairwise (fun a b ha hb hab hba => ?_) hindices (pairwise_positions count)
  obtain ⟨i, -, rfl⟩ := List.mem_map.mp (hperm.mem_iff.mp ha)
  obtain ⟨j, -, rfl⟩ := List.mem_map.mp hb
  rw [le_antisymm (hab _ _ rfl rfl) (hba _ _ rfl rfl)]

end Items

/-! ## One batch -/

section Batch

variable {P : Python F} {U : Unicode} {defaulted : Bool} {provider : Provider} {env : Environment}
  {n : ℕ} {batch : List Article} {data : Json} {items : List Json}
  {rows : List (ArticleEmbedding F)}

theorem embed_eq_some_iff {used : ℤ} {vectors : List (List F)} :
    embed P data = some (used, vectors) ↔ ∃ fields items ordered, data.asObject = some fields ∧
      totalTokens P fields = some used ∧ itemsOf fields = some items ∧
      sortedItems P items = some ordered ∧ ordered.mapM (vectorOf P) = some vectors := by
  rw [embed]
  simp only [bind, pure, Option.bind_eq_some_iff, Option.some_inj, Prod.mk.injEq]
  constructor
  · rintro ⟨fields, hfields, _, hused, items, hitems, ordered, hordered, _, hvectors, rfl, rfl⟩
    exact ⟨fields, items, ordered, hfields, hused, hitems, hordered, hvectors⟩
  · rintro ⟨fields, items, ordered, hfields, hused, hitems, hordered, hvectors⟩
    exact ⟨fields, hfields, used, hused, items, hitems, ordered, hordered, vectors, hvectors,
      rfl, rfl⟩

theorem usable_iff {vectors : List (List F)} {count dimensions : ℕ} :
    usable vectors count dimensions = true ↔
      vectors.length = count ∧ ∀ v ∈ vectors, v.length = dimensions := by
  simp [usable]

/-- **When a batch is stored, and what is**: the vectors of the items in the order of the sort. -/
theorem embedBatch_eq_some_iff : embedBatch P U provider env n batch = some rows ↔
    ∃ data items ordered vectors, env.response n (batch.map (textFor U)) = some data ∧
      Accepted P provider.dimensions batch.length data items ∧
      sortedItems P items = some ordered ∧ ordered.map (vectorOf P) = vectors.map some ∧
      env.charged n (estimateTokens (batch.map (textFor U))) = true ∧
      env.committed n = true ∧ rows = rowsOf provider batch vectors := by
  rw [embedBatch]
  simp only [bind, pure, Option.bind_eq_some_iff, Option.ite_none_right_eq_some, Option.some_inj,
    Bool.and_eq_true, usable_iff, List.length_map]
  constructor
  · rintro ⟨data, hdata, ⟨used, vectors⟩, hembed, ⟨⟨hcharged, hlength, hwidth⟩, hcommitted⟩, rfl⟩
    obtain ⟨fields, items, ordered, hfields, hused, hitems, hordered, hvectors⟩ :=
      embed_eq_some_iff.mp hembed
    have hmap := mapM_eq_some_iff.mp hvectors
    have hperm := perm_of_sortedItems hordered
    have hcount : items.length = batch.length := by
      rw [← hperm.length_eq, ← List.length_map (vectorOf P), hmap, List.length_map, hlength]
    refine ⟨data, items, ordered, vectors, hdata, ⟨⟨fields, hfields, hitems, ?_⟩, ?_, hcount, ?_⟩,
      hordered, hmap, hcharged, hcommitted, rfl⟩
    · rw [hused]
      rfl
    · rw [hordered]
      rfl
    · intro item hitem
      have hvector : vectorOf P item ∈ vectors.map some := by
        rw [← hmap]
        exact List.mem_map_of_mem (hperm.mem_iff.mpr hitem)
      obtain ⟨v, hv, hitem⟩ := List.mem_map.mp hvector
      exact ⟨v, hitem.symm, hwidth v hv⟩
  · rintro ⟨data, items, ordered, vectors, hdata, haccepted, hordered, hmap, hcharged, hcommitted,
      rfl⟩
    obtain ⟨fields, hfields, hitems, hused⟩ := haccepted.usage
    obtain ⟨used, hused⟩ := Option.isSome_iff_exists.mp hused
    have hperm := perm_of_sortedItems hordered
    refine ⟨data, hdata, (used, vectors), embed_eq_some_iff.mpr ⟨fields, items, ordered, hfields,
      hused, hitems, hordered, mapM_eq_some_iff.mpr hmap⟩, ⟨⟨hcharged, ?_, ?_⟩, hcommitted⟩, rfl⟩
    · rw [← haccepted.count, ← hperm.length_eq, ← List.length_map (vectorOf P), hmap,
        List.length_map]
    · intro v hv
      have hvector : some v ∈ ordered.map (vectorOf P) := by
        rw [hmap]
        exact List.mem_map_of_mem hv
      obtain ⟨item, hitem, hv⟩ := List.mem_map.mp hvector
      obtain ⟨w, hw, hwidth⟩ := haccepted.vector item (hperm.mem_iff.mp hitem)
      rw [hw, Option.some_inj] at hv
      rwa [← hv]

theorem responseItems_of_accepted {count : ℕ}
    (hdata : env.response n (batch.map (textFor U)) = some data)
    (haccepted : Accepted P provider.dimensions count data items) :
    responseItems U env n batch = some items := by
  obtain ⟨fields, hfields, hitems, -⟩ := haccepted.usage
  rw [responseItems, hdata]
  show (data.asObject.bind fun fields => itemsOf fields) = some items
  rw [hfields]
  exact hitems

theorem rowsOf_getElem?_eq_some_iff {vectors : List (List F)} {i : ℕ} {row : ArticleEmbedding F} :
    (rowsOf provider batch vectors)[i]? = some row ↔ ∃ article vector, batch[i]? = some article ∧
      vectors[i]? = some vector ∧
      row = ⟨article.id, provider.name, provider.dimensions, vector⟩ := by
  rw [rowsOf, List.getElem?_zipWith_eq_some]
  simp only [eq_comm]

theorem length_of_vectors {ordered : List Json} {vectors : List (List F)} {dimensions count : ℕ}
    (haccepted : Accepted P dimensions count data items)
    (hordered : sortedItems P items = some ordered)
    (hmap : ordered.map (vectorOf P) = vectors.map some) : vectors.length = count := by
  rw [← haccepted.count, ← (perm_of_sortedItems hordered).length_eq,
    ← List.length_map (vectorOf P), hmap, List.length_map]

/-- Positions that all occur among as many items are the indices of the items, each once. -/
theorem aligned_of_paired {count : ℕ} (hcount : items.length = count)
    (h : ∀ i < count, ∃ item ∈ items, indexNumber defaulted item = some (.finite i)) :
    Aligned defaulted items count := by
  have hnodup : ((List.range count).map fun i : ℕ => some (Number.finite i)).Nodup := by
    refine List.nodup_range.map fun i j hij => ?_
    rw [Option.some_inj, Number.finite.injEq] at hij
    exact_mod_cast hij
  have hsubset : ((List.range count).map fun i : ℕ => some (Number.finite i)) ⊆
      items.map (indexNumber defaulted) := by
    intro x hx
    obtain ⟨i, hi, rfl⟩ := List.mem_map.mp hx
    obtain ⟨item, hitem, hindex⟩ := h i (List.mem_range.mp hi)
    exact List.mem_map.mpr ⟨item, hitem, hindex⟩
  refine ((hnodup.subperm hsubset).perm_of_length_le ?_).symm
  rw [List.length_map, List.length_map, List.length_range, hcount]

/-- **A batch that is stored**: every article has the vector with its index exactly when the indices
are the positions. -/
theorem paired_iff_aligned (h : embedBatch P U provider env n batch = some rows)
    (hitems : responseItems U env n batch = some items) :
    Paired P defaulted provider batch items rows ↔ Aligned defaulted items batch.length := by
  obtain ⟨data, items', ordered, vectors, hdata, haccepted, hordered, hmap, -, -, rfl⟩ :=
    embedBatch_eq_some_iff.mp h
  rw [responseItems_of_accepted hdata haccepted, Option.some_inj] at hitems
  subst hitems
  have hperm := perm_of_sortedItems hordered
  have hlength := length_of_vectors haccepted hordered hmap
  constructor
  · intro hpaired
    refine aligned_of_paired haccepted.count fun i hi => ?_
    obtain ⟨item, hitem, -, hindex, -⟩ := hpaired.row i _ (List.getElem?_eq_getElem hi)
    exact ⟨item, hitem, hindex⟩
  · intro haligned
    have hindices := map_indexNumber_of_sortedItems haligned hordered
    refine ⟨by rw [rowsOf, List.length_zipWith, hlength, min_self], fun i article harticle => ?_⟩
    have hi : i < batch.length := (List.getElem?_eq_some_iff.mp harticle).1
    have hiordered : i < ordered.length := by rwa [hperm.length_eq, haccepted.count]
    obtain ⟨v, hv, hwidth⟩ := haccepted.vector ordered[i]
      (hperm.mem_iff.mp (List.getElem_mem hiordered))
    have hindex : indexNumber defaulted ordered[i] = some (.finite i) := by
      have hget := congrArg (·[i]?) hindices
      simpa [hiordered, hi] using hget
    have hvector : vectors[i]? = some v := by
      have hget := congrArg (·[i]?) hmap
      simpa [hiordered, hv, eq_comm] using hget
    exact ⟨ordered[i], hperm.mem_iff.mp (List.getElem_mem hiordered), v, hindex, hv, hwidth,
      rowsOf_getElem?_eq_some_iff.mpr ⟨article, v, harticle, hvector, rfl⟩⟩

theorem completed_iff : Completed P U provider env n batch ↔
    env.withinBudget n (estimateTokens (batch.map (textFor U))) = true ∧
      (embedBatch P U provider env n batch).isSome = true := by
  constructor
  · rintro ⟨hbudget, ⟨data, items, hdata, haccepted⟩, hcharged, hcommitted⟩
    obtain ⟨ordered, hordered⟩ := Option.isSome_iff_exists.mp haccepted.sortable
    have hperm := perm_of_sortedItems hordered
    obtain ⟨vectors, hvectors⟩ := @exists_mapM _ _ (vectorOf P) ordered fun item hitem => by
      obtain ⟨v, hv, -⟩ := haccepted.vector item (hperm.mem_iff.mp hitem)
      rw [hv]
      rfl
    exact ⟨hbudget, Option.isSome_iff_exists.mpr ⟨_, embedBatch_eq_some_iff.mpr ⟨data, items,
      ordered, vectors, hdata, haccepted, hordered, mapM_eq_some_iff.mp hvectors, hcharged,
      hcommitted, rfl⟩⟩⟩
  · rintro ⟨hbudget, hsome⟩
    obtain ⟨rows, hrows⟩ := Option.isSome_iff_exists.mp hsome
    obtain ⟨data, items, -, -, hdata, haccepted, -, -, hcharged, hcommitted, -⟩ :=
      embedBatch_eq_some_iff.mp hrows
    exact ⟨hbudget, ⟨data, items, hdata, haccepted⟩, hcharged, hcommitted⟩

end Batch

/-! ## The run -/

section Run

variable {P : Python F} {U : Unicode} {provider : Provider} {env : Environment}

/-- One batch of the run: what it stores, and whether the run goes on. -/
theorem embedBatches_cons (n : ℕ) (batch : List Article) (batches : List (List Article)) :
    (∃ rows, Completed P U provider env n batch ∧
      embedBatch P U provider env n batch = some rows ∧
      embedBatches P U provider env n (batch :: batches) =
        rows :: embedBatches P U provider env (n + 1) batches) ∨
    ¬ Completed P U provider env n batch ∧
      embedBatches P U provider env n (batch :: batches) = [] :: batches.map fun _ => [] := by
  rw [completed_iff, embedBatches]
  cases env.withinBudget n (estimateTokens (batch.map (textFor U))) with
  | false => exact Or.inr ⟨fun h => Bool.false_ne_true h.1, rfl⟩
  | true =>
      cases hbatch : embedBatch P U provider env n batch with
      | none => exact Or.inr ⟨fun h => Bool.false_ne_true h.2, rfl⟩
      | some rows => exact Or.inl ⟨rows, ⟨rfl, rfl⟩, rfl, rfl⟩

/-- **What a run stores for a batch**: what the batch gives where it and all before it went through,
and nothing elsewhere. -/
theorem embedBatches_getElem? {batches : List (List Article)} {n k : ℕ} {batch : List Article}
    (hbatch : batches[k]? = some batch) :
    ((∀ m ≤ k, ∀ b, batches[m]? = some b → Completed P U provider env (n + m) b) →
      (embedBatches P U provider env n batches)[k]? =
        embedBatch P U provider env (n + k) batch) ∧
    (¬ (∀ m ≤ k, ∀ b, batches[m]? = some b → Completed P U provider env (n + m) b) →
      (embedBatches P U provider env n batches)[k]? = some []) := by
  induction batches generalizing n k with
  | nil => exact absurd hbatch (by simp)
  | cons first batches ih =>
      -- all batches up to the `k`-th went through: the first did, and those behind it
      have hall : (∀ m ≤ k, ∀ b, (first :: batches)[m]? = some b →
          Completed P U provider env (n + m) b) ↔ Completed P U provider env n first ∧
            ∀ m < k, ∀ b, batches[m]? = some b → Completed P U provider env (n + 1 + m) b := by
        constructor
        · intro h
          refine ⟨h 0 (Nat.zero_le k) first rfl, fun m hm b hb => ?_⟩
          have hnext := h (m + 1) hm b hb
          rwa [Nat.add_right_comm, Nat.add_assoc]
        · rintro ⟨hfirst, hrest⟩ m hm b hb
          cases m with
          | zero => rwa [← Option.some.inj hb]
          | succ m =>
              have hnext := hrest m hm b hb
              rwa [Nat.add_right_comm, Nat.add_assoc] at hnext
      rw [hall]
      rcases @embedBatches_cons F P U provider env n first batches with
        ⟨rows, hcompleted, hrows, heq⟩ | ⟨hstopped, heq⟩
      · rw [heq]
        cases k with
        | zero =>
            rw [← Option.some.inj hbatch]
            refine ⟨fun _ => hrows.symm, fun h => absurd ⟨hcompleted, fun m hm => ?_⟩ h⟩
            exact absurd hm (Nat.not_lt_zero m)
        | succ k =>
            have hnext := @ih (n + 1) k hbatch
            simp only [hcompleted, true_and, Nat.lt_succ_iff, List.getElem?_cons_succ]
            rwa [Nat.add_assoc, Nat.add_comm 1 k] at hnext
      · rw [heq]
        refine ⟨fun h => absurd h.1 hstopped, fun _ => ?_⟩
        cases k with
        | zero => rfl
        | succ k =>
            rw [List.getElem?_cons_succ] at hbatch ⊢
            rw [List.getElem?_map, hbatch]
            rfl

/-- **When no vector is stored with the wrong article.**  For every batch of a run, either nothing
is stored or every article has the vector of the item whose index is its position, exactly when a
batch that goes through has the positions as the indices of its items. -/
theorem embed_paired_iff (P : Python F) (U : Unicode) (defaulted : Bool) (provider : Provider)
    (env : Environment) (batchSize : ℤ) (articles : List Article) {n : ℕ} {batch : List Article}
    (hbatch : (batchesOf batchSize articles)[n]? = some batch) :
    ∃ rows, (embedPendingArticles P U provider env batchSize articles)[n]? = some rows ∧
      ((rows = [] ∨ ∃ items, responseItems U env n batch = some items ∧
          Paired P defaulted provider batch items rows) ↔
        ((∀ m ≤ n, ∀ b, (batchesOf batchSize articles)[m]? = some b →
            Completed P U provider env m b) →
          ∃ items, responseItems U env n batch = some items ∧
            Aligned defaulted items batch.length)) := by
  obtain ⟨hthrough, helse⟩ := @embedBatches_getElem? F P U provider env _ 0 n _ hbatch
  simp only [Nat.zero_add] at hthrough helse
  by_cases hall : ∀ m ≤ n, ∀ b, (batchesOf batchSize articles)[m]? = some b →
      Completed P U provider env m b
  · obtain ⟨-, hsome⟩ := completed_iff.mp (hall n le_rfl batch hbatch)
    obtain ⟨rows, hrows⟩ := Option.isSome_iff_exists.mp hsome
    obtain ⟨data, items, ordered, vectors, hdata, haccepted, hordered, hmap, -, -, hrowsOf⟩ :=
      embedBatch_eq_some_iff.mp hrows
    have hitems := responseItems_of_accepted hdata haccepted
    refine ⟨rows, (hthrough hall).trans hrows, ?_⟩
    constructor
    · rintro (hnil | ⟨items', hitems', hpaired⟩) -
      · -- nothing is stored for a batch that goes through only where it is empty
        refine ⟨items, hitems, aligned_of_paired haccepted.count fun i hi => ?_⟩
        have hlength := length_of_vectors haccepted hordered hmap
        rw [hrowsOf] at hnil
        have hzero := congrArg List.length hnil
        rw [rowsOf, List.length_zipWith, hlength, min_self, List.length_nil] at hzero
        omega
      · exact ⟨items', hitems', (paired_iff_aligned hrows hitems').mp hpaired⟩
    · intro h
      obtain ⟨items', hitems', haligned⟩ := h hall
      exact Or.inr ⟨items', hitems', (paired_iff_aligned hrows hitems').mpr haligned⟩
  · exact ⟨[], helse hall, fun _ h => absurd h hall, fun _ => Or.inl rfl⟩

end Run

/-! ## Two runs -/

/-- Numbers read as they are; no text and no list is one. -/
def rationals : Python ℚ where
  float v := match v.asNumber with
    | some (.finite q) => some q
    | _ => none
  int v := match v.asNumber with
    | some (.finite q) => some q.floor
    | _ => none
  arrayLess _ _ := none

def twoArticles : List Article := [⟨1, "Port", ""⟩, ⟨2, "Rail", ""⟩]

/-- An item with a vector of width one. -/
def itemAt (index value : ℚ) : Json :=
  .object [("index", .number (.finite index)), ("embedding", .array [.number (.finite value)])]

/-- Every request is answered with these items, and every statement goes through. -/
def answering (items : List Json) : Environment where
  withinBudget _ _ := true
  response _ _ := some (.object [("data", .array items)])
  charged _ _ := true
  committed _ := true

def narrow : Provider := ⟨"narrow", 1⟩

/-- Items in another order find their articles. -/
theorem permuted_paired : ∃ rows,
    (embedPendingArticles rationals Unicode.ascii narrow (answering [itemAt 1 5, itemAt 0 7]) 2
      twoArticles)[0]? = some rows ∧
    (rows = [] ∨ ∃ items, responseItems Unicode.ascii (answering [itemAt 1 5, itemAt 0 7]) 0
        twoArticles = some items ∧ Paired rationals false narrow twoArticles items rows) := by
  obtain ⟨rows, hrows, hiff⟩ := embed_paired_iff rationals Unicode.ascii false narrow
    (answering [itemAt 1 5, itemAt 0 7]) 2 twoArticles
    (show (batchesOf 2 twoArticles)[0]? = some twoArticles from rfl)
  exact ⟨rows, hrows, hiff.mpr fun _ => ⟨[itemAt 1 5, itemAt 0 7], rfl, List.Perm.swap _ _ _⟩⟩

/-- The second article gets the vector of an item with the index of the first. -/
theorem repeated_mispaired :
    (embedPendingArticles rationals Unicode.ascii narrow (answering [itemAt 0 5, itemAt 0 7]) 2
      twoArticles)[0]? = some [⟨1, "narrow", 1, [5]⟩, ⟨2, "narrow", 1, [7]⟩] ∧
    ¬ ∃ defaulted items, responseItems Unicode.ascii (answering [itemAt 0 5, itemAt 0 7]) 0
      twoArticles = some items ∧ Paired rationals defaulted narrow twoArticles items
        [⟨1, "narrow", 1, [5]⟩, ⟨2, "narrow", 1, [7]⟩] := by
  refine ⟨by decide +kernel, ?_⟩
  rintro ⟨defaulted, items, hitems, hpaired⟩
  obtain rfl : [itemAt 0 5, itemAt 0 7] = items := Option.some.inj hitems
  obtain ⟨item, hitem, v, hindex, -⟩ := hpaired.row 1 ⟨2, "Rail", ""⟩ rfl
  have hzero : indexNumber defaulted item = some (.finite 0) := by
    simp only [List.mem_cons, List.not_mem_nil, or_false] at hitem
    rcases hitem with rfl | rfl <;> rfl
  rw [hzero] at hindex
  simp at hindex

end ProcureSignal.Search.Embeddings
