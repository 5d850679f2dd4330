/-
# Dictionaries and sorted sets

Two collections of the standard library and of Redis, each with its invariant as a field.

* `Dict` : a dictionary, whose keys stand in the order of their insertion;
* `Dict.groupBy` : the elements of a list by a key, `perm_flatMap_filter` that nothing is lost;
* `SortedSet` : a set of members, each with one score, in the order of the scores;
* `mapM_eq_some_iff` : a map that may raise, element by element.

`dropWhile_le_eq_filter` is the fact that both sides of a sliding window rest on: in a sorted
list what is behind a prefix is what is above the cutoff.
-/
import Mathlib

universe u v

/-! ## Dictionaries -/

/-- A dictionary: its entries in the order of insertion, no key twice. -/
structure Dict (κ : Type u) (α : Type v) where
  entries : List (κ × α)
  nodup : (entries.map (·.1)).Nodup

namespace Dict

variable {κ : Type u} {α : Type v} [DecidableEq κ]

/-- The dictionary without entries. -/
def empty : Dict κ α := ⟨[], List.nodup_nil⟩

/-- `d.get(key)`. -/
def get? (d : Dict κ α) (k : κ) : Option α := (d.entries.find? fun e => e.1 = k).map (·.2)

/-- `len(d)`. -/
def length (d : Dict κ α) : ℕ := d.entries.length

/-- The entries that meet a condition. -/
def filter (d : Dict κ α) (p : κ → α → Bool) : Dict κ α where
  entries := d.entries.filter fun e => p e.1 e.2
  nodup := d.nodup.sublist (List.filter_sublist.map _)

/-- `del d[key]`. -/
def erase (d : Dict κ α) (k : κ) : Dict κ α := d.filter fun k' _ => k' ≠ k

/-- `d[key] = a`: a key that is there keeps its place, another comes last. -/
def set (d : Dict κ α) (k : κ) (a : α) : Dict κ α where
  entries :=
    if k ∈ d.entries.map (·.1) then d.entries.map fun e => if e.1 = k then (e.1, a) else e
    else d.entries ++ [(k, a)]
  nodup := by
    split_ifs with hk
    · have hkeys : (d.entries.map fun e => if e.1 = k then (e.1, a) else e).map (·.1) =
          d.entries.map (·.1) := by
        rw [List.map_map]
        refine List.map_congr_left fun e _ => ?_
        rw [Function.comp_apply]
        split_ifs <;> rfl
      rw [hkeys]
      exact d.nodup
    · rw [List.map_append, List.nodup_append]
      refine ⟨d.nodup, List.nodup_singleton _, ?_⟩
      intro x hx y hy hxy
      rw [List.map_singleton, List.mem_singleton] at hy
      rw [hxy, hy] at hx
      exact hk hx

@[simp] theorem get?_empty (k : κ) : (empty : Dict κ α).get? k = none := rfl

/-- A dictionary has one entry for a key. -/
theorem get?_eq_some_iff {d : Dict κ α} {k : κ} {a : α} :
    d.get? k = some a ↔ (k, a) ∈ d.entries := by
  unfold get?
  rw [Option.map_eq_some_iff]
  constructor
  · rintro ⟨⟨k', a'⟩, hf, rfl⟩
    have hk : k' = k := by simpa using List.find?_some hf
    rw [← hk]
    exact List.mem_of_find?_eq_some hf
  · intro hmem
    obtain ⟨e, he⟩ : ∃ e, d.entries.find? (fun e => e.1 = k) = some e := by
      rw [← Option.isSome_iff_exists, List.find?_isSome]
      exact ⟨_, hmem, by simp⟩
    have hk : e.1 = k := by simpa using List.find?_some he
    have heq := List.inj_on_of_nodup_map d.nodup (List.mem_of_find?_eq_some he) hmem hk
    exact ⟨e, he, by rw [heq]⟩

theorem get?_filter (d : Dict κ α) (p : κ → α → Bool) (k : κ) :
    (d.filter p).get? k = (d.get? k).filter (p k) := by
  apply Option.ext
  intro a
  rw [get?_eq_some_iff, Option.filter_eq_some_iff, get?_eq_some_iff, filter, List.mem_filter]

@[simp] theorem get?_erase (d : Dict κ α) (k k' : κ) :
    (d.erase k).get? k' = if k' = k then none else d.get? k' := by
  rw [erase, get?_filter]
  split_ifs with hk
  · cases d.get? k' <;> simp [hk]
  · cases d.get? k' <;> simp [hk]

@[simp] theorem get?_set (d : Dict κ α) (k k' : κ) (a : α) :
    (d.set k a).get? k' = if k' = k then some a else d.get? k' := by
  apply Option.ext
  intro b
  have hset : (k', b) ∈ (d.set k a).entries ↔
      k' = k ∧ b = a ∨ k' ≠ k ∧ (k', b) ∈ d.entries := by
    unfold set
    simp only
    split_ifs with hk
    · rw [List.mem_map]
      constructor
      · rintro ⟨e, he, heq⟩
        split_ifs at heq with hek
        · obtain ⟨rfl, rfl⟩ := Prod.mk.inj heq
          exact Or.inl ⟨hek, rfl⟩
        · subst heq
          exact Or.inr ⟨hek, he⟩
      · rintro (⟨rfl, rfl⟩ | ⟨hne, hmem⟩)
        · obtain ⟨e, he, rfl⟩ := List.mem_map.mp hk
          exact ⟨e, he, if_pos rfl⟩
        · exact ⟨_, hmem, if_neg hne⟩
    · rw [List.mem_append, List.mem_singleton, Prod.mk.injEq]
      have hfree : (k', b) ∈ d.entries → k' ≠ k := by
        rintro hmem rfl
        exact hk (List.mem_map_of_mem hmem)
      tauto
  rw [get?_eq_some_iff, hset]
  split_ifs with hk
  · simp [hk, eq_comm]
  · simp [hk, get?_eq_some_iff]

/-- A dictionary is no longer than a list that has its keys. -/
theorem length_le {d : Dict κ α} {keys : List κ} (h : ∀ k a, d.get? k = some a → k ∈ keys) :
    d.length ≤ keys.dedup.length := by
  have hsub : d.entries.map (·.1) ⊆ keys.dedup := by
    intro k hk
    obtain ⟨e, he, rfl⟩ := List.mem_map.mp hk
    exact List.mem_dedup.mpr (h e.1 e.2 (get?_eq_some_iff.mpr he))
  have hle := (List.subperm_of_subset d.nodup hsub).length_le
  rwa [List.length_map] at hle

omit [DecidableEq κ] in
/-- A dictionary from which entries are taken. -/
theorem length_filter_le (d : Dict κ α) (p : κ → α → Bool) : (d.filter p).length ≤ d.length :=
  List.length_filter_le _ _

/-- An assignment adds at most one key. -/
theorem length_set_le (d : Dict κ α) (k : κ) (a : α) : (d.set k a).length ≤ d.length + 1 := by
  rw [length, length, set]
  split_ifs
  · rw [List.length_map]
    omega
  · rw [List.length_append, List.length_singleton]

/-- An assignment to a key that is there adds none. -/
theorem length_set_of_get? {d : Dict κ α} {k : κ} {b : α} (h : d.get? k = some b) (a : α) :
    (d.set k a).length = d.length := by
  have hk : k ∈ d.entries.map (·.1) := List.mem_map_of_mem (get?_eq_some_iff.mp h)
  simp only [length, set, if_pos hk, List.length_map]

/-- A deletion takes a key that is there. -/
theorem length_erase_lt {d : Dict κ α} {k : κ} {a : α} (h : d.get? k = some a) :
    (d.erase k).length < d.length := by
  rw [length, length, erase, filter, List.length_filter_lt_length_iff_exists]
  exact ⟨(k, a), get?_eq_some_iff.mp h, by simp⟩

/-- `list(d)`. -/
def keys (d : Dict κ α) : List κ := d.entries.map (·.1)

theorem mem_keys {d : Dict κ α} {k : κ} : k ∈ d.keys ↔ d.get? k ≠ none := by
  rw [Option.ne_none_iff_exists', keys, List.mem_map]
  constructor
  · rintro ⟨e, he, rfl⟩
    exact ⟨e.2, get?_eq_some_iff.mpr he⟩
  · rintro ⟨a, ha⟩
    exact ⟨(k, a), get?_eq_some_iff.mp ha, rfl⟩

/-! ### Groups -/

/-- `d.setdefault(key, []).append(a)`. -/
def push (d : Dict κ (List α)) (k : κ) (a : α) : Dict κ (List α) :=
  d.set k ((d.get? k).getD [] ++ [a])

/-- The elements of a list under their keys, in their order. -/
def groupBy (key : α → κ) (l : List α) : Dict κ (List α) :=
  l.foldl (fun d a => d.push (key a) a) empty

/-- **The group of a key** is what has the key. -/
theorem get?_groupBy (key : α → κ) (l : List α) (k : κ) :
    (groupBy key l).get? k =
      if l.filter (key · = k) = [] then none else some (l.filter (key · = k)) := by
  induction l using List.reverseRecOn with
  | nil => rfl
  | append_singleton l a ih =>
      have hstep : groupBy key (l ++ [a]) = (groupBy key l).push (key a) a := by
        rw [groupBy, List.foldl_append]
        rfl
      rw [hstep, push, get?_set, List.filter_append]
      by_cases hk : k = key a
      · subst hk
        rw [if_pos rfl, ih, List.filter_cons_of_pos (by simp), List.filter_nil,
          if_neg (List.append_ne_nil_of_right_ne_nil _ (List.cons_ne_nil a []))]
        split
        · rename_i hnil
          rw [hnil]
          rfl
        · rfl
      · rw [if_neg hk, ih, List.filter_cons_of_neg (by simpa using Ne.symm hk), List.filter_nil,
          List.append_nil]

/-- The keys of the groups are those of the elements. -/
theorem mem_keys_groupBy {key : α → κ} {l : List α} {k : κ} :
    k ∈ (groupBy key l).keys ↔ ∃ a ∈ l, key a = k := by
  rw [mem_keys, get?_groupBy]
  constructor
  · intro hne
    split at hne
    · exact absurd rfl hne
    · rename_i hnil
      obtain ⟨a, ha⟩ := List.exists_mem_of_ne_nil _ hnil
      obtain ⟨hmem, hkey⟩ := List.mem_filter.mp ha
      exact ⟨a, hmem, of_decide_eq_true hkey⟩
  · rintro ⟨a, ha, hkey⟩
    rw [if_neg (List.ne_nil_of_mem (List.mem_filter.mpr ⟨ha, decide_eq_true hkey⟩))]
    exact Option.some_ne_none _

end Dict

/-- **Groups are a partition**: over the keys of a list, each once, what has the key is the list
again. -/
theorem perm_flatMap_filter {α : Type u} {κ : Type v} [DecidableEq κ] {key : α → κ} {ks : List κ}
    (hnodup : ks.Nodup) {l : List α} (h : ∀ a ∈ l, key a ∈ ks) :
    (ks.flatMap fun k => l.filter (key · = k)).Perm l := by
  induction ks generalizing l with
  | nil =>
      have hnil : l = [] := List.eq_nil_iff_forall_not_mem.mpr fun a ha =>
        List.not_mem_nil (h a ha)
      rw [hnil]
      rfl
  | cons k ks ih =>
      rw [List.nodup_cons] at hnodup
      -- the other keys find what they look for behind the elements of the first
      have hrest : (ks.flatMap fun k' => l.filter (key · = k')) =
          ks.flatMap fun k' => (l.filter fun a => !decide (key a = k)).filter (key · = k') := by
        refine List.flatMap_congr fun k' hk' => ?_
        rw [List.filter_filter]
        refine List.filter_congr fun a _ => ?_
        by_cases ha : key a = k'
        · have hne : k' ≠ k := by
            rintro rfl
            exact hnodup.1 hk'
          simp [ha, hne]
        · simp [ha]
      have hcover : ∀ a ∈ l.filter (fun a => !decide (key a = k)), key a ∈ ks := by
        intro a ha
        obtain ⟨hmem, hne⟩ := List.mem_filter.mp ha
        exact (List.mem_cons.mp (h a hmem)).resolve_left (by simpa using hne)
      rw [List.flatMap_cons, hrest]
      exact ((ih hnodup.2 hcover).append_left _).trans (List.filter_append_perm _ l)

/-! ## Sorted sets -/

/-- A sorted set of Redis: members with one score each, by score and then by member. -/
structure SortedSet (α : Type u) (κ : Type v) [LinearOrder α] [LinearOrder κ] where
  entries : List (α × κ)
  nodup : (entries.map (·.1)).Nodup
  sorted : entries.Pairwise fun e f => toLex (e.2, e.1) ≤ toLex (f.2, f.1)

namespace SortedSet

variable {α : Type u} {κ : Type v} [LinearOrder α] [LinearOrder κ]

/-- The order of the entries. -/
def Before (e f : α × κ) : Prop := toLex (e.2, e.1) ≤ toLex (f.2, f.1)

instance : DecidableRel (Before : α × κ → α × κ → Prop) := fun e f =>
  inferInstanceAs (Decidable (toLex (e.2, e.1) ≤ toLex (f.2, f.1)))

instance : Std.Total (Before : α × κ → α × κ → Prop) := ⟨fun _ _ => le_total _ _⟩

instance : IsTrans (α × κ) Before := ⟨fun _ _ _ => le_trans⟩

/-- The set without members. -/
def empty : SortedSet α κ := ⟨[], List.nodup_nil, List.Pairwise.nil⟩

/-- `ZADD key score member`: a member that is there gets the score. -/
def zadd (s : SortedSet α κ) (member : α) (score : κ) : SortedSet α κ where
  entries := (s.entries.filter (·.1 ≠ member)).orderedInsert Before (member, score)
  nodup := by
    have hperm := (List.perm_orderedInsert Before (member, score)
      (s.entries.filter (·.1 ≠ member))).map (·.1)
    rw [hperm.nodup_iff, List.map_cons, List.nodup_cons]
    refine ⟨?_, s.nodup.sublist (List.filter_sublist.map _)⟩
    intro hmem
    obtain ⟨e, he, heq⟩ := List.mem_map.mp hmem
    have hne := (List.mem_filter.mp he).2
    rw [heq] at hne
    simp at hne
  sorted := List.Pairwise.orderedInsert _ _ (s.sorted.filter _)

/-- `ZREMRANGEBYSCORE key min max`: both bounds are removed. -/
def zremrangebyscore (s : SortedSet α κ) (lo hi : κ) : SortedSet α κ where
  entries := s.entries.filter fun e => ¬(lo ≤ e.2 ∧ e.2 ≤ hi)
  nodup := s.nodup.sublist (List.filter_sublist.map _)
  sorted := s.sorted.filter _

/-- `ZCARD key`. -/
def zcard (s : SortedSet α κ) : ℕ := s.entries.length

/-- `ZRANGE key 0 0 WITHSCORES`. -/
def zfirst (s : SortedSet α κ) : Option (α × κ) := s.entries.head?

theorem mem_zadd {s : SortedSet α κ} {member : α} {score : κ} {e : α × κ} :
    e ∈ (s.zadd member score).entries ↔
      e = (member, score) ∨ e ∈ s.entries ∧ e.1 ≠ member := by
  rw [zadd, List.mem_orderedInsert, List.mem_filter, decide_eq_true_eq]

theorem mem_zremrangebyscore {s : SortedSet α κ} {lo hi : κ} {e : α × κ} :
    e ∈ (s.zremrangebyscore lo hi).entries ↔ e ∈ s.entries ∧ ¬(lo ≤ e.2 ∧ e.2 ≤ hi) := by
  rw [zremrangebyscore, List.mem_filter, decide_eq_true_eq]

/-- The first entry has the least score. -/
theorem zfirst_le {s : SortedSet α κ} {e f : α × κ} (h : s.zfirst = some e)
    (hf : f ∈ s.entries) : e.2 ≤ f.2 := by
  have hsorted := s.sorted
  obtain ⟨rest, hrest⟩ := List.head?_eq_some_iff.mp h
  rw [hrest] at hf hsorted
  rcases List.mem_cons.mp hf with rfl | hf
  · exact le_rfl
  · exact (Prod.Lex.toLex_le_toLex.mp (List.rel_of_pairwise_cons hsorted hf)).elim le_of_lt
      fun h => le_of_eq h.1

end SortedSet

/-! ## Maps that may raise -/

/-- A map that may raise gives a list exactly when it gives every member of it. -/
theorem mapM_eq_some_iff {α : Type u} {β : Type v} {f : α → Option β} {items : List α}
    {results : List β} :
    items.mapM f = some results ↔ items.map f = results.map some := by
  induction items generalizing results with
  | nil =>
      rw [List.mapM_nil, List.map_nil, eq_comm, @eq_comm _ [], List.map_eq_nil_iff]
      exact ⟨fun h => (Option.some.inj h), fun h => congrArg some h⟩
  | cons a items ih =>
      rw [List.mapM_cons, List.map_cons]
      constructor
      · intro h
        obtain ⟨b, hb, h⟩ := Option.bind_eq_some_iff.mp h
        obtain ⟨rest, hrest, h⟩ := Option.bind_eq_some_iff.mp h
        rw [← Option.some.inj h, List.map_cons, hb, ih.mp hrest]
      · intro h
        cases results with
        | nil => simp at h
        | cons b results =>
            rw [List.map_cons, List.cons.injEq] at h
            rw [h.1, ih.mpr h.2]
            rfl

theorem exists_mapM {α : Type u} {β : Type v} {f : α → Option β} {items : List α}
    (h : ∀ a ∈ items, (f a).isSome = true) : ∃ results, items.mapM f = some results := by
  induction items with
  | nil => exact ⟨[], rfl⟩
  | cons a items ih =>
      obtain ⟨b, hb⟩ := Option.isSome_iff_exists.mp (h a List.mem_cons_self)
      obtain ⟨results, hresults⟩ := ih fun x hx => h x (List.mem_cons_of_mem _ hx)
      refine ⟨b :: results, ?_⟩
      rw [List.mapM_cons, hb, hresults]
      rfl

/-- The same elements in another order give the same results in another order. -/
theorem perm_of_mapM {α : Type u} {β : Type v} {f : α → Option β} {l l' : List α}
    {items items' : List β}
    (hperm : l.Perm l') (h : l.mapM f = some items) (h' : l'.mapM f = some items') :
    items.Perm items' := by
  have hreduce : ∀ m : List β, (m.map some).filterMap id = m := by
    intro m
    rw [List.filterMap_map]
    exact List.filterMap_some
  rw [mapM_eq_some_iff] at h h'
  have hmap := (hperm.map f).filterMap id
  rwa [h, h', hreduce, hreduce] at hmap

/-- A map that may raise and keeps its argument. -/
theorem mapM_keyed_eq_some_iff {α : Type u} {β : Type v} {f : α → Option β} {l : List α}
    {items : List (α × β)} : (l.mapM fun a => (f a).map fun b => (a, b)) = some items ↔
      items.map (·.1) = l ∧ ∀ x ∈ items, f x.1 = some x.2 := by
  rw [mapM_eq_some_iff]
  constructor
  · intro h
    induction l generalizing items with
    | nil =>
        rw [List.map_nil, eq_comm, List.map_eq_nil_iff] at h
        rw [h]
        exact ⟨rfl, fun x hx => absurd hx List.not_mem_nil⟩
    | cons a l ih =>
        cases items with
        | nil => exact absurd h (List.cons_ne_nil _ _)
        | cons x items =>
            rw [List.map_cons, List.map_cons, List.cons.injEq] at h
            obtain ⟨b, hb, hx⟩ := Option.map_eq_some_iff.mp h.1
            obtain ⟨hmap, hrest⟩ := ih h.2
            rw [List.map_cons, hmap, ← hx]
            exact ⟨rfl, List.forall_mem_cons.mpr ⟨hb, hrest⟩⟩
  · rintro ⟨rfl, h⟩
    rw [List.map_map]
    refine List.map_congr_left fun x hx => ?_
    rw [Function.comp_apply, h x hx]
    rfl

theorem mem_of_mapM_keyed {α : Type u} {β : Type v} {f : α → Option β} {l : List α}
    {items : List (α × β)} (h : (l.mapM fun a => (f a).map fun b => (a, b)) = some items)
    {x : α × β} : x ∈ items ↔ x.1 ∈ l ∧ f x.1 = some x.2 := by
  obtain ⟨rfl, hkeys⟩ := mapM_keyed_eq_some_iff.mp h
  constructor
  · intro hx
    exact ⟨List.mem_map_of_mem hx, hkeys x hx⟩
  · rintro ⟨hx, hkey⟩
    obtain ⟨y, hy, hyx⟩ := List.mem_map.mp hx
    have hkey' := hkeys y hy
    rw [hyx, hkey] at hkey'
    rwa [Prod.ext hyx.symm (Option.some.inj hkey')]

/-! ## Sorted lists -/

/-- In a sorted list what is behind a prefix is what is above the cutoff. -/
theorem dropWhile_le_eq_filter {κ : Type u} [LinearOrder κ] {l : List κ}
    (h : l.Pairwise (· ≤ ·)) (cutoff : κ) :
    l.dropWhile (· ≤ cutoff) = l.filter (cutoff < ·) := by
  induction l with
  | nil => rfl
  | cons a l ih =>
      rw [List.pairwise_cons] at h
      by_cases ha : a ≤ cutoff
      · rw [List.dropWhile_cons_of_pos (by simpa using ha), ih h.2,
          List.filter_cons_of_neg (by simpa using ha)]
      · rw [List.dropWhile_cons_of_neg (by simpa using ha), eq_comm, List.filter_eq_self]
        intro b hb
        rw [decide_eq_true_eq]
        rcases List.mem_cons.mp hb with rfl | hb
        · exact not_le.mp ha
        · exact lt_of_lt_of_le (not_le.mp ha) (h.1 b hb)

/-- **Fewer than `m` are above a cutoff** exactly when the last but `m` is not: in a sorted list
it is the one that has to leave. -/
theorem length_filter_lt_lt_iff {κ : Type u} [LinearOrder κ] {l : List κ}
    (h : l.Pairwise (· ≤ ·)) {m : ℕ} (hm : m ≤ l.length) (cutoff : κ) :
    (l.filter (cutoff < ·)).length < m ↔ ∃ a, l[l.length - m]? = some a ∧ a ≤ cutoff := by
  induction l with
  | nil =>
      obtain rfl : m = 0 := Nat.le_zero.mp hm
      simp
  | cons b l ih =>
      rw [List.pairwise_cons] at h
      by_cases hb : b ≤ cutoff
      · rw [List.filter_cons_of_neg (by simpa using hb)]
        rcases Nat.lt_or_eq_of_le hm with hlt | rfl
        · have hml : m ≤ l.length := Nat.le_of_lt_succ hlt
          rw [ih h.2 hml, List.length_cons, Nat.succ_sub hml, List.getElem?_cons_succ]
        · refine iff_of_true (Nat.lt_succ_of_le (List.length_filter_le _ _)) ⟨b, ?_, hb⟩
          rw [Nat.sub_self]
          rfl
      · -- everything is above the cutoff
        have hall : ∀ a ∈ b :: l, cutoff < a := by
          intro a ha
          rcases List.mem_cons.mp ha with rfl | ha
          · exact not_le.mp hb
          · exact lt_of_lt_of_le (not_le.mp hb) (h.1 a ha)
        rw [List.filter_eq_self.mpr fun a ha => decide_eq_true (hall a ha)]
        refine iff_of_false (not_lt.mpr hm) ?_
        rintro ⟨a, ha, hle⟩
        exact absurd hle (not_le.mpr (hall a (List.mem_of_getElem? ha)))

/-- Filtering by a lower cutoff first changes nothing. -/
theorem filter_lt_filter_lt {κ : Type u} [LinearOrder κ] {c c' : κ} (h : c ≤ c') (l : List κ) :
    (l.filter (c < ·)).filter (c' < ·) = l.filter (c' < ·) := by
  rw [List.filter_filter]
  refine List.filter_congr fun a _ => ?_
  by_cases ha : c' < a
  · simp [ha, lt_of_le_of_lt h ha]
  · simp [ha]
