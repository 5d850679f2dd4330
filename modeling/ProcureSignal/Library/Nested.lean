/-
# Nested containers

Dictionaries, lists and tuples over leaves, as a dynamic language nests them.  A dictionary is the
list of its entries; of two entries with one key the first counts.

* `Nested.get` : what is at a path;
* `Nested.EqualExcept` : equality except for what is stored under some keys, at any depth;
* `Nested.all` : what holds of every key and leaf that is not under some keys.
-/
import Mathlib.Data.List.Forall2
import Mathlib.Logic.Basic

/-- A value with keys in `κ` and leaves in `α`. -/
inductive Nested (κ α : Type)
  | leaf (a : α)
  | list (items : List (Nested κ α))
  | tuple (items : List (Nested κ α))
  | dict (fields : List (κ × Nested κ α))

namespace Nested

variable {κ α : Type}

/-- Induction over the containers. -/
@[elab_as_elim, induction_eliminator]
theorem induct {P : Nested κ α → Prop} (leaf : ∀ a, P (.leaf a))
    (list : ∀ items, (∀ item ∈ items, P item) → P (.list items))
    (tuple : ∀ items, (∀ item ∈ items, P item) → P (.tuple items))
    (dict : ∀ fields, (∀ e ∈ fields, P e.2) → P (.dict fields)) (v : Nested κ α) : P v :=
  @Nested.rec κ α P (fun items => ∀ item ∈ items, P item) (fun fields => ∀ e ∈ fields, P e.2)
    (fun e => P e.2) leaf list tuple dict (List.forall_mem_nil _)
    (fun _ _ hitem hitems => List.forall_mem_cons.mpr ⟨hitem, hitems⟩) (List.forall_mem_nil _)
    (fun _ _ hfield hfields => List.forall_mem_cons.mpr ⟨hfield, hfields⟩) (fun _ _ h => h) v

/-! ## Dictionaries -/

section Lookup

variable {β γ : Type} [DecidableEq κ]

/-- `fields[key]`. -/
def lookup (fields : List (κ × β)) (key : κ) : Option β :=
  (fields.find? fun e => e.1 = key).map (·.2)

/-- What is found is stored. -/
theorem mem_of_lookup {fields : List (κ × β)} {key : κ} {v : β}
    (h : lookup fields key = some v) : (key, v) ∈ fields := by
  obtain ⟨e, he, rfl⟩ := Option.map_eq_some_iff.mp h
  have hkey := List.find?_some he
  rw [decide_eq_true_eq] at hkey
  rw [← hkey]
  exact List.mem_of_find?_eq_some he

/-- A map of what is stored. -/
theorem lookup_map (f : κ → β → γ) (fields : List (κ × β)) (key : κ) :
    lookup (fields.map fun e => (e.1, f e.1 e.2)) key = (lookup fields key).map (f key) := by
  induction fields with
  | nil => rfl
  | cons e fields ih =>
      by_cases hkey : e.1 = key
      · simp [lookup, hkey]
      · simp only [lookup, List.map_cons, List.find?_cons, hkey, decide_false] at ih ⊢
        exact ih

end Lookup

/-! ## Paths -/

/-- A step into a container. -/
inductive Step (κ : Type)
  | key (k : κ)
  | index (i : ℕ)
  deriving DecidableEq

section Get

variable [DecidableEq κ]

/-- One step. -/
def child : Nested κ α → Step κ → Option (Nested κ α)
  | .dict fields, .key k => lookup fields k
  | .list items, .index i => items[i]?
  | .tuple items, .index i => items[i]?
  | _, _ => none

/-- What is at a path. -/
def get : Nested κ α → List (Step κ) → Option (Nested κ α)
  | v, [] => some v
  | v, step :: path => (v.child step).bind fun w => w.get path

theorem get_append (v : Nested κ α) (path path' : List (Step κ)) :
    v.get (path ++ path') = (v.get path).bind fun w => w.get path' := by
  induction path generalizing v with
  | nil => rfl
  | cons step path ih => simp only [List.cons_append, get, Option.bind_assoc, ih]

end Get

/-! ## Equality -/

section Equal

variable [DecidableEq κ]

/-- Equality except for what is stored under a hidden key.  The order of the keys of a dictionary
plays no role. -/
inductive EqualExcept (hidden : κ → Prop) : Nested κ α → Nested κ α → Prop
  | leaf (a : α) : EqualExcept hidden (leaf a) (leaf a)
  | list {items items' : List (Nested κ α)} :
      List.Forall₂ (EqualExcept hidden) items items' → EqualExcept hidden (list items) (list items')
  | tuple {items items' : List (Nested κ α)} :
      List.Forall₂ (EqualExcept hidden) items items' →
        EqualExcept hidden (tuple items) (tuple items')
  | dict {fields fields' : List (κ × Nested κ α)} :
      (∀ k, (lookup fields k).isSome = (lookup fields' k).isSome) →
      (∀ k v v', lookup fields k = some v → lookup fields' k = some v' → ¬ hidden k →
        EqualExcept hidden v v') →
      EqualExcept hidden (dict fields) (dict fields')

/-- Equality of values. -/
abbrev Same : Nested κ α → Nested κ α → Prop := EqualExcept fun _ => False

/-- A value equals itself. -/
theorem EqualExcept.refl (hidden : κ → Prop) (v : Nested κ α) : EqualExcept hidden v v := by
  have hitems : ∀ items : List (Nested κ α), (∀ item ∈ items, EqualExcept hidden item item) →
      List.Forall₂ (EqualExcept hidden) items items := fun items h =>
    List.forall₂_same.mpr h
  induction v with
  | leaf a => exact .leaf a
  | list items ih => exact .list (hitems items ih)
  | tuple items ih => exact .tuple (hitems items ih)
  | dict fields ih =>
      refine .dict (fun _ => rfl) fun k v v' hv hv' _ => ?_
      rw [hv] at hv'
      rw [← Option.some.inj hv']
      exact ih (k, v) (mem_of_lookup hv)

end Equal

/-! ## Keys and leaves -/

section All

/-- Two checks of a list that agree on its elements. -/
theorem all_congr_of_mem {β : Type} {p q : β → Bool} {l : List β} (h : ∀ x ∈ l, p x = q x) :
    l.all p = l.all q := by
  induction l with
  | nil => rfl
  | cons x l ih =>
      rw [List.forall_mem_cons] at h
      rw [List.all_cons, List.all_cons, h.1, ih h.2]

mutual

/-- Every key passes, and every leaf that is not under a hidden key. -/
def all (hidden key : κ → Bool) (leaf : α → Bool) : Nested κ α → Bool
  | .leaf a => leaf a
  | .list items => allItems hidden key leaf items
  | .tuple items => allItems hidden key leaf items
  | .dict fields => allFields hidden key leaf fields

def allItems (hidden key : κ → Bool) (leaf : α → Bool) : List (Nested κ α) → Bool
  | [] => true
  | item :: items => all hidden key leaf item && allItems hidden key leaf items

def allFields (hidden key : κ → Bool) (leaf : α → Bool) : List (κ × Nested κ α) → Bool
  | [] => true
  | (k, item) :: fields =>
      key k && (hidden k || all hidden key leaf item) && allFields hidden key leaf fields

end

variable {hidden key : κ → Bool} {leaf : α → Bool}

theorem allItems_eq (items : List (Nested κ α)) :
    allItems hidden key leaf items = items.all (all hidden key leaf) := by
  induction items with
  | nil => rfl
  | cons item items ih => rw [allItems, List.all_cons, ih]

theorem allFields_eq (fields : List (κ × Nested κ α)) :
    allFields hidden key leaf fields =
      fields.all fun e => key e.1 && (hidden e.1 || all hidden key leaf e.2) := by
  induction fields with
  | nil => rfl
  | cons e fields ih => rw [allFields, List.all_cons, ih]

/-- Two checks at once. -/
theorem all_and (key' : κ → Bool) (leaf' : α → Bool) (v : Nested κ α) :
    (all hidden key leaf v && all hidden key' leaf' v) =
      all hidden (fun k => key k && key' k) (fun a => leaf a && leaf' a) v := by
  have hsplit : ∀ {β : Type} {p q r : β → Bool} {l : List β}, (∀ x ∈ l, (p x && q x) = r x) →
      (l.all p && l.all q) = l.all r := by
    intro β p q r l h
    induction l with
    | nil => rfl
    | cons x l ih =>
        rw [List.forall_mem_cons] at h
        rw [List.all_cons, List.all_cons, List.all_cons, ← h.1, ← ih h.2]
        ac_rfl
  induction v with
  | leaf a => rfl
  | list items ih =>
      simp only [all, allItems_eq]
      exact hsplit ih
  | tuple items ih =>
      simp only [all, allItems_eq]
      exact hsplit ih
  | dict fields ih =>
      simp only [all, allFields_eq]
      refine hsplit fun e he => ?_
      rw [← ih e he]
      cases hidden e.1 <;> cases key e.1 <;> cases key' e.1 <;> simp

end All

end Nested
