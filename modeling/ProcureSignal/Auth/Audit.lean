/-
# What the audit log hides

`auth/audit.py`: the values under keys that name a credential are replaced anywhere in a nested
structure before it is stored.  Keys and leaves are those of any type; `str` is the text of a key,
and `text` the leaf that is a text.

* `scrub_same` : **what is stored under a sensitive key has no influence** on what is logged;
* `get_scrub` : what is at a path without sensitive keys;
* `scrub_noninterfering` : with it, scrubbing twice changes nothing more and every other leaf is
  kept.
-/
import ProcureSignal.Library.Nested
import ProcureSignal.Library.Unicode

namespace ProcureSignal.Audit

open Nested (EqualExcept Same Step lookup)

/-- `REDACTED`. -/
def redacted : String := "[redacted]"

/-- `_SENSITIVE_KEY_PARTS`. -/
def sensitiveKeyParts : List String :=
  ["password", "token", "secret", "authorization", "api_key", "apikey", "credential"]

/-- `is_sensitive_key`. -/
def isSensitiveKey (U : Unicode) (key : String) : Bool :=
  sensitiveKeyParts.any fun part => part.toList <:+: (U.lower key).toList

section Scrub

variable {κ α : Type} (U : Unicode) (str : κ → String) (text : String → α)

mutual

/-- `scrub`. -/
def scrub : Nested κ α → Nested κ α
  | .dict fields => .dict (scrubFields fields)
  | .list items => .list (scrubItems items)
  | .tuple items => .list (scrubItems items)
  | .leaf a => .leaf a

def scrubItems : List (Nested κ α) → List (Nested κ α)
  | [] => []
  | item :: items => scrub item :: scrubItems items

def scrubFields : List (κ × Nested κ α) → List (κ × Nested κ α)
  | [] => []
  | (key, item) :: fields =>
      (key, if isSensitiveKey U (str key) then .leaf (text redacted) else scrub item) ::
        scrubFields fields

end

/-- The value of an entry. -/
def scrubField (key : κ) (item : Nested κ α) : Nested κ α :=
  if isSensitiveKey U (str key) then .leaf (text redacted) else scrub U str text item

theorem scrubItems_eq (items : List (Nested κ α)) :
    scrubItems U str text items = items.map (scrub U str text) := by
  induction items with
  | nil => rfl
  | cons item items ih => rw [scrubItems, List.map_cons, ih]

theorem scrubFields_eq (fields : List (κ × Nested κ α)) :
    scrubFields U str text fields =
      fields.map fun e => (e.1, scrubField U str text e.1 e.2) := by
  induction fields with
  | nil => rfl
  | cons e fields ih =>
      rw [scrubFields, List.map_cons, ih]
      rfl

/-- **Scrubbing twice** changes nothing more. -/
theorem scrub_scrub (v : Nested κ α) :
    scrub U str text (scrub U str text v) = scrub U str text v := by
  have hitems : ∀ items : List (Nested κ α),
      (∀ item ∈ items, scrub U str text (scrub U str text item) = scrub U str text item) →
        scrubItems U str text (scrubItems U str text items) = scrubItems U str text items := by
    intro items h
    rw [scrubItems_eq, scrubItems_eq, List.map_map]
    exact List.map_congr_left h
  induction v with
  | leaf a => rfl
  | list items ih => exact congrArg Nested.list (hitems items ih)
  | tuple items ih => exact congrArg Nested.list (hitems items ih)
  | dict fields ih =>
      refine congrArg Nested.dict ?_
      rw [scrubFields_eq, scrubFields_eq, List.map_map]
      refine List.map_congr_left fun e he => Prod.ext rfl ?_
      change scrubField U str text e.1 (scrubField U str text e.1 e.2) =
        scrubField U str text e.1 e.2
      unfold scrubField
      split_ifs
      · rfl
      · exact ih e he

variable [DecidableEq κ]

/-- What a scrubbed dictionary stores. -/
theorem lookup_scrubFields (fields : List (κ × Nested κ α)) (key : κ) :
    lookup (scrubFields U str text fields) key =
      (lookup fields key).map (scrubField U str text key) := by
  rw [scrubFields_eq]
  exact Nested.lookup_map (scrubField U str text) fields key

/-! ## Non-interference -/

/-- **What is stored under a sensitive key has no influence**: two values that are equal except for
that are scrubbed to equal ones. -/
theorem scrub_same {v v' : Nested κ α}
    (h : EqualExcept (fun key => isSensitiveKey U (str key) = true) v v') :
    Same (scrub U str text v) (scrub U str text v') := by
  have hitems : ∀ items : List (Nested κ α),
      (∀ item ∈ items, ∀ {item'},
        EqualExcept (fun key => isSensitiveKey U (str key) = true) item item' →
          Same (scrub U str text item) (scrub U str text item')) →
      ∀ {items'},
        List.Forall₂ (EqualExcept fun key => isSensitiveKey U (str key) = true) items items' →
          Same (.list (scrubItems U str text items)) (.list (scrubItems U str text items')) := by
    intro items ih items' hall
    rw [scrubItems_eq, scrubItems_eq]
    refine .list ?_
    induction hall with
    | nil => exact .nil
    | cons hequal _ ihall =>
        rw [List.forall_mem_cons] at ih
        exact .cons (ih.1 hequal) (ihall ih.2)
  induction v generalizing v' with
  | leaf a =>
      cases h
      exact .refl _ _
  | list items ih =>
      cases h with
      | list hall => exact hitems items ih hall
  | tuple items ih =>
      cases h with
      | tuple hall => exact hitems items ih hall
  | dict fields ih =>
      cases h with
      | dict hkeys hvalues =>
          refine .dict (fun key => ?_) fun key w w' hw hw' _ => ?_
          · rw [lookup_scrubFields, lookup_scrubFields, Option.isSome_map, Option.isSome_map]
            exact hkeys key
          · rw [lookup_scrubFields] at hw hw'
            obtain ⟨item, hitem, rfl⟩ := Option.map_eq_some_iff.mp hw
            obtain ⟨item', hitem', rfl⟩ := Option.map_eq_some_iff.mp hw'
            unfold scrubField
            split_ifs with hsensitive
            · exact .leaf _
            · exact ih (key, item) (Nested.mem_of_lookup hitem)
                (hvalues key item item' hitem hitem' hsensitive)

/-! ## Paths -/

/-- What is one step inside of a scrubbed value. -/
theorem child_scrub (v : Nested κ α) (step : Step κ) :
    (scrub U str text v).child step = (v.child step).map fun item =>
      match step with
      | .key key => scrubField U str text key item
      | .index _ => scrub U str text item := by
  cases step with
  | key key =>
      cases v with
      | dict fields => exact lookup_scrubFields U str text fields key
      | leaf a => rfl
      | list items => rfl
      | tuple items => rfl
  | index i =>
      have hitems : ∀ items : List (Nested κ α),
          (scrubItems U str text items)[i]? = items[i]?.map (scrub U str text) := fun items => by
        rw [scrubItems_eq, List.getElem?_map]
      cases v with
      | dict fields => rfl
      | leaf a => rfl
      | list items => exact hitems items
      | tuple items => exact hitems items

/-- What is at a path without sensitive keys. -/
theorem get_scrub {path : List (Step κ)}
    (h : ∀ key, Step.key key ∈ path → isSensitiveKey U (str key) = false) (v : Nested κ α) :
    (scrub U str text v).get path = (v.get path).map (scrub U str text) := by
  induction path generalizing v with
  | nil => rfl
  | cons step path ih =>
      have hchild : (scrub U str text v).child step = (v.child step).map (scrub U str text) := by
        rw [child_scrub]
        cases step with
        | index i => rfl
        | key key =>
            have hopen := h key List.mem_cons_self
            refine congrArg (fun f => (v.child (.key key)).map f) (funext fun item => ?_)
            exact if_neg (Bool.eq_false_iff.mp hopen)
      have hrest := ih fun key hkey => h key (List.mem_cons_of_mem _ hkey)
      rw [Nested.get, Nested.get, hchild]
      cases v.child step with
      | none => rfl
      | some w => exact hrest w

/-- Everything in a scrubbed value is scrubbed. -/
theorem exists_of_get_scrub {v w : Nested κ α} {path : List (Step κ)}
    (h : (scrub U str text v).get path = some w) : ∃ u, w = scrub U str text u := by
  induction path generalizing v with
  | nil => exact ⟨v, (Option.some.inj h).symm⟩
  | cons step path ih =>
      obtain ⟨inner, hinner, hw⟩ := Option.bind_eq_some_iff.mp h
      rw [child_scrub] at hinner
      obtain ⟨item, -, rfl⟩ := Option.map_eq_some_iff.mp hinner
      cases step with
      | index i => exact ih hw
      | key key =>
          dsimp only at hw
          rw [scrubField] at hw
          split_ifs at hw
          · exact @ih (.leaf (text redacted)) hw
          · exact ih hw

/-- **Under a sensitive key only the mark is left.** -/
theorem get_scrub_of_sensitive {v w : Nested κ α} {path : List (Step κ)} {key : κ}
    (hsensitive : isSensitiveKey U (str key) = true)
    (h : (scrub U str text v).get (path ++ [.key key]) = some w) :
    w = .leaf (text redacted) := by
  rw [Nested.get_append, Option.bind_eq_some_iff] at h
  obtain ⟨inner, hinner, hw⟩ := h
  obtain ⟨u, rfl⟩ := exists_of_get_scrub U str text hinner
  obtain ⟨last, hlast, hw⟩ := Option.bind_eq_some_iff.mp hw
  rw [child_scrub] at hlast
  obtain ⟨item, -, rfl⟩ := Option.map_eq_some_iff.mp hlast
  rw [← Option.some.inj hw]
  exact if_pos hsensitive

/-- **Scrubbing is non-interfering**: values that are equal except for what is stored under
sensitive keys are scrubbed to equal ones, scrubbing twice changes nothing more, and every leaf that
is under no sensitive key is where it was. -/
theorem scrub_noninterfering :
    (∀ v v' : Nested κ α, EqualExcept (fun key => isSensitiveKey U (str key) = true) v v' →
      Same (scrub U str text v) (scrub U str text v')) ∧
    (∀ v : Nested κ α, scrub U str text (scrub U str text v) = scrub U str text v) ∧
    ∀ (v : Nested κ α) (path : List (Step κ)) (a : α), v.get path = some (.leaf a) →
      (∀ key, Step.key key ∈ path → isSensitiveKey U (str key) = false) →
        (scrub U str text v).get path = some (.leaf a) := by
  refine ⟨fun v v' => scrub_same U str text, scrub_scrub U str text, fun v path a hleaf hopen => ?_⟩
  rw [get_scrub U str text hopen, hleaf]
  rfl

end Scrub

end ProcureSignal.Audit
