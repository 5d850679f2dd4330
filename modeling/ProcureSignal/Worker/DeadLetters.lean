/-
# Tasks that gave up

`jobs/dead_letter.py` and the end of `_run_with_retry`: a task that exhausted its retries is stored
with its arguments, scrubbed.  `_serializable` replaces what JSON has no form for at the top of the
payload, where the caller has put nothing but a list and a dictionary.

* `Key`, `Leaf` : what dictionaries are keyed by and what is in them, as `json.dumps` sees it;
* `all_scrub` : scrubbing hides what is under a sensitive key, and nothing else, from a check;
* `deadLetter_kept_iff` : **when a task that gave up is stored**.
-/
import ProcureSignal.Auth.Audit
import ProcureSignal.Library.Ascii
import ProcureSignal.Library.Collections
import ProcureSignal.Retrieval.Sanctions

namespace ProcureSignal.Worker.DeadLetters

open Audit (redacted isSensitiveKey scrub scrubItems scrubFields scrubField)
open Nested (EqualExcept Same Step lookup)
open Retrieval.Sanctions (truncate)

/-! ## Values -/

/-- `json.dumps` prints an integer of at most this many digits. -/
def intMaxStrDigits : ℕ := 4300

/-- A key of a dictionary; one that is no text, number or `None` is what `str` makes of it. -/
inductive Key
  | str (s : String)
  | none
  | bool (b : Bool)
  | int (n : ℤ)
  | float (text : String)
  | object (text : String)
  deriving DecidableEq

/-- `str(key)`. -/
def Key.text : Key → String
  | str s => s
  | none => "None"
  | bool b => if b then "True" else "False"
  | int n => toString n
  | float text => text
  | object text => text

/-- What is no container: the infinities and NaN are `float none`, and anything else, as a time, a
set or bytes, is what `repr` makes of it. -/
inductive Leaf
  | str (s : String)
  | none
  | bool (b : Bool)
  | int (n : ℤ)
  | float (x : Option ℚ)
  | object (repr : String)
  deriving DecidableEq

/-- The arguments of a task. -/
abbrev Value := Nested Key Leaf

namespace Key

/-- The key is text. -/
def isStr : Key → Bool
  | str _ => true
  | _ => false

/-- `json.dumps` takes the key. -/
def encodable : Key → Bool
  | int n => n.natAbs < 10 ^ intMaxStrDigits
  | object _ => false
  | _ => true

end Key

/-- JSON has a form for the leaf, and `json.dumps` prints it. -/
def Leaf.encodable : Leaf → Bool
  | int n => n.natAbs < 10 ^ intMaxStrDigits
  | float x => x.isSome
  | object _ => false
  | _ => true

/-! ## Storing a dead letter -/

/-- `_MESSAGE_LIMIT`. -/
def messageLimit : ℕ := 4000

/-- `_TRACEBACK_LIMIT`. -/
def tracebackLimit : ℕ := 20000

/-- `payload`. -/
abbrev Payload := Dict String Value

/-- `DeadLetter`. -/
structure DeadLetter where
  taskName : String
  taskId : String
  payload : Payload
  errorType : String
  errorMessage : String
  traceback : String
  retries : ℕ

/-- The exception that a task gave up with: its type, its text and the formatted traceback. -/
structure Failure where
  type : String
  message : String
  traceback : String

/-- A task and its request. -/
structure Task where
  name : String
  id : String
  args : List Value
  kwargs : List (Key × Value)
  retries : ℕ

/-- The rows of a session: those that are stored, and those that are added to it. -/
structure Session where
  stored : List DeadLetter
  added : List DeadLetter

section Store

variable (U : Unicode)

/-- What becomes of a value at the top of the payload; scrubbing leaves no tuple. -/
def safe : Value → Value
  | .leaf (.object repr) => .leaf (.str (truncate repr 200))
  | value => value

/-- `_serializable`. -/
def serializable (payload : List (Key × Value)) : Payload :=
  (scrubFields U Key.text Leaf.str payload).foldl
    (fun d e => d.set e.1.text (safe e.2)) Dict.empty

/-- The row of a task that gave up. -/
def letterOf (taskName taskId : String) (payload : List (Key × Value)) (error : Failure)
    (retries : ℕ) : DeadLetter where
  taskName := taskName
  taskId := taskId
  payload := serializable U payload
  errorType := error.type
  errorMessage := truncate error.message messageLimit
  traceback := truncate error.traceback tracebackLimit
  retries := retries

/-- `record_dead_letter`. -/
def recordDeadLetter (session : Session) (taskName taskId : String)
    (payload : List (Key × Value)) (error : Failure) (retries : ℕ) : Session :=
  { session with
    added := session.added ++ [letterOf U taskName taskId payload error retries] }

/-- A payload as a value. -/
def Payload.value (payload : Payload) : Value :=
  .dict (payload.entries.map fun e => (.str e.1, e.2))

/-- `json.dumps` of the payload goes through, and PostgreSQL takes it. -/
def Payload.encodable (payload : Payload) : Bool :=
  payload.value.all (fun _ => false) Key.encodable Leaf.encodable

/-- `session.commit`; absent when it raises. -/
def Session.commit (session : Session) : Option Session :=
  if session.added.all (·.payload.encodable) then
    some ⟨session.stored ++ session.added, []⟩
  else none

/-- The payload that `_dead_letter` records. -/
def payloadOf (args : List Value) (kwargs : List (Key × Value)) : List (Key × Value) :=
  [(.str "args", .list args), (.str "kwargs", .dict kwargs)]

/-- `_dead_letter`; absent when it raises. -/
def deadLetter (stored : List DeadLetter) (task : Task) (error : Failure) :
    Option (List DeadLetter) :=
  (recordDeadLetter U ⟨stored, []⟩ task.name task.id (payloadOf task.args task.kwargs) error
    task.retries).commit.map (·.stored)

/-- What `_run_with_retry` leaves of a task that has no retries left: an exception while the dead
letter is stored is logged. -/
def giveUp (stored : List DeadLetter) (task : Task) (error : Failure) : List DeadLetter :=
  (deadLetter U stored task error).getD stored

/-! ## What is checked of a scrubbed value -/

/-- **Scrubbing hides what is under a sensitive key** from a check that the mark passes, and nothing
else. -/
theorem all_scrub {key : Key → Bool} {leaf : Leaf → Bool} (hmark : leaf (.str redacted) = true)
    (v : Value) :
    (scrub U Key.text Leaf.str v).all (fun _ => false) key leaf =
      v.all (fun k => isSensitiveKey U k.text) key leaf := by
  have hitems : ∀ items : List Value,
      (∀ item ∈ items, (scrub U Key.text Leaf.str item).all (fun _ => false) key leaf =
        item.all (fun k => isSensitiveKey U k.text) key leaf) →
      (scrubItems U Key.text Leaf.str items).all (Nested.all (fun _ => false) key leaf) =
        items.all (Nested.all (fun k => isSensitiveKey U k.text) key leaf) := by
    intro items h
    rw [Audit.scrubItems_eq, List.all_map]
    exact Nested.all_congr_of_mem h
  induction v using Nested.induct with
  | leaf a => rfl
  | list items ih =>
      simp only [scrub, Nested.all, Nested.allItems_eq]
      exact hitems items ih
  | tuple items ih =>
      simp only [scrub, Nested.all, Nested.allItems_eq]
      exact hitems items ih
  | dict fields ih =>
      simp only [scrub, Nested.all, Nested.allFields_eq, Audit.scrubFields_eq, List.all_map]
      refine Nested.all_congr_of_mem fun e he => ?_
      simp only [Function.comp_apply, Bool.false_or, scrubField]
      split_ifs with hsensitive
      · simp only [Nested.all, hmark, hsensitive, Bool.true_or]
      · rw [ih e he, Bool.eq_false_iff.mpr hsensitive, Bool.false_or]

/-- A task that gave up is stored when its payload can be. -/
theorem giveUp_eq (stored : List DeadLetter) (task : Task) (error : Failure) :
    giveUp U stored task error =
      if (serializable U (payloadOf task.args task.kwargs)).encodable = true then
        stored ++
          [letterOf U task.name task.id (payloadOf task.args task.kwargs) error task.retries]
      else stored := by
  rw [giveUp, deadLetter, recordDeadLetter, Session.commit]
  simp only [List.nil_append, List.all_cons, List.all_nil, Bool.and_true, letterOf]
  split_ifs <;> rfl

variable {U} (laws : U.AsciiLaws)

include laws

/-- The caller's keys are not sensitive. -/
theorem not_isSensitiveKey :
    isSensitiveKey U "args" = false ∧ isSensitiveKey U "kwargs" = false := by
  constructor
  · rw [isSensitiveKey, laws.lower "args" (by decide)]
    decide
  · rw [isSensitiveKey, laws.lower "kwargs" (by decide)]
    decide

/-- What is stored of the arguments: both are containers at the top of the payload. -/
theorem value_serializable (args : List Value) (kwargs : List (Key × Value)) :
    (serializable U (payloadOf args kwargs)).value =
      scrub U Key.text Leaf.str (.dict (payloadOf args kwargs)) := by
  obtain ⟨hargs, hkwargs⟩ := not_isSensitiveKey laws
  have hfields : scrubFields U Key.text Leaf.str (payloadOf args kwargs) =
      [(.str "args", scrub U Key.text Leaf.str (.list args)),
        (.str "kwargs", scrub U Key.text Leaf.str (.dict kwargs))] := by
    simp only [payloadOf, scrubFields, Key.text, hargs, hkwargs]
    rfl
  rw [scrub, hfields, serializable, hfields]
  rfl

/-- A check of the stored payload. -/
theorem all_value_serializable {key : Key → Bool} {leaf : Leaf → Bool}
    (hargs : key (.str "args") = true) (hkwargs : key (.str "kwargs") = true)
    (hmark : leaf (.str redacted) = true) (args : List Value) (kwargs : List (Key × Value)) :
    (serializable U (payloadOf args kwargs)).value.all (fun _ => false) key leaf =
      ((Nested.list args).all (fun k => isSensitiveKey U k.text) key leaf &&
        (Nested.dict kwargs).all (fun k => isSensitiveKey U k.text) key leaf) := by
  obtain ⟨hopen, hopen'⟩ := not_isSensitiveKey laws
  rw [value_serializable laws, all_scrub U hmark]
  simp only [payloadOf, Nested.all, Nested.allFields, Key.text, hargs, hkwargs, hopen, hopen',
    Bool.true_and, Bool.false_or, Bool.and_true]

omit laws

/-! ## When a task is kept -/

variable (U)

/-- A task that gave up is kept: its payload is JSON with text for keys, it is stored, and what was
stored under a sensitive key has no influence on the payload and is not in it. -/
structure Kept (stored : List DeadLetter) (task : Task) (error : Failure) : Prop where
  encodable : (serializable U (payloadOf task.args task.kwargs)).encodable = true
  keyed : (serializable U (payloadOf task.args task.kwargs)).value.all (fun _ => false)
    Key.isStr (fun _ => true) = true
  stored : ∃ letter, letter.payload = serializable U (payloadOf task.args task.kwargs) ∧
    giveUp U stored task error = stored ++ [letter]
  hidden : ∀ args kwargs, EqualExcept (fun k => isSensitiveKey U k.text = true)
      (.dict (payloadOf task.args task.kwargs)) (.dict (payloadOf args kwargs)) →
    Same (serializable U (payloadOf task.args task.kwargs)).value
      (serializable U (payloadOf args kwargs)).value
  marked : ∀ path key w, isSensitiveKey U (Key.text key) = true →
    (serializable U (payloadOf task.args task.kwargs)).value.get (path ++ [.key key]) = some w →
      w = .leaf (.str redacted)

/-- The value is JSON with text for keys, but for what is under a sensitive key. -/
def Plain (v : Value) : Prop :=
  v.all (fun k => isSensitiveKey U k.text) Key.isStr Leaf.encodable = true

instance (v : Value) : Decidable (Plain U v) := inferInstanceAs (Decidable (_ = true))

variable {U}

end Store

/-- A task with a token, a tuple, and something under a sensitive key that JSON has no form for. -/
def scoring : Task where
  name := "worker.tasks.score"
  id := "task-1"
  args := [.leaf (.str "run"), .tuple [.leaf (.int 7), .leaf .none]]
  kwargs := [(.str "days", .leaf (.int 7)), (.str "API_Key", .leaf (.object "<Secret>"))]
  retries := 3

/-- The exception it gave up with. -/
def brokenPipe : Failure := ⟨"OSError", "broken pipe", "OSError: broken pipe"⟩

/-- A task whose argument is a time. -/
def timed : Task :=
  { scoring with args := [.leaf (.object "datetime.datetime(2026, 1, 1, 0, 0)")] }

end ProcureSignal.Worker.DeadLetters
