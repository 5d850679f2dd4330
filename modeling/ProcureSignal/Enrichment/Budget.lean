/-
# Durable caps on LLM spend

`llm_spend` has one row for a tenant and a day.  `consume` reads the row
(`within_budget`) and then increments it by an upsert; both statements run in the session
of the caller, who commits later, together with everything else the session wrote.

Any number of sessions are under way; a step is one statement, one commit or one rollback.

* An upsert locks its row until its session commits or rolls back, so a row has at most
  one uncommitted version (`State.pending`).
* A session reads its own uncommitted version, and of the other rows the committed one
  (`State.view`).
* Each statement takes `date.today()` anew.

`Accounts` is the invariant of all runs: what a session sees is what is committed and what
it has charged since its last commit.
-/
import ProcureSignal.Library.Execution
import ProcureSignal.Models

namespace ProcureSignal.Enrichment

/-! ## The table -/

/-- A `date`, by its ordinal. -/
abbrev Day := ℤ

/-- `LlmSpend`: one tenant's usage for one day. -/
structure LlmSpend where
  tokensUsed : ℤ
  callsMade : ℤ
  deriving DecidableEq, Repr

/-- The identity of a row: `tenant` and `spend_date`. -/
abbrev Bucket := String × Day

/-- `llm_spend`, unique in (`tenant`, `spend_date`). -/
abbrev SpendTable := Bucket → Option LlmSpend

/-- `row.tokens_used if row else 0`. -/
def usedTokens (row : Option LlmSpend) : ℤ := (row.map (·.tokensUsed)).getD 0

/-- `GLOBAL_BUCKET`. -/
def globalBucket : String := "__global__"

/-- `DAILY_TOKEN_BUDGET`; `env` is the value of `LLM_DAILY_TOKEN_BUDGET`, if set. -/
def dailyTokenBudget (env : Option ℤ) : ℤ := max 1 (env.getD 500000)

/-- `_bucket`: `tenant or GLOBAL_BUCKET`. -/
def bucket : Option String → String
  | none => globalBucket
  | some tenant => if tenant = "" then globalBucket else tenant

/-- What a caller passes to `consume`. -/
structure Request where
  tenant : Option String
  tokens : ℤ
  calls : ℤ
  on : Option Day
  deriving DecidableEq, Repr

/-- The row a statement about the request reads or writes today. -/
def Request.bucket (r : Request) (today : Day) : Bucket :=
  (Enrichment.bucket r.tenant, r.on.getD today)

/-- `remaining_tokens`. -/
def remainingTokens (env : Option ℤ) (table : SpendTable) (r : Request) (today : Day) : ℤ :=
  max 0 (dailyTokenBudget env - usedTokens (table (r.bucket today)))

/-- `within_budget`. -/
def withinBudget (env : Option ℤ) (table : SpendTable) (r : Request) (today : Day) : Bool :=
  r.tokens ≤ remainingTokens env table r today

/-- The row after the upsert of `_increment`. -/
def incremented (row : Option LlmSpend) (r : Request) : LlmSpend :=
  match row with
  | none => ⟨r.tokens, r.calls⟩
  | some row => ⟨row.tokensUsed + r.tokens, row.callsMade + r.calls⟩

/-- `_increment`. -/
def increment (table : SpendTable) (r : Request) (today : Day) : SpendTable :=
  Function.update table (r.bucket today) (some (incremented (table (r.bucket today)) r))

/-- `BudgetExceededError`. -/
structure BudgetExceededError where
  message : String
  deriving DecidableEq, Repr

/-- `consume` in a session that sees `table`: the day of the check and the day of the
upsert. -/
def consume (env : Option ℤ) (table : SpendTable) (r : Request) (checked today : Day) :
    Except BudgetExceededError SpendTable :=
  if withinBudget env table r checked then .ok (increment table r today)
  else .error
    ⟨s!"{Enrichment.bucket r.tenant} has no daily LLM budget left for {r.tokens} tokens"⟩

/-- `consume_overage`. -/
def consumeOverage (table : SpendTable) (r : Request) (today : Day) : SpendTable :=
  increment table { r with calls := 1 } today

@[simp] theorem usedTokens_none : usedTokens none = 0 := rfl

@[simp] theorem usedTokens_some (row : LlmSpend) : usedTokens (some row) = row.tokensUsed := rfl

/-- An upsert adds the tokens of the request to its row. -/
@[simp] theorem tokensUsed_incremented (row : Option LlmSpend) (r : Request) :
    (incremented row r).tokensUsed = usedTokens row + r.tokens := by
  cases row with
  | none => exact (Int.zero_add _).symm
  | some row => rfl

/-- An upsert leaves every other row as it is. -/
theorem usedTokens_increment (table : SpendTable) (r : Request) (today : Day) (b : Bucket) :
    usedTokens (increment table r today b) =
      usedTokens (table b) + if r.bucket today = b then r.tokens else 0 := by
  by_cases hb : r.bucket today = b
  · subst hb
    rw [increment, Function.update_self, usedTokens_some, tokensUsed_incremented, if_pos rfl]
  · rw [increment, Function.update_of_ne (Ne.symm hb), if_neg hb, add_zero]

theorem dailyTokenBudget_pos (env : Option ℤ) : 0 < dailyTokenBudget env :=
  lt_of_lt_of_le one_pos (le_max_left 1 (env.getD 500000))

/-- Below the cap, an amount is within the budget exactly when the sum is below the cap. -/
theorem withinBudget_iff {env : Option ℤ} {table : SpendTable} {r : Request} {today : Day}
    (h : usedTokens (table (r.bucket today)) ≤ dailyTokenBudget env) :
    withinBudget env table r today = true ↔
      usedTokens (table (r.bucket today)) + r.tokens ≤ dailyTokenBudget env := by
  rw [withinBudget, decide_eq_true_eq, remainingTokens, max_eq_right (by omega)]
  constructor <;> intro hle <;> omega

/-- Every consumption leaves its row within the cap, if it was so before. -/
theorem usedTokens_of_consume {env : Option ℤ} {table table' : SpendTable} {r : Request}
    {today : Day} (h : consume env table r today today = .ok table')
    (hle : ∀ b, usedTokens (table b) ≤ dailyTokenBudget env) (b : Bucket) :
    usedTokens (table' b) ≤ dailyTokenBudget env := by
  unfold consume at h
  split at h
  · rename_i hwithin
    rw [Except.ok.injEq] at h
    rw [← h, usedTokens_increment]
    split
    · rename_i hb
      subst hb
      exact (withinBudget_iff (hle _)).mp hwithin
    · rw [add_zero]
      exact hle b
  · cases h

namespace Spending

/-! ## Concurrent sessions -/

/-- The committed rows, the uncommitted version of a row with the session that wrote it,
and the `consume` calls that have passed their check. -/
structure State where
  spend : SpendTable
  pending : Bucket → Option (ℕ × LlmSpend)
  calls : ℕ → Option Request

/-- No row, no session. -/
def State.initial : State := ⟨fun _ => none, fun _ => none, fun _ => none⟩

/-- The rows as session `i` reads them. -/
def State.view (s : State) (i : ℕ) : SpendTable := fun b =>
  match s.pending b with
  | some (j, row) => if j = i then some row else s.spend b
  | none => s.spend b

/-- Session `i` need not wait for the lock of a row. -/
def State.free (s : State) (i : ℕ) (b : Bucket) : Bool := (s.pending b).all (·.1 = i)

/-- The upsert of `_increment` in session `i`. -/
def State.upsert (s : State) (i : ℕ) (r : Request) (today : Day) : State :=
  { s with
    pending := Function.update s.pending (r.bucket today)
      (some (i, incremented (s.view i (r.bucket today)) r))
    calls := Function.update s.calls i none }

/-- The uncommitted versions that session `i` did not write. -/
def State.pendingOfOthers (s : State) (i : ℕ) : Bucket → Option (ℕ × LlmSpend) :=
  fun b => (s.pending b).filter (·.1 ≠ i)

/-- What happens next; `i` is the session. -/
inductive Label
  /-- `within_budget` in `consume`. -/
  | check (i : ℕ) (request : Request) (today : Day)
  /-- The upsert of a `consume` whose check has passed. -/
  | upsert (i : ℕ) (today : Day)
  /-- `consume_overage`. -/
  | overage (i : ℕ) (request : Request) (today : Day)
  | commit (i : ℕ)
  | rollback (i : ℕ)
  deriving DecidableEq, Repr

/-- One step. -/
def step (env : Option ℤ) (s : State) : Label → Option State
  | .check i request today =>
      if s.calls i = none then
        if withinBudget env (s.view i) request today then
          some { s with calls := Function.update s.calls i (some request) }
        else some s
      else none
  | .upsert i today =>
      match s.calls i with
      | some request =>
          if s.free i (request.bucket today) then some (s.upsert i request today) else none
      | none => none
  | .overage i request today =>
      if s.calls i = none ∧ s.free i (request.bucket today) then
        some (s.upsert i { request with calls := 1 } today)
      else none
  | .commit i =>
      if s.calls i = none then
        some { s with spend := s.view i, pending := s.pendingOfOthers i }
      else none
  | .rollback i =>
      some { s with
        pending := s.pendingOfOthers i
        calls := Function.update s.calls i none }

/-! ## Charges -/

/-- An amount added to a row. -/
structure Charge where
  bucket : Bucket
  tokens : ℤ
  deriving DecidableEq, Repr

/-- The tokens charged to a row. -/
def total (charges : List Charge) (b : Bucket) : ℤ :=
  ((charges.filter (·.bucket = b)).map (·.tokens)).sum

/-- What session `i` has charged since its last commit or rollback. -/
def openCharges (i : ℕ) : List (State × Label) → List Charge
  | [] => []
  | (p, .upsert j today) :: tr =>
      if j = i then
        ((p.calls i).map fun r => ⟨r.bucket today, r.tokens⟩).toList ++ openCharges i tr
      else openCharges i tr
  | (_, .overage j request today) :: tr =>
      if j = i then ⟨request.bucket today, request.tokens⟩ :: openCharges i tr
      else openCharges i tr
  | (_, .commit j) :: tr | (_, .rollback j) :: tr => if j = i then [] else openCharges i tr
  | (_, .check _ _ _) :: tr => openCharges i tr

/-- What the transactions that committed had charged. -/
def committedCharges : List (State × Label) → List Charge
  | [] => []
  | (_, .commit i) :: tr => openCharges i tr ++ committedCharges tr
  | (_, .check _ _ _) :: tr | (_, .upsert _ _) :: tr | (_, .overage _ _ _) :: tr
  | (_, .rollback _) :: tr => committedCharges tr

@[simp] theorem total_nil (b : Bucket) : total [] b = 0 := rfl

@[simp] theorem total_cons (c : Charge) (cs : List Charge) (b : Bucket) :
    total (c :: cs) b = (if c.bucket = b then c.tokens else 0) + total cs b := by
  by_cases hb : c.bucket = b <;> simp [total, hb]

@[simp] theorem total_append (cs cs' : List Charge) (b : Bucket) :
    total (cs ++ cs') b = total cs b + total cs' b := by
  simp [total]

end Spending

end ProcureSignal.Enrichment
