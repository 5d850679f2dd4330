/-
# Programs that raise

Programs on a state that return a value or raise an exception; the state that an exception leaves
is kept.  `exec` runs one, and its equations take a run apart step by step.

* `exec_bind` : a sequence goes on where its first program returned;
* `exec_tryCatch`, `exec_tryFinally` : the clauses of a `try`.
-/
import Mathlib.Logic.Basic

/-- A program on a state `σ` that may raise an `ε`. -/
abbrev Raising (ε σ : Type) := ExceptT ε (StateM σ)

namespace Raising

variable {ε σ α β : Type}

/-- A run: what is returned or raised, and the state that is left. -/
def exec (x : Raising ε σ α) (s : σ) : Except ε α × σ := (ExceptT.run x).run s

@[simp] theorem exec_pure (a : α) (s : σ) : exec (pure a : Raising ε σ α) s = (.ok a, s) := rfl

@[simp] theorem exec_throw (e : ε) (s : σ) :
    exec (throw e : Raising ε σ α) s = (.error e, s) := rfl

@[simp] theorem exec_get (s : σ) : exec (get : Raising ε σ σ) s = (.ok s, s) := rfl

@[simp] theorem exec_modify (f : σ → σ) (s : σ) :
    exec (modify f : Raising ε σ PUnit) s = (.ok ⟨⟩, f s) := rfl

@[simp] theorem exec_modifyGet (f : σ → α × σ) (s : σ) :
    exec (modifyGet f : Raising ε σ α) s = (.ok (f s).1, (f s).2) := rfl

@[simp] theorem exec_ite {c : Prop} [Decidable c] (x y : Raising ε σ α) (s : σ) :
    exec (if c then x else y) s = if c then exec x s else exec y s := by
  split <;> rfl

/-- **A sequence** goes on where its first program returned, and ends where that raised. -/
@[simp] theorem exec_bind (x : Raising ε σ α) (f : α → Raising ε σ β) (s : σ) :
    exec (x >>= f) s =
      match exec x s with
      | (.ok a, s') => exec (f a) s'
      | (.error e, s') => (.error e, s') := by
  simp only [exec, ExceptT.run_bind, StateT.run_bind]
  rcases (ExceptT.run x).run s with ⟨_ | a, s'⟩ <;> rfl

@[simp] theorem exec_map (g : α → β) (x : Raising ε σ α) (s : σ) :
    exec (g <$> x) s =
      match exec x s with
      | (.ok a, s') => (.ok (g a), s')
      | (.error e, s') => (.error e, s') := by
  rw [map_eq_pure_bind, exec_bind]
  rfl

/-! ## Clauses of a `try` -/

/-- A computation without the state. -/
def perform : Except ε α → Raising ε σ α
  | .ok a => pure a
  | .error e => throw e

@[simp] theorem exec_perform (x : Except ε α) (s : σ) :
    exec (perform x : Raising ε σ α) s = (x, s) := by
  cases x <;> rfl

/-- A handler runs in the state that the exception left. -/
@[simp] theorem exec_tryCatch (x : Raising ε σ α) (handler : ε → Raising ε σ α) (s : σ) :
    exec (tryCatch x handler) s =
      match exec x s with
      | (.ok a, s') => (.ok a, s')
      | (.error e, s') => exec (handler e) s' := by
  have hcatch : exec (tryCatch x handler) s =
      (ExceptT.run x >>= fun outcome =>
        match outcome with
        | .ok a => pure (.ok a)
        | .error e => ExceptT.run (handler e)).run s := rfl
  rw [hcatch, StateT.run_bind]
  unfold exec
  rcases (ExceptT.run x).run s with ⟨_ | a, s'⟩ <;> rfl

/-- **A final clause** runs on every way out, and an exception of its own replaces what there
was. -/
@[simp] theorem exec_tryFinally (x : Raising ε σ α) (final : Raising ε σ β) (s : σ) :
    exec (tryFinally x final) s =
      match exec x s with
      | (outcome, s') =>
          match exec final s' with
          | (.ok _, s'') => (outcome, s'')
          | (.error e, s'') => (.error e, s'') := by
  simp only [exec, tryFinally, tryFinally', ExceptT.run_map, StateT.run_map, ExceptT.run_mk,
    StateT.run_bind]
  rcases hx : (ExceptT.run x).run s with ⟨_ | a, s'⟩
  all_goals
    have hbody : x s = (_, s') := hx
    rcases hfinal : (ExceptT.run final).run s' with ⟨_ | b, s''⟩
    all_goals
      have hcleanup : final s' = (_, s'') := hfinal
      simp only [StateT.run, hbody, hcleanup]
      rfl

@[simp] theorem ok_bind (a : α) (f : α → Except ε β) : (Except.ok a >>= f) = f a := rfl

@[simp] theorem error_bind (e : ε) (f : α → Except ε β) :
    (Except.error e >>= f) = .error e := rfl

/-- What comes out of a clause that is closed on every way out. -/
def closing (exit : Except ε β) (outcome : Except ε α) : Except ε α :=
  match exit with
  | .ok _ => outcome
  | .error e => .error e

@[simp] theorem closing_ok (b : β) (outcome : Except ε α) : closing (.ok b) outcome = outcome := rfl

@[simp] theorem closing_error (e : ε) (outcome : Except ε α) :
    closing (.error e : Except ε β) outcome = .error e := rfl

/-- A program whose exception is looked at. -/
@[simp] theorem exec_observing (x : Raising ε σ α) (s : σ) :
    exec (observing x : Raising ε σ (Except ε α)) s = (.ok (exec x s).1, (exec x s).2) := by
  unfold observing
  rw [exec_tryCatch, exec_bind]
  rcases exec x s with ⟨_ | a, s'⟩ <;> rfl

end Raising
