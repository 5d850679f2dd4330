/-
# Computations that end or raise

A program whose every step may raise is a term of `Except ε α`; the exception carries
what is left behind.  `Meets x C Q E` says of such a computation that it ends normally
exactly when `C` holds, with a value that satisfies `Q`, and that otherwise it raises an
exception that satisfies `E`.

* `Meets.bind` : the rule of composition;
* `Meets.imp` : the rule of consequence, with the condition up to equivalence.

`Leaves x Q E` says no more than what holds however it ends.
-/
import Mathlib.Data.List.Basic

universe u v w

variable {ε : Type u} {α : Type v} {β : Type v}

/-- `x` ends normally exactly when `C` holds, then with a value in `Q`, and raises an
exception in `E` otherwise. -/
def Meets (x : Except ε α) (C : Prop) (Q : α → Prop) (E : ε → Prop) : Prop :=
  match x with
  | .ok a => C ∧ Q a
  | .error e => ¬C ∧ E e

namespace Meets

variable {x : Except ε α} {C C' : Prop} {Q Q' : α → Prop} {R : β → Prop} {E E' : ε → Prop}

/-- A value. -/
theorem ok {a : α} (h : Q a) : Meets (.ok a) True Q E := ⟨trivial, h⟩

/-- An exception. -/
theorem error {e : ε} (h : E e) : Meets (.error e : Except ε α) False Q E := ⟨not_false, h⟩

/-- **Consequence.**  The postconditions may be weakened, the condition replaced by an
equivalent one. -/
theorem imp (h : Meets x C Q E) (hC : C ↔ C') (hQ : ∀ a, Q a → Q' a)
    (hE : ∀ e, E e → E' e) : Meets x C' Q' E' := by
  cases x with
  | ok a => exact ⟨hC.mp h.1, hQ a h.2⟩
  | error e => exact ⟨fun hc => h.1 (hC.mpr hc), hE e h.2⟩

/-- **Composition.**  The second part runs only where the condition of the first holds. -/
theorem bind {f : α → Except ε β} (h : Meets x C Q E)
    (hf : C → ∀ a, Q a → Meets (f a) C' R E) : Meets (x >>= f) (C ∧ C') R E := by
  cases x with
  | ok a =>
      have hfa := hf h.1 a h.2
      show Meets (f a) (C ∧ C') R E
      exact hfa.imp (and_iff_right h.1).symm (fun _ hb => hb) fun _ he => he
  | error e => exact ⟨fun hc => h.1 hc.1, h.2⟩

/-- Composition with a first part that never raises under its precondition. -/
theorem bind_of_true {f : α → Except ε β} (h : Meets x True Q E)
    (hf : ∀ a, Q a → Meets (f a) C' R E) : Meets (x >>= f) C' R E :=
  (h.bind fun _ => hf).imp (iff_of_eq (true_and C')) (fun _ hb => hb) fun _ he => he

/-- A check that raises. -/
theorem guard {p : Prop} [Decidable p] {a : α} {e : ε} (hQ : p → Q a) (hE : ¬p → E e) :
    Meets (if p then .ok a else .error e) p Q E := by
  by_cases hp : p
  · rw [if_pos hp]
    exact ⟨hp, hQ hp⟩
  · rw [if_neg hp]
    exact ⟨hp, hE hp⟩

end Meets

/-- `x` ends with a value in `Q`, or raises an exception in `E`. -/
def Leaves (x : Except ε α) (Q : α → Prop) (E : ε → Prop) : Prop :=
  match x with
  | .ok a => Q a
  | .error e => E e

namespace Leaves

variable {x : Except ε α} {Q Q' : α → Prop} {R : β → Prop} {E : ε → Prop}

/-- Consequence. -/
theorem imp (h : Leaves x Q E) (hQ : ∀ a, Q a → Q' a) : Leaves x Q' E := by
  cases x with
  | ok a => exact hQ a h
  | error e => exact h

/-- **Composition.** -/
theorem bind {f : α → Except ε β} (h : Leaves x Q E) (hf : ∀ a, Q a → Leaves (f a) R E) :
    Leaves (x >>= f) R E := by
  cases x with
  | ok a => exact hf a h
  | error e => exact h

end Leaves
