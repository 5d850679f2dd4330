/-
# Guarded executions of a step function

A system is a partial step function `step : σ → ℓ → Option σ`: a label that is
not enabled in a state yields `none`.  `Execution step G s tr t` says that the
system goes from `s` to `t` by steps all of which meet the guard `G` (a
condition on the state before the step and on the label).  The trace `tr` lists
the state before each step together with its label, newest step first, so that
a property of the history ("some earlier step did …") can be stated of the
trace.

* `Execution.invariant` : the induction rule for a state property;
* `Execution.exists_of_mem` : a step of the trace splits the execution;
* `Execution.throughout_iff` : which steps keep a property of the history at every point;
* `execute`, `Execution.exists_of_execute` : running a list of labels, for concrete
  executions.
-/
import Mathlib

universe u v

variable {σ : Type u} {ℓ : Type v}

/-- `Execution step G s tr t`: the steps recorded in `tr` (newest first) lead
from `s` to `t`, and each of them meets the guard `G`. -/
inductive Execution (step : σ → ℓ → Option σ) (G : σ → ℓ → Prop) (s : σ) :
    List (σ × ℓ) → σ → Prop
  | nil : Execution step G s [] s
  | snoc {tr : List (σ × ℓ)} {t u : σ} {l : ℓ} :
      Execution step G s tr t → G t l → step t l = some u →
        Execution step G s ((t, l) :: tr) u

/-- The guard that every step meets. -/
def unguarded : σ → ℓ → Prop := fun _ _ => True

namespace Execution

variable {step : σ → ℓ → Option σ} {G : σ → ℓ → Prop} {s t u : σ}
  {tr tr' : List (σ × ℓ)}

/-- **Induction rule.**  A property that holds at the start and that every
guarded step preserves holds at the end. -/
theorem invariant {I : σ → Prop} (h : Execution step G s tr t) (hs : I s)
    (hstep : ∀ p l q, I p → G p l → step p l = some q → I q) : I t := by
  induction h with
  | nil => exact hs
  | snoc _ hG hq ih => exact hstep _ _ _ ih hG hq

/-- A property of the history together with the state, by induction on the
steps. -/
theorem traceInvariant {I : List (σ × ℓ) → σ → Prop} (h : Execution step G s tr t)
    (hs : I [] s)
    (hstep : ∀ tr p l q, I tr p → G p l → step p l = some q → I ((p, l) :: tr) q) :
    I tr t := by
  induction h with
  | nil => exact hs
  | snoc _ hG hq ih => exact hstep _ _ _ _ ih hG hq

/-- Executions compose. -/
theorem trans (h : Execution step G s tr t) (h' : Execution step G t tr' u) :
    Execution step G s (tr' ++ tr) u := by
  induction h' with
  | nil => exact h
  | snoc _ hG hq ih => exact ih.snoc hG hq

/-- A trace splits into two executions at each of its steps. -/
theorem of_append {p : σ} {l : ℓ} (h : Execution step G s (tr' ++ (p, l) :: tr) t) :
    ∃ q, Execution step G s tr p ∧ G p l ∧ step p l = some q ∧ Execution step G q tr' t := by
  induction tr' generalizing t with
  | nil =>
      cases h with
      | snoc h₀ hG hq => exact ⟨t, h₀, hG, hq, nil⟩
  | cons x tr' ih =>
      cases h with
      | snoc h₀ hG hq =>
          obtain ⟨q, h₁, hG₁, hq₁, h₂⟩ := ih h₀
          exact ⟨q, h₁, hG₁, hq₁, h₂.snoc hG hq⟩

/-- A step of the trace splits the execution at that step. -/
theorem exists_of_mem (h : Execution step G s tr t) {p : σ} {l : ℓ} (hm : (p, l) ∈ tr) :
    ∃ tr₁ tr₂ q, tr = tr₂ ++ (p, l) :: tr₁ ∧ Execution step G s tr₁ p ∧ G p l ∧
      step p l = some q ∧ Execution step G q tr₂ t := by
  obtain ⟨tr₂, tr₁, rfl⟩ := List.append_of_mem hm
  obtain ⟨q, h₁, hG, hq, h₂⟩ := h.of_append
  exact ⟨tr₁, tr₂, q, rfl, h₁, hG, hq, h₂⟩

/-- A property that holds at the start and that every guarded step preserves holds before
every step. -/
theorem forall_mem {I : σ → Prop} (h : Execution step G s tr t) (hs : I s)
    (hstep : ∀ p l q, I p → G p l → step p l = some q → I q) : ∀ x ∈ tr, I x.1 := by
  rintro ⟨p, l⟩ hx
  obtain ⟨tr₁, -, -, -, h₁, -, -, -⟩ := h.exists_of_mem hx
  exact h₁.invariant hs hstep

/-- A property of a state and of the steps that led to it holds at every point of a
run. -/
def Throughout (P : List (σ × ℓ) → σ → Prop) : List (σ × ℓ) → σ → Prop
  | [], t => P [] t
  | (p, l) :: tr, t => P ((p, l) :: tr) t ∧ Throughout P tr p

theorem Throughout.last {P : List (σ × ℓ) → σ → Prop} (h : Throughout P tr t) : P tr t := by
  cases tr with
  | nil => exact h
  | cons x tr => exact h.1

/-- **When a property holds throughout.**  If a step from a point where the property holds
keeps it exactly under a condition `Q`, then it holds at every point of a run exactly when
every step meets `Q`. -/
theorem throughout_iff {P : List (σ × ℓ) → σ → Prop} {Q : σ → ℓ → Prop}
    (h : Execution step G s tr t) (hs : P [] s)
    (hstep : ∀ tr p l q, Execution step G s tr p → Throughout P tr p → step p l = some q →
      (P ((p, l) :: tr) q ↔ Q p l)) :
    Throughout P tr t ↔ ∀ x ∈ tr, Q x.1 x.2 := by
  induction h with
  | nil => exact iff_of_true hs fun x hx => absurd hx List.not_mem_nil
  | snoc h₀ _ hq ih =>
      rw [List.forall_mem_cons, Throughout, ih]
      constructor
      · rintro ⟨hnew, hold⟩
        exact ⟨(hstep _ _ _ _ h₀ (ih.mpr hold) hq).mp hnew, hold⟩
      · rintro ⟨hnew, hold⟩
        exact ⟨(hstep _ _ _ _ h₀ (ih.mpr hold) hq).mpr hnew, hold⟩

end Execution

/-- Run a list of labels, oldest first. -/
def execute (step : σ → ℓ → Option σ) : σ → List ℓ → Option σ
  | s, [] => some s
  | s, l :: ls => (step s l).bind fun t => execute step t ls

/-- The trace left by running a list of labels, appended to what was already
recorded. -/
def traceOf (step : σ → ℓ → Option σ) : σ → List ℓ → List (σ × ℓ) → List (σ × ℓ)
  | _, [], tr => tr
  | s, l :: ls, tr =>
      match step s l with
      | some t => traceOf step t ls ((s, l) :: tr)
      | none => tr

/-- What was recorded stays recorded. -/
theorem mem_traceOf (step : σ → ℓ → Option σ) (s : σ) (ls : List ℓ) {tr : List (σ × ℓ)}
    {x : σ × ℓ} (hx : x ∈ tr) : x ∈ traceOf step s ls tr := by
  induction ls generalizing s tr with
  | nil => exact hx
  | cons l ls ih =>
      unfold traceOf
      split
      · exact ih _ (List.mem_cons_of_mem _ hx)
      · exact hx

/-- A list of labels that runs to the end, every step meeting the guard, is an
execution. -/
theorem Execution.of_execute_append {step : σ → ℓ → Option σ} {G : σ → ℓ → Prop} {s t u : σ}
    {tr : List (σ × ℓ)} (h : Execution step G s tr t) {ls : List ℓ}
    (he : execute step t ls = some u) (hG : ∀ x ∈ traceOf step t ls tr, G x.1 x.2) :
    Execution step G s (traceOf step t ls tr) u := by
  induction ls generalizing t tr with
  | nil =>
      simp only [execute, Option.some.injEq] at he
      exact he ▸ h
  | cons l ls ih =>
      simp only [execute, Option.bind_eq_some_iff] at he
      obtain ⟨q, hq, he⟩ := he
      simp only [traceOf, hq] at hG ⊢
      have hl : G t l := hG (t, l) (mem_traceOf step q ls List.mem_cons_self)
      exact ih (h.snoc hl hq) he hG

/-- **Concrete executions.**  What running a list of labels shows of the trace and of the
state at its end, an execution shows. -/
theorem Execution.exists_of_execute {step : σ → ℓ → Option σ} {G : σ → ℓ → Prop} {s : σ}
    {P : List (σ × ℓ) → σ → Prop} (ls : List ℓ)
    (he : ∃ t ∈ execute step s ls, P (traceOf step s ls []) t)
    (hG : ∀ x ∈ traceOf step s ls [], G x.1 x.2) :
    ∃ tr t, Execution step G s tr t ∧ P tr t := by
  obtain ⟨t, ht, hP⟩ := he
  exact ⟨_, t, Execution.nil.of_execute_append ht hG, hP⟩

/-- A trace at one of its steps. -/
theorem trace_split {α : Type} {tr : List α} {k : ℕ} {x : α} (h : tr[k]? = some x) :
    tr = tr.take k ++ x :: tr.drop (k + 1) := by
  obtain ⟨hk, rfl⟩ := List.getElem?_eq_some_iff.mp h
  rw [← List.drop_eq_getElem_cons, List.take_append_drop]
