/-
# Triples for programs that raise

`Raising.Triple P x Q E` : a run of `x` from a state with `P` ends with `Q` where it returns, and
with `E` where it raises.  There is one rule for each way to build a program.
-/
import ProcureSignal.Library.Raising

namespace Raising

variable {ε σ α β : Type} {P P' : σ → Prop} {Q Q' : α → σ → Prop} {E E' : ε → σ → Prop}
  {S : β → σ → Prop}

/-- What is asserted of the end of a run. -/
def Ends (Q : α → σ → Prop) (E : ε → σ → Prop) : Except ε α × σ → Prop
  | (.ok a, s) => Q a s
  | (.error e, s) => E e s

/-- Every run from `P` returns with `Q` or raises with `E`. -/
def Triple (P : σ → Prop) (x : Raising ε σ α) (Q : α → σ → Prop) (E : ε → σ → Prop) : Prop :=
  ∀ s, P s → Ends Q E (exec x s)

theorem Ends.mono {out : Except ε α × σ} (h : Ends Q E out) (hQ : ∀ a s, Q a s → Q' a s)
    (hE : ∀ e s, E e s → E' e s) : Ends Q' E' out := by
  obtain ⟨_ | a, s⟩ := out
  · exact hE _ s h
  · exact hQ a s h

/-- The rule of consequence. -/
theorem Triple.conseq {x : Raising ε σ α} (h : Triple P x Q E) (hP : ∀ s, P' s → P s)
    (hQ : ∀ a s, Q a s → Q' a s) (hE : ∀ e s, E e s → E' e s) : Triple P' x Q' E' :=
  fun s hs => (h s (hP s hs)).mono hQ hE

theorem triple_pure {a : α} (h : ∀ s, P s → Q a s) : Triple P (pure a : Raising ε σ α) Q E := h

theorem triple_throw {e : ε} (h : ∀ s, P s → E e s) : Triple P (throw e : Raising ε σ α) Q E := h

theorem triple_modify {f : σ → σ} {Q : PUnit → σ → Prop} (h : ∀ s, P s → Q ⟨⟩ (f s)) :
    Triple P (modify f : Raising ε σ PUnit) Q E := h

theorem triple_ite {c : Prop} [Decidable c] {x y : Raising ε σ α} (hx : c → Triple P x Q E)
    (hy : ¬ c → Triple P y Q E) : Triple P (if c then x else y) Q E := by
  split
  · exact hx ‹_›
  · exact hy ‹_›

/-- **A sequence.** -/
theorem triple_bind {x : Raising ε σ α} {f : α → Raising ε σ β} (hx : Triple P x Q E)
    (hf : ∀ a, Triple (Q a) (f a) S E) : Triple P (x >>= f) S E := by
  intro s hs
  rw [exec_bind]
  have hend := hx s hs
  generalize exec x s = out at hend
  obtain ⟨_ | a, s'⟩ := out
  · exact hend
  · exact hf a s' hend

/-- A program that looks at the state. -/
theorem triple_get_bind {f : σ → Raising ε σ β} (hf : ∀ s, Triple (fun t => t = s ∧ P t) (f s) S E) :
    Triple P (get >>= f) S E := by
  intro s hs
  rw [exec_bind, exec_get]
  exact hf s s ⟨rfl, hs⟩

/-- A computation without the state, and what follows from its value. -/
theorem triple_perform_bind {x : Except ε α} {f : α → Raising ε σ β}
    (hf : ∀ a, x = .ok a → Triple P (f a) S E)
    (herror : ∀ e s, x = .error e → P s → E e s) : Triple P (perform x >>= f) S E := by
  intro s hs
  rw [exec_bind, exec_perform]
  cases x with
  | error e => exact herror e s rfl hs
  | ok a => exact hf a rfl s hs

/-- **A handler** starts where the exception left the state. -/
theorem triple_tryCatch {x : Raising ε σ α} {handler : ε → Raising ε σ α} (hx : Triple P x Q E)
    (hhandler : ∀ e, Triple (E e) (handler e) Q E') : Triple P (tryCatch x handler) Q E' := by
  intro s hs
  rw [exec_tryCatch]
  have hend := hx s hs
  generalize exec x s = out at hend
  obtain ⟨e | a, s'⟩ := out
  · exact hhandler e s' hend
  · exact hend

/-- **A final clause** runs on every way out; where it raises, its exception is what comes out. -/
theorem triple_tryFinally {x : Raising ε σ α} {final : Raising ε σ β} {Q' : α → σ → Prop}
    (hx : Triple P x Q E) (hok : ∀ a, Triple (Q a) final (fun _ => Q' a) E')
    (herror : ∀ e, Triple (E e) final (fun _ => E' e) E') :
    Triple P (tryFinally x final) Q' E' := by
  intro s hs
  rw [exec_tryFinally]
  have hend := hx s hs
  generalize exec x s = out at hend
  obtain ⟨e | a, s'⟩ := out
  all_goals dsimp only
  · have hclosed := herror e s' hend
    generalize exec final s' = out at hclosed
    obtain ⟨e' | b, s''⟩ := out
    · exact hclosed
    · exact hclosed
  · have hclosed := hok a s' hend
    generalize exec final s' = out at hclosed
    obtain ⟨e' | b, s''⟩ := out
    · exact hclosed
    · exact hclosed

end Raising
