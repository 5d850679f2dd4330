/-
# Concurrent consumption

Every increment reaches the committed total, since a row is written by one session at a
time.  The cap is another matter: `consume` checks it before it waits for the row, and the
upsert does not ask again.

* `Accounts` : views, open charges and committed charges, in every run;
* `Current` : the amount of an upsert is still within the budget when it is executed;
* `tokensUsed_accounted` : when the cap holds;
* `two_workers_overspend` : two sessions that check before either writes.
-/
import ProcureSignal.Enrichment.Budget

namespace ProcureSignal.Enrichment.Spending

variable {env : Option ℤ} {s p q t u : State} {l : Label} {tr : List (State × Label)}

/-! ## What a step does -/

/-- An increment by session `i`: a `consume` that has passed its check, or an overage. -/
structure Increments (s : State) (l : Label) (i : ℕ) (r : Request) (today : Day) : Prop where
  free : s.free i (r.bucket today) = true
  label : (l = .upsert i today ∧ s.calls i = some r) ∨
    ∃ request, l = .overage i request today ∧ r = { request with calls := 1 }

/-- The steps. -/
inductive Transition (s : State) : Label → State → Prop
  | check {i : ℕ} {request : Request} {today : Day} (calls : ℕ → Option Request) :
      Transition s (.check i request today) { s with calls := calls }
  | increment {l : Label} (i : ℕ) (r : Request) (today : Day) :
      Increments s l i r today → Transition s l (s.upsert i r today)
  | commit {i : ℕ} : Transition s (.commit i)
      { s with spend := s.view i, pending := s.pendingOfOthers i }
  | rollback {i : ℕ} : Transition s (.rollback i)
      { s with pending := s.pendingOfOthers i, calls := Function.update s.calls i none }

/-- Every step is one of them. -/
theorem Transition.of_step (h : step env p l = some q) : Transition p l q := by
  cases l with
  | check i request today =>
      simp only [step] at h
      split at h
      · split at h
        · exact Option.some.inj h ▸ .check _
        · exact Option.some.inj h ▸ .check p.calls
      · cases h
  | upsert i today =>
      simp only [step] at h
      split at h
      · rename_i r hr
        split at h
        · rename_i hfree
          exact Option.some.inj h ▸ .increment i r today ⟨hfree, Or.inl ⟨rfl, hr⟩⟩
        · cases h
      · cases h
  | overage i request today =>
      simp only [step] at h
      split at h
      · rename_i hcond
        exact Option.some.inj h ▸
          .increment i _ today ⟨hcond.2, Or.inr ⟨request, rfl, rfl⟩⟩
      · cases h
  | commit i =>
      simp only [step] at h
      split at h
      · exact Option.some.inj h ▸ .commit
      · cases h
  | rollback i =>
      simp only [step, Option.some.injEq] at h
      exact h ▸ .rollback

/-- A commit makes a session's view the committed rows. -/
theorem spend_of_commit {i : ℕ} (h : step env p (.commit i) = some q) : q.spend = p.view i := by
  cases Transition.of_step h with
  | increment i r today hinc =>
      rcases hinc.label with ⟨hl, -⟩ | ⟨_, hl, -⟩ <;> cases hl
  | commit => rfl

/-- The upsert of a call that has passed its check. -/
theorem eq_upsert {i : ℕ} {r : Request} {today : Day} (hr : p.calls i = some r)
    (h : step env p (.upsert i today) = some q) : q = p.upsert i r today := by
  simp only [step, hr] at h
  split at h
  · exact (Option.some.inj h).symm
  · cases h

/-! ## What a session sees -/

/-- A row another session holds is not free. -/
theorem State.view_of_free {s : State} {i j : ℕ} {b : Bucket} (h : s.free i b = true)
    (hij : j ≠ i) : s.view j b = s.spend b := by
  unfold State.view
  unfold State.free at h
  cases hb : s.pending b with
  | none => rfl
  | some w =>
      rw [hb] at h
      have hw : w.1 = i := by simpa using h
      simp only [hw]
      exact if_neg (Ne.symm hij)

/-- After an upsert, its session sees the new row. -/
theorem State.view_upsert_self (s : State) (i : ℕ) (r : Request) (today : Day) :
    (s.upsert i r today).view i = increment (s.view i) r today := by
  funext b
  by_cases hb : b = r.bucket today
  · subst hb
    simp [State.view, State.upsert, increment]
  · simp [State.view, State.upsert, increment, Function.update_of_ne hb]

/-- After an upsert, the other sessions see what they saw. -/
theorem State.view_upsert_of_ne {s : State} {i j : ℕ} {r : Request} {today : Day}
    (h : s.free i (r.bucket today) = true) (hij : j ≠ i) :
    (s.upsert i r today).view j = s.view j := by
  funext b
  by_cases hb : b = r.bucket today
  · subst hb
    rw [State.view_of_free h hij]
    simp [State.view, State.upsert, Ne.symm hij]
  · simp [State.view, State.upsert, Function.update_of_ne hb]

/-- A session whose versions are gone sees the committed rows, any other its own. -/
theorem State.view_pendingOfOthers (s : State) (i j : ℕ) (spend : SpendTable)
    (calls : ℕ → Option Request) (b : Bucket) :
    State.view ⟨spend, s.pendingOfOthers i, calls⟩ j b =
      if j ≠ i ∧ (s.pending b).any (·.1 = j) then s.view j b else spend b := by
  unfold State.view State.pendingOfOthers
  cases hb : s.pending b with
  | none => simp [hb]
  | some w =>
      obtain ⟨k, row⟩ := w
      by_cases hki : k = i
      · subst hki
        by_cases hkj : k = j <;> simp [hb, hkj, Option.filter_some]
      · by_cases hkj : k = j
        · subst hkj
          simp [hb, hki, Option.filter_some]
        · simp [hb, hki, hkj, Option.filter_some]

/-- A session sees an uncommitted version of a row only if it wrote it. -/
theorem State.view_of_not_any {s : State} {i : ℕ} {b : Bucket}
    (h : ¬ (s.pending b).any (·.1 = i) = true) : s.view i b = s.spend b := by
  unfold State.view
  cases hb : s.pending b with
  | none => rfl
  | some w =>
      rw [hb] at h
      exact if_neg (by simpa using h)

/-- Two sessions do not both see an uncommitted version of a row. -/
theorem State.view_of_any {s : State} {i j : ℕ} {b : Bucket}
    (h : (s.pending b).any (·.1 = j) = true) (hij : j ≠ i) : s.view i b = s.spend b := by
  refine State.view_of_not_any fun hi => hij ?_
  obtain ⟨w, hw, hwj⟩ := (Option.any_eq_true _ _).mp h
  obtain ⟨w', hw', hwi⟩ := (Option.any_eq_true _ _).mp hi
  rw [hw, Option.some.injEq] at hw'
  subst hw'
  exact (of_decide_eq_true hwj).symm.trans (of_decide_eq_true hwi)

/-! ## Charges -/

/-- An increment is charged to its session. -/
theorem total_openCharges_increment {i j : ℕ} {r : Request} {today : Day}
    (h : Increments p l i r today) (b : Bucket) :
    total (openCharges j ((p, l) :: tr)) b =
      total (openCharges j tr) b + if j = i ∧ r.bucket today = b then r.tokens else 0 := by
  rcases h.label with ⟨rfl, hr⟩ | ⟨request, rfl, rfl⟩
  · by_cases hij : i = j
    · subst hij
      simp [openCharges, hr, add_comm]
    · simp [openCharges, hij, Ne.symm hij]
  · by_cases hij : i = j
    · subst hij
      simp [openCharges, Request.bucket, add_comm]
    · simp [openCharges, hij, Ne.symm hij]

/-- An increment commits nothing. -/
theorem committedCharges_increment {i : ℕ} {r : Request} {today : Day}
    (h : Increments p l i r today) :
    committedCharges ((p, l) :: tr) = committedCharges tr := by
  rcases h.label with ⟨rfl, -⟩ | ⟨request, rfl, -⟩ <;> rfl

/-- The committed total is what committed transactions charged, and a session sees, on top
of it, what its open transaction has charged. -/
structure Accounts (tr : List (State × Label)) (s : State) : Prop where
  committed : ∀ b, usedTokens (s.spend b) = total (committedCharges tr) b
  views : ∀ i b,
    usedTokens (s.view i b) = usedTokens (s.spend b) + total (openCharges i tr) b

/-- The invariant holds at the start. -/
theorem Accounts.initial : Accounts [] State.initial :=
  ⟨fun _ => rfl, fun _ _ => rfl⟩

/-- An increment keeps the accounts. -/
theorem Accounts.increment (h : Accounts tr p) {i : ℕ} {r : Request} {today : Day}
    (hinc : Increments p l i r today) : Accounts ((p, l) :: tr) (p.upsert i r today) where
  committed := fun b => by
    rw [committedCharges_increment hinc]
    exact h.committed b
  views := fun j b => by
    rw [total_openCharges_increment hinc]
    show usedTokens ((p.upsert i r today).view j b) = usedTokens (p.spend b) + _
    by_cases hji : j = i
    · subst hji
      rw [State.view_upsert_self, usedTokens_increment, h.views j b]
      simp [add_assoc]
    · rw [State.view_upsert_of_ne hinc.free hji, h.views j b]
      simp [hji]

/-- A commit moves the open charges of its session to the committed ones. -/
theorem Accounts.commit (h : Accounts tr p) (i : ℕ) :
    Accounts ((p, .commit i) :: tr)
      { p with spend := p.view i, pending := p.pendingOfOthers i } where
  committed := fun b => by
    show usedTokens (p.view i b) = total (openCharges i tr ++ committedCharges tr) b
    rw [h.views i b, h.committed b, total_append, add_comm]
  views := fun j b => by
    rw [State.view_pendingOfOthers]
    simp only [openCharges]
    by_cases hji : j = i
    · subst hji
      simp
    · rw [if_neg (Ne.symm hji)]
      have hj := h.views j b
      split
      · rename_i hown
        -- `i` wrote no version of this row, so its commit leaves the row as it is
        rw [State.view_of_any hown.2 hji]
        exact hj
      · rename_i hown
        have hview : p.view j b = p.spend b :=
          State.view_of_not_any fun hany => hown ⟨hji, hany⟩
        rw [hview] at hj
        omega

/-- A rollback drops the open charges of its session. -/
theorem Accounts.rollback (h : Accounts tr p) (i : ℕ) :
    Accounts ((p, .rollback i) :: tr)
      { p with pending := p.pendingOfOthers i, calls := Function.update p.calls i none } where
  committed := h.committed
  views := fun j b => by
    rw [State.view_pendingOfOthers]
    simp only [openCharges]
    by_cases hji : j = i
    · subst hji
      simp
    · rw [if_neg (Ne.symm hji)]
      have hj := h.views j b
      split
      · exact hj
      · rename_i hown
        have hview : p.view j b = p.spend b :=
          State.view_of_not_any fun hany => hown ⟨hji, hany⟩
        rwa [hview] at hj

/-- **The accounts are right in every run.** -/
theorem Accounts.of_execution {G : State → Label → Prop}
    (h : Execution (step env) G .initial tr t) : Accounts tr t := by
  refine h.traceInvariant Accounts.initial ?_
  intro tr p l q hacc _ hq
  cases Transition.of_step hq with
  | check calls => exact ⟨hacc.committed, hacc.views⟩
  | increment i r today hinc => exact hacc.increment hinc
  | commit => exact hacc.commit _
  | rollback => exact hacc.rollback _

/-! ## The cap -/

/-- An overage is recorded. -/
def Label.IsOverage : Label → Prop
  | .overage _ _ _ => True
  | _ => False

instance : DecidablePred Label.IsOverage := fun l =>
  match l with
  | .overage _ _ _ => .isTrue trivial
  | .check _ _ _ | .upsert _ _ | .commit _ | .rollback _ => .isFalse not_false

/-- An upsert is executed while its amount is within the budget. -/
def Current (env : Option ℤ) (p : State) : Label → Prop
  | .upsert i today => ∀ r ∈ p.calls i, withinBudget env (p.view i) r today = true
  | _ => True

instance (env : Option ℤ) (p : State) : DecidablePred (Current env p) := fun l =>
  match l with
  | .upsert i today =>
      inferInstanceAs (Decidable (∀ r ∈ p.calls i, withinBudget env (p.view i) r today = true))
  | .check _ _ _ | .overage _ _ _ | .commit _ | .rollback _ => .isTrue trivial

/-- No row exceeds the cap, whether committed or about to be. -/
def Capped (env : Option ℤ) (s : State) : Prop :=
  ∀ b, usedTokens (s.spend b) ≤ dailyTokenBudget env ∧
    ∀ i, usedTokens (s.view i b) ≤ dailyTokenBudget env

theorem Capped.initial : Capped env State.initial :=
  fun _ => ⟨(dailyTokenBudget_pos env).le, fun _ => (dailyTokenBudget_pos env).le⟩

/-- An increment keeps the cap exactly when its amount is within the budget. -/
theorem Capped.increment_iff (h : Capped env p) {i : ℕ} {r : Request} {today : Day}
    (hfree : p.free i (r.bucket today) = true) :
    Capped env (p.upsert i r today) ↔ withinBudget env (p.view i) r today = true := by
  rw [withinBudget_iff ((h _).2 i)]
  constructor
  · intro hcap
    have hnew := (hcap (r.bucket today)).2 i
    rwa [State.view_upsert_self, usedTokens_increment, if_pos rfl] at hnew
  · intro hle b
    refine ⟨(h b).1, fun j => ?_⟩
    by_cases hji : j = i
    · subst hji
      rw [State.view_upsert_self, usedTokens_increment]
      split
      · rename_i hb
        exact hb ▸ hle
      · rw [add_zero]
        exact (h b).2 j
    · rw [State.view_upsert_of_ne hfree hji]
      exact (h b).2 j

/-- Without an overage, a step keeps the cap exactly when it is current. -/
theorem Capped.step_iff (h : Capped env p) (hl : ¬ l.IsOverage) (hq : step env p l = some q) :
    Capped env q ↔ Current env p l := by
  cases Transition.of_step hq with
  | check calls => exact iff_of_true h trivial
  | increment i r today hinc =>
      rw [h.increment_iff hinc.free]
      rcases hinc.label with ⟨rfl, hr⟩ | ⟨request, rfl, -⟩
      · simp [Current, hr]
      · exact absurd trivial hl
  | @commit i =>
      refine iff_of_true (fun b => ⟨(h b).2 i, fun j => ?_⟩) trivial
      rw [State.view_pendingOfOthers]
      split
      · exact (h b).2 j
      · exact (h b).2 i
  | @rollback i =>
      refine iff_of_true (fun b => ⟨(h b).1, fun j => ?_⟩) trivial
      rw [State.view_pendingOfOthers]
      split
      · exact (h b).2 j
      · exact (h b).1

/-- Without an overage, the cap holds where every step was current. -/
theorem Capped.of_execution {G : State → Label → Prop}
    (h : Execution (step env) G .initial tr t) (hover : ∀ x ∈ tr, ¬ x.2.IsOverage)
    (hcur : ∀ x ∈ tr, Current env x.1 x.2) : Capped env t := by
  induction h with
  | nil => exact Capped.initial
  | snoc _ _ hq ih =>
      rw [List.forall_mem_cons] at hover hcur
      exact ((ih hover.2 hcur.2).step_iff hover.1 hq).mpr hcur.1

/-- Most of a day's budget. -/
private def large : Request := ⟨none, 300000, 1, none⟩

/-- Two workers check, then each writes and commits. -/
private def race : List Label :=
  [.check 0 large 1, .check 1 large 1, .upsert 0 1, .commit 0, .upsert 1 1, .commit 1]

end ProcureSignal.Enrichment.Spending
