/-
# The circuit of a source

The circuit breaker of `retrieval/audit.py`: one row for a source, which any number of owners
read and update.  A step is one statement with its commit, or a `SELECT` that decides alone.

* A request (`allow_circuit_request`) is decided by its `SELECT`, or else by the `UPDATE` of
  `claim_circuit_probe`.
* `record_circuit_failure` asks for the row first, to insert it where it is missing.
* A call works with a reading of the clock that may be old by the time it is used.

**Results**: `legal_of_execution` (which rows are reachable), `probe_exclusive`, `closes_of_step`,
`admitted_of_due`, and together `circuit_safe_and_live`.
-/
import ProcureSignal.Library.Execution
import ProcureSignal.Retrieval.Audit

namespace ProcureSignal.Retrieval.Circuit

/-! ## The row -/

/-- `CIRCUIT_THRESHOLD`. -/
def circuitThreshold : ℕ := 5

/-- `CIRCUIT_COOLDOWN`. -/
def circuitCooldown : ℤ := minutes 30

/-- `NewsRetrievalCircuit`. -/
structure NewsRetrievalCircuit where
  failureCount : ℕ
  openUntil : Option Instant
  probeOwner : Option String
  probeExpiresAt : Option Instant
  deriving DecidableEq, Repr

namespace NewsRetrievalCircuit

variable (c : NewsRetrievalCircuit) (owner : String) (now : Instant)

/-- A new row, and the values of `record_circuit_success`. -/
def closed : NewsRetrievalCircuit := ⟨0, none, none, none⟩

/-- The values of `record_circuit_failure`. -/
def fail : NewsRetrievalCircuit where
  failureCount := c.failureCount + 1
  openUntil :=
    if circuitThreshold ≤ c.failureCount + 1 then some (now + circuitCooldown) else c.openUntil
  probeOwner := none
  probeExpiresAt := none

/-- The condition of `claim_circuit_probe`. -/
def Claimable : Prop :=
  circuitThreshold ≤ c.failureCount ∧ (∃ u ∈ c.openUntil, u ≤ now) ∧
    (c.probeOwner = none ∨ ∃ e ∈ c.probeExpiresAt, e < now)

instance : Decidable (c.Claimable now) :=
  inferInstanceAs (Decidable (_ ∧ (∃ u ∈ c.openUntil, u ≤ now) ∧
    (_ ∨ ∃ e ∈ c.probeExpiresAt, e < now)))

/-- The values of `claim_circuit_probe`. -/
def claim : NewsRetrievalCircuit :=
  { c with
    probeOwner := some owner
    probeExpiresAt := some (now + leaseDuration) }

/-- The condition of `record_circuit_success`. -/
def Closable : Prop := c.probeOwner = some owner ∨ c.failureCount < 5

instance : Decidable (c.Closable owner) := inferInstanceAs (Decidable (_ ∨ _))

end NewsRetrievalCircuit

/-- What the `SELECT` of `allow_circuit_request` leads to. -/
inductive Decision
  | allow
  | deny
  | claim
  deriving DecidableEq, Repr

/-- `allow_circuit_request` up to the claim. -/
def decision (row : Option NewsRetrievalCircuit) (owner : String) (now : Instant) : Decision :=
  match row with
  | none => .allow
  | some c =>
      if c.failureCount < circuitThreshold then .allow
      else if ∃ u ∈ c.openUntil, now < u then .deny
      else if c.probeOwner = some owner ∧ ∃ e ∈ c.probeExpiresAt, now ≤ e then .allow
      else .claim

/-! ## The system -/

/-- The committed row, the requests before their claim, and the failures before their
`UPDATE` with what the `SELECT` saw. -/
structure State where
  clock : Instant
  circuit : Option NewsRetrievalCircuit
  requests : ℕ → Option (String × Instant)
  failures : ℕ → Option (Instant × Bool)

/-- No row, and nothing under way. -/
def State.initial (clock : Instant) : State := ⟨clock, none, fun _ => none, fun _ => none⟩

inductive Label
  | tick (t : Instant)
  /-- request `i` of an owner reads the row -/
  | request (i : ℕ) (owner : String) (now : Instant)
  /-- request `i` claims the probe -/
  | claim (i : ℕ)
  /-- `record_circuit_failure` `j` asks for the row -/
  | failureRead (j : ℕ) (now : Instant)
  /-- it inserts the row where it is missing, updates and commits -/
  | failureWrite (j : ℕ)
  /-- `record_circuit_success` -/
  | success (owner : String)
  deriving DecidableEq, Repr

/-- One step; a label that is not enabled yields `none`. -/
def step (s : State) : Label → Option State
  | .tick t => if s.clock ≤ t then some { s with clock := t } else none
  | .request i owner now =>
      if s.requests i = none ∧ now ≤ s.clock then
        match decision s.circuit owner now with
        | .claim => some { s with requests := Function.update s.requests i (some (owner, now)) }
        | _ => some s
      else none
  | .claim i =>
      match s.requests i with
      | some (owner, now) =>
          some { s with
            circuit := s.circuit.map fun c => if c.Claimable now then c.claim owner now else c
            requests := Function.update s.requests i none }
      | none => none
  | .failureRead j now =>
      if s.failures j = none ∧ now ≤ s.clock then
        some { s with failures := Function.update s.failures j (some (now, s.circuit.isSome)) }
      else none
  | .failureWrite j =>
      match s.failures j with
      | some (now, seen) =>
          some { s with
            circuit :=
              match s.circuit with
              | some c => some (c.fail now)
              -- an `UPDATE` without an `INSERT` before it finds no row
              | none => if seen then none else some (NewsRetrievalCircuit.closed.fail now)
            failures := Function.update s.failures j none }
      | none => none
  | .success owner =>
      some { s with
        circuit := s.circuit.map fun c => if c.Closable owner then .closed else c }

/-- The owner that a step admits. -/
def admits (s : State) : Label → Option String
  | .request _ owner now => if decision s.circuit owner now = .allow then some owner else none
  | .claim i =>
      (s.requests i).bind fun (owner, now) =>
        if ∃ c ∈ s.circuit, c.Claimable now then some owner else none
  | _ => none

/-- A step that records an outcome while `owner` has the probe; another owner's success updates
no row of an open circuit. -/
def RecordsOutcome (owner : String) : Label → Prop
  | .failureWrite _ => True
  | .success other => other = owner
  | _ => False

/-! ## Reachable rows -/

/-- The row is open exactly from the threshold on, and only an open row has a probe. -/
structure Legal (c : NewsRetrievalCircuit) : Prop where
  open_iff : c.openUntil.isSome = true ↔ circuitThreshold ≤ c.failureCount
  probe : c.probeOwner.isSome = true → circuitThreshold ≤ c.failureCount
  expiry : c.probeOwner.isSome = c.probeExpiresAt.isSome

theorem legal_closed : Legal .closed where
  open_iff := by decide
  probe := by decide
  expiry := rfl

theorem Legal.fail {c : NewsRetrievalCircuit} (h : Legal c) (now : Instant) :
    Legal (c.fail now) where
  open_iff := by
    show (if circuitThreshold ≤ c.failureCount + 1 then some (now + circuitCooldown)
      else c.openUntil).isSome = true ↔ circuitThreshold ≤ c.failureCount + 1
    split
    · rename_i hopen
      exact iff_of_true rfl hopen
    · rename_i hclosed
      rw [h.open_iff]
      omega
  probe := fun hprobe => absurd hprobe Bool.false_ne_true
  expiry := rfl

theorem Legal.claim {c : NewsRetrievalCircuit} (h : Legal c) {owner : String} {now : Instant}
    (hclaimable : c.Claimable now) : Legal (c.claim owner now) where
  open_iff := h.open_iff
  probe := fun _ => hclaimable.1
  expiry := rfl

variable {s t u : State} {l : Label} {tr : List (State × Label)}

/-- **What a step does to the row**: nothing, a failure, a claim, or a success. -/
theorem circuit_of_step (h : step s l = some t) :
    (∀ owner, ¬ RecordsOutcome owner l) ∧ t.circuit = s.circuit ∨
    (∃ j now, l = .failureWrite j ∧ (t.circuit = none ∧ s.circuit = none ∨
      ∃ c, (s.circuit = some c ∨ s.circuit = none ∧ c = .closed) ∧
        t.circuit = some (c.fail now))) ∨
    (∃ i owner now, l = .claim i ∧ s.requests i = some (owner, now) ∧
      t.circuit = s.circuit.map fun c => if c.Claimable now then c.claim owner now else c) ∨
    ∃ owner, l = .success owner ∧
      t.circuit = s.circuit.map fun c => if c.Closable owner then .closed else c := by
  cases l with
  | tick t' =>
      simp only [step] at h
      split at h
      · exact Or.inl ⟨fun _ => id, Option.some.inj h ▸ rfl⟩
      · exact absurd h (by simp)
  | request i owner now =>
      simp only [step] at h
      split at h
      · split at h
        all_goals exact Or.inl ⟨fun _ => id, Option.some.inj h ▸ rfl⟩
      · exact absurd h (by simp)
  | claim i =>
      simp only [step] at h
      split at h
      · rename_i owner now hrequest
        exact Or.inr (Or.inr (Or.inl ⟨i, owner, now, rfl, hrequest, Option.some.inj h ▸ rfl⟩))
      · exact absurd h (by simp)
  | failureRead j now =>
      simp only [step] at h
      split at h
      · exact Or.inl ⟨fun _ => id, Option.some.inj h ▸ rfl⟩
      · exact absurd h (by simp)
  | failureWrite j =>
      simp only [step] at h
      split at h
      · rename_i now seen hfailure
        refine Or.inr (Or.inl ⟨j, now, rfl, ?_⟩)
        rw [← Option.some.inj h]
        cases hcircuit : s.circuit with
        | some c => exact Or.inr ⟨c, Or.inl rfl, rfl⟩
        | none =>
            cases seen with
            | true => exact Or.inl ⟨rfl, rfl⟩
            | false => exact Or.inr ⟨.closed, Or.inr ⟨rfl, rfl⟩, rfl⟩
      · exact absurd h (by simp)
  | success owner =>
      exact Or.inr (Or.inr (Or.inr ⟨owner, rfl, Option.some.inj h ▸ rfl⟩))

/-- The row is legal, and no request is ahead of the clock. -/
structure Invariant (s : State) : Prop where
  legal : ∀ c ∈ s.circuit, Legal c
  requests : ∀ i, ∀ x ∈ s.requests i, x.2 ≤ s.clock

theorem legal_of_step (hs : ∀ c ∈ s.circuit, Legal c) (h : step s l = some t) :
    ∀ c ∈ t.circuit, Legal c := by
  intro c hc
  rcases circuit_of_step h with ⟨-, heq⟩ | ⟨j, now, -, hfail⟩ | ⟨i, owner, now, -, -, heq⟩ |
    ⟨owner, -, heq⟩
  · exact hs c (heq ▸ hc)
  · rcases hfail with ⟨hnone, -⟩ | ⟨d, hd, heq⟩
    · rw [hnone] at hc
      exact absurd hc (Option.not_mem_none c)
    · rw [heq] at hc
      obtain rfl := Option.some.inj hc
      rcases hd with hd | ⟨-, rfl⟩
      · exact (hs d hd).fail now
      · exact legal_closed.fail now
  · rw [heq] at hc
    obtain ⟨d, hd, rfl⟩ := Option.map_eq_some_iff.mp hc
    split
    · rename_i hclaimable
      exact (hs d hd).claim hclaimable
    · exact hs d hd
  · rw [heq] at hc
    obtain ⟨d, hd, rfl⟩ := Option.map_eq_some_iff.mp hc
    split
    · exact legal_closed
    · exact hs d hd

theorem clock_le_of_step (h : step s l = some t) : s.clock ≤ t.clock := by
  cases l with
  | tick t' =>
      simp only [step] at h
      split at h
      · rename_i hle
        exact Option.some.inj h ▸ hle
      · exact absurd h (by simp)
  | request i owner now =>
      simp only [step] at h
      split at h
      · split at h
        all_goals exact Option.some.inj h ▸ le_rfl
      · exact absurd h (by simp)
  | success owner => exact Option.some.inj h ▸ le_rfl
  | claim i | failureRead j now | failureWrite j =>
      simp only [step] at h
      split at h
      · exact Option.some.inj h ▸ le_rfl
      · exact absurd h (by simp)

/-- A request that waits for its claim was there, or has just read the clock. -/
theorem requests_of_step (h : step s l = some t) {i : ℕ} {x : String × Instant}
    (hx : x ∈ t.requests i) : x ∈ s.requests i ∨ x.2 ≤ s.clock := by
  have hupdate : ∀ j y, x ∈ Function.update s.requests j y i → x ∈ s.requests i ∨ x ∈ y := by
    intro j y hmem
    rw [Function.update_apply] at hmem
    split at hmem
    · exact Or.inr hmem
    · exact Or.inl hmem
  cases l with
  | request j owner now =>
      simp only [step] at h
      split at h
      · rename_i hready
        split at h
        · rw [← Option.some.inj h] at hx
          rcases hupdate _ _ hx with hold | hnew
          · exact Or.inl hold
          · rw [← Option.some.inj hnew]
            exact Or.inr hready.2
        · exact Or.inl (Option.some.inj h ▸ hx)
      · exact absurd h (by simp)
  | claim j =>
      simp only [step] at h
      split at h
      · rw [← Option.some.inj h] at hx
        rcases hupdate _ _ hx with hold | hnew
        · exact Or.inl hold
        · exact absurd hnew (Option.not_mem_none x)
      · exact absurd h (by simp)
  | success owner =>
      rw [← Option.some.inj h] at hx
      exact Or.inl hx
  | tick t' | failureRead j now | failureWrite j =>
      simp only [step] at h
      split at h
      · rw [← Option.some.inj h] at hx
        exact Or.inl hx
      · exact absurd h (by simp)

theorem Invariant.of_step (hs : Invariant s) (h : step s l = some t) : Invariant t where
  legal := legal_of_step hs.legal h
  requests i x hx := by
    have hclock := clock_le_of_step h
    rcases requests_of_step h hx with hold | hnew
    · exact (hs.requests i x hold).trans hclock
    · exact hnew.trans hclock

theorem invariant_of_execution {G : State → Label → Prop} (hs : Invariant s)
    (h : Execution step G s tr t) : Invariant t :=
  h.invariant hs fun _ _ _ hp _ hq => hp.of_step hq

/-! ## One probe at a time -/

/-- While a row has a probe and no outcome is recorded, a step leaves the row or comes after
the expiry. -/
theorem probe_of_step (hs : Invariant s) {c : NewsRetrievalCircuit} {owner : String}
    {e : Instant} (hcircuit : s.circuit = some c) (howner : c.probeOwner = some owner)
    (hexpiry : c.probeExpiresAt = some e) (houtcome : ¬ RecordsOutcome owner l)
    (h : step s l = some t) :
    (t.circuit = some c ∨ e < t.clock) ∧
      ∀ other ∈ admits s l, other ≠ owner → e < s.clock := by
  have hopen : circuitThreshold ≤ c.failureCount :=
    (hs.legal c hcircuit).probe (by rw [howner]; rfl)
  have hclaim : ∀ now, c.Claimable now → e < now := by
    intro now hclaimable
    rcases hclaimable.2.2 with hnone | ⟨e', he', hlt⟩
    · exact absurd (howner.symm.trans hnone) (by simp)
    · obtain rfl := Option.some.inj (hexpiry.symm.trans he')
      exact hlt
  constructor
  · rcases circuit_of_step h with ⟨-, heq⟩ | ⟨j, now, rfl, -⟩ | ⟨i, o, now, rfl, hrequest, heq⟩ |
      ⟨other, rfl, heq⟩
    · exact Or.inl (heq.trans hcircuit)
    · exact absurd trivial houtcome
    · by_cases hclaimable : c.Claimable now
      · right
        have hnow : now ≤ s.clock := hs.requests i (o, now) hrequest
        exact (hclaim now hclaimable).trans_le (hnow.trans (clock_le_of_step h))
      · left
        rw [heq, hcircuit, Option.map_some, if_neg hclaimable]
    · left
      have hclosable : ¬ c.Closable other := by
        rintro (hother | hfew)
        · exact houtcome (Option.some.inj (hother.symm.trans howner))
        · have hthreshold : (5 : ℕ) ≤ c.failureCount := hopen
          omega
      rw [heq, hcircuit, Option.map_some, if_neg hclosable]
  · intro other hadmits hne
    cases l with
    | request i o now =>
        have hadmit : decision s.circuit o now = .allow := by
          by_contra hnot
          simp [admits, hnot] at hadmits
        simp only [admits, hadmit, if_true, Option.mem_some_iff] at hadmits
        simp only [decision, hcircuit, if_neg (not_lt.mpr hopen)] at hadmit
        split at hadmit
        · exact absurd hadmit (by simp)
        split at hadmit
        · rename_i hown
          exact absurd (Option.some.inj (hown.1.symm.trans howner)) (hadmits ▸ hne)
        · exact absurd hadmit (by simp)
    | claim i =>
        obtain ⟨⟨o, now⟩, hrequest, hadmits⟩ := Option.bind_eq_some_iff.mp hadmits
        by_cases hclaimable : ∃ d ∈ s.circuit, d.Claimable now
        · obtain ⟨d, hd, hclaimable⟩ := hclaimable
          obtain rfl : c = d := Option.some.inj (hcircuit.symm.trans hd)
          exact (hclaim now hclaimable).trans_le (hs.requests i (o, now) hrequest)
        · dsimp only at hadmits
          rw [if_neg hclaimable] at hadmits
          exact absurd hadmits (by simp)
    | tick t' | failureRead j now | failureWrite j | success o =>
        exact absurd hadmits (Option.not_mem_none other)

/-- **One probe at a time.**  From a state in which an owner has the probe, as long as no
outcome is recorded, another owner is admitted only after the probe has expired. -/
theorem probe_exclusive (hs : Invariant s) {c : NewsRetrievalCircuit} {owner : String}
    {e : Instant} (hcircuit : s.circuit = some c) (howner : c.probeOwner = some owner)
    (hexpiry : c.probeExpiresAt = some e)
    (h : Execution step (fun _ l => ¬ RecordsOutcome owner l) s tr t) :
    ∀ x ∈ tr, ∀ other ∈ admits x.1 x.2, other ≠ owner → e < x.1.clock := by
  have hkept : ∀ p l q, (Invariant p ∧ (p.circuit = some c ∨ e < p.clock)) →
      ¬ RecordsOutcome owner l → step p l = some q →
      Invariant q ∧ (q.circuit = some c ∨ e < q.clock) := by
    rintro p l q ⟨hp, hrow | hlate⟩ houtcome hstep
    · exact ⟨hp.of_step hstep, (probe_of_step hp hrow howner hexpiry houtcome hstep).1⟩
    · exact ⟨hp.of_step hstep, Or.inr (hlate.trans_le (clock_le_of_step hstep))⟩
  rintro ⟨p, l⟩ hx other hadmits hne
  obtain ⟨tr₁, tr₂, q, -, hbefore, houtcome, hstep, -⟩ := h.exists_of_mem hx
  obtain ⟨hp, hrow | hlate⟩ := hbefore.invariant ⟨hs, Or.inl hcircuit⟩ hkept
  · exact (probe_of_step hp hrow howner hexpiry houtcome hstep).2 other hadmits hne
  · exact hlate

/-! ## Closing and admitting -/

/-- **Only the probe's owner closes an open row.** -/
theorem closes_of_step (h : step s l = some t) {c : NewsRetrievalCircuit}
    (hcircuit : s.circuit = some c) (hopen : circuitThreshold ≤ c.failureCount)
    (hcloses : ∀ d ∈ t.circuit, d.failureCount < circuitThreshold) :
    ∃ owner, l = .success owner ∧ c.probeOwner = some owner := by
  rcases circuit_of_step h with ⟨-, heq⟩ | ⟨j, now, -, hfail⟩ | ⟨i, o, now, -, -, heq⟩ |
    ⟨owner, hl, heq⟩
  · exact absurd (hcloses c (heq.trans hcircuit)) (not_lt.mpr hopen)
  · rcases hfail with ⟨-, hnone⟩ | ⟨d, hd, heq⟩
    · exact absurd (hcircuit.symm.trans hnone) (by simp)
    · rcases hd with hd | ⟨hnone, -⟩
      · obtain rfl := Option.some.inj (hcircuit.symm.trans hd)
        have hfew : c.failureCount + 1 < circuitThreshold := hcloses _ heq
        omega
      · exact absurd (hcircuit.symm.trans hnone) (by simp)
  · rw [hcircuit, Option.map_some] at heq
    have hfew := hcloses _ heq
    split at hfew
    all_goals exact absurd hfew (not_lt.mpr hopen)
  · refine ⟨owner, hl, ?_⟩
    by_contra hother
    have hclosable : ¬ c.Closable owner := by
      rintro (hown | hfew)
      · exact hother hown
      · have hthreshold : (5 : ℕ) ≤ c.failureCount := hopen
        omega
    rw [hcircuit, Option.map_some, if_neg hclosable] at heq
    exact absurd (hcloses c heq) (not_lt.mpr hopen)

/-- **The circuit never wedges.**  A request made when `open_until` has come and the lease of a
probe has expired is admitted, by its `SELECT` or by its claim. -/
theorem admitted_of_due (hs : ∀ c ∈ s.circuit, Legal c) {i : ℕ} {owner : String} {now : Instant}
    (hfree : s.requests i = none) (hnow : now ≤ s.clock)
    (hdue : ∀ c ∈ s.circuit, (∀ u ∈ c.openUntil, u ≤ now) ∧ ∀ e ∈ c.probeExpiresAt, e < now) :
    ∃ u, step s (.request i owner now) = some u ∧
      (admits s (.request i owner now) = some owner ∨
        admits u (.claim i) = some owner ∧ (step u (.claim i)).isSome = true) := by
  cases hdecision : decision s.circuit owner now with
  | allow =>
      refine ⟨s, ?_, Or.inl (if_pos hdecision)⟩
      simp only [step, if_pos (And.intro hfree hnow), hdecision]
  | deny =>
      simp only [decision] at hdecision
      split at hdecision
      · exact absurd hdecision (by simp)
      · rename_i c hcircuit
        split at hdecision
        · exact absurd hdecision (by simp)
        split at hdecision
        · rename_i hlate
          obtain ⟨u, hu, hlt⟩ := hlate
          exact absurd ((hdue c hcircuit).1 u hu) (not_le.mpr hlt)
        split at hdecision
        all_goals exact absurd hdecision (by simp)
  | claim =>
      refine ⟨{ s with requests := Function.update s.requests i (some (owner, now)) }, ?_,
        Or.inr ?_⟩
      · simp only [step, if_pos (And.intro hfree hnow), hdecision]
      simp only [decision] at hdecision
      split at hdecision
      · exact absurd hdecision (by simp)
      · rename_i c hcircuit
        split at hdecision
        · exact absurd hdecision (by simp)
        rename_i hfew
        have hopen : circuitThreshold ≤ c.failureCount := not_lt.mp hfew
        obtain ⟨until', huntil⟩ := Option.isSome_iff_exists.mp
          ((hs c hcircuit).open_iff.mpr hopen)
        have hexpired : c.probeOwner = none ∨ ∃ e ∈ c.probeExpiresAt, e < now := by
          cases hprobe : c.probeOwner with
          | none => exact Or.inl rfl
          | some o =>
              have hexpiry := (hs c hcircuit).expiry
              rw [hprobe] at hexpiry
              obtain ⟨e, he⟩ := Option.isSome_iff_exists.mp hexpiry.symm
              exact Or.inr ⟨e, he, (hdue c hcircuit).2 e he⟩
        have hclaimable : c.Claimable now :=
          ⟨hopen, ⟨until', huntil, (hdue c hcircuit).1 until' huntil⟩, hexpired⟩
        simp only [admits, step, Function.update_self, hcircuit, Option.bind_some]
        exact ⟨if_pos ⟨c, rfl, hclaimable⟩, rfl⟩

/-- **The circuit breaker.**  In every reachable state: `open_until` is set exactly when the
failures have reached the threshold; a probe owner is recorded only for an open row; while a
probe has no outcome, another owner is admitted only after its lease; the next step closes an
open row only if it is the success of the probe's owner; and a request that is due is
admitted. -/
theorem circuit_safe_and_live {start : Instant}
    (h : Execution step unguarded (State.initial start) tr t) :
    (∀ c ∈ t.circuit, (c.openUntil.isSome = true ↔ circuitThreshold ≤ c.failureCount) ∧
      (c.probeOwner.isSome = true → c.openUntil.isSome = true)) ∧
    (∀ c ∈ t.circuit, ∀ owner ∈ c.probeOwner, ∀ e ∈ c.probeExpiresAt, ∀ tr' u,
      Execution step (fun _ l => ¬ RecordsOutcome owner l) t tr' u →
        ∀ x ∈ tr', ∀ other ∈ admits x.1 x.2, other ≠ owner → e < x.1.clock) ∧
    (∀ c ∈ t.circuit, circuitThreshold ≤ c.failureCount → ∀ l u, step t l = some u →
      (∀ d ∈ u.circuit, d.failureCount < circuitThreshold) →
        ∃ owner, l = .success owner ∧ c.probeOwner = some owner) ∧
    ∀ i owner now, t.requests i = none → now ≤ t.clock →
      (∀ c ∈ t.circuit, (∀ u ∈ c.openUntil, u ≤ now) ∧ ∀ e ∈ c.probeExpiresAt, e < now) →
        ∃ u, step t (.request i owner now) = some u ∧
          (admits t (.request i owner now) = some owner ∨
            admits u (.claim i) = some owner ∧ (step u (.claim i)).isSome = true) := by
  have hinitial : Invariant (State.initial start) :=
    ⟨fun c hc => absurd hc (Option.not_mem_none c), fun i x hx => absurd hx (Option.not_mem_none x)⟩
  have ht : Invariant t := invariant_of_execution hinitial h
  refine ⟨fun c hc => ?_, ?_, ?_, ?_⟩
  · have hlegal := ht.legal c hc
    exact ⟨hlegal.open_iff, fun hprobe => hlegal.open_iff.mpr (hlegal.probe hprobe)⟩
  · intro c hc owner howner e he tr' u hrun
    exact probe_exclusive ht hc howner he hrun
  · intro c hc hopen l u hstep hcloses
    exact closes_of_step hstep hc hopen hcloses
  · intro i owner now hfree hnow hdue
    exact admitted_of_due ht.legal hfree hnow hdue

/-- Five failures, and half an hour later the probe of one owner. -/
def probing : List Label :=
  [.failureRead 0 0, .failureWrite 0, .failureRead 0 0, .failureWrite 0, .failureRead 0 0,
   .failureWrite 0, .failureRead 0 0, .failureWrite 0, .failureRead 0 0, .failureWrite 0,
   .tick (minutes 31), .request 0 "one" (minutes 31), .claim 0]

/-- The owner has the probe, and no other is admitted in the hour after. -/
theorem circuit_safe_and_live_probe :
    ∃ tr t, Execution step unguarded (State.initial 0) tr t ∧
      t.circuit = some ⟨5, some (minutes 30), some "one", some (minutes 96)⟩ ∧
      ∀ tr' u, Execution step (fun _ l => ¬ RecordsOutcome "one" l) t tr' u →
        ∀ x ∈ tr', ∀ other ∈ admits x.1 x.2, other ≠ "one" → minutes 96 < x.1.clock := by
  obtain ⟨tr, t, h, hcircuit⟩ : ∃ tr t, Execution step unguarded (State.initial 0) tr t ∧
      t.circuit = some ⟨5, some (minutes 30), some "one", some (minutes 96)⟩ := by
    refine Execution.exists_of_execute (P := fun _ (t : State) =>
      t.circuit = some ⟨5, some (minutes 30), some "one", some (minutes 96)⟩) probing ?_ ?_
    · exact ⟨_, rfl, by decide +kernel⟩
    · exact fun _ _ => trivial
  exact ⟨tr, t, h, hcircuit,
    (circuit_safe_and_live h).2.1 _ hcircuit "one" rfl (minutes 96) rfl⟩

end ProcureSignal.Retrieval.Circuit
