/-
# Durable spend

What a batch records of its LLM calls is written in the session that stores its articles,
so it becomes durable with them or not at all.

* `Spent` : the recorded and the charged tokens of a batch, phase by phase;
* `spend_durable_iff` : which batches leave the spend they were charged;
* `rollback_erases_spend` : a paid call and an exception at the next article.
-/
import ProcureSignal.Enrichment.Transitions

namespace ProcureSignal.Enrichment.Pipeline

variable {pl : EnrichmentPipeline} {claimOwner : Option ℕ} {rawArticles : List Candidate}
  {s₀ p q t : State} {l : Label} {tr : List (State × Label)} {days : Finset Day}

/-! ## Totals -/

/-- The tokens of a tenant on some days. -/
def spentOn (tenant : Option String) (days : Finset Day) (table : SpendTable) : ℤ :=
  ∑ d ∈ days, usedTokens (table (bucket tenant, d))

/-- The tokens charged for a call. -/
def Label.charge : Label → ℕ
  | .call response => response.usage
  | _ => 0

/-- The tokens charged for the calls of a batch. -/
def chargedTokens (tr : List (State × Label)) : ℕ := (tr.map (·.2.charge)).sum

/-- A call is accounted on one of the days. -/
def Label.Within (days : Finset Day) : Label → Prop
  | .settle _ today _ => today ∈ days
  | _ => True

instance (days : Finset Day) : DecidablePred (Label.Within days) := fun l =>
  match l with
  | .settle _ today _ => inferInstanceAs (Decidable (today ∈ days))
  | .select _ _ | .article _ _ _ | .call _ | .commit _ | .raise | .duplicate _ => .isTrue trivial

@[simp] theorem chargedTokens_cons (x : State × Label) (tr : List (State × Label)) :
    chargedTokens (x :: tr) = x.2.charge + chargedTokens tr := List.sum_cons

/-- An increment adds its tokens to the total of its tenant. -/
theorem spentOn_increment {r : Request} {today : Day} (hon : r.on = none)
    (hday : today ∈ days) (table : SpendTable) :
    spentOn r.tenant days (increment table r today) = spentOn r.tenant days table + r.tokens := by
  have hbucket : ∀ d, r.bucket today = (bucket r.tenant, d) ↔ today = d := by
    intro d
    simp [Request.bucket, hon]
  simp only [spentOn, usedTokens_increment, hbucket]
  rw [Finset.sum_add_distrib, Finset.sum_ite_eq, if_pos hday]

/-- Whether it exceeds the cap or not, what a call has used is recorded in the session. -/
theorem spentOn_recordSpend (table : SpendTable) (used : ℕ) (checked : Day) {today : Day}
    (hday : today ∈ days) :
    spentOn pl.tenant days (recordSpend pl table used checked today) =
      spentOn pl.tenant days table + used := by
  unfold recordSpend
  split
  · rename_i hused
    rw [hused, Nat.cast_zero, add_zero]
  · unfold consume
    by_cases hwithin :
      withinBudget pl.dailyBudget table ⟨pl.tenant, used, 1, none⟩ checked = true
    · simp only [if_pos hwithin]
      exact spentOn_increment rfl hday table
    · simp only [if_neg hwithin]
      exact spentOn_increment rfl hday table

/-! ## The invariant -/

/-- What has been charged and is not accounted yet. -/
def Phase.unaccounted : Phase → ℕ
  | .answered _ _ _ used _ => used
  | _ => 0

/-- While a batch is under way, nothing of it is durable. -/
structure Pending (tenant : Option String) (days : Finset Day) (s₀ : State)
    (tr : List (State × Label)) (s : State) : Prop where
  committed : s.database.spend = s₀.database.spend
  recorded : spentOn tenant days s.session.spend + s.phase.unaccounted =
    spentOn tenant days s₀.database.spend + chargedTokens tr
  unraised : ∀ x ∈ tr, x.2 ≠ .raise

/-- A batch is over: everything charged is durable, or an exception has been raised and
nothing is. -/
inductive Settled (tenant : Option String) (days : Finset Day) (s₀ : State)
    (tr : List (State × Label)) (s : State) : Prop
  | committed : spentOn tenant days s.database.spend =
        spentOn tenant days s₀.database.spend + chargedTokens tr →
      (∀ x ∈ tr, x.2 ≠ .raise) → Settled tenant days s₀ tr s
  | rolledBack : s.database.spend = s₀.database.spend →
      (∃ x ∈ tr, x.2 = .raise) →
      (∀ x ∈ tr, x.2 = .raise → x.1.run.charged = s₀.run.charged + chargedTokens tr) →
      Settled tenant days s₀ tr s

/-- The accounts of a batch that began in `s₀`. -/
structure Spent (tenant : Option String) (days : Finset Day) (s₀ : State)
    (tr : List (State × Label)) (s : State) : Prop where
  charged : s.run.charged = s₀.run.charged + chargedTokens tr
  pending : s.phase.Open → Pending tenant days s₀ tr s
  settled : ¬ s.phase.Open → Settled tenant days s₀ tr s

theorem Spent.initial (pl : EnrichmentPipeline) (database : Rows) (client : Option ℕ) :
    Spent pl.tenant days (State.initial pl database client) []
      (State.initial pl database client) where
  charged := rfl
  pending := fun _ => ⟨rfl, rfl, fun _ hx => absurd hx List.not_mem_nil⟩
  settled := fun hopen => absurd trivial hopen

/-- A step that neither charges nor raises nor ends the batch. -/
theorem Spent.of_open {tenant : Option String} (h : Spent tenant days s₀ tr p)
    (hp : p.phase.Open) (hq : q.phase.Open) (hl : l.charge = 0) (hraise : l ≠ .raise)
    (hcharged : q.run.charged = p.run.charged) (hdatabase : q.database = p.database)
    (hrecorded : spentOn tenant days q.session.spend + q.phase.unaccounted =
      spentOn tenant days p.session.spend + p.phase.unaccounted) :
    Spent tenant days s₀ ((p, l) :: tr) q where
  charged := by
    rw [chargedTokens_cons, hl, Nat.zero_add, hcharged]
    exact h.charged
  pending := fun _ => by
    obtain ⟨hcommitted, hrec, hunraised⟩ := h.pending hp
    refine ⟨hdatabase ▸ hcommitted, ?_, List.forall_mem_cons.mpr ⟨hraise, hunraised⟩⟩
    rw [chargedTokens_cons, hl, Nat.zero_add, hrecorded]
    exact hrec
  settled := fun hopen => absurd hq hopen

/-- Every step keeps the accounts. -/
theorem Spent.step (h : Spent pl.tenant days s₀ tr p) (hl : l.Within days)
    (hq : Pipeline.step pl claimOwner rawArticles p l = some q) :
    Spent pl.tenant days s₀ ((p, l) :: tr) q := by
  cases Transition.of_step hq with
  | select hphase hlength =>
      refine h.of_open (by rw [hphase]; trivial) trivial rfl (by simp) rfl rfl ?_
      rw [hphase]
      rfl
  | counted hphase hrun hspend =>
      refine h.of_open (by rw [hphase]; trivial) trivial rfl (by simp) hrun.charged rfl ?_
      rw [hphase, hspend]
      rfl
  | reserved hphase hrun =>
      refine h.of_open (by rw [hphase]; trivial) trivial rfl (by simp) hrun.charged rfl ?_
      rw [hphase]
      rfl
  | @call response raw analysis todo hphase =>
      obtain ⟨hcommitted, hrec, hunraised⟩ := h.pending (by rw [hphase]; trivial)
      refine ⟨?_, fun _ => ⟨hcommitted, ?_, ?_⟩, fun hopen => absurd trivial hopen⟩
      · show p.run.charged + response.usage = _
        rw [h.charged, chargedTokens_cons]
        simp only [Label.charge]
        omega
      · rw [hphase] at hrec
        simp only [Phase.unaccounted, Nat.cast_zero, add_zero] at hrec ⊢
        rw [hrec, chargedTokens_cons]
        simp only [Label.charge]
        push_cast
        omega
      · exact List.forall_mem_cons.mpr ⟨by simp, hunraised⟩
  | @settle checked today now raw analysis output used todo run rows hphase hrun hspend =>
      refine h.of_open (by rw [hphase]; trivial) trivial rfl (by simp) hrun.charged rfl ?_
      rw [hphase, hspend, spentOn_recordSpend _ _ _ hl]
      simp [Phase.unaccounted]
  | @commit acknowledged hphase =>
      obtain ⟨hcommitted, hrec, hunraised⟩ := h.pending (by rw [hphase]; trivial)
      rw [hphase] at hrec
      refine ⟨h.charged.trans (by simp [Label.charge]), fun hopen => ?_, fun _ => ?_⟩
      · cases acknowledged <;> exact absurd hopen not_false
      · refine .committed ?_ (List.forall_mem_cons.mpr ⟨by simp, hunraised⟩)
        simpa [Phase.unaccounted, Label.charge] using hrec
  | raise hopen =>
      obtain ⟨hcommitted, hrec, hunraised⟩ := h.pending hopen
      refine ⟨h.charged.trans (by simp [Label.charge]), fun hopen' => absurd hopen' not_false,
        fun _ => .rolledBack hcommitted ⟨_, List.mem_cons_self, rfl⟩ ?_⟩
      -- the only exception is the one raised now
      refine List.forall_mem_cons.mpr ⟨fun _ => ?_, fun x hx hraise => ?_⟩
      · simpa [Label.charge] using h.charged
      · exact absurd hraise (hunraised x hx)
  | duplicate =>
      have hcharge : ∀ row, chargedTokens ((p, .duplicate row) :: tr) = chargedTokens tr :=
        fun row => (chargedTokens_cons _ _).trans (Nat.zero_add _)
      refine ⟨h.charged.trans (by rw [hcharge]), fun hopen => ?_, fun hopen => ?_⟩
      · obtain ⟨hcommitted, hrec, hunraised⟩ := h.pending hopen
        exact ⟨hcommitted, by rw [hcharge]; exact hrec,
          List.forall_mem_cons.mpr ⟨by simp, hunraised⟩⟩
      · cases h.settled hopen with
        | committed hspent hunraised =>
            refine .committed ?_ (List.forall_mem_cons.mpr ⟨by simp, hunraised⟩)
            rw [hcharge]
            exact hspent
        | rolledBack hspent hraised hcharged =>
            obtain ⟨x, hx, hraise⟩ := hraised
            refine .rolledBack hspent ⟨x, List.mem_cons_of_mem _ hx, hraise⟩ ?_
            rw [hcharge]
            exact List.forall_mem_cons.mpr ⟨fun hraise => (nomatch hraise), hcharged⟩

theorem Spent.of_execution {G : State → Label → Prop} {database : Rows} {client : Option ℕ}
    (h : Execution (Pipeline.step pl claimOwner rawArticles) G
      (State.initial pl database client) tr t) (hdays : ∀ x ∈ tr, x.2.Within days) :
    Spent pl.tenant days (State.initial pl database client) tr t := by
  induction h with
  | nil => exact Spent.initial pl database client
  | snoc _ _ hq ih =>
      rw [List.forall_mem_cons] at hdays
      exact (ih hdays.2).step hdays.1 hq

/-! ## Durable spend -/

/-- **When spend is durable.**  Once a batch is over, the committed tokens of its days have
grown by what its calls were charged exactly when no exception was raised after the client
had charged something. -/
theorem spend_durable_iff {database : Rows} {client : Option ℕ}
    (h : Execution (Pipeline.step pl claimOwner rawArticles) unguarded
      (State.initial pl database client) tr t) (hover : ¬ t.phase.Open)
    (hdays : ∀ x ∈ tr, x.2.Within days) :
    spentOn pl.tenant days t.database.spend =
        spentOn pl.tenant days database.spend + chargedTokens tr ↔
      ∀ x ∈ tr, x.2 = .raise → x.1.run.charged = client.getD 0 := by
  have hinv := Spent.of_execution h hdays
  cases hinv.settled hover with
  | committed hspent hunraised =>
      exact iff_of_true hspent fun x hx hraise => absurd hraise (hunraised x hx)
  | rolledBack hspent hraised hcharged =>
      -- nothing is durable, so the totals agree when nothing was charged
      have hzero : spentOn pl.tenant days t.database.spend =
          spentOn pl.tenant days database.spend + chargedTokens tr ↔ chargedTokens tr = 0 := by
        rw [hspent]
        show spentOn pl.tenant days database.spend = _ ↔ _
        omega
      rw [hzero]
      have hstart : (State.initial pl database client).run.charged = client.getD 0 := rfl
      rw [hstart] at hcharged
      constructor
      · intro hnone x hx hraise
        rw [hcharged x hx hraise, hnone, add_zero]
      · intro hall
        obtain ⟨x, hx, hraise⟩ := hraised
        have hx' := hcharged x hx hraise
        rw [hall x hx hraise] at hx'
        omega

/-- Two articles the rules are unsure of. -/
private def unsure : List Candidate := [sampleCandidate 1 "first", sampleCandidate 2 "second"]

private def sample : EnrichmentPipeline := samplePipeline .default

/-- The first article: a call, its accounting and its row. -/
private def firstArticle : List Label :=
  [.select 0 0, .article 1 0 true, .call ⟨17, some (sampleOutput "first")⟩, .settle 1 1 0]

/-- The call for the first article is paid and recorded; the second article raises. -/
theorem rollback_erases_spend :
    ¬ ∀ tr t, Execution (Pipeline.step sample none unsure) unguarded
        (State.initial sample .empty none) tr t →
      ¬ t.phase.Open → (∀ x ∈ tr, x.2.Within {1}) →
      spentOn sample.tenant {1} t.database.spend =
        spentOn sample.tenant {1} Rows.empty.spend + chargedTokens tr := by
  intro hclaim
  obtain ⟨tr, t, hrun, hphase, hspent, hcharged, hdays⟩ :
      ∃ tr t, Execution (Pipeline.step sample none unsure) unguarded
          (State.initial sample .empty none) tr t ∧
        t.phase = .raised ∧ spentOn sample.tenant {1} t.database.spend = 0 ∧
          chargedTokens tr = 17 ∧ ∀ x ∈ tr, x.2.Within {1} :=
    Execution.exists_of_execute (firstArticle ++ [.raise]) (by decide +kernel)
      (fun _ _ => trivial)
  have hgrown := hclaim tr t hrun (by rw [hphase]; exact not_false) hdays
  rw [hspent, hcharged] at hgrown
  exact absurd hgrown (by decide)

/-- A batch of one article that returns. -/
theorem spend_durable_returned :
    ∃ tr t, Execution (Pipeline.step sample none [sampleCandidate 1 "first"]) unguarded
        (State.initial sample .empty none) tr t ∧ chargedTokens tr = 17 ∧
      spentOn sample.tenant {1} t.database.spend =
        spentOn sample.tenant {1} Rows.empty.spend + chargedTokens tr := by
  obtain ⟨tr, t, hrun, hphase, hcharged, hdays, hunraised⟩ :
      ∃ tr t, Execution (Pipeline.step sample none [sampleCandidate 1 "first"]) unguarded
          (State.initial sample .empty none) tr t ∧
        t.phase = .returned ⟨1, ⟨0, 0, 1, 0, 0, 0, 1, 1, 17, 0⟩, 0⟩ ∧ chargedTokens tr = 17 ∧
          (∀ x ∈ tr, x.2.Within {1}) ∧ ∀ x ∈ tr, x.2 ≠ .raise :=
    Execution.exists_of_execute (firstArticle ++ [.commit true]) (by decide +kernel)
      (fun _ _ => trivial)
  refine ⟨tr, t, hrun, hcharged, ?_⟩
  refine (spend_durable_iff hrun (by rw [hphase]; exact not_false) hdays).mpr ?_
  exact fun x hx hraise => absurd hraise (hunraised x hx)

end ProcureSignal.Enrichment.Pipeline
