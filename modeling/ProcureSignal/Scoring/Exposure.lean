/-
# The laws of the exposure score

`score_supplier` of `scoring/impact.py` in exact arithmetic, for any recency factor between
`0` and `1`: what the order of the events, a further event and the largest contribution do to
the score.

* `discountedTotal_eq` : the sum of the drivers is a discounted sum of their contributions;
* `contributions_eq_of_perm` : the drivers of a permutation have the same contributions;
* `exposure_laws` : **the laws of the score**.
-/
import ProcureSignal.Scoring.Impact
import ProcureSignal.Library.Discount

namespace ProcureSignal.Scoring

open Discount

/-! ## Contributions -/

/-- What is asked of a recency factor, for ages in half-lives. -/
structure RecencyFactor (decay : ℚ → ℚ) : Prop where
  pos : ∀ age, 0 ≤ age → 0 < decay age
  le_one : ∀ age, 0 ≤ age → decay age ≤ 1
  antitone : ∀ age age', 0 ≤ age → age ≤ age' → decay age' ≤ decay age

variable {decay : ℚ → ℚ} {now : Instant}

theorem severityWeight_nonneg (severity : String) : 0 ≤ severityWeight severity := by
  unfold severityWeight
  split_ifs <;> norm_num

theorem severityWeight_le_one (severity : String) : severityWeight severity ≤ 1 := by
  unfold severityWeight
  split_ifs <;> norm_num

/-- An age is not negative, whatever the time of publication. -/
theorem age_nonneg (publishedAt : Instant) :
    0 ≤ max 0 (((now - publishedAt : ℤ) : ℚ) / (days 1 : ℚ)) / halfLifeDays :=
  div_nonneg (le_max_left _ _) (by norm_num [halfLifeDays])

theorem recency_nonneg (h : RecencyFactor decay) (publishedAt : Instant) :
    0 ≤ recency decay publishedAt now :=
  le_of_lt (h.pos _ (age_nonneg publishedAt))

theorem recency_le_one (h : RecencyFactor decay) (publishedAt : Instant) :
    recency decay publishedAt now ≤ 1 :=
  h.le_one _ (age_nonneg publishedAt)

/-- **A contribution is between `0` and `1`**, for any severity, confidence and date. -/
theorem contribution_mem (h : RecencyFactor decay) (e : RiskEvent) :
    0 ≤ contribution decay e now ∧ contribution decay e now ≤ 1 := by
  have hweight := severityWeight_nonneg e.severity
  have hweight₁ := severityWeight_le_one e.severity
  have hrecency := @recency_nonneg decay now h e.publishedAt
  have hrecency₁ := @recency_le_one decay now h e.publishedAt
  have hconfidence : 0 ≤ min 1 (max 0 e.confidence) := le_min zero_le_one (le_max_left _ _)
  have hconfidence₁ : min 1 (max 0 e.confidence) ≤ 1 := min_le_left _ _
  have hproduct := mul_nonneg hweight hrecency
  have hproduct₁ := mul_le_one₀ hweight₁ hrecency hrecency₁
  exact ⟨mul_nonneg hproduct hconfidence, mul_le_one₀ hproduct₁ hconfidence hconfidence₁⟩

/-! ## Drivers -/

/-- The drivers of a score. -/
def driversOf (decay : ℚ → ℚ) (events : List RiskEvent) (now : Instant) : List Driver :=
  (events.map (driver decay now)).insertionSort driverLe

/-- The contributions of drivers. -/
def contributions (ds : List Driver) : List ℚ := ds.map (·.contribution)

/-- The sum of the drivers is a discounted sum. -/
theorem discountedTotal_eq (position : ℕ) (ds : List Driver) : discountedTotal position ds =
    corroborationDiscount ^ position * discounted corroborationDiscount (contributions ds) := by
  induction ds generalizing position with
  | nil => simp [discountedTotal, contributions]
  | cons d ds ih =>
      rw [discountedTotal, ih, show contributions (d :: ds) = d.contribution :: contributions ds
        from rfl, discounted_cons, pow_succ]
      ring

instance : Std.Total driverLe where
  total d d' := by
    rcases lt_trichotomy d.contribution d'.contribution with hlt | heq | hgt
    · exact Or.inr (Or.inl hlt)
    · rcases le_total d.eventKey d'.eventKey with hle | hle
      · exact Or.inl (Or.inr ⟨heq, hle⟩)
      · exact Or.inr (Or.inr ⟨heq.symm, hle⟩)
    · exact Or.inl (Or.inl hgt)

instance : IsTrans Driver driverLe where
  trans d d' d'' h h' := by
    rcases h with hlt | ⟨heq, hkey⟩
    · rcases h' with hlt' | ⟨heq', -⟩
      · exact Or.inl (hlt'.trans hlt)
      · exact Or.inl (heq' ▸ hlt)
    · rcases h' with hlt' | ⟨heq', hkey'⟩
      · exact Or.inl (heq ▸ hlt')
      · exact Or.inr ⟨heq.trans heq', hkey.trans hkey'⟩

/-- The drivers are the events, strongest first. -/
theorem driversOf_perm (decay : ℚ → ℚ) (events : List RiskEvent) (now : Instant) :
    (driversOf decay events now).Perm (events.map (driver decay now)) :=
  List.perm_insertionSort _ _

theorem pairwise_driversOf (decay : ℚ → ℚ) (events : List RiskEvent) (now : Instant) :
    (driversOf decay events now).Pairwise driverLe :=
  List.pairwise_insertionSort _ _

/-- The contributions descend. -/
theorem pairwise_contributions (decay : ℚ → ℚ) (events : List RiskEvent) (now : Instant) :
    (contributions (driversOf decay events now)).Pairwise (· ≥ ·) := by
  refine List.pairwise_map.mpr ((pairwise_driversOf decay events now).imp ?_)
  rintro d d' (hlt | ⟨heq, -⟩)
  · exact le_of_lt hlt
  · exact ge_of_eq heq

theorem contributions_perm (decay : ℚ → ℚ) (events : List RiskEvent) (now : Instant) :
    (contributions (driversOf decay events now)).Perm
      (events.map fun e => contribution decay e now) := by
  have hp := (driversOf_perm decay events now).map (·.contribution)
  rwa [List.map_map] at hp

/-- The drivers of a permutation have the same contributions. -/
theorem contributions_eq_of_perm {events events' : List RiskEvent} (hp : events.Perm events') :
    contributions (driversOf decay events now) = contributions (driversOf decay events' now) :=
  (((contributions_perm decay events now).trans (hp.map _)).trans
    (contributions_perm decay events' now).symm).eq_of_pairwise'
      (pairwise_contributions decay events now) (pairwise_contributions decay events' now)

/-- With distinct keys the order of the drivers is fixed as well. -/
theorem driversOf_eq_of_perm {events events' : List RiskEvent} (hp : events.Perm events')
    (hkeys : (events.map (·.eventKey)).Nodup) :
    driversOf decay events now = driversOf decay events' now := by
  have hperm : (driversOf decay events now).Perm (driversOf decay events' now) :=
    ((driversOf_perm decay events now).trans (hp.map _)).trans
      (driversOf_perm decay events' now).symm
  refine List.Perm.eq_of_pairwise ?_ (pairwise_driversOf decay events now)
    (pairwise_driversOf decay events' now) hperm
  intro d d' hd hd' hle hle'
  have hkey : d.eventKey = d'.eventKey := by
    rcases hle with hlt | ⟨heq, hkey⟩
    · rcases hle' with hlt' | ⟨heq', -⟩
      · exact absurd hlt' (not_lt_of_gt hlt)
      · exact absurd heq' (ne_of_lt hlt)
    · rcases hle' with hlt' | ⟨-, hkey'⟩
      · exact absurd heq.symm (ne_of_gt hlt')
      · exact le_antisymm hkey hkey'
  obtain ⟨e, he, rfl⟩ := List.mem_map.mp ((driversOf_perm decay events now).mem_iff.mp hd)
  obtain ⟨e', he', rfl⟩ := List.mem_map.mp
    ((driversOf_perm decay events now).mem_iff.mp (hperm.mem_iff.mpr hd'))
  rw [List.inj_on_of_nodup_map hkeys he he' hkey]

/-! ## The value -/

theorem corroborationDiscount_nonneg : 0 ≤ corroborationDiscount := by
  norm_num [corroborationDiscount]

theorem corroborationDiscount_le_one : corroborationDiscount ≤ 1 := by
  norm_num [corroborationDiscount]

/-- The normalised sum of the drivers. -/
def normalised (decay : ℚ → ℚ) (events : List RiskEvent) (now : Instant) : ℚ :=
  (1 - corroborationDiscount) *
    discounted corroborationDiscount (contributions (driversOf decay events now))

/-- The total over the largest possible one. -/
theorem discountedTotal_div (events : List RiskEvent) :
    discountedTotal 0 (driversOf decay events now) / maximumTotal =
      normalised decay events now := by
  rw [discountedTotal_eq, pow_zero, one_mul, normalised, maximumTotal, div_div_eq_mul_div,
    div_one, mul_comm]

/-- The score of some events. -/
theorem scoreSupplier_eq {events : List RiskEvent} (hne : events ≠ []) :
    scoreSupplier decay events now =
      ⟨min 1 (normalised decay events now), band (min 1 (normalised decay events now))
        ((driversOf decay events now).any fun d => d.riskType = sanctionsRiskType),
        driversOf decay events now⟩ := by
  rw [scoreSupplier, if_neg hne, ← discountedTotal_div]
  rfl

/-- The value, also of no event. -/
theorem value_scoreSupplier (events : List RiskEvent) :
    (scoreSupplier decay events now).value = min 1 (normalised decay events now) := by
  by_cases hne : events = []
  · subst hne
    rw [scoreSupplier, if_pos rfl]
    simp [normalised, driversOf, contributions]
  · rw [scoreSupplier_eq hne]

/-- **Between the largest contribution and its normalised share.** -/
theorem value_bounds (h : RecencyFactor decay) {events : List RiskEvent} (hne : events ≠ []) :
    ∃ e ∈ events, (∀ e' ∈ events, contribution decay e' now ≤ contribution decay e now) ∧
      (1 - corroborationDiscount) * contribution decay e now ≤
          (scoreSupplier decay events now).value ∧
        (scoreSupplier decay events now).value ≤ contribution decay e now := by
  obtain ⟨e, he, hmax⟩ : ∃ e ∈ events, ∀ e' ∈ events,
      contribution decay e' now ≤ contribution decay e now := by
    obtain ⟨e, he, hmax⟩ := events.toFinset.exists_max_image (contribution decay · now)
      (List.toFinset_nonempty_iff _ |>.mpr hne)
    exact ⟨e, List.mem_toFinset.mp he, fun e' he' => hmax e' (List.mem_toFinset.mpr he')⟩
  have hd := corroborationDiscount_nonneg
  have hd₁ := corroborationDiscount_le_one
  have hmem : ∀ x, x ∈ contributions (driversOf decay events now) ↔
      ∃ e' ∈ events, contribution decay e' now = x := by
    intro x
    rw [(contributions_perm decay events now).mem_iff, List.mem_map]
  have hnonneg : ∀ x ∈ contributions (driversOf decay events now), 0 ≤ x := by
    intro x hx
    obtain ⟨e', -, rfl⟩ := (hmem x).mp hx
    exact (contribution_mem h e').1
  have hle : ∀ x ∈ contributions (driversOf decay events now), x ≤ contribution decay e now := by
    intro x hx
    obtain ⟨e', he', rfl⟩ := (hmem x).mp hx
    exact hmax e' he'
  have hupper : normalised decay events now ≤ contribution decay e now :=
    mul_discounted_le hd hd₁ (contribution_mem h e).1 hle
  have hlower : (1 - corroborationDiscount) * contribution decay e now ≤
      normalised decay events now := by
    refine mul_le_mul_of_nonneg_left ?_ (sub_nonneg.mpr hd₁)
    cases hcs : contributions (driversOf decay events now) with
    | nil =>
        have hin := (hmem _).mpr ⟨e, he, rfl⟩
        rw [hcs] at hin
        cases hin
    | cons x xs =>
        -- the first contribution is the largest one
        have hfirst : contribution decay e now ≤ x := by
          have hin := (hmem _).mpr ⟨e, he, rfl⟩
          have hsorted := pairwise_contributions decay events now
          rw [hcs] at hin hsorted
          rcases List.mem_cons.mp hin with heq | hin
          · exact le_of_eq heq
          · exact (List.pairwise_cons.mp hsorted).1 _ hin
        rw [hcs] at hnonneg
        exact hfirst.trans (head_le_discounted hd fun y hy =>
          hnonneg y (List.mem_cons_of_mem _ hy))
  refine ⟨e, he, hmax, ?_, ?_⟩
  · rw [value_scoreSupplier]
    exact le_min ((hlower.trans hupper).trans (contribution_mem h e).2) hlower
  · rw [value_scoreSupplier]
    exact (min_le_right _ _).trans hupper

/-- The value is between `0` and `1`. -/
theorem value_mem (h : RecencyFactor decay) (events : List RiskEvent) :
    0 ≤ (scoreSupplier decay events now).value ∧
      (scoreSupplier decay events now).value ≤ 1 := by
  rw [value_scoreSupplier]
  refine ⟨le_min zero_le_one ?_, min_le_left _ _⟩
  refine mul_nonneg (sub_nonneg.mpr corroborationDiscount_le_one)
    (discounted_nonneg corroborationDiscount_nonneg fun x hx => ?_)
  rw [(contributions_perm decay events now).mem_iff] at hx
  obtain ⟨e, -, rfl⟩ := List.mem_map.mp hx
  exact (contribution_mem h e).1

/-- **An event more never lowers the value.** -/
theorem value_le_of_perm_cons (h : RecencyFactor decay) {events events' : List RiskEvent}
    {e : RiskEvent} (hp : events'.Perm (e :: events)) :
    (scoreSupplier decay events now).value ≤ (scoreSupplier decay events' now).value := by
  rw [value_scoreSupplier, value_scoreSupplier]
  refine min_le_min_left 1 (mul_le_mul_of_nonneg_left ?_
    (sub_nonneg.mpr corroborationDiscount_le_one))
  refine discounted_le_insert corroborationDiscount_nonneg corroborationDiscount_le_one
    (@contribution_mem decay now h e).1 (pairwise_contributions decay events' now) ?_
  refine List.Perm.trans ?_ (contributions_perm decay events' now).symm
  exact ((contributions_perm decay events now).cons _).trans
    (hp.map (contribution decay · now)).symm

/-! ## The band -/

/-- The bands, weakest first. -/
def bandRank (name : String) : ℕ :=
  if name = topBand then 3 else if name = "elevated" then 2 else if name = "low" then 1 else 0

/-- The band of a value. -/
theorem bandRank_band (value : ℚ) (sanctioned : Bool) : bandRank (band value sanctioned) =
    if sanctioned = true ∨ 1 / 2 ≤ value then 3
    else if 1 / 4 ≤ value then 2 else if 1 / 20 ≤ value then 1 else 0 := by
  cases sanctioned with
  | true =>
      rw [band, if_pos rfl, if_pos (Or.inl rfl)]
      decide
  | false =>
      simp only [band, bands, List.find?_cons, Bool.false_eq_true, if_false, false_or]
      by_cases h₁ : (1 : ℚ) / 2 ≤ value
      · simp only [h₁, decide_true, if_true]
        decide
      · by_cases h₂ : (1 : ℚ) / 4 ≤ value
        · simp only [h₁, h₂, decide_true, decide_false, if_true, if_false]
          decide
        · by_cases h₃ : (1 : ℚ) / 20 ≤ value
          · simp only [h₁, h₂, h₃, decide_true, decide_false, if_true, if_false]
            decide
          · simp only [h₁, h₂, h₃, decide_false, if_false, List.find?_nil]
            decide

/-- A larger value and a sanction more never weaken the band. -/
theorem bandRank_mono {value value' : ℚ} {sanctioned sanctioned' : Bool} (hvalue : value ≤ value')
    (hsanctioned : sanctioned = true → sanctioned' = true) :
    bandRank (band value sanctioned) ≤ bandRank (band value' sanctioned') := by
  have htop : sanctioned = true ∨ 1 / 2 ≤ value → sanctioned' = true ∨ 1 / 2 ≤ value' :=
    Or.imp hsanctioned fun h => h.trans hvalue
  have hmiddle : 1 / 4 ≤ value → 1 / 4 ≤ value' := fun h => h.trans hvalue
  have hlow : 1 / 20 ≤ value → 1 / 20 ≤ value' := fun h => h.trans hvalue
  rw [bandRank_band, bandRank_band]
  split_ifs <;> first | omega | tauto

/-- **An event more never weakens the band.** -/
theorem bandRank_le_of_perm_cons (h : RecencyFactor decay) {events events' : List RiskEvent}
    {e : RiskEvent} (hp : events'.Perm (e :: events)) :
    bandRank (scoreSupplier decay events now).band ≤
      bandRank (scoreSupplier decay events' now).band := by
  by_cases hne : events = []
  · subst hne
    rw [scoreSupplier, if_pos rfl, show bandRank noBand = 0 by decide]
    exact Nat.zero_le _
  · have hne' : events' ≠ [] := by
      rintro rfl
      cases hp.nil_eq
    have hvalue := @value_le_of_perm_cons decay now h _ _ _ hp
    rw [value_scoreSupplier, value_scoreSupplier] at hvalue
    rw [scoreSupplier_eq hne, scoreSupplier_eq hne']
    refine bandRank_mono hvalue fun hany => ?_
    obtain ⟨d, hd, hrisk⟩ := List.any_eq_true.mp hany
    refine List.any_eq_true.mpr ⟨d, ?_, hrisk⟩
    rw [(driversOf_perm decay events now).mem_iff] at hd
    rw [(driversOf_perm decay events' now).mem_iff]
    exact (hp.map _).mem_iff.mpr (List.mem_cons_of_mem _ hd)

/-- A permutation of the events. -/
theorem scoreSupplier_perm {events events' : List RiskEvent} (hp : events.Perm events') :
    (scoreSupplier decay events now).value = (scoreSupplier decay events' now).value ∧
      (scoreSupplier decay events now).band = (scoreSupplier decay events' now).band ∧
        (scoreSupplier decay events now).drivers.Perm
          (scoreSupplier decay events' now).drivers := by
  by_cases hne : events = []
  · subst hne
    obtain rfl := hp.nil_eq
    exact ⟨rfl, rfl, .refl _⟩
  · have hne' : events' ≠ [] := by
      rintro rfl
      exact hne hp.eq_nil
    have hvalue : normalised decay events now = normalised decay events' now := by
      rw [normalised, normalised, contributions_eq_of_perm hp]
    have hdrivers : (driversOf decay events now).Perm (driversOf decay events' now) :=
      ((driversOf_perm decay events now).trans (hp.map _)).trans
        (driversOf_perm decay events' now).symm
    rw [scoreSupplier_eq hne, scoreSupplier_eq hne', hvalue]
    refine ⟨rfl, ?_, hdrivers⟩
    dsimp only
    rw [hdrivers.any_eq]

/-! ## The laws -/

/-- **The laws of the exposure score**, for every recency factor, every list of events and
every time: the order of the events does not matter; the value lies between the largest
contribution and its normalised share; an event more lowers neither value nor band; and no
order of the drivers has a larger discounted sum than the one used. -/
theorem exposure_laws (h : RecencyFactor decay) (now : Instant) (events : List RiskEvent) :
    (∀ events', events.Perm events' →
      (scoreSupplier decay events now).value = (scoreSupplier decay events' now).value ∧
      (scoreSupplier decay events now).band = (scoreSupplier decay events' now).band ∧
      (scoreSupplier decay events now).drivers.Perm (scoreSupplier decay events' now).drivers ∧
      ((events.map (·.eventKey)).Nodup → (scoreSupplier decay events now).drivers =
        (scoreSupplier decay events' now).drivers)) ∧
    (events ≠ [] → ∃ e ∈ events,
      (∀ e' ∈ events, contribution decay e' now ≤ contribution decay e now) ∧
      (1 - corroborationDiscount) * contribution decay e now ≤
          (scoreSupplier decay events now).value ∧
        (scoreSupplier decay events now).value ≤ contribution decay e now) ∧
    (0 ≤ (scoreSupplier decay events now).value ∧
      (scoreSupplier decay events now).value ≤ 1) ∧
    (∀ e events', events'.Perm (e :: events) →
      (scoreSupplier decay events now).value ≤ (scoreSupplier decay events' now).value ∧
        bandRank (scoreSupplier decay events now).band ≤
          bandRank (scoreSupplier decay events' now).band) ∧
    (∀ ds, ds.Perm (scoreSupplier decay events now).drivers →
      discountedTotal 0 ds ≤ discountedTotal 0 (scoreSupplier decay events now).drivers) := by
  have hdrivers : (scoreSupplier decay events now).drivers = driversOf decay events now := by
    by_cases hne : events = []
    · subst hne
      rfl
    · rw [scoreSupplier_eq hne]
  refine ⟨fun events' hp => ?_, fun hne => value_bounds h hne, value_mem h events,
    fun e events' hp => ⟨value_le_of_perm_cons h hp, bandRank_le_of_perm_cons h hp⟩,
    fun ds hp => ?_⟩
  · obtain ⟨hvalue, hband, hperm⟩ := @scoreSupplier_perm decay now _ _ hp
    refine ⟨hvalue, hband, hperm, fun hkeys => ?_⟩
    by_cases hne : events = []
    · subst hne
      obtain rfl := hp.nil_eq
      rfl
    · have hne' : events' ≠ [] := by
        rintro rfl
        exact hne hp.eq_nil
      rw [scoreSupplier_eq hne, scoreSupplier_eq hne']
      exact driversOf_eq_of_perm hp hkeys
  · rw [hdrivers] at hp ⊢
    rw [discountedTotal_eq, discountedTotal_eq, pow_zero, one_mul, one_mul]
    exact discounted_le_of_perm corroborationDiscount_nonneg corroborationDiscount_le_one
      (pairwise_contributions decay events now) (hp.map _)

/-- A recency factor with rational values. -/
theorem recencyFactor_inv : RecencyFactor fun age => 1 / (1 + age) where
  pos age h := by positivity
  le_one age h := by
    rw [div_le_one (by linarith)]
    linarith
  antitone age age' h h' := one_div_le_one_div_of_le (by linarith) (by linarith)

/-- A future event of unknown severity and a designation with too much confidence. -/
theorem exposure_laws_acme :
    (scoreSupplier (fun age => 1 / (1 + age)) [designationOfAcme 0] 0).value ≤
      (scoreSupplier (fun age => 1 / (1 + age))
        [⟨"e2", "strike", "unheard of", 7, ["Acme"], ["p1"], "Entity", "eu", days 3⟩,
          designationOfAcme 0] 0).value :=
  ((exposure_laws recencyFactor_inv 0 [designationOfAcme 0]).2.2.2.1 _ _ (.refl _)).1

end ProcureSignal.Scoring
