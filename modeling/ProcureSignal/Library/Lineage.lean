/-
# Lineages of single-use keys

A store holds rows under keys; every row belongs to a family and is live or dead.  A
change of the store may kill rows and may add one row, which either founds a family or
replaces a live row of its own family (`Renewal`).

* `SingleLive` : a family has at most one live row;
* `DeadFamily` : a family that occurs and has no live row.

Both survive every renewal, and a dead row stays dead.
-/
import Mathlib

universe u v w

namespace Lineage

variable {κ : Type u} {ρ : Type v} {φ : Type w} {family : ρ → φ} {live : ρ → Prop}
  {T T' : κ → Option ρ}

/-- `r'` is `r` after some changes: of the same family, and live only if `r` was. -/
structure Later (family : ρ → φ) (live : ρ → Prop) (r r' : ρ) : Prop where
  family_eq : family r' = family r
  live_of : live r' → live r

theorem Later.refl (r : ρ) : Later family live r r := ⟨rfl, id⟩

/-- The rows of `T` are still in `T'`. -/
def Keeps (family : ρ → φ) (live : ρ → Prop) (T T' : κ → Option ρ) : Prop :=
  ∀ k r, T k = some r → ∃ r', T' k = some r' ∧ Later family live r r'

/-- A live row was live before, or was just added. -/
theorem Keeps.live_before (h : Keeps family live T T') {k : κ} {r' : ρ} (hr' : T' k = some r')
    (hlive : live r') :
    (∃ r, T k = some r ∧ live r ∧ family r' = family r) ∨ T k = none := by
  cases hr : T k with
  | none => exact Or.inr rfl
  | some r =>
      obtain ⟨r'', hr'', hlater⟩ := h k r hr
      rw [hr', Option.some.injEq] at hr''
      subst hr''
      exact Or.inl ⟨r, rfl, hlater.live_of hlive, hlater.family_eq⟩

/-- A dead row stays dead. -/
theorem Keeps.dead (h : Keeps family live T T') {k : κ} (hdead : ∃ r, T k = some r ∧ ¬ live r) :
    ∃ r', T' k = some r' ∧ ¬ live r' := by
  obtain ⟨r, hr, hnot⟩ := hdead
  obtain ⟨r', hr', hlater⟩ := h k r hr
  exact ⟨r', hr', fun hlive => hnot (hlater.live_of hlive)⟩

variable [DecidableEq κ]

/-- One change of the store. -/
inductive Renewal (family : ρ → φ) (live : ρ → Prop) (T T' : κ → Option ρ) : Prop
  /-- rows may die -/
  | retire (old : Keeps family live T T') (new : ∀ k, T k = none → T' k = none)
  /-- a row founds a family -/
  | found (key : κ) (row : ρ) (old : Keeps family live T T') (free : T key = none)
      (new : ∀ k, T k = none → T' k = if k = key then some row else none)
      (fresh : ∀ k r, T k = some r → family r ≠ family row)
  /-- a row replaces a live row of its family -/
  | exchange (parent key : κ) (row r r' : ρ) (old : Keeps family live T T') (free : T key = none)
      (new : ∀ k, T k = none → T' k = if k = key then some row else none)
      (alive : T parent = some r) (hlive : live r) (dead : T' parent = some r')
      (hdead : ¬ live r') (inherits : family row = family r)

/-- A renewal keeps the rows. -/
theorem Renewal.keeps (h : Renewal family live T T') : Keeps family live T T' := by
  cases h with
  | retire old new => exact old
  | found key row old free new fresh => exact old
  | exchange parent key row r r' old free new alive hlive dead hdead inherits => exact old

/-- The store without a change. -/
theorem Renewal.refl (T : κ → Option ρ) : Renewal family live T T :=
  .retire (fun _ r hr => ⟨r, hr, .refl r⟩) fun _ h => h

/-- At most one row is added. -/
theorem Renewal.added_eq (h : Renewal family live T T') {k₁ k₂ : κ} {r₁ r₂ : ρ}
    (hn₁ : T k₁ = none) (h₁ : T' k₁ = some r₁) (hn₂ : T k₂ = none) (h₂ : T' k₂ = some r₂) :
    k₁ = k₂ := by
  have hadded : ∀ key row, (∀ k, T k = none → T' k = if k = key then some row else none) →
      k₁ = key ∧ k₂ = key := by
    intro key row new
    rw [new k₁ hn₁] at h₁
    rw [new k₂ hn₂] at h₂
    constructor
    · by_contra hne
      rw [if_neg hne] at h₁
      cases h₁
    · by_contra hne
      rw [if_neg hne] at h₂
      cases h₂
  cases h with
  | retire old new =>
      rw [new k₁ hn₁] at h₁
      cases h₁
  | found key row old free new fresh =>
      obtain ⟨hk₁, hk₂⟩ := hadded key row new
      exact hk₁.trans hk₂.symm
  | exchange parent key row p p' old free new alive hplive dead hdead inherits =>
      obtain ⟨hk₁, hk₂⟩ := hadded key row new
      exact hk₁.trans hk₂.symm

/-! ## At most one live row -/

/-- A family has at most one live row. -/
def SingleLive (family : ρ → φ) (live : ρ → Prop) (T : κ → Option ρ) : Prop :=
  ∀ k₁ k₂ r₁ r₂, T k₁ = some r₁ → T k₂ = some r₂ → live r₁ → live r₂ →
    family r₁ = family r₂ → k₁ = k₂

/-- An added row and an old live row of its family do not meet. -/
private theorem no_other_live (h : Renewal family live T T') (hs : SingleLive family live T)
    {k₁ k₂ : κ} {r₁ r₂ : ρ} (h₁ : T' k₁ = some r₁) (h₂ : T' k₂ = some r₂) (hlive₁ : live r₁)
    (hold : ∃ r, T k₁ = some r ∧ live r ∧ family r₁ = family r) (hnew : T k₂ = none)
    (hfamily : family r₁ = family r₂) : False := by
  obtain ⟨r, hr, hlive, heq⟩ := hold
  cases h with
  | retire old new =>
      rw [new k₂ hnew] at h₂
      cases h₂
  | found key row old free new fresh =>
      rw [new k₂ hnew] at h₂
      split at h₂
      · rw [Option.some.injEq] at h₂
        exact fresh k₁ r hr (by rw [← heq, hfamily, h₂])
      · cases h₂
  | exchange parent key row p p' old free new alive hplive dead hdead inherits =>
      rw [new k₂ hnew] at h₂
      split at h₂
      · rw [Option.some.injEq] at h₂
        -- the old live row could only be the parent, which is dead now
        have hparent : k₁ = parent :=
          hs k₁ parent r p hr alive hlive hplive (by rw [← heq, hfamily, ← h₂, inherits])
        rw [hparent, dead, Option.some.injEq] at h₁
        exact hdead (h₁ ▸ hlive₁)
      · cases h₂

/-- **A renewal keeps every family to one live row.** -/
theorem SingleLive.renewal (hs : SingleLive family live T) (h : Renewal family live T T') :
    SingleLive family live T' := by
  intro k₁ k₂ r₁ r₂ h₁ h₂ hlive₁ hlive₂ hfamily
  rcases h.keeps.live_before h₁ hlive₁ with hold₁ | hnew₁
  · rcases h.keeps.live_before h₂ hlive₂ with hold₂ | hnew₂
    · obtain ⟨p₁, hp₁, hl₁, heq₁⟩ := hold₁
      obtain ⟨p₂, hp₂, hl₂, heq₂⟩ := hold₂
      exact hs k₁ k₂ p₁ p₂ hp₁ hp₂ hl₁ hl₂ (by rw [← heq₁, hfamily, heq₂])
    · exact (no_other_live h hs h₁ h₂ hlive₁ hold₁ hnew₂ hfamily).elim
  · rcases h.keeps.live_before h₂ hlive₂ with hold₂ | hnew₂
    · exact (no_other_live h hs h₂ h₁ hlive₂ hold₂ hnew₁ hfamily.symm).elim
    · exact h.added_eq hnew₁ h₁ hnew₂ h₂

/-! ## Dead families -/

/-- The family occurs and none of its rows is live. -/
def DeadFamily (family : ρ → φ) (live : ρ → Prop) (f : φ) (T : κ → Option ρ) : Prop :=
  (∃ k r, T k = some r ∧ family r = f) ∧ ∀ k r, T k = some r → family r = f → ¬ live r

omit [DecidableEq κ] in
/-- A dead family stays dead while no row is added to it. -/
theorem DeadFamily.keeps {f : φ} (hd : DeadFamily family live f T) (h : Keeps family live T T')
    (hnew : ∀ k r', T k = none → T' k = some r' → family r' ≠ f) :
    DeadFamily family live f T' := by
  obtain ⟨⟨k₀, r₀, hr₀, hf₀⟩, hnone⟩ := hd
  constructor
  · obtain ⟨r', hr', hlater⟩ := h k₀ r₀ hr₀
    exact ⟨k₀, r', hr', hlater.family_eq.trans hf₀⟩
  · intro k r' hr' hf hlive
    rcases h.live_before hr' hlive with ⟨r, hr, hlive', heq⟩ | hfree
    · exact hnone k r hr (heq ▸ hf) hlive'
    · exact hnew k r' hfree hr' hf

/-- **A dead family stays dead.** -/
theorem DeadFamily.renewal {f : φ} (hd : DeadFamily family live f T)
    (h : Renewal family live T T') : DeadFamily family live f T' := by
  refine hd.keeps h.keeps ?_
  intro k r' hfree hr' hf
  obtain ⟨⟨k₀, r₀, hr₀, hf₀⟩, hnone⟩ := hd
  cases h with
  | retire old new =>
      rw [new k hfree] at hr'
      cases hr'
  | found key row old free new fresh =>
      rw [new k hfree] at hr'
      split at hr'
      · rw [Option.some.injEq] at hr'
        exact fresh k₀ r₀ hr₀ (by rw [hf₀, hr', hf])
      · cases hr'
  | exchange parent key row p p' old free new alive hplive dead hdead inherits =>
      rw [new k hfree] at hr'
      split at hr'
      · rw [Option.some.injEq] at hr'
        exact hnone parent p alive (by rw [← inherits, hr', hf]) hplive
      · cases hr'

end Lineage
