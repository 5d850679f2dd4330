/-
# Who answers to an alias

Every alias row has one holder, and resolution answers with it as long as it is active.
A merge moves the aliases of the merged supplier to the survivor, so an alias keeps its
row for good; what can go wrong is that the supplier it is moved to, or added to, is
inactive.

* `Answers` : a key resolves to exactly one supplier, which is active;
* `activeHolders_accept_iff` : the requests that keep every holder active;
* `aliases_answer_iff` : in a run every alias ever registered keeps resolving exactly
  when every request of the run is of these;
* `merge_back_silences` : merging two suppliers into each other.
-/
import ProcureSignal.Suppliers.Router
import ProcureSignal.Suppliers.System

namespace ProcureSignal.Suppliers

variable (U : Unicode)

/-! ## Holders -/

/-- A supplier holds an alias. -/
def Holds (db : Database) (key : String) (supplierId : ℕ) : Prop :=
  ∃ a ∈ db.aliases.values, a.normalizedAlias = key ∧ a.supplierId = supplierId

/-- A stored supplier is active. -/
def Active (db : Database) (supplierId : ℕ) : Prop :=
  ∃ s, db.suppliers.find? supplierId = some s ∧ s.isActive = true

/-- **An alias resolves to exactly one supplier, and that supplier is active**: one
supplier holds it, and every spelling with this normal form resolves to it. -/
def Answers (db : Database) (key : String) : Prop :=
  ∃ i s, db.suppliers.find? i = some s ∧ s.isActive = true ∧ (∀ j, Holds db key j ↔ j = i) ∧
    ∀ spelling, normalize U spelling = key →
      resolve U db spelling = ⟨spelling, some i, some s.publicId, exactMatchConfidence⟩

/-- Every alias is held by an active supplier. -/
def ActiveHolders (db : Database) : Prop := ∀ key i, Holds db key i → Active db i

/-- No stored alias is empty. -/
def NonemptyKeys (db : Database) : Prop := ∀ i, ¬ Holds db "" i

/-- An alias has one holder. -/
theorem Holds.unique {db : Database} {key : String} {i j : ℕ} (hi : Holds db key i)
    (hj : Holds db key j) : i = j := by
  obtain ⟨a, ha, hka, rfl⟩ := hi
  obtain ⟨b, hb, hkb, rfl⟩ := hj
  obtain ⟨m, hm⟩ := Table.mem_values.mp ha
  obtain ⟨n, hn⟩ := Table.mem_values.mp hb
  have heq := UniqueTable.eq_of_unique (t := db.aliases) List.mem_cons_self hm hn
    (congrArg some hka) (congrArg some hkb)
  rw [(Prod.mk.inj heq).2]

/-- An alias answers when its holder is active. -/
theorem answers_of_active {db : Database} (hkeys : NonemptyKeys db) {key : String} {i : ℕ}
    (hholds : Holds db key i) (hactive : Active db i) : Answers U db key := by
  obtain ⟨s, hs, hact⟩ := hactive
  refine ⟨i, s, hs, hact, ?_, ?_⟩
  · intro j
    constructor
    · intro hj
      exact hj.unique hholds
    · rintro rfl
      exact hholds
  · intro spelling hspelling
    obtain ⟨a, ha, hka, rfl⟩ := hholds
    have hne : normalize U spelling ≠ "" := by
      intro hempty
      exact hkeys a.supplierId ⟨a, ha, by rw [hka, ← hspelling, hempty], rfl⟩
    have hanswer := answering_of_mem ha hs hact
    rw [hka, ← hspelling] at hanswer
    rw [resolve_eq_resolutionOf]
    exact publicId_resolutionOf U hne hanswer

/-- The holder of an alias that answers is active. -/
theorem active_of_answers {db : Database} {key : String} (h : Answers U db key) {i : ℕ}
    (hholds : Holds db key i) : Active db i := by
  obtain ⟨j, s, hs, hact, hiff, -⟩ := h
  have hij := (hiff i).mp hholds
  subst hij
  exact ⟨s, hs, hact⟩

/-! ## One request -/

/-- The suppliers a request works on are such that no alias ends up on an inactive one:
an alias with a normal form goes to an active supplier, and a supplier that holds an
alias is merged into an active one. -/
def KeepsHolders (db : Database) : Request → Prop
  | .createSupplier _ _ _ _ => True
  | .createAlias publicId aliasName =>
      ∀ r ∈ db.suppliers.rows, r.2.publicId = publicId → normalize U aliasName ≠ "" →
        r.2.isActive = true
  | .merge publicId mergePublicId =>
      ∀ r ∈ db.suppliers.rows, r.2.publicId = publicId →
        ∀ m ∈ db.suppliers.rows, m.2.publicId = mergePublicId →
          (∃ a ∈ db.aliases.values, a.supplierId = m.1) → r.2.isActive = true

instance (db : Database) : (request : Request) → Decidable (KeepsHolders U db request)
  | .createSupplier _ _ _ _ => inferInstanceAs (Decidable True)
  | .createAlias publicId aliasName =>
      inferInstanceAs (Decidable (∀ r ∈ db.suppliers.rows, r.2.publicId = publicId →
        normalize U aliasName ≠ "" → r.2.isActive = true))
  | .merge publicId mergePublicId =>
      inferInstanceAs (Decidable (∀ r ∈ db.suppliers.rows, r.2.publicId = publicId →
        ∀ m ∈ db.suppliers.rows, m.2.publicId = mergePublicId →
          (∃ a ∈ db.aliases.values, a.supplierId = m.1) → r.2.isActive = true))

/-- The derived forms of a name are not empty. -/
theorem ne_empty_of_mem_aliasForms {canonicalName form : String}
    (h : form ∈ aliasForms U canonicalName) : form ≠ "" := by
  have hlong : ∀ s : String, minimumDerivedAliasLength ≤ s.length → s ≠ "" := by
    intro s hs hempty
    rw [hempty] at hs
    exact absurd hs (by decide)
  unfold aliasForms at h
  simp only at h
  split at h
  · cases h
  · rename_i hcanonical
    rcases List.mem_append.mp h with hform | hfolded
    · split at hform
      · rename_i hstripped
        rcases List.mem_cons.mp hform with heq | hform
        · rw [heq]
          exact hcanonical
        · rw [List.mem_singleton.mp hform]
          exact hlong _ hstripped.2
      · rw [List.mem_singleton.mp hform]
        exact hcanonical
    · obtain ⟨⟨base, folded⟩, -, hsome⟩ := List.mem_filterMap.mp hfolded
      simp only at hsome
      split at hsome
      · rename_i hcond
        rw [← Option.some.inj hsome]
        exact hlong _ hcond.2
      · cases hsome

/-- Who holds an alias after a registration: as before, and the new supplier the derived
forms. -/
theorem holds_registerSupplier {db db' : Database} {publicId canonicalName : String}
    {country lei : Option String} {supplierId : ℕ}
    (h : registerSupplier U db publicId canonicalName country lei = .ok (db', supplierId))
    {key : String} {i : ℕ} :
    Holds db' key i ↔
      Holds db key i ∨ (i = db.suppliers.nextId ∧ key ∈ aliasForms U canonicalName) := by
  obtain ⟨-, rfl, -, suppliers, aliases, rfl, -, hali⟩ := registerSupplier_eq_ok U h
  unfold Holds
  rw [UniqueTable.values_of_insertAll? hali]
  constructor
  · rintro ⟨a, ha, rfl, rfl⟩
    rcases List.mem_append.mp ha with ha | ha
    · exact Or.inl ⟨a, ha, rfl, rfl⟩
    · obtain ⟨⟨form, index⟩, hform, rfl⟩ := List.mem_map.mp ha
      exact Or.inr ⟨rfl, List.fst_mem_of_mem_zipIdx hform⟩
  · rintro (⟨a, ha, rfl, rfl⟩ | ⟨rfl, hkey⟩)
    · exact ⟨a, List.mem_append_left _ ha, rfl, rfl⟩
    · obtain ⟨index, hindex, rfl⟩ := List.mem_iff_getElem.mp hkey
      refine ⟨_, List.mem_append_right _ (List.mem_map.mpr
        ⟨((aliasForms U canonicalName)[index], index), ?_, rfl⟩), rfl, rfl⟩
      rw [List.mem_zipIdx_iff_getElem?]
      exact List.getElem?_eq_getElem hindex

/-- A registration keeps every supplier and adds an active one. -/
theorem active_registerSupplier {db db' : Database} {publicId canonicalName : String}
    {country lei : Option String} {supplierId : ℕ}
    (h : registerSupplier U db publicId canonicalName country lei = .ok (db', supplierId))
    {i : ℕ} (hi : Active db i ∨ i = db.suppliers.nextId) : Active db' i := by
  obtain ⟨-, -, -, suppliers, aliases, rfl, hsup, -⟩ := registerSupplier_eq_ok U h
  unfold Active
  rw [find?_of_insertAll?_singleton hsup]
  split
  · exact ⟨_, rfl, rfl⟩
  · rename_i hne
    rcases hi with hi | hi
    · exact hi
    · exact absurd hi hne

/-- A supplier found as the holder of an alias holds it. -/
theorem holds_of_aliasHolder {db : Database} {key : String} {i : ℕ} {s : Supplier}
    (h : aliasHolder db key = some (i, s)) : Holds db key i := by
  obtain ⟨a, ha, hsome⟩ := List.exists_of_findSome?_eq_some h
  split at hsome
  · rename_i hkey
    obtain ⟨t, -, heq⟩ := Option.map_eq_some_iff.mp hsome
    exact ⟨a, ha, hkey, (Prod.mk.inj heq).1⟩
  · cases hsome

/-- Who holds an alias after an alias was added: as before, and the supplier the name. -/
theorem holds_addAlias {db db' : Database} {supplierId : ℕ} {aliasName : String}
    {source : AliasSource} {record : Option SupplierAlias}
    (h : addAlias U db supplierId aliasName source = .ok (db', record)) {key : String} {i : ℕ} :
    Holds db' key i ↔
      Holds db key i ∨ (i = supplierId ∧ key = normalize U aliasName ∧ key ≠ "") := by
  rcases addAlias_eq_ok U h with ⟨rfl, hsame⟩ | ⟨-, hne, -, aliases, rfl, hali⟩
  · constructor
    · exact Or.inl
    · rintro (hold | ⟨hi, hkey, hne⟩)
      · exact hold
      · rw [hkey] at hne ⊢
        rw [hi]
        rcases hsame with hempty | ⟨holder, hholder⟩
        · exact absurd hempty hne
        · exact holds_of_aliasHolder hholder
  · unfold Holds
    rw [UniqueTable.values_of_insertAll? hali]
    constructor
    · rintro ⟨a, ha, hkey, hholder⟩
      rcases List.mem_append.mp ha with ha | ha
      · exact Or.inl ⟨a, ha, hkey, hholder⟩
      · rw [List.mem_singleton.mp ha] at hkey hholder
        dsimp only at hkey hholder
        rw [← hkey]
        exact Or.inr ⟨hholder.symm, rfl, hne⟩
    · rintro (⟨a, ha, hkey, hholder⟩ | ⟨hholder, hkey, -⟩)
      · exact ⟨a, List.mem_append_left _ ha, hkey, hholder⟩
      · refine ⟨_, List.mem_append_right _ (List.mem_singleton.mpr rfl), ?_, ?_⟩
        · rw [hkey]
        · rw [hholder]

/-- An alias leaves the suppliers as they are. -/
theorem active_addAlias {db db' : Database} {supplierId : ℕ} {aliasName : String}
    {source : AliasSource} {record : Option SupplierAlias}
    (h : addAlias U db supplierId aliasName source = .ok (db', record)) {i : ℕ} :
    Active db' i ↔ Active db i := by
  rcases addAlias_eq_ok U h with ⟨rfl, -⟩ | ⟨-, -, -, aliases, rfl, -⟩
  · exact Iff.rfl
  · exact Iff.rfl

/-- Who holds an alias after a merge: what the merged supplier held the survivor holds. -/
theorem holds_mergeSuppliers {db db' : Database} {keepId mergeId : ℕ}
    (h : mergeSuppliers db keepId mergeId = .ok db') {key : String} {i : ℕ} :
    Holds db' key i ↔
      (i ≠ mergeId ∧ Holds db key i) ∨ (i = keepId ∧ Holds db key mergeId) := by
  obtain ⟨hne, -, -, rfl⟩ := mergeSuppliers_eq_ok h
  constructor
  · rintro ⟨a, ha, rfl, rfl⟩
    obtain ⟨b, hb, rfl⟩ := mem_values_moveAliases.mp ha
    by_cases hb' : b.supplierId = mergeId
    · rw [if_pos hb']
      exact Or.inr ⟨rfl, b, hb, rfl, hb'⟩
    · rw [if_neg hb']
      exact Or.inl ⟨hb', b, hb, rfl, rfl⟩
  · rintro (⟨hi, a, ha, rfl, rfl⟩ | ⟨rfl, a, ha, rfl, ha'⟩)
    · exact ⟨a, mem_values_moveAliases.mpr ⟨a, ha, by rw [if_neg hi]⟩, rfl, rfl⟩
    · exact ⟨{ a with supplierId := i }, mem_values_moveAliases.mpr ⟨a, ha, by rw [if_pos ha']⟩,
        rfl, rfl⟩

/-- Who is active after a merge: all that were, but the merged supplier. -/
theorem active_mergeSuppliers {db db' : Database} {keepId mergeId : ℕ}
    (h : mergeSuppliers db keepId mergeId = .ok db') {i : ℕ} :
    Active db' i ↔ i ≠ mergeId ∧ Active db i := by
  obtain ⟨-, -, -, rfl⟩ := mergeSuppliers_eq_ok h
  unfold Active
  simp only [find?_deactivate, Option.map_eq_some_iff]
  constructor
  · rintro ⟨s, ⟨t, ht, rfl⟩, hact⟩
    by_cases hi : i = mergeId
    · rw [if_pos hi] at hact
      cases hact
    · rw [if_neg hi] at hact
      exact ⟨hi, t, ht, hact⟩
  · rintro ⟨hi, t, ht, hact⟩
    exact ⟨t, ⟨t, ht, by rw [if_neg hi]⟩, hact⟩

/-- The supplier loaded under a public id is the only one with it. -/
theorem eq_of_load {db : Database} {publicId : String} {i : ℕ} {s : Supplier}
    (h : load db publicId = .ok (i, s)) {r : ℕ × Supplier} (hr : r ∈ db.suppliers.rows)
    (hid : r.2.publicId = publicId) : r = (i, s) := by
  obtain ⟨hs, hid'⟩ := load_eq_ok h
  exact UniqueTable.eq_of_unique (t := db.suppliers) List.mem_cons_self hr
    (Table.find?_eq_some_iff.mp hs) rfl (by rw [hid, hid'])

/-- An active supplier's row says so. -/
theorem active_iff {db : Database} {i : ℕ} {s : Supplier} (hs : db.suppliers.find? i = some s) :
    Active db i ↔ s.isActive = true := by
  constructor
  · rintro ⟨t, ht, hact⟩
    rw [hs] at ht
    rw [Option.some.inj ht]
    exact hact
  · intro hact
    exact ⟨s, hs, hact⟩

/-- **One request.**  Where every alias is held by an active supplier, an accepted request
leaves it so exactly when it works on suppliers that keep it so. -/
theorem activeHolders_accept_iff {db db' : Database} {request : Request}
    (h : accept U db request = some db') (ha : ActiveHolders db) :
    ActiveHolders db' ↔ KeepsHolders U db request := by
  replace h := accept_eq_some U h
  cases request with
  | createSupplier publicId canonicalName country lei =>
    obtain ⟨supplierId, hreg⟩ := handle_createSupplier U h
    refine iff_of_true ?_ trivial
    intro key i hholds
    apply active_registerSupplier U hreg
    rcases (holds_registerSupplier U hreg).mp hholds with hold | ⟨hi, -⟩
    · exact Or.inl (ha key i hold)
    · exact Or.inr hi
  | createAlias publicId aliasName =>
    obtain ⟨supplierId, s, record, hload, hadd⟩ := handle_createAlias U h
    have hs := (load_eq_ok hload).1
    constructor
    · intro ha' r hr hid hne
      rw [eq_of_load hload hr hid]
      have hnew : Holds db' (normalize U aliasName) supplierId :=
        (holds_addAlias U hadd).mpr (Or.inr ⟨rfl, rfl, hne⟩)
      exact (active_iff hs).mp ((active_addAlias U hadd).mp (ha' _ _ hnew))
    · intro hkeeps key i hholds
      rw [active_addAlias U hadd]
      rcases (holds_addAlias U hadd).mp hholds with hold | ⟨rfl, hkey, hne⟩
      · exact ha key i hold
      · rw [hkey] at hne
        exact (active_iff hs).mpr
          (hkeeps (i, s) (Table.find?_eq_some_iff.mp hs) (load_eq_ok hload).2 hne)
  | merge publicId mergePublicId =>
    obtain ⟨keepId, keep, mergeId, merged, hkeep, hmerge, hok⟩ := handle_merge U h
    have hk := (load_eq_ok hkeep).1
    have hm := (load_eq_ok hmerge).1
    have hne := (mergeSuppliers_eq_ok hok).1
    constructor
    · intro ha' r hr hid m hm' hmid
      rw [eq_of_load hkeep hr hid, eq_of_load hmerge hm' hmid]
      rintro ⟨a, hmem, hholder⟩
      have hnew : Holds db' a.normalizedAlias keepId :=
        (holds_mergeSuppliers hok).mpr (Or.inr ⟨rfl, a, hmem, rfl, hholder⟩)
      exact (active_iff hk).mp ((active_mergeSuppliers hok).mp (ha' _ _ hnew)).2
    · intro hkeeps key i hholds
      rw [active_mergeSuppliers hok]
      rcases (holds_mergeSuppliers hok).mp hholds with ⟨hi, hold⟩ | ⟨rfl, a, hmem, -, hholder⟩
      · exact ⟨hi, ha key i hold⟩
      · refine ⟨hne, (active_iff hk).mpr ?_⟩
        exact hkeeps (i, keep) (Table.find?_eq_some_iff.mp hk) (load_eq_ok hkeep).2
          (mergeId, merged) (Table.find?_eq_some_iff.mp hm) (load_eq_ok hmerge).2
          ⟨a, hmem, hholder⟩

/-- Accepted requests store no empty alias. -/
theorem nonemptyKeys_accept {db db' : Database} {request : Request}
    (h : accept U db request = some db') (hkeys : NonemptyKeys db) : NonemptyKeys db' := by
  replace h := accept_eq_some U h
  intro i hholds
  cases request with
  | createSupplier publicId canonicalName country lei =>
    obtain ⟨supplierId, hreg⟩ := handle_createSupplier U h
    rcases (holds_registerSupplier U hreg).mp hholds with hold | ⟨-, hform⟩
    · exact hkeys i hold
    · exact ne_empty_of_mem_aliasForms U hform rfl
  | createAlias publicId aliasName =>
    obtain ⟨supplierId, s, record, -, hadd⟩ := handle_createAlias U h
    rcases (holds_addAlias U hadd).mp hholds with hold | ⟨-, -, hne⟩
    · exact hkeys i hold
    · exact hne rfl
  | merge publicId mergePublicId =>
    obtain ⟨keepId, keep, mergeId, merged, -, -, hok⟩ := handle_merge U h
    rcases (holds_mergeSuppliers hok).mp hholds with ⟨-, hold⟩ | ⟨-, hold⟩
    · exact hkeys i hold
    · exact hkeys mergeId hold

/-- An alias that was held is held after every accepted request. -/
theorem holds_accept {db db' : Database} {request : Request}
    (h : accept U db request = some db') {key : String} (hholds : ∃ i, Holds db key i) :
    ∃ i, Holds db' key i := by
  replace h := accept_eq_some U h
  obtain ⟨i, hold⟩ := hholds
  cases request with
  | createSupplier publicId canonicalName country lei =>
    obtain ⟨supplierId, hreg⟩ := handle_createSupplier U h
    exact ⟨i, (holds_registerSupplier U hreg).mpr (Or.inl hold)⟩
  | createAlias publicId aliasName =>
    obtain ⟨supplierId, s, record, -, hadd⟩ := handle_createAlias U h
    exact ⟨i, (holds_addAlias U hadd).mpr (Or.inl hold)⟩
  | merge publicId mergePublicId =>
    obtain ⟨keepId, keep, mergeId, merged, -, -, hok⟩ := handle_merge U h
    by_cases hi : i = mergeId
    · subst hi
      exact ⟨keepId, (holds_mergeSuppliers hok).mpr (Or.inr ⟨rfl, hold⟩)⟩
    · exact ⟨i, (holds_mergeSuppliers hok).mpr (Or.inl ⟨hi, hold⟩)⟩

/-! ## Runs -/

/-- An alias was registered by the end of a run: some state of it holds the alias. -/
def Registered (tr : List (Database × Request)) (db : Database) (key : String) : Prop :=
  ∃ p, (p = db ∨ ∃ request, (p, request) ∈ tr) ∧ ∃ i, Holds p key i

/-- Every alias ever registered resolves to exactly one supplier, which is active. -/
def AllAnswer (tr : List (Database × Request)) (db : Database) : Prop :=
  ∀ key, Registered tr db key → Answers U db key

/-- What was ever registered is still held. -/
theorem holds_of_registered {G : Database → Request → Prop} {db₀ db : Database}
    {tr : List (Database × Request)} (h : Execution (accept U) G db₀ tr db) {key : String}
    (hreg : Registered tr db key) : ∃ i, Holds db key i := by
  obtain ⟨p, rfl | ⟨request, hmem⟩, hheld⟩ := hreg
  · exact hheld
  · obtain ⟨tr₁, tr₂, q, -, -, -, hq, hrest⟩ := h.exists_of_mem hmem
    have hafter : ∃ i, Holds q key i := holds_accept U hq hheld
    exact hrest.invariant hafter fun _ _ _ hp _ hstep => holds_accept U hstep hp

/-- All registered aliases answer exactly when every holder is active. -/
theorem allAnswer_iff {G : Database → Request → Prop} {db₀ db : Database}
    {tr : List (Database × Request)} (h : Execution (accept U) G db₀ tr db)
    (hkeys : NonemptyKeys db) : AllAnswer U tr db ↔ ActiveHolders db := by
  constructor
  · intro hall key i hholds
    exact active_of_answers U (hall key ⟨db, Or.inl rfl, i, hholds⟩) hholds
  · intro hactive key hreg
    obtain ⟨i, hholds⟩ := holds_of_registered U h hreg
    exact answers_of_active U hkeys hholds (hactive key i hholds)

/-- **Alias ownership.**  From a registry without aliases, after any number of accepted
requests in any order: at every point of the run every alias ever registered resolves to
exactly one supplier, which is active, exactly when no request of the run adds a name to an
inactive supplier or merges a supplier that holds an alias into an inactive one. -/
theorem aliases_answer_iff {db₀ db : Database} {tr : List (Database × Request)}
    (h : Execution (accept U) unguarded db₀ tr db) (h₀ : db₀.aliases.values = []) :
    Execution.Throughout (AllAnswer U) tr db ↔ ∀ x ∈ tr, KeepsHolders U x.1 x.2 := by
  have hnone : ∀ key i, ¬ Holds db₀ key i := by
    rintro key i ⟨a, ha, -⟩
    rw [h₀] at ha
    cases ha
  have hkeys : ∀ {tr' : List (Database × Request)} {p : Database},
      Execution (accept U) unguarded db₀ tr' p → NonemptyKeys p := by
    intro tr' p hp
    exact hp.invariant (hnone "") fun _ _ _ hp _ hstep => nonemptyKeys_accept U hstep hp
  refine h.throughout_iff ?_ ?_
  · rw [allAnswer_iff U (Execution.nil (G := unguarded)) (hnone "")]
    intro key i hholds
    exact absurd hholds (hnone key i)
  · intro tr' p request q hp hall hq
    have hq' : Execution (accept U) unguarded db₀ ((p, request) :: tr') q := hp.snoc trivial hq
    rw [allAnswer_iff U hq' (hkeys hq')]
    exact activeHolders_accept_iff U hq ((allAnswer_iff U hp (hkeys hp)).mp hall.last)

/-- Two suppliers, one merged into the other, and one more name for the survivor. -/
theorem aliases_answer_merge : ∃ tr db,
    Execution (accept Unicode.ascii) unguarded Database.empty tr db ∧ tr.length = 4 ∧
      Execution.Throughout (AllAnswer Unicode.ascii) tr db := by
  obtain ⟨tr, db, h, hlength, hkeeps⟩ : ∃ tr db,
      Execution (accept Unicode.ascii) unguarded Database.empty tr db ∧ tr.length = 4 ∧
        ∀ x ∈ tr, KeepsHolders Unicode.ascii x.1 x.2 :=
    Execution.exists_of_execute
      [.createSupplier "p1" "Acme" none none, .createSupplier "p2" "Apex" none none,
        .merge "p1" "p2", .createAlias "p1" "Nova"]
      (by decide +kernel) (fun _ _ => trivial)
  exact ⟨tr, db, h, hlength, (aliases_answer_iff Unicode.ascii h rfl).mpr hkeeps⟩

/-- **Merging back.**  `Apex` is merged into `Acme`, then `Acme` into the inactive `Apex`,
and `Acme`, which has become inactive too, is taught the name `Nova`.  All three requests
are accepted, and none of the names resolves. -/
theorem merge_back_silences : ∃ tr db,
    Execution (accept Unicode.ascii) unguarded Database.empty tr db ∧
      (∀ name ∈ ["Acme", "Apex", "Nova"],
        Registered tr db (normalize Unicode.ascii name) ∧
          resolve Unicode.ascii db name = unresolved name) ∧
      ¬ AllAnswer Unicode.ascii tr db := by
  obtain ⟨tr, db, h, hall⟩ : ∃ tr db,
      Execution (accept Unicode.ascii) unguarded Database.empty tr db ∧
        ∀ name ∈ ["Acme", "Apex", "Nova"],
          (∃ a ∈ db.aliases.values, a.normalizedAlias = normalize Unicode.ascii name) ∧
            resolve Unicode.ascii db name = unresolved name :=
    Execution.exists_of_execute
      [.createSupplier "p1" "Acme" none none, .createSupplier "p2" "Apex" none none,
        .merge "p1" "p2", .merge "p2" "p1", .createAlias "p1" "Nova"]
      (by decide +kernel) (fun _ _ => trivial)
  have hregistered : ∀ name ∈ ["Acme", "Apex", "Nova"],
      Registered tr db (normalize Unicode.ascii name) := by
    intro name hname
    obtain ⟨⟨a, ha, hkey⟩, -⟩ := hall name hname
    exact ⟨db, Or.inl rfl, a.supplierId, a, ha, hkey, rfl⟩
  refine ⟨tr, db, h, fun name hname => ⟨hregistered name hname, (hall name hname).2⟩, ?_⟩
  intro hanswer
  obtain ⟨i, s, -, -, -, hspelling⟩ := hanswer _ (hregistered "Acme" List.mem_cons_self)
  have hacme := hspelling "Acme" rfl
  rw [(hall "Acme" List.mem_cons_self).2] at hacme
  exact absurd (congrArg Resolution.supplierId hacme) (by simp [unresolved])

end ProcureSignal.Suppliers
