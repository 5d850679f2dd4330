/-
# Registering a supplier

`register_supplier` of `suppliers/registry.py` one statement after the other, on a session that
keeps what was flushed when a later statement raises; and the spellings it derives from a name.

* `Spelled` : a normalized spelling, as joined settled words; what the steps of `alias_forms` make
  of one;
* `nodup_aliasForms` : the spellings are distinct;
* `exec_register` : the program and `registerSupplier`;
* `register_conservative` : **a registration is atomic and conservative**.
-/
import ProcureSignal.Library.Folding
import ProcureSignal.Library.Raising
import ProcureSignal.Suppliers.System

namespace ProcureSignal.Suppliers

open Raising (exec)

/-! ## Normalized spellings -/

section Spellings

variable {U : Unicode}

/-- A spelling of settled words, joined by single spaces. -/
structure Spelled (U : Unicode) (form : String) (ws : List String) : Prop where
  joined : form = " ".intercalate ws
  ne_nil : ws ≠ []
  settled : ∀ w ∈ ws, U.Settled w ∧ w ≠ ""

namespace Spelled

variable {form : String} {ws : List String}

theorem split (h : Spelled U form ws) : U.split form = ws := by
  rw [h.joined]
  exact Unicode.split_joined fun w hw => ⟨(h.settled w hw).2, (h.settled w hw).1.isSpace⟩

/-- A spelling is not empty: it has a word. -/
theorem ne_empty (h : Spelled U form ws) : form ≠ "" := by
  intro hempty
  have hsplit := h.split
  rw [hempty, U.split_eq_nil fun c hc => absurd hc List.not_mem_nil] at hsplit
  exact h.ne_nil hsplit.symm

/-- **A normalized spelling is left alone** by `normalize`. -/
theorem normalize (hU : U.FoldLaws) (h : Spelled U form ws) : normalize U form = form := by
  have hfold : U.casefold (U.nfkc form) = form := by
    rw [h.joined]
    exact hU.fold_joined h.ne_nil fun w hw => (h.settled w hw).1
  have hwords : U.words form.toList = ws.map String.toList := by
    rw [h.joined]
    exact Unicode.words_joined fun w hw => ⟨(h.settled w hw).2, (h.settled w hw).1.isAlnum⟩
  have hlist : (ws.map String.toList).map String.ofList = ws := by
    rw [List.map_map]
    exact (List.map_congr_left fun w _ => String.ofList_toList).trans (List.map_id ws)
  rw [Suppliers.normalize, hfold, U.split_subNonAlphanumeric, hwords, hlist]
  exact h.joined.symm

end Spelled

/-- What `normalize` gives is empty or a normalized spelling. -/
theorem spelled_normalize (hU : U.FoldLaws) {name : String} (hne : normalize U name ≠ "") :
    ∃ ws, Spelled U (normalize U name) ws := by
  have hjoin : normalize U name =
      " ".intercalate ((U.words (U.casefold (U.nfkc name)).toList).map String.ofList) := by
    rw [normalize, U.split_subNonAlphanumeric]
  refine ⟨_, hjoin, ?_, ?_⟩
  · intro hnil
    rw [hjoin, hnil] at hne
    exact hne rfl
  · intro w hw
    obtain ⟨cs, hcs, rfl⟩ := List.mem_map.mp hw
    refine ⟨hU.settled_word name cs hcs, fun hempty => Unicode.words_ne_nil hcs ?_⟩
    rw [← String.toList_ofList (l := cs), hempty]
    rfl

/-! ### The steps of `alias_forms` -/

/-- Stripping legal forms leaves the first words. -/
theorem exists_take_stripLegalFormLoop (fuel : ℕ) {parts : List String} (hne : parts ≠ []) :
    ∃ k, 0 < k ∧ stripLegalFormLoop fuel parts = parts.take k := by
  have hlength := List.length_pos_of_ne_nil hne
  induction fuel generalizing parts with
  | zero => exact ⟨parts.length, hlength, (List.take_length).symm⟩
  | succ fuel ih =>
      rw [stripLegalFormLoop]
      split
      · rename_i size hsize
        have hrange := List.mem_reverse.mp (List.mem_of_find?_eq_some hsize)
        obtain ⟨hlow, hhigh⟩ := List.mem_range'_1.mp hrange
        have hkeep : 0 < parts.length - size := by omega
        have htake : (parts.take (parts.length - size)).length = parts.length - size := by
          rw [List.length_take]
          omega
        rw [← htake] at hkeep
        obtain ⟨k, hk, hloop⟩ := ih (List.ne_nil_of_length_pos hkeep) hkeep
        refine ⟨min k (parts.length - size), by omega, ?_⟩
        rw [hloop, List.take_take]
      · exact ⟨parts.length, hlength, (List.take_length).symm⟩

theorem Spelled.stripLegalForm {form : String} {ws : List String} (h : Spelled U form ws) :
    ∃ k, 0 < k ∧ Spelled U (stripLegalForm U form) (ws.take k) := by
  obtain ⟨k, hk, hloop⟩ := exists_take_stripLegalFormLoop (ws.length) h.ne_nil
  refine ⟨k, hk, ?_, ?_, fun w hw => h.settled w (List.mem_of_mem_take hw)⟩
  · rw [Suppliers.stripLegalForm, h.split, hloop]
  · intro hnil
    rcases List.take_eq_nil_iff.mp hnil with hzero | hws
    · omega
    · exact h.ne_nil hws

/-- The translation of `fold_accents`: letters without an accent to strip become ASCII letters. -/
def translated (w : String) : String :=
  String.ofList (w.toList.flatMap fun c => (undecomposable c).toList)

/-- A character stays or becomes lower-case ASCII letters. -/
theorem undecomposable_cases (c : Char) : undecomposable c = String.singleton c ∨
    undecomposable c ≠ "" ∧ ∀ x ∈ (undecomposable c).toList, 97 ≤ x.toNat ∧ x.toNat ≤ 122 := by
  unfold undecomposable
  split
  all_goals first | exact Or.inl rfl | exact Or.inr ⟨by simp, by simp⟩

theorem translated_space (s t : String) :
    translated (s ++ " " ++ t) = translated s ++ " " ++ translated t := by
  have hspace : undecomposable ' ' = " " := rfl
  rw [← String.toList_inj, Unicode.toList_append_space]
  simp only [translated, String.toList_ofList, Unicode.toList_append_space, List.flatMap_append,
    List.flatMap_cons, hspace]
  rfl

theorem translated_ne_empty {w : String} (hne : w ≠ "") : translated w ≠ "" := by
  intro h
  have hnil : w.toList.flatMap (fun c => (undecomposable c).toList) = [] := by
    rw [← String.toList_ofList (l := w.toList.flatMap _)]
    exact congrArg String.toList h
  match hw : w.toList with
  | [] => exact hne (String.toList_eq_nil_iff.mp hw)
  | c :: cs =>
      have hc := List.flatMap_eq_nil_iff.mp hnil c (by rw [hw]; exact List.mem_cons_self)
      rcases undecomposable_cases c with hsame | ⟨hletters, -⟩
      · rw [hsame, String.toList_singleton] at hc
        exact List.cons_ne_nil _ _ hc
      · exact hletters (String.toList_eq_nil_iff.mp hc)

/-- Lower-case ASCII letters between settled texts. -/
theorem settled_letters (hU : U.AccentLaws) {letters : List Char} (hne : letters ≠ [])
    (hletters : ∀ x ∈ letters, 97 ≤ x.toNat ∧ x.toNat ≤ 122) {a t : String} (ha : U.Settled a)
    (ht : U.Settled t) : U.Settled (a ++ String.ofList letters ++ t) := by
  induction letters generalizing a with
  | nil => exact absurd rfl hne
  | cons x letters ih =>
      have hx := hletters x List.mem_cons_self
      cases letters with
      | nil => exact hU.settled_letter a t x ha ht hx
      | cons y letters =>
          have hempty : U.Settled "" := (hU.settled_append "" t (by rwa [String.empty_append])).1
          have hax := hU.settled_letter a "" x ha hempty hx
          rw [String.append_empty] at hax
          have hrest := ih (List.cons_ne_nil y letters)
            (fun z hz => hletters z (List.mem_cons_of_mem x hz)) hax
          have hcons : String.ofList (x :: y :: letters) =
              String.singleton x ++ String.ofList (y :: letters) := String.ofList_cons
          rwa [hcons, ← String.append_assoc]

/-- The translation keeps words settled. -/
theorem settled_translated (hU : U.AccentLaws) (cs : List Char) {a : String}
    (h : U.Settled (a ++ String.ofList cs)) :
    U.Settled (a ++ String.ofList (cs.flatMap fun c => (undecomposable c).toList)) := by
  induction cs generalizing a with
  | nil => exact h
  | cons c cs ih =>
      rw [← List.singleton_append, String.ofList_append, ← String.append_assoc] at h
      rw [List.flatMap_cons, String.ofList_append, ← String.append_assoc]
      rcases undecomposable_cases c with hsame | ⟨hne, hletters⟩
      · rw [hsame, String.toList_singleton]
        exact ih h
      · obtain ⟨hac, hcs⟩ := hU.settled_append _ _ h
        obtain ⟨ha, -⟩ := hU.settled_append _ _ hac
        exact ih (settled_letters hU (fun hnil => hne (String.toList_eq_nil_iff.mp hnil)) hletters
          ha hcs)

/-- **Folding accents** acts on each word. -/
theorem Spelled.foldAccents (hU : U.AccentLaws) {form : String} {ws : List String}
    (h : Spelled U form ws) :
    Spelled U (foldAccents U form) (ws.map fun w => U.unaccented (translated w)) := by
  have htranslated : translated form = " ".intercalate (ws.map translated) := by
    match ws, h with
    | w :: ws, h =>
        rw [h.joined]
        exact Unicode.map_joined translated_space w ws
    | [], h => exact absurd rfl h.ne_nil
  have hsettled : ∀ w ∈ ws.map translated, U.Settled w ∧ w ≠ "" := by
    intro w hw
    obtain ⟨w, hmem, rfl⟩ := List.mem_map.mp hw
    obtain ⟨hw, hne⟩ := h.settled w hmem
    have hlist : U.Settled ("" ++ String.ofList w.toList) := by
      rwa [String.empty_append, String.ofList_toList]
    have hkept := settled_translated hU w.toList hlist
    rw [String.empty_append] at hkept
    exact ⟨hkept, translated_ne_empty hne⟩
  have hne : ws.map translated ≠ [] := fun hnil => h.ne_nil (List.map_eq_nil_iff.mp hnil)
  have hsplit : Suppliers.foldAccents U form =
      " ".intercalate ((ws.map translated).map U.unaccented) := by
    rw [← hU.split_unaccented hne hsettled, ← htranslated]
    rfl
  refine ⟨by rw [hsplit, List.map_map]; rfl, ?_, ?_⟩
  · exact fun hnil => h.ne_nil (List.map_eq_nil_iff.mp hnil)
  · intro v hv
    obtain ⟨w, hmem, rfl⟩ := List.mem_map.mp hv
    obtain ⟨hw, hwne⟩ := hsettled _ (List.mem_map_of_mem hmem)
    exact ⟨hU.settled_unaccented _ hw, hU.unaccented_ne_empty _ hw hwne⟩

/-! ### The spellings of a name -/

/-- Forms that a measure tells apart, and their folded forms, which have the measure of what they
were folded from, are distinct. -/
theorem nodup_append_folded {forms : List String} {n : String → ℕ} {fold : String → String}
    (hn : (forms.map n).Nodup) (hfold : ∀ form ∈ forms, n (fold form) = n form)
    (p : String → Prop) [DecidablePred p] :
    (forms ++ (forms.map fun form => (form, fold form)).filterMap fun (form, folded) =>
      if folded ≠ form ∧ p folded then some folded else none).Nodup := by
  have hmem : ∀ form x, (if fold form ≠ form ∧ p (fold form) then some (fold form) else none) =
      some x → x = fold form ∧ fold form ≠ form := by
    intro form x hx
    split at hx
    · rename_i hkept
      exact ⟨(Option.some.inj hx).symm, hkept.1⟩
    · exact absurd hx (by simp)
  have hinj : ∀ form ∈ forms, ∀ form' ∈ forms, n form = n form' → form = form' :=
    fun form h form' h' => List.inj_on_of_nodup_map hn h h'
  rw [List.filterMap_map, List.nodup_append]
  refine ⟨hn.of_map n, ?_, ?_⟩
  · rw [List.Nodup, List.pairwise_filterMap]
    rw [List.Nodup, List.pairwise_map] at hn
    refine hn.imp_of_mem fun {form form'} h h' hne x hx x' hx' heq => ?_
    rw [(hmem form x hx).1, (hmem form' x' hx').1] at heq
    rw [← hfold form h, ← hfold form' h', heq] at hne
    exact hne rfl
  · rintro x hx y hy rfl
    obtain ⟨form, h, hy⟩ := List.mem_filterMap.mp hy
    obtain ⟨rfl, hne⟩ := hmem form x hy
    exact hne (hinj _ hx form h (hfold form h))

/-- The spellings of a name, from its normal form and the form without legal suffixes. -/
theorem aliasForms_cases (name : String) : aliasForms U name = [] ∨
    normalize U name ≠ "" ∧ ∃ forms,
      (forms = [normalize U name] ∨ stripLegalForm U (normalize U name) ≠ normalize U name ∧
        forms = [normalize U name, stripLegalForm U (normalize U name)]) ∧
      aliasForms U name = forms ++
        (forms.map fun form => (form, foldAccents U form)).filterMap fun (form, folded) =>
          if folded ≠ form ∧ minimumDerivedAliasLength ≤ folded.length then some folded
          else none := by
  unfold aliasForms
  simp only
  split
  · exact Or.inl rfl
  · rename_i hne
    refine Or.inr ⟨hne, _, ?_, rfl⟩
    split
    · rename_i hstripped
      exact Or.inr ⟨hstripped.1, rfl⟩
    · exact Or.inl rfl

/-- The form without legal suffixes has fewer words, unless it is the form itself. -/
theorem length_split_stripLegalForm {form : String} {ws : List String} (h : Spelled U form ws)
    (hne : stripLegalForm U form ≠ form) :
    (U.split (stripLegalForm U form)).length ≠ (U.split form).length := by
  obtain ⟨k, -, hstripped⟩ := h.stripLegalForm
  rw [hstripped.split, h.split]
  intro hlength
  have htake : ws.take k = ws := List.IsPrefix.eq_of_length (List.take_prefix k ws) hlength
  refine hne ?_
  rw [hstripped.joined, htake, ← h.joined]

section Laws

variable (hU : U.FoldLaws) (hA : U.AccentLaws)

include hU hA

/-- What a spelling of a name is made from. -/
theorem spelled_of_mem_aliasForms {name form : String} (h : form ∈ aliasForms U name) :
    ∃ ws, Spelled U form ws := by
  rcases aliasForms_cases (U := U) name with hnil | ⟨hne, forms, hforms, heq⟩
  · rw [hnil] at h
    exact absurd h List.not_mem_nil
  obtain ⟨ws, hws⟩ := spelled_normalize hU hne
  have hspelled : ∀ f ∈ forms, ∃ ws, Spelled U f ws := by
    rcases hforms with rfl | ⟨-, rfl⟩
    · exact List.forall_mem_singleton.mpr ⟨ws, hws⟩
    · obtain ⟨k, -, hstripped⟩ := hws.stripLegalForm
      exact List.forall_mem_cons.mpr
        ⟨⟨ws, hws⟩, List.forall_mem_singleton.mpr ⟨ws.take k, hstripped⟩⟩
  rw [heq] at h
  rcases List.mem_append.mp h with h | h
  · exact hspelled form h
  · rw [List.filterMap_map] at h
    obtain ⟨f, hf, hfold⟩ := List.mem_filterMap.mp h
    obtain ⟨ws, hws⟩ := hspelled f hf
    simp only [Function.comp_apply] at hfold
    split at hfold
    · rw [← Option.some.inj hfold]
      exact ⟨_, hws.foldAccents hA⟩
    · exact absurd hfold (by simp)

/-- **The spellings of a name are distinct.** -/
theorem nodup_aliasForms (name : String) : (aliasForms U name).Nodup := by
  rcases aliasForms_cases (U := U) name with hnil | ⟨hne, forms, hforms, heq⟩
  · rw [hnil]
    exact List.nodup_nil
  obtain ⟨ws, hws⟩ := spelled_normalize hU hne
  have hfold : ∀ form ws, Spelled U form ws →
      (U.split (foldAccents U form)).length = (U.split form).length := by
    intro form ws h
    rw [(h.foldAccents hA).split, h.split, List.length_map]
  rw [heq]
  refine nodup_append_folded (n := fun form => (U.split form).length) ?_ ?_
    fun folded => minimumDerivedAliasLength ≤ folded.length
  · rcases hforms with rfl | ⟨hstripped, rfl⟩
    · exact List.nodup_singleton _
    · refine List.nodup_cons.mpr ⟨?_, List.nodup_singleton _⟩
      rw [List.map_singleton, List.mem_singleton]
      exact (length_split_stripLegalForm hws hstripped).symm
  · rcases hforms with rfl | ⟨-, rfl⟩
    · exact List.forall_mem_singleton.mpr (hfold _ ws hws)
    · obtain ⟨k, -, hstripped⟩ := hws.stripLegalForm
      exact List.forall_mem_cons.mpr
        ⟨hfold _ ws hws, List.forall_mem_singleton.mpr (hfold _ _ hstripped)⟩

/-- **Every spelling is a fixed point** of `normalize`. -/
theorem normalize_of_mem_aliasForms {name form : String} (h : form ∈ aliasForms U name) :
    normalize U form = form := by
  obtain ⟨ws, hws⟩ := spelled_of_mem_aliasForms hU hA h
  exact hws.normalize hU

end Laws

end Spellings

/-! ## The statements -/

section Program

variable (U : Unicode)

/-- `_alias_holder` for every derived form; the first that is held raises. -/
def checkForms : List String → Raising ServiceError Database PUnit
  | [] => pure ⟨⟩
  | form :: forms => do
      let db ← get
      match aliasHolder db form with
      | some (_, holder) => throw (ambiguousAlias form holder "name")
      | none => checkForms forms

/-- `session.add(supplier)` and its flush: the key of the new row. -/
def flushSupplier (supplier : Supplier) : Raising ServiceError Database ℕ := do
  let db ← get
  match insertRows db.suppliers supplierFits [supplier] with
  | .ok suppliers => do
      modify fun db => { db with suppliers := suppliers }
      pure db.suppliers.nextId
  | .error e => throw e

/-- `session.add(SupplierAlias(…))` for every derived form, and their flush. -/
def flushAliases (aliases : List SupplierAlias) : Raising ServiceError Database PUnit := do
  let db ← get
  match insertRows db.aliases aliasFits aliases with
  | .ok aliases => modify fun db => { db with aliases := aliases }
  | .error e => throw e

/-- `register_supplier`, statement by statement. -/
def register (publicId canonicalName : String) (country lei : Option String) :
    Raising ServiceError Database ℕ := do
  let normalizedName := normalize U canonicalName
  if normalizedName = "" then throw (.supplierRegistryError "a supplier needs a name")
  else do
    let db ← get
    match db.suppliers.values.find? (fun s => s.normalizedName = normalizedName) with
    | some existing =>
        throw (.duplicateSupplierError
          (existing.canonicalName ++ " (" ++ existing.publicId ++ ") is already registered"))
    | none => do
        checkForms (aliasForms U canonicalName)
        let supplierId ← flushSupplier
          ⟨publicId, U.strip canonicalName, normalizedName, country, lei, true⟩
        flushAliases (derivedAliases U supplierId canonicalName)
        pure supplierId

variable {U}

/-- The checks write nothing. -/
theorem exec_checkForms (forms : List String) (db : Database) :
    exec (checkForms forms) db =
      (match forms.findSome? fun form => (aliasHolder db form).map fun h => (form, h.2) with
        | some (form, holder) => .error (ambiguousAlias form holder "name")
        | none => .ok ⟨⟩, db) := by
  induction forms with
  | nil => rfl
  | cons form forms ih =>
      rw [checkForms, Raising.exec_bind, Raising.exec_get, List.findSome?_cons]
      dsimp only
      cases aliasHolder db form with
      | none => exact ih
      | some holder => rfl

theorem exec_flushSupplier (supplier : Supplier) (db : Database) :
    exec (flushSupplier supplier) db =
      match insertRows db.suppliers supplierFits [supplier] with
      | .ok suppliers => (.ok db.suppliers.nextId, { db with suppliers := suppliers })
      | .error e => (.error e, db) := by
  rw [flushSupplier, Raising.exec_bind, Raising.exec_get]
  dsimp only
  cases insertRows db.suppliers supplierFits [supplier] with
  | ok suppliers => rfl
  | error e => rfl

theorem exec_flushAliases (aliases : List SupplierAlias) (db : Database) :
    exec (flushAliases aliases) db =
      match insertRows db.aliases aliasFits aliases with
      | .ok aliases => (.ok ⟨⟩, { db with aliases := aliases })
      | .error e => (.error e, db) := by
  rw [flushAliases, Raising.exec_bind, Raising.exec_get]
  dsimp only
  cases insertRows db.aliases aliasFits aliases with
  | ok aliases => rfl
  | error e => rfl

/-- A rejected insert is the database's rejection. -/
theorem insertRows_eq_error {α κ : Type} [DecidableEq κ] {uniq : List (α → Option κ)}
    {t : UniqueTable α κ uniq} {fits : α → Bool} {rows : List α} {e : ServiceError}
    (h : insertRows t fits rows = .error e) : e = .databaseError := by
  unfold insertRows at h
  split at h
  · split at h
    · cases h
    · exact (Except.error.inj h).symm
  · exact (Except.error.inj h).symm

/-- **The program and the function.**  The program returns exactly what the function returns; where
the function raises, the program raises the same, in the database as it was unless the database
itself rejected a statement. -/
theorem exec_register {db : Database} {publicId canonicalName : String}
    {country lei : Option String} {result : Except ServiceError (Database × ℕ)} :
    registerSupplier U db publicId canonicalName country lei = result → match result with
    | .ok (db', supplierId) =>
        exec (register U publicId canonicalName country lei) db = (.ok supplierId, db')
    | .error e => ∃ db', exec (register U publicId canonicalName country lei) db = (.error e, db') ∧
        (e ≠ .databaseError → db' = db) := by
  rintro rfl
  unfold register registerSupplier
  dsimp only
  -- only what the steps compute matters from here on, not how
  generalize normalize U canonicalName = normalizedName
  generalize aliasForms U canonicalName = forms
  generalize U.strip canonicalName = stripped
  by_cases hempty : normalizedName = ""
  · rw [if_pos hempty, if_pos hempty]
    exact ⟨db, rfl, fun _ => rfl⟩
  rw [if_neg hempty, if_neg hempty, Raising.exec_bind, Raising.exec_get]
  dsimp only
  cases db.suppliers.values.find? fun s => s.normalizedName = normalizedName with
  | some existing => exact ⟨db, rfl, fun _ => rfl⟩
  | none =>
  dsimp only
  rw [Raising.exec_bind, exec_checkForms]
  cases forms.findSome? fun form => (aliasHolder db form).map fun h => (form, h.2) with
  | some held => exact ⟨db, rfl, fun _ => rfl⟩
  | none =>
  dsimp only
  rw [Raising.exec_bind, exec_flushSupplier]
  generalize insertRows db.suppliers supplierFits _ = inserted
  cases inserted with
  | error e => exact ⟨db, rfl, fun _ => rfl⟩
  | ok suppliers =>
  dsimp only
  generalize derivedAliases U db.suppliers.nextId canonicalName = derived
  rw [Raising.exec_bind, exec_flushAliases]
  dsimp only
  generalize hali : insertRows db.aliases aliasFits _ = aliases
  cases aliases with
  | error e => exact ⟨_, rfl, fun hne => absurd (insertRows_eq_error hali) hne⟩
  | ok aliases => rfl

end Program

/-! ## What a registration does -/

section Registration

variable {U : Unicode} {db db' : Database} {publicId canonicalName : String}
  {country lei : Option String} {supplierId : ℕ}

theorem normalizedAlias_derivedAliases (i : ℕ) (name : String) :
    (derivedAliases U i name).map (·.normalizedAlias) = aliasForms U name := by
  unfold derivedAliases
  rw [List.map_map]
  exact List.zipIdx_map_fst 0 (aliasForms U name)

theorem exists_mem_derivedAliases (i : ℕ) {name form : String} (h : form ∈ aliasForms U name) :
    ∃ a ∈ derivedAliases U i name, a.normalizedAlias = form ∧ a.supplierId = i := by
  rw [← normalizedAlias_derivedAliases i name] at h
  obtain ⟨a, ha, hform⟩ := List.mem_map.mp h
  refine ⟨a, ha, hform, ?_⟩
  obtain ⟨entry, -, rfl⟩ := List.mem_map.mp ha
  rfl

/-- **A registration adds**: the rows that were there stay, and the new supplier and its aliases
are there. -/
theorem tables_of_register
    (h : registerSupplier U db publicId canonicalName country lei = .ok (db', supplierId)) :
    db.suppliers.find? supplierId = none ∧
      (∃ s, db'.suppliers.find? supplierId = some s ∧ s.isActive = true) ∧
      db'.suppliers.Extends db.suppliers.toTable ∧
      db'.aliases.values = db.aliases.values ++ derivedAliases U supplierId canonicalName := by
  obtain ⟨-, rfl, -, suppliers, aliases, rfl, hsup, hali⟩ := registerSupplier_eq_ok U h
  simp only [UniqueTable.insertAll?, Option.bind_eq_some_iff] at hsup
  obtain ⟨inserted, hinsert, hsame⟩ := hsup
  obtain ⟨hfree, rfl⟩ := UniqueTable.insert?_eq_some_iff.mp hinsert
  rw [← Option.some.inj hsame]
  refine ⟨Table.find?_nextId _, ⟨⟨publicId, U.strip canonicalName, normalize U canonicalName,
    country, lei, true⟩, ?_, rfl⟩, ?_, UniqueTable.values_of_insertAll? hali⟩
  · rw [UniqueTable.toTable_insertFree, Table.find?_insert, if_pos rfl]
  · rw [UniqueTable.toTable_insertFree]
    exact Table.extends_insert _ _

/-- The holder of an alias answers to the names with its normal form. -/
theorem resolve_of_mem {a : SupplierAlias} {s : Supplier} {form : String}
    (ha : a ∈ db.aliases.values) (hs : db.suppliers.find? a.supplierId = some s)
    (hactive : s.isActive = true) (hform : normalize U form = a.normalizedAlias)
    (hne : normalize U form ≠ "") : (resolve U db form).supplierId = some a.supplierId := by
  rw [resolve_eq_resolutionOf, supplierId_resolutionOf_eq_some_iff]
  refine ⟨hne, s, ?_⟩
  rw [hform]
  exact answering_of_mem ha hs hactive

/-- Names that resolved keep their supplier. -/
theorem resolve_of_tables (hsup : db'.suppliers.Extends db.suppliers.toTable)
    (hali : ∀ a ∈ db.aliases.values, a ∈ db'.aliases.values) {form : String} {i : ℕ}
    (h : (resolve U db form).supplierId = some i) : (resolve U db' form).supplierId = some i := by
  rw [resolve_eq_resolutionOf, supplierId_resolutionOf_eq_some_iff] at h
  obtain ⟨hne, s, hanswer⟩ := h
  obtain ⟨hs, hactive, a, ha, hkey, rfl⟩ := answering_eq_some hanswer
  exact resolve_of_mem (hali a ha) (hsup _ _ hs) hactive hkey.symm hne

section Laws

variable (hU : U.FoldLaws) (hA : U.AccentLaws)

include hU hA

/-- The name and its spellings resolve to the new supplier. -/
theorem resolve_registered
    (h : registerSupplier U db publicId canonicalName country lei = .ok (db', supplierId)) :
    ∀ form ∈ canonicalName :: aliasForms U canonicalName,
      (resolve U db' form).supplierId = some supplierId := by
  obtain ⟨-, ⟨s, hs, hactive⟩, -, haliases⟩ := tables_of_register h
  obtain ⟨hname, -⟩ := registerSupplier_eq_ok U h
  have hheld : ∀ form, normalize U form ∈ aliasForms U canonicalName → normalize U form ≠ "" →
      (resolve U db' form).supplierId = some supplierId := by
    intro form hform hne
    obtain ⟨a, ha, hkey, rfl⟩ := exists_mem_derivedAliases supplierId hform
    have hmem : a ∈ db'.aliases.values := by
      rw [haliases]
      exact List.mem_append_right _ ha
    exact resolve_of_mem hmem hs hactive hkey.symm hne
  have hfirst : normalize U canonicalName ∈ aliasForms U canonicalName := by
    rcases aliasForms_cases (U := U) canonicalName with hnil | ⟨-, forms, hforms, heq⟩
    · unfold aliasForms at hnil
      simp only [if_neg hname] at hnil
      exact absurd (List.append_eq_nil_iff.mp hnil).1 (by split <;> exact List.cons_ne_nil _ _)
    · rw [heq]
      refine List.mem_append_left _ ?_
      rcases hforms with rfl | ⟨-, rfl⟩
      · exact List.mem_cons_self
      · exact List.mem_cons_self
  intro form hform
  rcases List.mem_cons.mp hform with rfl | hform
  · exact hheld form hfirst hname
  · have hfix := normalize_of_mem_aliasForms hU hA hform
    obtain ⟨ws, hws⟩ := spelled_of_mem_aliasForms hU hA hform
    exact hheld form (by rwa [hfix]) (by rw [hfix]; exact hws.ne_empty)

/-- **Checked spellings are free**: no alias is taken and none is derived twice. -/
theorem exists_insertAll?_derivedAliases (hdb : Consistent db)
    (hchecked : ∀ form ∈ aliasForms U canonicalName, aliasHolder db form = none) (i : ℕ) :
    ∃ aliases, db.aliases.insertAll? (derivedAliases U i canonicalName) = some aliases := by
  refine UniqueTable.exists_insertAll? fun k hk => ?_
  rw [List.mem_singleton.mp hk]
  have hcolumn : ∀ l : List SupplierAlias,
      l.filterMap (fun a => some a.normalizedAlias) = l.map (·.normalizedAlias) := fun l =>
    congrFun List.filterMap_eq_map l
  have hunique := db.aliases.unique _ List.mem_cons_self
  rw [hcolumn] at hunique ⊢
  rw [List.map_append, normalizedAlias_derivedAliases]
  refine List.nodup_append.mpr ⟨hunique, nodup_aliasForms hU hA canonicalName, ?_⟩
  rintro x hx y hy rfl
  obtain ⟨a, ha, rfl⟩ := List.mem_map.mp hx
  obtain ⟨s, hs⟩ := hdb.supplierOfAlias a ha
  have hnone := List.findSome?_eq_none_iff.mp (hchecked _ hy) a ha
  rw [if_pos rfl, hs] at hnone
  exact Option.some_ne_none _ hnone

/-- **A registration is atomic and conservative.**  One that raises for another reason than a
rejection by the database leaves it unchanged.  One that returns has added a supplier to which the
name and its spellings resolve, and names that resolved before keep their supplier.  The spellings
are distinct and fixed points of `normalize`, so the unique constraint accepts what was checked. -/
theorem register_conservative (db : Database) (publicId canonicalName : String)
    (country lei : Option String) :
    (∀ e db', exec (register U publicId canonicalName country lei) db = (.error e, db') →
      e ≠ .databaseError → db' = db) ∧
    (∀ i db', exec (register U publicId canonicalName country lei) db = (.ok i, db') →
      db.suppliers.find? i = none ∧
      (∀ form ∈ canonicalName :: aliasForms U canonicalName,
        (resolve U db' form).supplierId = some i) ∧
      ∀ form j, (resolve U db form).supplierId = some j →
        (resolve U db' form).supplierId = some j) ∧
    (aliasForms U canonicalName).Nodup ∧
    (∀ form ∈ aliasForms U canonicalName, normalize U form = form) ∧
    (Consistent db → (∀ form ∈ aliasForms U canonicalName, aliasHolder db form = none) →
      ∀ i, ∃ aliases, db.aliases.insertAll? (derivedAliases U i canonicalName) = some aliases) := by
  refine ⟨?_, ?_, nodup_aliasForms hU hA canonicalName,
    fun form h => normalize_of_mem_aliasForms hU hA h,
    fun hdb hchecked i => exists_insertAll?_derivedAliases hU hA hdb hchecked i⟩
  · intro e db' h hne
    cases hresult : registerSupplier U db publicId canonicalName country lei with
    | ok result => cases h.symm.trans (exec_register hresult)
    | error e' =>
        obtain ⟨db₁, heq, hsame⟩ := exec_register hresult
        obtain ⟨he, rfl⟩ := Prod.mk.inj (h.symm.trans heq)
        exact hsame (Except.error.inj he ▸ hne)
  · intro i db' h
    cases hresult : registerSupplier U db publicId canonicalName country lei with
    | error e =>
        obtain ⟨db₁, heq, -⟩ := exec_register hresult
        cases h.symm.trans heq
    | ok result =>
        obtain ⟨db₁, j⟩ := result
        obtain ⟨hi, rfl⟩ := Prod.mk.inj (h.symm.trans (exec_register hresult))
        obtain rfl := Except.ok.inj hi
        obtain ⟨hfresh, -, hsup, haliases⟩ := tables_of_register hresult
        refine ⟨hfresh, resolve_registered hU hA hresult, fun form k => resolve_of_tables hsup ?_⟩
        intro a ha
        rw [haliases]
        exact List.mem_append_left _ ha

end Laws

end Registration

theorem register_conservative_siemens :
    ∃ db', exec (register .ascii "s1" "Siemens A.G." (some "DE") none) Database.empty = (.ok 1, db') ∧
      ∀ form ∈ ["Siemens A.G.", "siemens a g", "siemens"],
        (resolve .ascii db' form).supplierId = some 1 := by
  have hreturned : (exec (register .ascii "s1" "Siemens A.G." (some "DE") none) Database.empty).1 =
      .ok 1 := by
    decide +kernel
  have hforms : aliasForms .ascii "Siemens A.G." = ["siemens a g", "siemens"] := by
    decide +kernel
  obtain ⟨-, hok, -⟩ := register_conservative Unicode.ascii_foldLaws Unicode.ascii_accentLaws
    Database.empty "s1" "Siemens A.G." (some "DE") none
  generalize exec (register .ascii "s1" "Siemens A.G." (some "DE") none) Database.empty = result
    at hreturned hok ⊢
  obtain ⟨outcome, db'⟩ := result
  obtain rfl : outcome = .ok 1 := hreturned
  obtain ⟨-, hresolve, -⟩ := hok 1 db' rfl
  rw [hforms] at hresolve
  exact ⟨db', rfl, hresolve⟩

end ProcureSignal.Suppliers
