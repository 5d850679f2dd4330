/-
# Every spelling of a designation

The names of a `sanctionEntity` element, from `_records` of `retrieval/providers/sanctions.py` to
the suppliers that `screen_designation` of `suppliers/screening.py` reports for them.

* `nodup_screeningNames` : the names of a record are distinct;
* `screenDesignation_spec` : what screening reports of a list of names;
* `spellings_screened` : **every spelling is screened**.
-/
import ProcureSignal.Retrieval.Designations
import ProcureSignal.Suppliers.Screening

namespace ProcureSignal.Suppliers

open Retrieval.Sanctions

/-! ## The names of a record -/

section Names

variable {U : Unicode} {isDecimal : Char → Bool} {earliest : String → Option String}
  {now : Instant} {e : Element} {record : Record}

theorem nodup_appendNew {items : List String} (h : items.Nodup) (item : String) :
    (appendNew items item).Nodup := by
  unfold appendNew
  split
  · rename_i hnew
    refine List.nodup_append.mpr ⟨h, List.nodup_singleton item, ?_⟩
    intro x hx y hy
    rw [List.mem_singleton.mp hy]
    exact fun heq => hnew.2 (heq ▸ hx)
  · exact h

/-- A child adds a name that is not listed yet, or none. -/
theorem aliases_readChild (facts : Facts) (child : Element) :
    (readChild U facts child).aliases = facts.aliases ∨
      (readChild U facts child).aliases = appendNew facts.aliases (aliasName U child) := by
  by_cases halias : child.localTag = "nameAlias"
  · exact Or.inr (readChild_of_alias facts halias).1
  · exact Or.inl (readChild_of_ne facts halias).1

theorem nodup_readChild {facts : Facts} (h : facts.aliases.Nodup) (child : Element) :
    (readChild U facts child).aliases.Nodup := by
  rcases aliases_readChild facts child with hsame | hnew
  · rw [hsame]
    exact h
  · rw [hnew]
    exact nodup_appendNew h _

theorem nodup_foldl_readChild (children : List Element) {facts : Facts}
    (h : facts.aliases.Nodup) : (children.foldl (readChild U) facts).aliases.Nodup := by
  induction children generalizing facts with
  | nil => exact h
  | cons child children ih =>
      rw [List.foldl_cons]
      exact ih (nodup_readChild h child)

/-- **The names of a record** start with the primary one and are distinct. -/
theorem nodup_screeningNames (h : recordOf U isDecimal earliest now e = some record) :
    ∃ secondary, record.screeningNames = record.primary :: secondary ∧
      record.screeningNames.Nodup := by
  have haliases : (factsOf U e).aliases.Nodup := nodup_foldl_readChild e.iter List.nodup_nil
  unfold recordOf at h
  obtain ⟨published, -, rfl⟩ := Option.map_eq_some_iff.mp h
  refine ⟨_, rfl, List.nodup_cons.mpr ⟨fun hmem => ?_, haliases.filter _⟩⟩
  exact of_decide_eq_true (List.mem_filter.mp hmem).2 rfl

/-! ### The primary name -/

/-- The `nameAlias` children that give a name. -/
def aliasElements (U : Unicode) (children : List Element) : List Element :=
  children.filter fun child => child.localTag = "nameAlias" ∧ aliasName U child ≠ ""

/-- `child.attrib.get("strong", "").lower() == "true"`. -/
def isStrong (U : Unicode) (child : Element) : Bool :=
  U.lower ((child.get "strong").getD "") = "true"

/-- The name that the last strong child gives, or the first child. -/
def chosenAlias (U : Unicode) (children : List Element) : Option String :=
  (((aliasElements U children).filter (isStrong U)).getLast? <|>
    (aliasElements U children).head?).map (aliasName U)

/-- The primary name of a designation: its last strong alias, or its first alias, or the
reference. -/
def primaryName (U : Unicode) (e : Element) : String :=
  (chosenAlias U e.iter).getD (designationIdentity U e).1

theorem primary_foldl_readChild (children : List Element) (facts : Facts) :
    (children.foldl (readChild U) facts).primary =
      (((aliasElements U children).filter (isStrong U)).getLast?.map (aliasName U)).getD
        (if facts.primary = "" then
          ((aliasElements U children).head?.map (aliasName U)).getD "" else facts.primary) := by
  induction children generalizing facts with
  | nil =>
      show facts.primary = if facts.primary = "" then "" else facts.primary
      split
      · assumption
      · rfl
  | cons child children ih =>
      rw [List.foldl_cons, ih]
      by_cases halias : child.localTag = "nameAlias" ∧ aliasName U child ≠ ""
      · have hcons : aliasElements U (child :: children) =
            child :: aliasElements U children :=
          List.filter_cons_of_pos (decide_eq_true halias)
        have hprimary : (readChild U facts child).primary =
            if facts.primary = "" ∨ isStrong U child then aliasName U child
            else facts.primary := by
          rw [(readChild_of_alias facts halias.1).2]
          simp only [isStrong, decide_eq_true_eq, halias.2, ne_eq, not_false_eq_true, true_and]
        have hne := halias.2
        rw [hcons, hprimary, List.head?_cons, Option.map_some, Option.getD_some]
        generalize facts.primary = primary
        by_cases hstrong : isStrong U child = true
        · rw [List.filter_cons_of_pos hstrong, List.getLast?_cons, if_pos (Or.inr hstrong)]
          generalize ((aliasElements U children).filter (isStrong U)).getLast? = last
          cases last with
          | none =>
              rw [Option.getD_none, Option.map_some, Option.map_none, Option.getD_some]
              generalize aliasName U child = name at hne
              exact if_neg hne
          | some last =>
              rw [Option.getD_some, Option.map_some, Option.getD_some, Option.getD_some]
        · rw [List.filter_cons_of_neg hstrong]
          generalize aliasName U child = name at hne
          congr 1
          by_cases hnone : primary = ""
          · rw [if_pos (Or.inl hnone), if_neg hne, if_pos hnone]
          · have hkeep : ¬ (primary = "" ∨ isStrong U child = true) :=
              fun h => h.elim hnone hstrong
            rw [if_neg hkeep, if_neg hnone, if_neg hnone]
      · have hcons : aliasElements U (child :: children) = aliasElements U children :=
          List.filter_cons_of_neg (by simpa using halias)
        have hprimary : (readChild U facts child).primary = facts.primary := by
          by_cases htag : child.localTag = "nameAlias"
          · have hblank : aliasName U child = "" := by
              by_contra hne
              exact halias ⟨htag, hne⟩
            rw [(readChild_of_alias facts htag).2]
            exact if_neg fun h => h.1 hblank
          · exact (readChild_of_ne facts htag).2
        rw [hcons, hprimary]

theorem aliasName_ne_of_chosen {children : List Element} {child : Element}
    (h : (((aliasElements U children).filter (isStrong U)).getLast? <|>
      (aliasElements U children).head?) = some child) : aliasName U child ≠ "" := by
  have hmem : child ∈ aliasElements U children := by
    rcases (Option.orElse_eq_some _ _ _).mp h with hlast | ⟨-, hhead⟩
    · exact List.mem_of_mem_filter (List.mem_of_getLast? hlast)
    · exact List.mem_of_head? hhead
  exact (of_decide_eq_true (List.mem_filter.mp hmem).2).2

theorem primary_eq_primaryName (h : recordOf U isDecimal earliest now e = some record) :
    record.primary = primaryName U e := by
  have hlisted := (primaryListed_factsOf (U := U) e).1
  have hprimary := primary_foldl_readChild (U := U) e.iter ⟨[], "", [], "", false⟩
  change (factsOf U e).primary = _ at hprimary
  have hchosen : (factsOf U e).primary = (chosenAlias U e.iter).getD "" := by
    rw [hprimary, if_pos rfl, chosenAlias]
    generalize ((aliasElements U e.iter).filter (isStrong U)).getLast? = last
    cases last with
    | none => rfl
    | some last => rfl
  unfold recordOf at h
  obtain ⟨published, -, rfl⟩ := Option.map_eq_some_iff.mp h
  clear h hprimary
  show (if (factsOf U e).primary ≠ "" then (factsOf U e).primary
    else (factsOf U e).aliases.headD (designationIdentity U e).1) = primaryName U e
  unfold primaryName
  cases hsome : chosenAlias U e.iter with
  | none =>
      rw [hsome, Option.getD_none] at hchosen
      rw [if_neg (not_not.mpr hchosen), hlisted hchosen]
      rfl
  | some name =>
      have hname : name ≠ "" := by
        obtain ⟨child, hchild, rfl⟩ := Option.map_eq_some_iff.mp hsome
        exact aliasName_ne_of_chosen hchild
      rw [hsome, Option.getD_some] at hchosen
      rw [hchosen, if_pos hname]
      rfl

end Names

/-! ## What screening reports -/

section Screening

variable {U : Unicode} {db : Database}

/-- The suppliers that are reported are new and distinct. -/
theorem nodup_hits_collectHits (rs : List Resolution) (seen : List ℕ) :
    ((collectHits seen rs).hits.map (·.supplierId)).Nodup ∧
      ∀ hit ∈ (collectHits seen rs).hits, hit.supplierId ∉ seen := by
  induction rs generalizing seen with
  | nil => exact ⟨List.nodup_nil, fun hit h => absurd h List.not_mem_nil⟩
  | cons r rs ih =>
      unfold collectHits
      split
      · rename_i i p hi hp
        split
        · exact ih seen
        · rename_i hnew
          obtain ⟨hnodup, hseen⟩ := ih (i :: seen)
          refine ⟨List.nodup_cons.mpr ⟨?_, hnodup⟩, ?_⟩
          · intro hmem
            obtain ⟨hit, hhit, heq⟩ := List.mem_map.mp hmem
            exact hseen hit hhit (heq ▸ List.mem_cons_self)
          · intro hit hhit
            rcases List.mem_cons.mp hhit with rfl | hhit
            · exact hnew
            · exact fun hmem => hseen hit hhit (List.mem_cons_of_mem _ hmem)
      · exact ih seen

/-- The names that resolve to nothing are reported, in their order. -/
theorem unmatched_collectHits {rs : List Resolution}
    (hrs : ∀ r ∈ rs, r.supplierId = none ↔ r.publicId = none) (seen : List ℕ) :
    (collectHits seen rs).unmatchedNames =
      (rs.filter fun r => r.supplierId = none).map (·.surfaceForm) := by
  induction rs generalizing seen with
  | nil => rfl
  | cons r rs ih =>
      have hrest := ih fun x hx => hrs x (List.mem_cons_of_mem _ hx)
      have hr := hrs r List.mem_cons_self
      unfold collectHits
      cases hsupplier : r.supplierId with
      | none =>
          rw [List.filter_cons_of_pos (by simp [hsupplier])]
          exact congrArg (r.surfaceForm :: ·) (hrest seen)
      | some i =>
          rw [List.filter_cons_of_neg (by simp [hsupplier])]
          cases hpublic : r.publicId with
          | none => exact absurd (hr.mpr hpublic) (by rw [hsupplier]; simp)
          | some p =>
              dsimp only
              split
              · exact hrest seen
              · exact hrest (i :: seen)

/-- A resolution has both keys of its supplier or none. -/
theorem supplierId_eq_none_iff (db : Database) (form : String) :
    (resolutionOf U db form).supplierId = none ↔ (resolutionOf U db form).publicId = none := by
  unfold resolutionOf unresolved
  split
  · exact iff_of_true rfl rfl
  · split
    · exact iff_of_false (by simp) (by simp)
    · exact iff_of_true rfl rfl

/-- The suppliers reported are those that a resolution names and that were not seen before. -/
theorem mem_map_hits_collectHits_iff {rs : List Resolution}
    (hrs : ∀ r ∈ rs, r.supplierId = none ↔ r.publicId = none) (seen : List ℕ) (i : ℕ) :
    i ∈ (collectHits seen rs).hits.map (·.supplierId) ↔
      i ∉ seen ∧ ∃ r ∈ rs, r.supplierId = some i := by
  constructor
  · intro h
    obtain ⟨hit, hhit, rfl⟩ := List.mem_map.mp h
    obtain ⟨r, hr, hsupplier, -⟩ := mem_hits_collectHits hhit
    exact ⟨(nodup_hits_collectHits rs seen).2 hit hhit, r, hr, hsupplier⟩
  · rintro ⟨hseen, r, hr, hsupplier⟩
    obtain ⟨p, hp⟩ : ∃ p, r.publicId = some p := by
      apply Option.ne_none_iff_exists'.mp
      intro hnone
      rw [(hrs r hr).mpr hnone] at hsupplier
      exact Option.some_ne_none i hsupplier.symm
    obtain ⟨hit, hhit, hid⟩ := exists_hit_collectHits hr hsupplier hp hseen
    exact List.mem_map.mpr ⟨hit, hhit, hid⟩

/-- What is reported of a list of names: each supplier that one of them resolves to, once, and each
name that resolves to none. -/
structure Screened (U : Unicode) (db : Database) (names : List String) (result : ScreeningResult) :
    Prop where
  hits : ∀ i, i ∈ result.hits.map (·.supplierId) ↔
    ∃ name ∈ names, U.strip name ≠ "" ∧ (resolve U db name).supplierId = some i
  once : (result.hits.map (·.supplierId)).Nodup
  unmatched : result.unmatchedNames = names.filter fun name =>
    U.strip name ≠ "" ∧ (resolve U db name).supplierId = none

/-- The hits and the rest of a list of names that are not blank. -/
theorem screened_collectHits (db : Database) (names : List String) :
    Screened U db names
      (collectHits [] ((names.filter fun name => U.strip name ≠ "").map (resolutionOf U db))) := by
  have hkeys : ∀ r ∈ (names.filter fun name => U.strip name ≠ "").map (resolutionOf U db),
      r.supplierId = none ↔ r.publicId = none := by
    intro r hr
    obtain ⟨name, -, rfl⟩ := List.mem_map.mp hr
    exact supplierId_eq_none_iff db name
  refine ⟨fun i => ?_, (nodup_hits_collectHits _ []).1, ?_⟩
  · rw [mem_map_hits_collectHits_iff hkeys]
    constructor
    · rintro ⟨-, r, hr, hsupplier⟩
      obtain ⟨name, hname, rfl⟩ := List.mem_map.mp hr
      obtain ⟨hmem, hblank⟩ := List.mem_filter.mp hname
      refine ⟨name, hmem, of_decide_eq_true hblank, ?_⟩
      rw [resolve_eq_resolutionOf]
      exact hsupplier
    · rintro ⟨name, hmem, hblank, hsupplier⟩
      rw [resolve_eq_resolutionOf] at hsupplier
      have hname : name ∈ names.filter fun name => U.strip name ≠ "" :=
        List.mem_filter.mpr ⟨hmem, decide_eq_true hblank⟩
      exact ⟨List.not_mem_nil, _, List.mem_map_of_mem hname, hsupplier⟩
  · rw [unmatched_collectHits hkeys, List.filter_map, List.map_map, List.filter_filter]
    have hform : ((·.surfaceForm) ∘ resolutionOf U db : String → String) = id := by
      funext name
      simp only [Function.comp_apply, surfaceForm_resolutionOf, id_eq]
    rw [hform, List.map_id]
    apply List.filter_congr
    intro name _
    rw [resolve_eq_resolutionOf, Function.comp_apply, Bool.and_comm, ← Bool.decide_and]

/-- **What screening reports** of a list of names. -/
theorem screenDesignation_spec (primary : String) (aliases : List String) :
    Screened U db (primary :: aliases) (screenDesignation U db primary aliases) := by
  have h := screened_collectHits (U := U) db (primary :: aliases)
  unfold screenDesignation
  simp only
  by_cases hblank : ((primary :: aliases).filter fun name => U.strip name ≠ "") = []
  · rw [if_pos hblank]
    rw [hblank] at h
    exact h
  · rw [if_neg hblank, resolveMany_eq_map]
    exact h

/-! ## From the element to the report -/

/-- **Every spelling of a designation is screened.**  The names of its record, which are those in
the payload of its article, are distinct, start with the primary one, and are the names of its
`nameAlias` elements, or the reference where there is none; and screening them reports each supplier
that one of them resolves to, once, and each of them that resolves to none. -/
theorem spellings_screened {isDecimal : Char → Bool} {earliest : String → Option String}
    {now : Instant} {e : Element} {record : Record}
    (h : recordOf U isDecimal earliest now e = some record) (p : EUSanctionsProvider)
    (db : Database) :
    RawPayload.designationNames (p.article record).rawPayloadJson = record.screeningNames ∧
      record.screeningNames.Nodup ∧ (∀ name, name ∈ record.screeningNames ↔ NameOf U e name) ∧
      record.primary = primaryName U e ∧
      ∃ secondary, record.screeningNames = record.primary :: secondary ∧
        Screened U db record.screeningNames (screenDesignation U db record.primary secondary) := by
  obtain ⟨secondary, hnames, hnodup⟩ := nodup_screeningNames h
  refine ⟨rfl, hnodup, fun name => mem_screeningNames_iff h, primary_eq_primaryName h, secondary, hnames,
    ?_⟩
  rw [hnames]
  exact screenDesignation_spec record.primary secondary

end Screening

/-- A designation with a name, a strong name inside another element, and the first name again. -/
def acme : Element :=
  .mk "sanctionEntity" [("euReferenceNumber", "EU.1"), ("designationDate", "2024-01-02")] none
    [.mk "nameAlias" [("wholeName", "Acme")] none [],
      .mk "names" [] none
        [.mk "nameAlias" [("wholeName", "Acme  Trading"), ("strong", "true")] none []],
      .mk "nameAlias" [("wholeName", "Acme")] none []]

theorem spellings_screened_acme :
    ∃ record, recordOf .ascii asciiDecimal (fun _ => none) 0 acme = some record ∧
      record.screeningNames = ["Acme Trading", "Acme"] ∧
      record.primary = primaryName .ascii acme ∧
      ∃ secondary, record.screeningNames = record.primary :: secondary ∧
        Screened .ascii Database.empty record.screeningNames
          (screenDesignation .ascii Database.empty record.primary secondary) := by
  obtain ⟨record, hrecord, hnames⟩ : ∃ record,
      recordOf .ascii asciiDecimal (fun _ => none) 0 acme = some record ∧
        record.screeningNames = ["Acme Trading", "Acme"] :=
    ⟨_, rfl, by decide +kernel⟩
  obtain ⟨-, -, -, hprimary, hscreened⟩ :=
    spellings_screened hrecord euFinancialSanctions Database.empty
  exact ⟨record, hrecord, hnames, hprimary, hscreened⟩

end ProcureSignal.Suppliers
