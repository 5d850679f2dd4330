/-
# What outsiders can do to the lists of an organization

The supplier registry is shared by every organization; its changing endpoints ask for an admin,
and whoever registers is the owner of a new organization.  Do calls of users who are not members
of an organization change what its watchlists show?

* `Platform`, `step` : the tables, and the accepted calls;
* `mem_watchedSupplierIds_of_run` : what is watched after a run of outsiders;
* `sameViews_iff` : in which runs the three readers show the same as before;
* `outsider_merges` : a new owner that merges a watched supplier away.
-/
import ProcureSignal.Auth.Registration
import ProcureSignal.Personalization.PreferenceManager
import ProcureSignal.Watchlists.Merge
import ProcureSignal.Watchlists.Router

namespace ProcureSignal.Watchlists.Integrity

open Auth (Crypto ClientContext RegistrationDraw AuthenticatedUser Tenants requireRole
  resolveAccessToken register)
open Notifications (AlertRule RuleMatch evaluateRules hits watchedByOrganization meetsRule
  lookup_watchedByOrganization)
open Personalization.PreferenceManager (PreferenceStore PreferenceUpdate updatePreferences
  updatePreferenceLanguage)
open Scoring (Watches watchedImpact impactOf_mem_watchedImpact)
open Suppliers (find?_deactivate find?_of_insertAll?_singleton)

/-! ## The tables and the calls -/

/-- The committed tables.  The lists are those of `watchlists`, the preferences those of
`personal`. -/
structure Platform where
  tenants : Tenants
  records : Database
  watchlists : WatchlistTable
  personal : PreferenceStore

namespace Platform

variable (p : Platform)

/-- The tables as the readers see them. -/
def database : Database :=
  { p.records with watchlists := p.watchlists.toTable.map (·.toWatchlist) }

/-- The tables of the watchlist endpoints. -/
def lists : Lists := ⟨p.records.suppliers, p.watchlists, p.records.watchlistEntries⟩

/-- The lists and entries written back. -/
def withLists (st : Lists) : Platform :=
  { p with
    watchlists := st.watchlists
    records := { p.records with watchlistEntries := st.entries } }

/-- The foreign key of `watchlist_entries.supplier_id`. -/
def Referential : Prop :=
  ∀ e ∈ p.records.watchlistEntries.values, ∃ s, p.records.suppliers.find? e.supplierId = some s

end Platform

/-- A call to the API; `τ` is the type of access tokens. -/
inductive Call (τ : Type)
  /-- `register` -/
  | register (email : String) (invitationToken : Option String) (context : ClientContext)
      (draw : RegistrationDraw)
  /-- `create_supplier`, `create_alias` and `merge` -/
  | supplier (token : τ) (now : Instant) (request : Suppliers.Request)
  /-- `create`, `watch` and `unwatch` -/
  | watchlist (token : τ) (now : Instant) (request : Request)
  /-- `update_preferences` -/
  | preferences (token : τ) (now : Instant) (body : PreferenceUpdate)
  /-- `update_preference_language` -/
  | language (token : τ) (now : Instant) (platformLanguage : Option String)

section Step

variable {τ : Type} (C : Crypto τ) (U : Unicode)

/-- `get_current_user`; a registration has no user yet. -/
def Call.caller (p : Platform) : Call τ → Option AuthenticatedUser
  | .register .. => none
  | .supplier token now _ | .watchlist token now _ | .preferences token now _
  | .language token now _ => resolveAccessToken C p.tenants.toStore token now

/-- The public id of the supplier that a call merges into another. -/
def Call.merged : Call τ → Option String
  | .supplier _ _ (.merge _ mergePublicId) => some mergePublicId
  | _ => none

/-- An accepted call. -/
def step (p : Platform) : Call τ → Option Platform
  | .register email invitationToken context draw =>
      match register C U p.tenants email invitationToken context draw with
      | .ok (tenants, _) => some { p with tenants := tenants }
      | .error _ => none
  | .supplier token now request =>
      match requireRole C .admin p.tenants.toStore token now with
      | some _ => (Suppliers.accept U p.records request).map fun db => { p with records := db }
      | none => none
  | .watchlist token now request =>
      match requireRole C .member p.tenants.toStore token now with
      | some user => (handle U p.lists user.organizationId request).toOption.map p.withLists
      | none => none
  | .preferences token now body =>
      match resolveAccessToken C p.tenants.toStore token now with
      | some user =>
          (updatePreferences U p.records p.personal user.publicId body).map fun st =>
            { p with personal := st }
      | none => none
  | .language token now platformLanguage =>
      match resolveAccessToken C p.tenants.toStore token now with
      | some user =>
          (updatePreferenceLanguage U p.personal user.publicId platformLanguage).map fun st =>
            { p with personal := st }
      | none => none

/-- The caller is not a member of the organization. -/
def Outsider (organizationId : ℕ) (p : Platform) (call : Call τ) : Prop :=
  ∀ user ∈ call.caller C p, ∀ m ∈ p.tenants.memberships.values,
    m.userId = user.id → m.organizationId ≠ organizationId

instance (organizationId : ℕ) (p : Platform) (call : Call τ) :
    Decidable (Outsider C organizationId p call) :=
  inferInstanceAs (Decidable (∀ user ∈ call.caller C p, ∀ m ∈ p.tenants.memberships.values,
    m.userId = user.id → m.organizationId ≠ organizationId))

end Step

/-! ## The readers -/

/-- Two states show an organization the same: the watched ids, the matches of its rules on any
batch of events, and the suppliers of its impact report. -/
structure SameViews (organizationId : ℕ) (db db' : Database) : Prop where
  watched : ∀ publicId,
    publicId ∈ watchedSupplierIds db' organizationId ↔
      publicId ∈ watchedSupplierIds db organizationId
  matched : ∀ (alertRules : Table AlertRule) (events : List (ℕ × RiskEvent)),
    (evaluateRules db' alertRules events).filter (·.rule.2.organizationId = organizationId) =
      (evaluateRules db alertRules events).filter (·.rule.2.organizationId = organizationId)
  listed : ∀ (decay : ℚ → ℚ) (now : Instant) (window : ℤ) (publicId : String),
    (∃ impact ∈ watchedImpact decay db' organizationId now window,
        impact.supplierPublicId = publicId) ↔
      ∃ impact ∈ watchedImpact decay db organizationId now window,
        impact.supplierPublicId = publicId

/-- The impact report lists what is watched. -/
theorem listed_iff (decay : ℚ → ℚ) {db : Database} {organizationId : ℕ} {now : Instant}
    {window : ℤ} {publicId : String} :
    (∃ impact ∈ watchedImpact decay db organizationId now window,
        impact.supplierPublicId = publicId) ↔
      publicId ∈ watchedSupplierIds db organizationId := by
  constructor
  · rintro ⟨impact, himpact, rfl⟩
    exact watched_of_listed decay himpact
  · intro hw
    obtain ⟨i, s, hs, rfl, hactive, hwatches⟩ := mem_watchedSupplierIds.mp hw
    exact ⟨_, impactOf_mem_watchedImpact decay hs hactive hwatches now window, rfl⟩

/-- The suppliers a match of a rule names, from the watched ids of its organization. -/
theorem hits_congr {db db' : Database} {rules : List (ℕ × AlertRule)} {rule : ℕ × AlertRule}
    (hrule : rule ∈ rules)
    (h : ∀ publicId, publicId ∈ watchedSupplierIds db' rule.2.organizationId ↔
      publicId ∈ watchedSupplierIds db rule.2.organizationId) (event : RiskEvent) :
    hits (watchedByOrganization db' rules) rule.2 event =
      hits (watchedByOrganization db rules) rule.2 event := by
  unfold hits
  rw [lookup_watchedByOrganization db' hrule, lookup_watchedByOrganization db hrule]
  congr 1
  apply List.filter_congr
  intro publicId _
  simp only [Option.getD_some, decide_eq_decide]
  exact h publicId

/-- The matches of an organization's rules, from its watched ids. -/
theorem matched_congr {db db' : Database} {organizationId : ℕ}
    (h : ∀ publicId, publicId ∈ watchedSupplierIds db' organizationId ↔
      publicId ∈ watchedSupplierIds db organizationId)
    (alertRules : Table AlertRule) (events : List (ℕ × RiskEvent)) :
    (evaluateRules db' alertRules events).filter (·.rule.2.organizationId = organizationId) =
      (evaluateRules db alertRules events).filter (·.rule.2.organizationId = organizationId) := by
  unfold evaluateRules
  simp only
  split
  · rfl
  · rw [List.filter_flatMap, List.filter_flatMap]
    congr 1
    funext event
    split
    · rfl
    · rw [List.filter_filterMap, List.filter_filterMap]
      apply List.filterMap_congr
      intro rule hrule
      by_cases horg : rule.2.organizationId = organizationId
      · subst horg
        rw [hits_congr hrule h]
      · -- the matches of other rules are dropped on both sides
        have hdrop : ∀ watched : List String,
            (Option.filter (fun m : RuleMatch => decide (m.rule.2.organizationId = organizationId))
              (if meetsRule rule.2 event.2 then
                if watched = [] then none else some ⟨rule, event, watched⟩
              else none)) = none := by
          intro watched
          split
          · split
            · rfl
            · simp [Option.filter, horg]
          · rfl
        rw [hdrop, hdrop]

/-- **The readers follow the watched ids.** -/
theorem sameViews_iff_watched {db db' : Database} {organizationId : ℕ} :
    SameViews organizationId db db' ↔
      ∀ publicId, publicId ∈ watchedSupplierIds db' organizationId ↔
        publicId ∈ watchedSupplierIds db organizationId := by
  constructor
  · exact fun h => h.watched
  · intro h
    refine ⟨h, matched_congr h, ?_⟩
    intro decay now window publicId
    rw [listed_iff, listed_iff]
    exact h publicId

/-! ## What one call does -/

section Calls

variable {τ : Type} {C : Crypto τ} {U : Unicode} {p q : Platform} {organizationId : ℕ}

/-- What an accepted call changes. -/
inductive Effect (C : Crypto τ) (U : Unicode) (p : Platform) : Call τ → Platform → Prop
  | register (email : String) (invitationToken : Option String) (context : ClientContext)
      (draw : RegistrationDraw) (tenants : Tenants) :
      Effect C U p (.register email invitationToken context draw) { p with tenants := tenants }
  | supplier (token : τ) (now : Instant) (request : Suppliers.Request) (db : Database)
      (haccept : Suppliers.accept U p.records request = some db) :
      Effect C U p (.supplier token now request) { p with records := db }
  | watchlist (token : τ) (now : Instant) (request : Request) (user : AuthenticatedUser)
      (st : Lists) (huser : resolveAccessToken C p.tenants.toStore token now = some user)
      (hhandle : handle U p.lists user.organizationId request = .ok st) :
      Effect C U p (.watchlist token now request) (p.withLists st)
  | preferences (token : τ) (now : Instant) (body : PreferenceUpdate) (st : PreferenceStore) :
      Effect C U p (.preferences token now body) { p with personal := st }
  | language (token : τ) (now : Instant) (platformLanguage : Option String)
      (st : PreferenceStore) :
      Effect C U p (.language token now platformLanguage) { p with personal := st }

/-- A caller with a role was resolved from its token. -/
theorem resolve_of_requireRole {minimum : Auth.Role} {st : Auth.Store} {token : τ} {now : Instant}
    {user : AuthenticatedUser} (h : requireRole C minimum st token now = some user) :
    resolveAccessToken C st token now = some user := by
  unfold requireRole at h
  rw [Option.filter_eq_some_iff] at h
  exact h.1

/-- **The inversion of a step.** -/
theorem effect_of_step {call : Call τ} (h : step C U p call = some q) : Effect C U p call q := by
  cases call with
  | register email invitationToken context draw =>
      simp only [step] at h
      split at h
      · rw [← Option.some.inj h]
        exact .register email invitationToken context draw _
      · cases h
  | supplier token now request =>
      simp only [step] at h
      split at h
      · obtain ⟨db, haccept, rfl⟩ := Option.map_eq_some_iff.mp h
        exact .supplier token now request db haccept
      · cases h
  | watchlist token now request =>
      simp only [step] at h
      split at h
      · rename_i user huser
        obtain ⟨st, hst, rfl⟩ := Option.map_eq_some_iff.mp h
        refine .watchlist token now request user st (resolve_of_requireRole huser) ?_
        exact Suppliers.eq_ok_of_toOption hst
      · cases h
  | preferences token now body =>
      simp only [step] at h
      split at h
      · obtain ⟨st, -, rfl⟩ := Option.map_eq_some_iff.mp h
        exact .preferences token now body st
      · cases h
  | language token now platformLanguage =>
      simp only [step] at h
      split at h
      · obtain ⟨st, -, rfl⟩ := Option.map_eq_some_iff.mp h
        exact .language token now platformLanguage st
      · cases h

/-- With the same lists and entries, and every supplier still stored, the same is watched. -/
theorem mem_watched_of_extends {db db' : Database} {publicId : String}
    (hwatches : ∀ i, Watches db' organizationId i ↔ Watches db organizationId i)
    (hstored : ∀ i, Watches db organizationId i → ∃ s, db.suppliers.find? i = some s)
    (hext : db'.suppliers.toTable.Extends db.suppliers.toTable) :
    publicId ∈ watchedSupplierIds db' organizationId ↔
      publicId ∈ watchedSupplierIds db organizationId := by
  rw [mem_watchedSupplierIds, mem_watchedSupplierIds]
  constructor
  · rintro ⟨i, s, hs, hid, hactive, hw⟩
    have hold := (hwatches i).mp hw
    obtain ⟨s₀, hs₀⟩ := hstored i hold
    have hsame : s₀ = s := Option.some.inj ((hext i s₀ hs₀).symm.trans hs)
    subst hsame
    exact ⟨i, s₀, hs₀, hid, hactive, hold⟩
  · rintro ⟨i, s, hs, hid, hactive, hw⟩
    exact ⟨i, s, hext i s hs, hid, hactive, (hwatches i).mpr hw⟩

/-- With the same lists and entries, and one supplier deactivated, that one is not watched. -/
theorem mem_watched_of_deactivate {db db' : Database} {mergeId : ℕ} {merge : Supplier}
    {publicId : String} (hmerge : db.suppliers.find? mergeId = some merge)
    (hsuppliers : db'.suppliers = Suppliers.deactivate db.suppliers mergeId)
    (hwatches : ∀ i, Watches db' organizationId i ↔ Watches db organizationId i) :
    publicId ∈ watchedSupplierIds db' organizationId ↔
      publicId ∈ watchedSupplierIds db organizationId ∧ merge.publicId ≠ publicId := by
  rw [mem_watchedSupplierIds, mem_watchedSupplierIds, hsuppliers]
  simp only [find?_deactivate, hwatches]
  constructor
  · rintro ⟨i, s, hs, hid, hactive, hw⟩
    obtain ⟨s₀, hs₀, hsome⟩ := Option.map_eq_some_iff.mp hs
    have hne : i ≠ mergeId := by
      intro hi
      rw [if_pos hi] at hsome
      rw [← hsome] at hactive
      exact Bool.false_ne_true hactive
    rw [if_neg hne] at hsome
    subst hsome
    refine ⟨⟨i, s₀, hs₀, hid, hactive, hw⟩, ?_⟩
    -- public ids are unique
    intro hsame
    have heq : (mergeId, merge) = (i, s₀) := UniqueTable.eq_of_unique (t := db.suppliers)
      List.mem_cons_self (Table.find?_eq_some_iff.mp hmerge) (Table.find?_eq_some_iff.mp hs₀)
      rfl (by rw [hsame, hid])
    exact hne (Prod.mk.inj heq).1.symm
  · rintro ⟨⟨i, s, hs, hid, hactive, hw⟩, hne⟩
    have hkept : i ≠ mergeId := by
      rintro rfl
      have hsame : s = merge := Option.some.inj (hs.symm.trans hmerge)
      exact hne (by rw [← hsame, hid])
    refine ⟨i, s, ?_, hid, hactive, hw⟩
    rw [hs, Option.map_some, if_neg hkept]

/-- A supplier that an organization watches is stored. -/
theorem stored_of_watches (hp : p.Referential) {i : ℕ} (h : Watches p.database organizationId i) :
    ∃ s, p.database.suppliers.find? i = some s := by
  obtain ⟨e, he, rfl, -⟩ := h
  exact hp e he

/-- **What a registry request does to the watched ids**: a merge takes the merged supplier. -/
theorem mem_watched_of_accept (hp : p.Referential) {request : Suppliers.Request} {db : Database}
    (h : Suppliers.accept U p.records request = some db) {token : τ} {now : Instant}
    {publicId : String} :
    publicId ∈ watchedSupplierIds ({ p with records := db } : Platform).database organizationId ↔
      publicId ∈ watchedSupplierIds p.database organizationId ∧
        (Call.supplier token now request).merged ≠ some publicId := by
  have hhandle := Suppliers.accept_eq_some U h
  cases request with
  | createSupplier newId canonicalName country lei =>
      obtain ⟨supplierId, hregister⟩ := Suppliers.handle_createSupplier U hhandle
      obtain ⟨-, -, -, suppliers, aliases, rfl, hsuppliers, -⟩ :=
        Suppliers.registerSupplier_eq_ok U hregister
      have hne : (Call.supplier token now
          (.createSupplier newId canonicalName country lei)).merged ≠ some publicId := nofun
      rw [and_iff_left hne]
      refine mem_watched_of_extends (fun i => Iff.rfl) (fun i => stored_of_watches hp) ?_
      intro i s hs
      have hold : i ≠ p.records.suppliers.nextId := by
        rintro rfl
        have hnone := Table.find?_nextId p.records.suppliers.toTable
        rw [show p.records.suppliers.toTable.find? _ = some s from hs] at hnone
        cases hnone
      show suppliers.find? i = some s
      rw [find?_of_insertAll?_singleton hsuppliers, if_neg hold]
      exact hs
  | createAlias supplierPublicId aliasName =>
      obtain ⟨supplierId, s, record, -, hadd⟩ := Suppliers.handle_createAlias U hhandle
      have hne : (Call.supplier token now (.createAlias supplierPublicId aliasName)).merged ≠
          some publicId := nofun
      rw [and_iff_left hne]
      rcases Suppliers.addAlias_eq_ok U hadd with ⟨rfl, -⟩ | ⟨-, -, -, aliases, rfl, -⟩
      · exact Iff.rfl
      · exact Iff.rfl
  | merge keepPublicId mergePublicId =>
      obtain ⟨keepId, keep, mergeId, merge, -, hload, hmerge⟩ := Suppliers.handle_merge U hhandle
      obtain ⟨hrow, rfl⟩ := Suppliers.load_eq_ok hload
      obtain ⟨-, -, -, rfl⟩ := Suppliers.mergeSuppliers_eq_ok hmerge
      have hmerged : (Call.supplier token now (.merge keepPublicId merge.publicId)).merged ≠
          some publicId ↔ merge.publicId ≠ publicId := by
        rw [ne_eq, ne_eq, Call.merged, Option.some.injEq]
      rw [hmerged]
      exact mem_watched_of_deactivate (show p.database.suppliers.find? mergeId = some merge from hrow)
        rfl fun i => Iff.rfl

/-- What an organization watches, from the rows of its lists. -/
theorem watches_iff (p : Platform) (organizationId i : ℕ) :
    Watches p.database organizationId i ↔
      ∃ e ∈ p.records.watchlistEntries.values, e.supplierId = i ∧
        ∃ w, p.watchlists.find? e.watchlistId = some w ∧ w.organizationId = organizationId := by
  have hfind : ∀ j, p.database.watchlists.find? j =
      (p.watchlists.find? j).map (·.toWatchlist) := by
    intro j
    exact Table.find?_map p.watchlists.toTable (·.toWatchlist) j
  unfold Watches
  refine exists_congr fun e => and_congr_right fun _ => and_congr_right fun _ => ?_
  rw [hfind]
  constructor
  · rintro ⟨w, hw, horg⟩
    obtain ⟨row, hrow, rfl⟩ := Option.map_eq_some_iff.mp hw
    exact ⟨row, hrow, horg⟩
  · rintro ⟨row, hrow, horg⟩
    exact ⟨row.toWatchlist, by rw [hrow, Option.map_some], horg⟩

/-- Whose lists a watchlist request touches: those of the caller's organization alone. -/
theorem watches_of_handle {st : Lists} {caller : ℕ} {request : Request}
    (h : handle U p.lists caller request = .ok st) (hne : caller ≠ organizationId) (i : ℕ) :
    Watches (p.withLists st).database organizationId i ↔ Watches p.database organizationId i := by
  rw [watches_iff, watches_iff]
  cases request with
  | create publicId name =>
      obtain ⟨watchlists, w, horg, hinsert, rfl⟩ := handle_create h
      refine exists_congr fun e => and_congr_right fun _ => and_congr_right fun _ => ?_
      show (∃ row, watchlists.toTable.find? e.watchlistId = some row ∧ _) ↔ _
      rw [hinsert]
      have hw : w.organizationId ≠ organizationId := horg ▸ hne
      constructor
      · rintro ⟨row, hrow, hB⟩
        have hrow_ne : w ≠ row := by
          rintro rfl
          exact hw hB
        exact ⟨row, (Table.find?_insert_of_ne hrow_ne.symm _).mp hrow, hB⟩
      · rintro ⟨row, hrow, hB⟩
        exact ⟨row, Table.find?_insert_of_eq_some hrow, hB⟩
  | watch publicId supplierPublicId =>
      obtain ⟨watchlistId, w, supplierId, s, hw, horg, -, rfl⟩ := onEntry_eq_ok h
      have hlists : (p.withLists (addSupplier p.lists watchlistId supplierId)).watchlists =
          p.watchlists := watchlists_addSupplier _ _ _
      rw [hlists]
      constructor
      · rintro ⟨e, he, hi, hB⟩
        rcases mem_entries_addSupplier.mp he with he | rfl
        · exact ⟨e, he, hi, hB⟩
        · -- the new entry is on a list of the caller's organization
          obtain ⟨w', hw', hB⟩ := hB
          have hsame : w = w' := Option.some.inj (hw.symm.trans hw')
          exact absurd (horg.symm.trans (hsame ▸ hB)) hne
      · rintro ⟨e, he, hi, hB⟩
        exact ⟨e, mem_entries_addSupplier.mpr (Or.inl he), hi, hB⟩
  | unwatch publicId supplierPublicId =>
      obtain ⟨watchlistId, w, supplierId, s, hw, horg, -, rfl⟩ := onEntry_eq_ok h
      constructor
      · rintro ⟨e, he, hi, hB⟩
        exact ⟨e, (mem_entries_removeSupplier.mp he).1, hi, hB⟩
      · rintro ⟨e, he, hi, hB⟩
        refine ⟨e, mem_entries_removeSupplier.mpr ⟨he, ?_⟩, hi, hB⟩
        rintro ⟨rfl, -⟩
        obtain ⟨w', hw', hB⟩ := hB
        have hsame : w = w' := Option.some.inj (hw.symm.trans hw')
        exact hne (horg.symm.trans (hsame ▸ hB))

/-- A registry request keeps the entries and the keys of the suppliers. -/
theorem kept_of_handle {db db' : Database} {request : Suppliers.Request}
    (h : Suppliers.handle U db request = .ok db') :
    db'.watchlistEntries = db.watchlistEntries ∧
      ∀ i s, db.suppliers.find? i = some s → ∃ s', db'.suppliers.find? i = some s' := by
  cases request with
  | createSupplier newId canonicalName country lei =>
      obtain ⟨supplierId, hregister⟩ := Suppliers.handle_createSupplier U h
      obtain ⟨-, -, -, suppliers, aliases, rfl, hsuppliers, -⟩ :=
        Suppliers.registerSupplier_eq_ok U hregister
      refine ⟨rfl, fun i s hs => ?_⟩
      show ∃ s', suppliers.find? i = some s'
      rw [find?_of_insertAll?_singleton hsuppliers]
      split
      · exact ⟨_, rfl⟩
      · exact ⟨s, hs⟩
  | createAlias publicId aliasName =>
      obtain ⟨supplierId, s, record, -, hadd⟩ := Suppliers.handle_createAlias U h
      rcases Suppliers.addAlias_eq_ok U hadd with ⟨rfl, -⟩ | ⟨-, -, -, aliases, rfl, -⟩
      · exact ⟨rfl, fun i s hs => ⟨s, hs⟩⟩
      · exact ⟨rfl, fun i s hs => ⟨s, hs⟩⟩
  | merge publicId mergePublicId =>
      obtain ⟨keepId, keep, mergeId, merge, -, -, hmerge⟩ := Suppliers.handle_merge U h
      obtain ⟨-, -, -, rfl⟩ := Suppliers.mergeSuppliers_eq_ok hmerge
      refine ⟨rfl, fun i s hs => ?_⟩
      show ∃ s', (Suppliers.deactivate db.suppliers mergeId).find? i = some s'
      rw [find?_deactivate, hs]
      exact ⟨_, rfl⟩

/-- The entries refer to suppliers after every call. -/
theorem Platform.Referential.step (hp : p.Referential) {call : Call τ}
    (h : step C U p call = some q) : q.Referential := by
  cases effect_of_step h with
  | supplier token now request db haccept =>
      have hhandle := Suppliers.accept_eq_some U haccept
      -- no request removes a supplier or adds an entry
      have hkept : db.watchlistEntries = p.records.watchlistEntries ∧
          ∀ i s, p.records.suppliers.find? i = some s → ∃ s', db.suppliers.find? i = some s' :=
        kept_of_handle hhandle
      intro e he
      rw [hkept.1] at he
      obtain ⟨s, hs⟩ := hp e he
      exact hkept.2 e.supplierId s hs
  | watchlist token now request user st huser hhandle =>
      intro e he
      cases request with
      | create publicId name =>
          obtain ⟨watchlists, w, -, -, rfl⟩ := handle_create hhandle
          exact hp e he
      | watch publicId supplierPublicId =>
          obtain ⟨watchlistId, w, supplierId, s, -, -, hs, rfl⟩ := onEntry_eq_ok hhandle
          rcases mem_entries_addSupplier.mp he with he | rfl
          · exact hp e he
          · exact ⟨s, hs⟩
      | unwatch publicId supplierPublicId =>
          obtain ⟨watchlistId, w, supplierId, s, -, -, -, rfl⟩ := onEntry_eq_ok hhandle
          exact hp e (mem_entries_removeSupplier.mp he).1
  | register email invitationToken context draw tenants => exact hp
  | preferences token now body st => exact hp
  | language token now platformLanguage st => exact hp

/-- **What one call of an outsider does to the watched ids.** -/
theorem mem_watched_of_step (hp : p.Referential) {call : Call τ}
    (houtsider : Outsider C organizationId p call) (h : step C U p call = some q)
    {publicId : String} :
    publicId ∈ watchedSupplierIds q.database organizationId ↔
      publicId ∈ watchedSupplierIds p.database organizationId ∧ call.merged ≠ some publicId := by
  cases effect_of_step h with
  | supplier token now request db haccept => exact mem_watched_of_accept hp haccept
  | watchlist token now request user st huser hhandle =>
      have hmember := Auth.resolveAccessToken_eq_some huser
      have hne : user.organizationId ≠ organizationId :=
        houtsider user huser ⟨user.id, user.organizationId, user.role⟩ hmember rfl
      have hunmerged : (Call.watchlist token now request).merged ≠ some publicId := nofun
      rw [and_iff_left hunmerged]
      have hsuppliers : (p.withLists st).database.suppliers = p.database.suppliers := rfl
      refine mem_watched_of_extends (watches_of_handle hhandle hne)
        (fun i => stored_of_watches hp) ?_
      rw [hsuppliers]
      exact Table.Extends.refl _
  | register email invitationToken context draw tenants =>
      exact (and_iff_left (nofun : (Call.register email invitationToken context draw :
        Call τ).merged ≠ some publicId)).symm
  | preferences token now body st =>
      exact (and_iff_left (nofun : (Call.preferences token now body).merged ≠ some publicId)).symm
  | language token now platformLanguage st =>
      exact (and_iff_left
        (nofun : (Call.language token now platformLanguage).merged ≠ some publicId)).symm

/-! ## Runs of outsiders -/

/-- No call of the run merges a supplier of this public id away. -/
def Unmerged (tr : List (Platform × Call τ)) (publicId : String) : Prop :=
  ∀ x ∈ tr, x.2.merged ≠ some publicId

theorem unmerged_cons {x : Platform × Call τ} {tr : List (Platform × Call τ)} {publicId : String} :
    Unmerged (x :: tr) publicId ↔ x.2.merged ≠ some publicId ∧ Unmerged tr publicId :=
  List.forall_mem_cons

/-- **What is watched after a run of outsiders**: what was watched before, and no call merged
away. -/
theorem mem_watchedSupplierIds_of_run {tr : List (Platform × Call τ)} (hp : p.Referential)
    (h : Execution (step C U) (Outsider C organizationId) p tr q) {publicId : String} :
    publicId ∈ watchedSupplierIds q.database organizationId ↔
      publicId ∈ watchedSupplierIds p.database organizationId ∧ Unmerged tr publicId := by
  have hboth : q.Referential ∧
      (publicId ∈ watchedSupplierIds q.database organizationId ↔
        publicId ∈ watchedSupplierIds p.database organizationId ∧ Unmerged tr publicId) := by
    induction h with
    | nil =>
        have hnone : Unmerged ([] : List (Platform × Call τ)) publicId := by
          intro x hx
          cases hx
        exact ⟨hp, (and_iff_left hnone).symm⟩
    | snoc hrun houtsider hstep ih =>
        obtain ⟨href, hih⟩ := ih
        refine ⟨href.step hstep, ?_⟩
        rw [mem_watched_of_step href houtsider hstep, hih, unmerged_cons, and_assoc]
        exact and_congr_right fun _ => and_comm
  exact hboth.2

/-- **When outsiders change nothing.**  In every run of calls of users who are not members of
an organization, the three readers show it the same as before exactly when none of the calls
merged away a supplier that it watched. -/
theorem sameViews_iff {tr : List (Platform × Call τ)} (hp : p.Referential)
    (h : Execution (step C U) (Outsider C organizationId) p tr q) :
    SameViews organizationId p.database q.database ↔
      ∀ publicId ∈ watchedSupplierIds p.database organizationId, Unmerged tr publicId := by
  rw [sameViews_iff_watched]
  constructor
  · intro hsame publicId hw
    have hkept := (hsame publicId).mpr hw
    exact ((mem_watchedSupplierIds_of_run hp h).mp hkept).2
  · intro hunmerged publicId
    rw [mem_watchedSupplierIds_of_run hp h]
    exact ⟨fun hw => hw.1, fun hw => ⟨hw, hunmerged publicId hw⟩⟩

end Calls

/-! ## A new owner -/

/-- Organization `1` has one member and watches the duplicate `p2` of `p1`. -/
def watched : Platform where
  tenants := { Auth.oneUser with invitations := UniqueTable.empty }
  records := watching [2]
  watchlists := UniqueTable.empty.insertFree ⟨⟨1⟩, "w-1", "Tier 1", "tier 1"⟩ (by decide)
  personal := ⟨UniqueTable.empty, Table.empty⟩

/-- Its one entry refers to a supplier. -/
theorem referential_watched : watched.Referential := by
  intro e he
  have hentry : e = ⟨1, 2⟩ := List.mem_singleton.mp he
  exact ⟨duplicate, by rw [hentry]; rfl⟩

/-- A stranger registers and, as the owner of a new organization, merges two suppliers. -/
def strangerMerges (publicId mergePublicId : String) :
    List (Call (Auth.AccessClaims × Instant)) :=
  [.register "m@x.io" none ⟨none, none⟩
    ⟨"u-2", "o-2", "h", 0, 0, ⟨"t-2", ⟨"f-2", Auth.f2_ne_empty⟩, "j-2", 0, 0⟩⟩,
   .supplier (⟨"u-2", "o-2", .owner, 0, "j-2"⟩, 10) 1 (.merge publicId mergePublicId)]

/-- A merge of a supplier that organization `1` does not watch shows it the same. -/
theorem sameViews_unwatched : ∃ tr q,
    Execution (step Auth.Crypto.plain Unicode.ascii) (Outsider Auth.Crypto.plain 1) watched tr q ∧
    q.database.suppliers.values.map (·.isActive) = [false, true] ∧
    SameViews 1 watched.database q.database := by
  obtain ⟨tr, q, h, hmerged, htrace⟩ : ∃ tr q,
      Execution (step Auth.Crypto.plain Unicode.ascii) (Outsider Auth.Crypto.plain 1) watched tr q ∧
      q.database.suppliers.values.map (·.isActive) = [false, true] ∧
      ∀ publicId ∈ watchedSupplierIds watched.database 1, ∀ x ∈ tr, x.2.merged ≠ some publicId :=
    Execution.exists_of_execute (strangerMerges "p2" "p1") (by decide +kernel) (by decide +kernel)
  exact ⟨tr, q, h, hmerged, (sameViews_iff referential_watched h).mpr htrace⟩

/-- **An outsider empties a list.**  Both calls are made by somebody who is not a member of
organization `1`; it watched `p2`, and is shown nothing afterwards. -/
theorem outsider_merges : watched.Referential ∧ ∃ tr q,
    Execution (step Auth.Crypto.plain Unicode.ascii) (Outsider Auth.Crypto.plain 1) watched tr q ∧
    watchedSupplierIds watched.database 1 = ["p2"] ∧ watchedSupplierIds q.database 1 = [] ∧
    ¬ SameViews 1 watched.database q.database := by
  refine ⟨referential_watched, ?_⟩
  obtain ⟨tr, q, h, hbefore, hafter⟩ : ∃ tr q,
      Execution (step Auth.Crypto.plain Unicode.ascii) (Outsider Auth.Crypto.plain 1) watched tr q ∧
      watchedSupplierIds watched.database 1 = ["p2"] ∧ watchedSupplierIds q.database 1 = [] :=
    Execution.exists_of_execute (strangerMerges "p1" "p2") (by decide +kernel) (by decide +kernel)
  refine ⟨tr, q, h, hbefore, hafter, ?_⟩
  intro hsame
  have hkept := (hsame.watched "p2").mpr (by rw [hbefore]; exact List.mem_singleton.mpr rfl)
  rw [hafter] at hkept
  cases hkept

end ProcureSignal.Watchlists.Integrity
