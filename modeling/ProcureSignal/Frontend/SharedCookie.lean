/-
# The shared refresh cookie

Single flight is per tab and the cookie is shared by all: two tabs may present one refresh
token, and a tab whose answer was lost presents it again.  The server takes the second
presentation for a theft and revokes the family (`honest_browser_accused`).

`honest_browser`: where a tab starts a refresh only while no other refresh with the cookie is
unanswered or has lost its answer, the server revokes a family for reuse only after the user
signed out of it.
-/
import ProcureSignal.Frontend.Browser

namespace ProcureSignal.Frontend

open Auth

variable {τ : Type} (C : Crypto τ) {U : Unicode}

/-! ## The condition and the property -/

/-- The refresh token an answer carries. -/
def Answer.token? : Answer τ → Option String
  | .session _ refreshToken => some refreshToken
  | _ => none

/-- The refresh token the answer to an exchange carries. -/
def Exchange.answerToken (e : Exchange τ) : Option String :=
  match e.status with
  | .answered answer | .arrived answer | .lost answer => answer.token?
  | _ => none

/-- The exchange may still rotate the token it presented, or has rotated it and the browser
does not have the successor. -/
def Exchange.outstanding (e : Exchange τ) : Bool :=
  match e.status with
  | .sent => true
  | .answered answer | .lost answer => answer.token?.isSome
  | _ => false

/-- A tab starts a refresh only while no refresh with the cookie is outstanding. -/
def refreshGuard (s : Browser τ) : Label τ → Bool
  | .tab i event =>
      !startsRefresh (s.tabs i) event || s.cookie.isNone || s.exchanges.all fun e =>
        e.kind ≠ .refresh || e.presented ≠ s.cookie || !e.outstanding
  | _ => true

/-- The row of a token the exchange presents. -/
def presentedRow (st : Store) (e : Exchange τ) : Option RefreshToken :=
  e.presented.bind fun token => st.token? (C.hashRefreshToken token)

/-- The step serves a sign-out of the family. -/
def signsOut (familyId : FamilyId) (x : Browser τ × Label τ) : Bool :=
  match x.2 with
  | .serve k _ _ => (x.1.exchanges[k]?).any fun e =>
      e.kind = .logout && (presentedRow C x.1.tenants.toStore e).any (·.familyId = familyId)
  | _ => false

/-- The family that the step revokes for reuse. -/
def revokesReused (x : Browser τ × Label τ) : Option FamilyId :=
  match x.2 with
  | .serve k _ _ => (x.1.exchanges[k]?).bind fun e =>
      match e.kind, e.status with
      | .refresh, .sent =>
          ((presentedRow C x.1.tenants.toStore e).filter (·.revokedAt ≠ none)).map (·.familyId)
      | _, _ => none
  | _ => none

/-! ## The invariant -/

/-- The browser has, or has had, the token. -/
def Held (s : Browser τ) (token : String) : Prop :=
  s.cookie = some token ∨ ∃ (k : ℕ) (e : Exchange τ), s.exchanges[k]? = some e ∧
    (e.presented = some token ∨ e.answerToken = some token)

/-- The token is not presented any more, unless the answer that replaces it is outstanding. -/
structure Spent (s : Browser τ) (token : String) : Prop where
  unsent : ∀ (k : ℕ) (e : Exchange τ), s.exchanges[k]? = some e → e.kind = .refresh → e.presented = some token →
    e.status ≠ .sent
  undelivered : ∀ (k : ℕ) (e : Exchange τ) answer, s.exchanges[k]? = some e → e.status = .answered answer →
    answer.token? ≠ some token
  cookie : s.cookie = some token → ∃ (k : ℕ) (e : Exchange τ), s.exchanges[k]? = some e ∧ e.kind = .refresh ∧
    e.presented = some token ∧ e.outstanding

/-- The user has signed out of the family. -/
def SignedOut (tr : List (Browser τ × Label τ)) (familyId : FamilyId) : Prop :=
  ∃ y ∈ tr, signsOut C familyId y

/-- The invariant of guarded runs. -/
structure Honest (tr : List (Browser τ × Label τ)) (s : Browser τ) : Prop where
  stored : ∀ token, Held s token →
    ∃ row, s.tenants.token? (C.hashRefreshToken token) = some row
  distinct : ∀ token token', Held s token → Held s token' →
    C.hashRefreshToken token = C.hashRefreshToken token' → token = token'
  /-- the token of an answer on its way was never seen before -/
  fresh : ∀ (k : ℕ) (e : Exchange τ) answer token, s.exchanges[k]? = some e → e.status = .answered answer →
    answer.token? = some token → s.cookie ≠ some token ∧
      ∀ (k' : ℕ) (e' : Exchange τ), s.exchanges[k']? = some e' →
        e'.presented ≠ some token ∧ (e'.answerToken = some token → k' = k)
  /-- no two refreshes with one token are outstanding -/
  single : ∀ (k k' : ℕ) (e e' : Exchange τ) token, s.exchanges[k]? = some e → s.exchanges[k']? = some e' →
    e.kind = .refresh → e'.kind = .refresh → e.presented = some token →
    e'.presented = some token → e.status = .sent → e'.outstanding → k = k'
  /-- a revoked token is one of a family signed out of, or is spent -/
  revoked : ∀ token row, Held s token → s.tenants.token? (C.hashRefreshToken token) = some row →
    ¬ row.Live → SignedOut C tr row.familyId ∨ Spent s token

variable {C} {s t : Browser τ} {tr : List (Browser τ × Label τ)}

/-- Nobody is signed in. -/
theorem honest_initial (st : Tenants) : Honest C [] (Browser.initial τ st) := by
  have hnone : ∀ (k : ℕ) (e : Exchange τ), (Browser.initial τ st).exchanges[k]? ≠ some e := by
    intro k e he
    cases he
  have hheld : ∀ token, ¬ Held (Browser.initial τ st) token := by
    rintro token (hcookie | ⟨k, e, he, -⟩)
    · cases hcookie
    · exact hnone k e he
  refine ⟨?_, ?_, ?_, ?_, ?_⟩
  · intro token h
    exact absurd h (hheld token)
  · intro token token' h
    exact absurd h (hheld token)
  · intro k e answer token he
    exact absurd he (hnone k e)
  · intro k k' e e' token he
    exact absurd he (hnone k e)
  · intro token row h
    exact absurd h (hheld token)

/-- A longer history is signed out of no less. -/
theorem SignedOut.cons {familyId : FamilyId} (h : SignedOut C tr familyId)
    (x : Browser τ × Label τ) : SignedOut C (x :: tr) familyId := by
  obtain ⟨y, hy, hsigns⟩ := h
  exact ⟨y, List.mem_cons_of_mem x hy, hsigns⟩

/-- The exchanges after one of them has moved. -/
theorem getElem?_restatus {es : List (Exchange τ)} {k : ℕ} {e : Exchange τ} (he : es[k]? = some e)
    (e' : Exchange τ) (j : ℕ) : (es.set k e')[j]? = if j = k then some e' else es[j]? := by
  by_cases hj : j = k
  · subst hj
    obtain ⟨hlt, -⟩ := List.getElem?_eq_some_iff.mp he
    rw [if_pos rfl, List.getElem?_set_self hlt]
  · rw [if_neg hj, List.getElem?_set_ne (Ne.symm hj)]

/-! ## Steps of the browser -/

/-- Nothing changes but the tabs. -/
theorem Honest.quiet (hs : Honest C tr s) (x : Browser τ × Label τ) (hcookie : t.cookie = s.cookie)
    (hexchanges : t.exchanges = s.exchanges) (htenants : t.tenants = s.tenants) :
    Honest C (x :: tr) t := by
  obtain ⟨cookie, tabs, exchanges, settled, tenants⟩ := s
  obtain ⟨cookie', tabs', exchanges', settled', tenants'⟩ := t
  simp only at hcookie hexchanges htenants
  subst hcookie hexchanges htenants
  refine ⟨hs.stored, hs.distinct, hs.fresh, hs.single, ?_⟩
  intro token row hheld hrow hdead
  rcases hs.revoked token row hheld hrow hdead with hout | hspent
  · exact Or.inl (hout.cons x)
  · exact Or.inr ⟨hspent.unsent, hspent.undelivered, hspent.cookie⟩

/-- **A request is sent**, with the cookie. -/
theorem Honest.sent (hs : Honest C tr s) (x : Browser τ × Label τ) {e : Exchange τ}
    (hstatus : e.status = .sent) (hpresented : e.presented = s.cookie)
    (halone : e.kind = .refresh → ∀ token, s.cookie = some token →
      ∀ (k : ℕ) (e' : Exchange τ), s.exchanges[k]? = some e' → e'.kind = .refresh →
        e'.presented = some token → e'.outstanding = false)
    (hcookie : t.cookie = s.cookie) (hexchanges : t.exchanges = s.exchanges ++ [e])
    (htenants : t.tenants = s.tenants) : Honest C (x :: tr) t := by
  have htoken : e.answerToken = none := by
    unfold Exchange.answerToken
    rw [hstatus]
  have hlookup : ∀ (k : ℕ) (e' : Exchange τ), t.exchanges[k]? = some e' →
      s.exchanges[k]? = some e' ∨ k = s.exchanges.length ∧ e' = e := by
    intro k e' he'
    rw [hexchanges] at he'
    rcases lt_or_ge k s.exchanges.length with hk | hk
    · rw [List.getElem?_append_left hk] at he'
      exact Or.inl he'
    · rw [List.getElem?_append_right hk, List.getElem?_singleton] at he'
      split at he'
      · exact Or.inr ⟨by omega, (Option.some.inj he').symm⟩
      · cases he'
  have hold : ∀ (k : ℕ) (e' : Exchange τ), s.exchanges[k]? = some e' → t.exchanges[k]? = some e' := by
    intro k e' he'
    obtain ⟨hk, -⟩ := List.getElem?_eq_some_iff.mp he'
    rw [hexchanges, List.getElem?_append_left hk, he']
  have hheld : ∀ token, Held t token → Held s token := by
    rintro token (h | ⟨k, e', he', h⟩)
    · exact Or.inl (hcookie ▸ h)
    · rcases hlookup k e' he' with he' | ⟨-, rfl⟩
      · exact Or.inr ⟨k, e', he', h⟩
      · rcases h with h | h
        · exact Or.inl (hpresented ▸ h)
        · rw [htoken] at h
          cases h
  refine ⟨?_, ?_, ?_, ?_, ?_⟩
  · intro token h
    rw [htenants]
    exact hs.stored token (hheld token h)
  · intro token token' h h'
    exact hs.distinct token token' (hheld token h) (hheld token' h')
  · intro k e₁ answer token he₁ hanswer htok
    rcases hlookup k e₁ he₁ with he₁ | ⟨-, rfl⟩
    · obtain ⟨hne, hothers⟩ := hs.fresh k e₁ answer token he₁ hanswer htok
      rw [hcookie]
      refine ⟨hne, ?_⟩
      intro k' e' he'
      rcases hlookup k' e' he' with he' | ⟨-, rfl⟩
      · exact hothers k' e' he'
      · refine ⟨hpresented ▸ hne, ?_⟩
        intro h
        rw [htoken] at h
        cases h
    · rw [hstatus] at hanswer
      cases hanswer
  · intro k k' e₁ e₂ token he₁ he₂ hkind₁ hkind₂ hpres₁ hpres₂ hsent hout
    have houtstanding : e₁.outstanding = true := by
      unfold Exchange.outstanding
      rw [hsent]
    rcases hlookup k e₁ he₁ with he₁ | ⟨hk, rfl⟩
    · rcases hlookup k' e₂ he₂ with he₂ | ⟨-, rfl⟩
      · exact hs.single k k' e₁ e₂ token he₁ he₂ hkind₁ hkind₂ hpres₁ hpres₂ hsent hout
      · rw [halone hkind₂ token (hpresented.symm.trans hpres₂) k e₁ he₁ hkind₁ hpres₁]
          at houtstanding
        cases houtstanding
    · rcases hlookup k' e₂ he₂ with he₂ | ⟨hk', rfl⟩
      · rw [halone hkind₁ token (hpresented.symm.trans hpres₁) k' e₂ he₂ hkind₂ hpres₂] at hout
        cases hout
      · exact hk.trans hk'.symm
  · intro token row h hrow hdead
    rw [htenants] at hrow
    rcases hs.revoked token row (hheld token h) hrow hdead with hout | hspent
    · exact Or.inl (hout.cons x)
    · refine Or.inr ⟨?_, ?_, ?_⟩
      · intro k e' he' hkind hpres
        rcases hlookup k e' he' with he' | ⟨-, rfl⟩
        · exact hspent.unsent k e' he' hkind hpres
        · -- the cookie is spent, so its successor is outstanding
          obtain ⟨k', e₁, he₁, hkind₁, hpres₁, hout⟩ :=
            hspent.cookie (hpresented.symm.trans hpres)
          rw [halone hkind token (hpresented.symm.trans hpres) k' e₁ he₁ hkind₁ hpres₁] at hout
          cases hout
      · intro k e' answer he' hanswer
        rcases hlookup k e' he' with he' | ⟨-, rfl⟩
        · exact hspent.undelivered k e' answer he' hanswer
        · rw [hstatus] at hanswer
          cases hanswer
      · intro h
        obtain ⟨k, e', he', hrest⟩ := hspent.cookie (hcookie ▸ h)
        exact ⟨k, e', hold k e' he', hrest⟩

/-- **An exchange moves on**, past the server: it is dropped or lost, or its answer arrives. -/
theorem Honest.restatus (hs : Honest C tr s) (x : Browser τ × Label τ) {k : ℕ} {e : Exchange τ}
    {status : Status τ} (he : s.exchanges[k]? = some e)
    (hexchanges : t.exchanges = s.exchanges.set k { e with status := status })
    (htenants : t.tenants = s.tenants) (hsent : status ≠ .sent)
    (hanswered : ∀ answer, status ≠ .answered answer)
    (htoken : ∀ token, ({ e with status := status } : Exchange τ).answerToken = some token →
      e.answerToken = some token)
    (hout : ({ e with status := status } : Exchange τ).outstanding → e.outstanding)
    (hcookie : ∀ token, t.cookie = some token →
      (s.cookie = some token ∧ (e.outstanding → e.status ≠ .sent →
        ({ e with status := status } : Exchange τ).outstanding)) ∨
      ∃ answer, e.status = .answered answer ∧ answer.token? = some token) :
    Honest C (x :: tr) t := by
  have hlookup : ∀ (j : ℕ) (e' : Exchange τ), t.exchanges[j]? = some e' →
      s.exchanges[j]? = some e' ∧ j ≠ k ∨ j = k ∧ e' = { e with status := status } := by
    intro j e' he'
    rw [hexchanges, getElem?_restatus he] at he'
    split at he'
    · rename_i hj
      exact Or.inr ⟨hj, (Option.some.inj he').symm⟩
    · rename_i hj
      exact Or.inl ⟨he', hj⟩
  have hanswer : ∀ answer token, e.status = .answered answer → answer.token? = some token →
      e.answerToken = some token := by
    intro answer token hstatus htok
    unfold Exchange.answerToken
    rw [hstatus]
    exact htok
  have hheld : ∀ token, Held t token → Held s token := by
    rintro token (h | ⟨j, e', he', h⟩)
    · rcases hcookie token h with ⟨h, -⟩ | ⟨answer, hstatus, htok⟩
      · exact Or.inl h
      · exact Or.inr ⟨k, e, he, Or.inr (hanswer answer token hstatus htok)⟩
    · rcases hlookup j e' he' with ⟨he', -⟩ | ⟨-, rfl⟩
      · exact Or.inr ⟨j, e', he', h⟩
      · exact Or.inr ⟨k, e, he, h.imp id (htoken token)⟩
  refine ⟨?_, ?_, ?_, ?_, ?_⟩
  · intro token h
    rw [htenants]
    exact hs.stored token (hheld token h)
  · intro token token' h h'
    exact hs.distinct token token' (hheld token h) (hheld token' h')
  · intro j e₁ answer token he₁ hanswer₁ htok
    rcases hlookup j e₁ he₁ with ⟨he₁, hj⟩ | ⟨-, rfl⟩
    · obtain ⟨hne, hothers⟩ := hs.fresh j e₁ answer token he₁ hanswer₁ htok
      refine ⟨?_, ?_⟩
      · intro h
        rcases hcookie token h with ⟨h, -⟩ | ⟨answer', hstatus, htok'⟩
        · exact hne h
        · exact hj ((hothers k e he).2 (hanswer answer' token hstatus htok')).symm
      · intro k' e' he'
        rcases hlookup k' e' he' with ⟨he', -⟩ | ⟨hk', rfl⟩
        · exact hothers k' e' he'
        · refine ⟨(hothers k e he).1, fun h => ?_⟩
          rw [hk']
          exact (hothers k e he).2 (htoken token h)
    · exact absurd hanswer₁ (hanswered answer)
  · intro j j' e₁ e₂ token he₁ he₂ hkind₁ hkind₂ hpres₁ hpres₂ hsent₁ hout₂
    rcases hlookup j e₁ he₁ with ⟨he₁, -⟩ | ⟨-, rfl⟩
    · rcases hlookup j' e₂ he₂ with ⟨he₂, -⟩ | ⟨hj', rfl⟩
      · exact hs.single j j' e₁ e₂ token he₁ he₂ hkind₁ hkind₂ hpres₁ hpres₂ hsent₁ hout₂
      · rw [hj']
        exact hs.single j k e₁ e token he₁ he hkind₁ hkind₂ hpres₁ hpres₂ hsent₁ (hout hout₂)
    · exact absurd hsent₁ hsent
  · intro token row h hrow hdead
    rw [htenants] at hrow
    rcases hs.revoked token row (hheld token h) hrow hdead with hgone | hspent
    · exact Or.inl (hgone.cons x)
    · refine Or.inr ⟨?_, ?_, ?_⟩
      · intro j e' he' hkind hpres
        rcases hlookup j e' he' with ⟨he', -⟩ | ⟨-, rfl⟩
        · exact hspent.unsent j e' he' hkind hpres
        · exact hsent
      · intro j e' answer he' hanswer'
        rcases hlookup j e' he' with ⟨he', -⟩ | ⟨-, rfl⟩
        · exact hspent.undelivered j e' answer he' hanswer'
        · exact absurd hanswer' (hanswered answer)
      · intro h
        rcases hcookie token h with ⟨h, hkept⟩ | ⟨answer, hstatus, htok⟩
        · obtain ⟨j, e', he', hkind, hpres, hout'⟩ := hspent.cookie h
          by_cases hj : j = k
          · subst hj
            rw [he, Option.some.injEq] at he'
            subst he'
            refine ⟨j, { e with status := status }, ?_, hkind, hpres,
              hkept hout' (hspent.unsent j e he hkind hpres)⟩
            rw [hexchanges, getElem?_restatus he, if_pos rfl]
          · refine ⟨j, e', ?_, hkind, hpres, hout'⟩
            rw [hexchanges, getElem?_restatus he, if_neg hj, he']
        · exact absurd htok (hspent.undelivered k e answer he hstatus)

/-! ## Steps of the server -/

/-- A served request that is not spent keeps the successor of a spent cookie outstanding. -/
theorem Spent.cookie_served {token : String} (hspent : Spent s token) {k : ℕ} {e : Exchange τ}
    (he : s.exchanges[k]? = some e) (hsent : e.status = .sent) (e' : Exchange τ)
    (hcookie : s.cookie = some token) :
    ∃ (j : ℕ) (e₁ : Exchange τ), (s.exchanges.set k e')[j]? = some e₁ ∧ e₁.kind = .refresh ∧
      e₁.presented = some token ∧ e₁.outstanding := by
  obtain ⟨j, e₁, he₁, hkind, hpres, hout⟩ := hspent.cookie hcookie
  have hj : j ≠ k := by
    rintro rfl
    rw [he, Option.some.injEq] at he₁
    subst he₁
    exact hspent.unsent j e he hkind hpres hsent
  refine ⟨j, e₁, ?_, hkind, hpres, hout⟩
  rw [getElem?_restatus he, if_neg hj, he₁]

/-- **A request is answered without a session.** -/
theorem Honest.answered (hs : Honest C tr s) (x : Browser τ × Label τ) {k : ℕ} {e : Exchange τ}
    {answer : Answer τ} (he : s.exchanges[k]? = some e) (hsent : e.status = .sent)
    (hanswer : answer.token? = none) (hcookie : t.cookie = s.cookie)
    (hexchanges : t.exchanges = s.exchanges.set k { e with status := .answered answer })
    (hkept : ∀ d row, s.tenants.token? d = some row → ∃ row', t.tenants.token? d = some row')
    (hdead : ∀ d row', t.tenants.token? d = some row' → ¬ row'.Live →
      (∃ row, s.tenants.token? d = some row ∧ ¬ row.Live ∧ row.familyId = row'.familyId) ∨
        SignedOut C (x :: tr) row'.familyId) :
    Honest C (x :: tr) t := by
  have hlookup : ∀ (j : ℕ) (e' : Exchange τ), t.exchanges[j]? = some e' →
      s.exchanges[j]? = some e' ∧ j ≠ k ∨ j = k ∧ e' = { e with status := .answered answer } := by
    intro j e' he'
    rw [hexchanges, getElem?_restatus he] at he'
    split at he'
    · rename_i hj
      exact Or.inr ⟨hj, (Option.some.inj he').symm⟩
    · rename_i hj
      exact Or.inl ⟨he', hj⟩
  have hnone : ({ e with status := .answered answer } : Exchange τ).answerToken = none := hanswer
  have hheld : ∀ token, Held t token → Held s token := by
    rintro token (h | ⟨j, e', he', h⟩)
    · exact Or.inl (hcookie ▸ h)
    · rcases hlookup j e' he' with ⟨he', -⟩ | ⟨-, rfl⟩
      · exact Or.inr ⟨j, e', he', h⟩
      · rcases h with h | h
        · exact Or.inr ⟨k, e, he, Or.inl h⟩
        · rw [hnone] at h
          cases h
  refine ⟨?_, ?_, ?_, ?_, ?_⟩
  · intro token h
    obtain ⟨row, hrow⟩ := hs.stored token (hheld token h)
    exact hkept _ row hrow
  · intro token token' h h'
    exact hs.distinct token token' (hheld token h) (hheld token' h')
  · intro j e₁ answer₁ token he₁ hanswer₁ htok
    rcases hlookup j e₁ he₁ with ⟨he₁, -⟩ | ⟨-, rfl⟩
    · obtain ⟨hne, hothers⟩ := hs.fresh j e₁ answer₁ token he₁ hanswer₁ htok
      rw [hcookie]
      refine ⟨hne, ?_⟩
      intro k' e' he'
      rcases hlookup k' e' he' with ⟨he', -⟩ | ⟨-, rfl⟩
      · exact hothers k' e' he'
      · refine ⟨(hothers k e he).1, ?_⟩
        intro h
        rw [hnone] at h
        cases h
    · rw [Status.answered.injEq] at hanswer₁
      rw [← hanswer₁, hanswer] at htok
      cases htok
  · intro j j' e₁ e₂ token he₁ he₂ hkind₁ hkind₂ hpres₁ hpres₂ hsent₁ hout₂
    rcases hlookup j e₁ he₁ with ⟨he₁, -⟩ | ⟨-, rfl⟩
    · rcases hlookup j' e₂ he₂ with ⟨he₂, -⟩ | ⟨-, rfl⟩
      · exact hs.single j j' e₁ e₂ token he₁ he₂ hkind₁ hkind₂ hpres₁ hpres₂ hsent₁ hout₂
      · have hout₂ : answer.token?.isSome = true := hout₂
        rw [hanswer] at hout₂
        cases hout₂
    · cases hsent₁
  · intro token row h hrow hnot
    rcases hdead _ row hrow hnot with ⟨row₀, hrow₀, hnot₀, hfamily⟩ | hgone
    · rcases hs.revoked token row₀ (hheld token h) hrow₀ hnot₀ with hgone | hspent
      · exact Or.inl (hfamily ▸ hgone.cons x)
      · refine Or.inr ⟨?_, ?_, ?_⟩
        · intro j e' he' hkind hpres
          rcases hlookup j e' he' with ⟨he', -⟩ | ⟨-, rfl⟩
          · exact hspent.unsent j e' he' hkind hpres
          · nofun
        · intro j e' answer' he' hanswer'
          rcases hlookup j e' he' with ⟨he', -⟩ | ⟨-, rfl⟩
          · exact hspent.undelivered j e' answer' he' hanswer'
          · rw [Status.answered.injEq] at hanswer'
            rw [← hanswer', hanswer]
            nofun
        · intro hc
          rw [hexchanges]
          exact hspent.cookie_served he hsent _ (hcookie ▸ hc)
    · exact Or.inl hgone

/-- **A request is answered with a session**: its token is new, and at most the presented
token is revoked. -/
theorem Honest.issued (hs : Honest C tr s) (x : Browser τ × Label τ) {k : ℕ} {e : Exchange τ}
    {access : τ} {token : String} (he : s.exchanges[k]? = some e) (hsent : e.status = .sent)
    (hfree : s.tenants.token? (C.hashRefreshToken token) = none) (hcookie : t.cookie = s.cookie)
    (hexchanges : t.exchanges =
      s.exchanges.set k { e with status := .answered (.session access token) })
    (hnew : ∃ row, t.tenants.token? (C.hashRefreshToken token) = some row ∧ row.Live)
    (hkept : ∀ d row, s.tenants.token? d = some row → ∃ row', t.tenants.token? d = some row')
    (hdead : ∀ d row', d ≠ C.hashRefreshToken token → t.tenants.token? d = some row' →
      ¬ row'.Live → (∃ row, s.tenants.token? d = some row ∧ ¬ row.Live ∧
        row.familyId = row'.familyId) ∨
      ∃ old, e.kind = .refresh ∧ e.presented = some old ∧ d = C.hashRefreshToken old) :
    Honest C (x :: tr) t := by
  have hlookup : ∀ (j : ℕ) (e' : Exchange τ), t.exchanges[j]? = some e' →
      s.exchanges[j]? = some e' ∧ j ≠ k ∨
        j = k ∧ e' = { e with status := .answered (.session access token) } := by
    intro j e' he'
    rw [hexchanges, getElem?_restatus he] at he'
    split at he'
    · rename_i hj
      exact Or.inr ⟨hj, (Option.some.inj he').symm⟩
    · rename_i hj
      exact Or.inl ⟨he', hj⟩
  have hheld : ∀ old, Held t old → Held s old ∨ old = token := by
    rintro old (h | ⟨j, e', he', h⟩)
    · exact Or.inl (Or.inl (hcookie ▸ h))
    · rcases hlookup j e' he' with ⟨he', -⟩ | ⟨-, rfl⟩
      · exact Or.inl (Or.inr ⟨j, e', he', h⟩)
      · rcases h with h | h
        · exact Or.inl (Or.inr ⟨k, e, he, Or.inl h⟩)
        · exact Or.inr (Option.some.inj h).symm
  -- the hash of the new token was free, so the browser has no token with it
  have hunseen : ∀ old, Held s old → C.hashRefreshToken old ≠ C.hashRefreshToken token := by
    intro old h heq
    obtain ⟨row, hrow⟩ := hs.stored old h
    rw [heq, hfree] at hrow
    cases hrow
  have hnotheld : ¬ Held s token := fun h => hunseen token h rfl
  refine ⟨?_, ?_, ?_, ?_, ?_⟩
  · intro old h
    rcases hheld old h with h | rfl
    · obtain ⟨row, hrow⟩ := hs.stored old h
      exact hkept _ row hrow
    · obtain ⟨row, hrow, -⟩ := hnew
      exact ⟨row, hrow⟩
  · intro old old' h h' heq
    rcases hheld old h with h | rfl
    · rcases hheld old' h' with h' | rfl
      · exact hs.distinct old old' h h' heq
      · exact absurd heq (hunseen old h)
    · rcases hheld old' h' with h' | rfl
      · exact absurd heq.symm (hunseen old' h')
      · rfl
  · intro j e₁ answer₁ old he₁ hanswer₁ htok
    rcases hlookup j e₁ he₁ with ⟨he₁, hj⟩ | ⟨rfl, rfl⟩
    · obtain ⟨hne, hothers⟩ := hs.fresh j e₁ answer₁ old he₁ hanswer₁ htok
      rw [hcookie]
      refine ⟨hne, ?_⟩
      intro k' e' he'
      rcases hlookup k' e' he' with ⟨he', -⟩ | ⟨-, rfl⟩
      · exact hothers k' e' he'
      · refine ⟨(hothers k e he).1, ?_⟩
        intro h
        have h : some token = some old := h
        have hold : Held s old := by
          refine Or.inr ⟨j, e₁, he₁, Or.inr ?_⟩
          unfold Exchange.answerToken
          rw [hanswer₁]
          exact htok
        exact absurd (Option.some.inj h ▸ hold) hnotheld
    · rw [Status.answered.injEq] at hanswer₁
      rw [← hanswer₁] at htok
      have heq : token = old := Option.some.inj htok
      rw [hcookie]
      refine ⟨fun h => hnotheld (heq ▸ Or.inl h), ?_⟩
      intro k' e' he'
      rcases hlookup k' e' he' with ⟨he', -⟩ | ⟨hk', rfl⟩
      · constructor
        · intro h
          exact hnotheld (heq ▸ Or.inr ⟨k', e', he', Or.inl h⟩)
        · intro h
          exact absurd (heq ▸ Or.inr ⟨k', e', he', Or.inr h⟩) hnotheld
      · exact ⟨fun h => hnotheld (heq ▸ Or.inr ⟨j, e, he, Or.inl h⟩), fun _ => hk'⟩
  · intro j j' e₁ e₂ old he₁ he₂ hkind₁ hkind₂ hpres₁ hpres₂ hsent₁ hout₂
    rcases hlookup j e₁ he₁ with ⟨he₁, -⟩ | ⟨-, rfl⟩
    · rcases hlookup j' e₂ he₂ with ⟨he₂, -⟩ | ⟨hj', rfl⟩
      · exact hs.single j j' e₁ e₂ old he₁ he₂ hkind₁ hkind₂ hpres₁ hpres₂ hsent₁ hout₂
      · rw [hj']
        refine hs.single j k e₁ e old he₁ he hkind₁ hkind₂ hpres₁ hpres₂ hsent₁ ?_
        unfold Exchange.outstanding
        rw [hsent]
    · cases hsent₁
  · intro old row h hrow hnot
    rcases hheld old h with h | rfl
    · rcases hdead _ row (hunseen old h) hrow hnot with
        ⟨row₀, hrow₀, hnot₀, hfamily⟩ | ⟨old', hkind, hpres, hhash⟩
      · rcases hs.revoked old row₀ h hrow₀ hnot₀ with hgone | hspent
        · exact Or.inl (hfamily ▸ hgone.cons x)
        · refine Or.inr ⟨?_, ?_, ?_⟩
          · intro j e' he' hkind hpres
            rcases hlookup j e' he' with ⟨he', -⟩ | ⟨-, rfl⟩
            · exact hspent.unsent j e' he' hkind hpres
            · nofun
          · intro j e' answer' he' hanswer'
            rcases hlookup j e' he' with ⟨he', -⟩ | ⟨-, rfl⟩
            · exact hspent.undelivered j e' answer' he' hanswer'
            · rw [Status.answered.injEq] at hanswer'
              intro htok
              rw [← hanswer'] at htok
              exact hnotheld ((Option.some.inj htok : token = old) ▸ h)
          · intro hc
            rw [hexchanges]
            exact hspent.cookie_served he hsent _ (hcookie ▸ hc)
      · -- the presented token was rotated: its successor is on its way
        have hold' : Held s old' := Or.inr ⟨k, e, he, Or.inl hpres⟩
        have heq : old = old' := hs.distinct old old' h hold' hhash
        subst heq
        have hout : e.outstanding = true := by
          unfold Exchange.outstanding
          rw [hsent]
        refine Or.inr ⟨?_, ?_, ?_⟩
        · intro j e' he' hkind' hpres' hsent'
          rcases hlookup j e' he' with ⟨he', hj⟩ | ⟨-, rfl⟩
          · exact hj (hs.single j k e' e old he' he hkind' hkind hpres' hpres hsent' hout)
          · cases hsent'
        · intro j e' answer' he' hanswer' htok
          rcases hlookup j e' he' with ⟨he', -⟩ | ⟨-, rfl⟩
          · exact ((hs.fresh j e' answer' old he' hanswer' htok).2 k e he).1 hpres
          · rw [Status.answered.injEq] at hanswer'
            rw [← hanswer'] at htok
            exact hnotheld ((Option.some.inj htok : token = old) ▸ h)
        · intro _
          refine ⟨k, { e with status := .answered (.session access token) }, ?_, hkind, hpres, rfl⟩
          rw [hexchanges, getElem?_restatus he, if_pos rfl]
    · obtain ⟨row', hrow', hlive⟩ := hnew
      rw [hrow, Option.some.injEq] at hrow'
      exact absurd (hrow' ▸ hlive) hnot

/-! ## Every run -/

/-- A refresh on its way with a revoked token is of a family signed out of. -/
theorem Honest.signedOut (hs : Honest C tr s) {k : ℕ} {e : Exchange τ} {token : String}
    {row : RefreshToken} (he : s.exchanges[k]? = some e) (hsent : e.status = .sent)
    (hkind : e.kind = .refresh) (hpres : e.presented = some token)
    (hrow : s.tenants.token? (C.hashRefreshToken token) = some row) (hdead : ¬ row.Live) :
    SignedOut C tr row.familyId := by
  rcases hs.revoked token row (Or.inr ⟨k, e, he, Or.inl hpres⟩) hrow hdead with hgone | hspent
  · exact hgone
  · exact absurd hsent (hspent.unsent k e he hkind hpres)

/-- **A guarded step keeps the invariant.** -/
theorem Honest.effect (hs : Honest C tr s) {l : Label τ} (h : Effect C s t l)
    (hguard : refreshGuard s l = true) : Honest C ((s, l) :: tr) t := by
  cases h with
  | quiet hcookie hexchanges htenants => exact hs.quiet _ hcookie hexchanges htenants
  | sent e hstatus hpresented hrefresh hcookie hexchanges htenants =>
      refine hs.sent _ hstatus hpresented ?_ hcookie hexchanges htenants
      intro hkind token htoken k e' he' hkind' hpres'
      obtain ⟨i, event, rfl, hstarts⟩ := hrefresh hkind
      simp only [refreshGuard, hstarts, htoken, Bool.not_true, Option.isNone_some, Bool.false_or,
        List.all_eq_true] at hguard
      have halone := hguard e' (List.mem_of_getElem? he')
      simpa [hkind', hpres'] using halone
  | dropped k e he hstatus hcookie hexchanges htenants =>
      refine hs.restatus _ he hexchanges htenants (by simp) (by simp)
        (fun token h => by cases h) (fun h => by cases h) ?_
      intro token htoken
      exact Or.inl ⟨hcookie ▸ htoken, fun _ hne => absurd hstatus hne⟩
  | lost k e answer he hstatus hcookie hexchanges htenants =>
      have htokens : ({ e with status := .lost answer } : Exchange τ).answerToken =
          e.answerToken := by
        unfold Exchange.answerToken
        rw [hstatus]
      have houts : ({ e with status := .lost answer } : Exchange τ).outstanding =
          e.outstanding := by
        unfold Exchange.outstanding
        rw [hstatus]
      refine hs.restatus _ he hexchanges htenants (by simp) (by simp)
        (fun token h => htokens ▸ h) (fun h => houts ▸ h) ?_
      intro token htoken
      exact Or.inl ⟨hcookie ▸ htoken, fun hout _ => houts.symm ▸ hout⟩
  | arrived k e answer he hstatus hcookie hexchanges htenants =>
      have htokens : ({ e with status := .arrived answer } : Exchange τ).answerToken =
          e.answerToken := by
        unfold Exchange.answerToken
        rw [hstatus]
      refine hs.restatus _ he hexchanges htenants (by simp) (by simp)
        (fun token h => htokens ▸ h) (fun h => by cases h) ?_
      intro token htoken
      rw [hcookie] at htoken
      cases answer with
      | session access new => exact Or.inr ⟨_, hstatus, htoken⟩
      | cleared => cases htoken
      | refused =>
          refine Or.inl ⟨htoken, fun hout _ => ?_⟩
          unfold Exchange.outstanding at hout
          rw [hstatus] at hout
          cases hout
  | served k context d e answer he hstatus hserved hcookie hexchanges =>
      generalize htokens₀ : t.tenants.toStore = st' at hserved
      have hwrite : t.tenants.token? = st'.token? := congrArg Store.token? htokens₀
      cases hserved with
      | unchanged answer hanswer htokens =>
          have hnone : answer.token? = none := by
            cases answer with
            | session access token => exact absurd rfl (hanswer access token)
            | cleared => rfl
            | refused => rfl
          refine hs.answered _ he hstatus hnone hcookie hexchanges ?_ ?_
          · intro digest row hrow
            rw [hwrite]
            exact ⟨row, (htokens digest).trans hrow⟩
          · intro digest row' hrow' hdead
            rw [hwrite, htokens] at hrow'
            exact Or.inl ⟨row', hrow', hdead, rfl⟩
      | minted access token row hkind hfree hlive htokens =>
          refine hs.issued _ he hstatus hfree hcookie hexchanges ?_ ?_ ?_
          · exact ⟨row, by rw [hwrite, htokens, if_pos rfl], hlive⟩
          · intro digest row₀ hrow₀
            rw [hwrite, htokens]
            split
            · exact ⟨row, rfl⟩
            · exact ⟨row₀, hrow₀⟩
          · intro digest row' hne hrow' hdead
            rw [hwrite, htokens, if_neg hne] at hrow'
            exact Or.inl ⟨row', hrow', hdead, rfl⟩
      | rotated access token old stored row now hkind hpres hstored hlive hfree hnew htokens =>
          refine hs.issued _ he hstatus hfree hcookie hexchanges ?_ ?_ ?_
          · exact ⟨row, by rw [hwrite, htokens, if_pos rfl], hnew⟩
          · intro digest row₀ hrow₀
            rw [hwrite, htokens, hrow₀]
            split
            · exact ⟨row, rfl⟩
            · split
              · exact ⟨row₀.revoke now, rfl⟩
              · exact ⟨row₀, rfl⟩
          · intro digest row' hne hrow' hdead
            rw [hwrite, htokens, if_neg hne] at hrow'
            split at hrow'
            · rename_i hhash
              exact Or.inr ⟨old, hkind, hpres, hhash⟩
            · exact Or.inl ⟨row', hrow', hdead, rfl⟩
      | reused old stored now hkind hpres hstored hdead htokens =>
          have hgone := hs.signedOut he hstatus hkind hpres hstored hdead
          refine hs.answered _ he hstatus rfl hcookie hexchanges ?_ ?_
          · intro digest row hrow
            rw [hwrite, htokens, hrow]
            exact ⟨_, rfl⟩
          · intro digest row' hrow' hdead'
            rw [hwrite, htokens, Option.map_eq_some_iff] at hrow'
            obtain ⟨row, hrow, rfl⟩ := hrow'
            split
            · rename_i hcond
              rw [Bool.and_eq_true, decide_eq_true_eq] at hcond
              exact Or.inr (hcond.1.symm ▸ hgone.cons _)
            · rename_i hcond
              rw [if_neg hcond] at hdead'
              exact Or.inl ⟨row, hrow, hdead', rfl⟩
      | signedOut old stored now hkind hpres hstored htokens =>
          refine hs.answered _ he hstatus rfl hcookie hexchanges ?_ ?_
          · intro digest row hrow
            rw [hwrite, htokens, hrow]
            split
            · exact ⟨row.revoke now, rfl⟩
            · exact ⟨row, rfl⟩
          · intro digest row' hrow' hdead'
            rw [hwrite, htokens] at hrow'
            split at hrow'
            · rename_i hhash
              rw [hhash, hstored] at hrow'
              refine Or.inr ⟨_, List.mem_cons_self, ?_⟩
              rw [← Option.some.inj hrow']
              simp [signsOut, presentedRow, he, hkind, hpres, hstored]
            · exact Or.inl ⟨row', hrow', hdead', rfl⟩

/-- **An honest browser is not taken for a thief.**  In every run of any tabs of a browser in
which a tab starts a refresh only while no other refresh with the cookie is unanswered or has
lost its answer: where the server takes a refresh for a reuse and revokes a family, the user
had signed out of that family. -/
theorem honest_browser {st : Tenants} {tr₁ tr₂ : List (Browser τ × Label τ)}
    {x : Browser τ × Label τ}
    (h : Execution (browserStep C U) (fun s l => refreshGuard s l = true)
      (Browser.initial τ st) (tr₂ ++ x :: tr₁) s) {familyId : FamilyId}
    (hreuse : revokesReused C x = some familyId) : ∃ y ∈ tr₁, signsOut C familyId y := by
  obtain ⟨p, l⟩ := x
  obtain ⟨q, h₁, -, -, -⟩ := h.of_append
  have hs : Honest C tr₁ p := h₁.traceInvariant (honest_initial st)
    fun _ _ _ _ hp hg hq => hp.effect (effect_of_step hq) hg
  unfold revokesReused at hreuse
  split at hreuse
  · rename_i k context d
    rw [Option.bind_eq_some_iff] at hreuse
    obtain ⟨e, he, hreuse⟩ := hreuse
    split at hreuse
    · rename_i hkind hsent
      obtain ⟨row, hfilter, rfl⟩ := Option.map_eq_some_iff.mp hreuse
      rw [Option.filter_eq_some_iff, decide_eq_true_eq] at hfilter
      obtain ⟨hpresented, hdead⟩ := hfilter
      unfold presentedRow at hpresented
      rw [Option.bind_eq_some_iff] at hpresented
      obtain ⟨token, hpres, hrow⟩ := hpresented
      exact hs.signedOut he hsent hkind hpres hrow hdead
    · cases hreuse
  · cases hreuse

/-! ## Concrete runs -/

/-- The family of the sign-in of a run. -/
def signInFamily : FamilyId := ⟨"f-1", f1_ne_empty⟩

/-- What the server draws for an exchange. -/
def serverDraws (token : String) (now : Instant) : RegistrationDraw :=
  ⟨"u-2", "o-2", "h", now, now, ⟨token, signInFamily, "j", now, now⟩⟩

/-- The server of a run: one user. -/
def oneTenant : Tenants := ⟨oneUser, UniqueTable.empty⟩

/-- The user signs out, the answer is lost, and the page is restored with the old cookie. -/
theorem honest_browser_after_logout : ∃ tr₁ tr₂ x s,
    Execution (browserStep Crypto.plain Unicode.ascii) (fun s l => refreshGuard s l = true)
      (Browser.initial _ oneTenant) (tr₂ ++ x :: tr₁) s ∧
    revokesReused Crypto.plain x = some signInFamily ∧
    ∃ y ∈ tr₁, signsOut Crypto.plain signInFamily y := by
  obtain ⟨tr, s, h, x, hx, hreuse⟩ : ∃ tr s,
      Execution (browserStep Crypto.plain Unicode.ascii) (fun s l => refreshGuard s l = true)
        (Browser.initial _ oneTenant) tr s ∧
      ∃ x ∈ tr[0]?, revokesReused Crypto.plain x = some signInFamily :=
    Execution.exists_of_execute
      [.signIn 0 (.login "buyer@acme.com" "password"),
        .serve 0 ⟨none, none⟩ (serverDraws "first" 0), .arrive 0, .settle 0,
        .signOut 0, .serve 1 ⟨none, none⟩ (serverDraws "none" 1), .lose 1, .settle 1, .reload 0,
        .tab 0 .restore, .serve 2 ⟨none, none⟩ (serverDraws "second" 2)]
      (by decide +kernel) (by decide +kernel)
  rw [trace_split hx] at h
  exact ⟨_, _, x, s, h, hreuse, honest_browser h hreuse⟩

/-- **Two tabs of a signed-in browser are loaded**, and each refreshes with the one cookie:
the second is taken for a thief. -/
theorem honest_browser_accused : ∃ tr₁ tr₂ x s,
    Execution (browserStep Crypto.plain Unicode.ascii) unguarded
      (Browser.initial _ oneTenant) (tr₂ ++ x :: tr₁) s ∧
    revokesReused Crypto.plain x = some signInFamily ∧
    (∀ y ∈ tr₁, signsOut Crypto.plain signInFamily y = false) ∧
    ∃ row, s.tenants.token? "second" = some row ∧ ¬ row.Live := by
  obtain ⟨tr, s, h, x, hx, hreuse, hout, row, hrow, hdead⟩ : ∃ tr s,
      Execution (browserStep Crypto.plain Unicode.ascii) unguarded
        (Browser.initial _ oneTenant) tr s ∧
      ∃ x ∈ tr[0]?, revokesReused Crypto.plain x = some signInFamily ∧
        (∀ y ∈ tr.drop 1, signsOut Crypto.plain signInFamily y = false) ∧
        ∃ row ∈ s.tenants.token? "second", ¬ row.Live :=
    Execution.exists_of_execute
      [.signIn 0 (.login "buyer@acme.com" "password"),
        .serve 0 ⟨none, none⟩ (serverDraws "first" 0), .arrive 0, .settle 0,
        .reload 0, .tab 0 .restore, .tab 1 .restore,
        .serve 1 ⟨none, none⟩ (serverDraws "second" 1),
        .serve 2 ⟨none, none⟩ (serverDraws "third" 2)]
      (by decide +kernel) (fun _ _ => trivial)
  rw [trace_split hx] at h
  exact ⟨_, _, x, s, h, hreuse, hout, row, hrow, hdead⟩

end ProcureSignal.Frontend
