/-
# The session module of one tab

`lib/auth.ts` as a step function: the module variables `accessToken` and `inFlightRefresh`,
the calls that wait for an answer, and one event for each call and for each answer.  The
callbacks of one answer run before the next event.

The token is written by the callbacks of several outstanding requests, and none of them
checks what has happened since its request was sent: the answer to a refresh may set a token
after `logout` has settled (`refresh_outlives_logout`).

`session_final`: where no refresh is under way when a sign-in is answered or a sign-out
settles, the token is the one that this event left until a later event replaces it.
-/
import ProcureSignal.Library.Execution

namespace ProcureSignal.Frontend

/-! ## The module -/

/-- Where an asynchronous call is. -/
inductive Call (τ : Type)
  /-- `startSession`: `login` or `register` is posted. -/
  | signingIn
  /-- `logout` is posted. -/
  | signingOut
  /-- an API request is sent with this bearer token; `_retriedAfterRefresh`. -/
  | requested (bearer : Option τ) (retried : Bool)
  /-- an API request met a 401 and awaits the refresh. -/
  | awaitingRefresh
  /-- `restoreSession` awaits the refresh. -/
  | restoring
  /-- `restoreSession` asks for the identity with the token of this refresh. -/
  | identifying (refresh : ℕ)
  | settled
  deriving DecidableEq, Repr

/-- The refresh an identity is asked for with. -/
def Call.refresh? {τ : Type} : Call τ → Option ℕ
  | .identifying refresh => some refresh
  | _ => none

/-- The module variables and the calls of a tab; refreshes are numbered as they start. -/
structure Tab (τ : Type) where
  accessToken : Option τ
  inFlightRefresh : Option ℕ
  refreshes : ℕ
  calls : List (Call τ)
  deriving DecidableEq, Repr

/-- A page that was just loaded. -/
def Tab.initial (τ : Type) : Tab τ := ⟨none, none, 0, []⟩

/-- A call is made, or its answer arrives; calls are numbered as they are made. -/
inductive Event (τ : Type)
  | signIn
  | signedIn (i : ℕ) (token : τ)
  | signInFailed (i : ℕ)
  | signOut
  /-- `logout` settles, whatever the answer. -/
  | signedOut (i : ℕ)
  | send
  /-- any answer to an API request but the 401 that starts a refresh. -/
  | answered (i : ℕ)
  | unauthorized (i : ℕ)
  | restore
  /-- the refresh is answered, with the identity or without. -/
  | refreshed (token : τ) (user : Bool)
  | refreshFailed
  | identified (i : ℕ)
  | identificationFailed (i : ℕ)
  deriving DecidableEq, Repr

variable {τ : Type}

namespace Tab

variable (t : Tab τ)

/-- Make a call. -/
def start (call : Call τ) : Tab τ := { t with calls := t.calls ++ [call] }

/-- Move a call. -/
def move (i : ℕ) (call : Call τ) : Tab τ := { t with calls := t.calls.set i call }

/-- `refreshSession`: the refresh under way is shared. -/
def refreshSession : Tab τ :=
  match t.inFlightRefresh with
  | some _ => t
  | none => { t with inFlightRefresh := some t.refreshes, refreshes := t.refreshes + 1 }

/-- How a call goes on when the refresh it awaits settles. -/
def resume (refresh : ℕ) (result : Option (τ × Bool)) : Call τ → Call τ
  | .awaitingRefresh =>
      match result with
      | some (token, _) => .requested (some token) true
      | none => .settled
  | .restoring =>
      match result with
      | some (_, false) => .identifying refresh
      | _ => .settled
  | call => call

/-- The callbacks of the refresh under way: the token is set or cleared. -/
def settleRefresh (result : Option (τ × Bool)) : Tab τ :=
  match t.inFlightRefresh with
  | some refresh =>
      { accessToken := result.map (·.1)
        inFlightRefresh := none
        refreshes := t.refreshes
        calls := t.calls.map (resume refresh result) }
  | none => t

/-- The event is a call, or an answer to a call that waits for it. -/
def expects : Event τ → Bool
  | .signIn | .signOut | .send | .restore => true
  | .signedIn i _ | .signInFailed i => (t.calls[i]? matches some .signingIn)
  | .signedOut i => (t.calls[i]? matches some .signingOut)
  | .answered i => (t.calls[i]? matches some (.requested _ _))
  | .unauthorized i => (t.calls[i]? matches some (.requested _ false))
  | .refreshed _ _ | .refreshFailed => t.inFlightRefresh.isSome
  | .identified i | .identificationFailed i => (t.calls[i]? matches some (.identifying _))

/-- The tab after an event. -/
def after : Event τ → Tab τ
  | .signIn => t.start .signingIn
  | .signedIn i token => { t.move i .settled with accessToken := some token }
  | .signInFailed i => t.move i .settled
  | .signOut => t.start .signingOut
  | .signedOut i => { t.move i .settled with accessToken := none }
  | .send => t.start (.requested t.accessToken false)
  | .answered i => t.move i .settled
  | .unauthorized i => t.refreshSession.move i .awaitingRefresh
  | .restore => t.refreshSession.start .restoring
  | .refreshed token user => t.settleRefresh (some (token, user))
  | .refreshFailed => t.settleRefresh none
  | .identified i => t.move i .settled
  | .identificationFailed i => { t.move i .settled with accessToken := none }

end Tab

/-- One event. -/
def step (t : Tab τ) (e : Event τ) : Option (Tab τ) :=
  if t.expects e then some (t.after e) else none

/-! ## What an event does -/

variable {s t : Tab τ}

/-- The token an event leaves. -/
def tokenAfter (t : Tab τ) : Event τ → Option τ
  | .signedIn _ token | .refreshed token _ => some token
  | .signedOut _ | .refreshFailed | .identificationFailed _ => none
  | _ => t.accessToken

/-- A step is an expected event. -/
theorem step_eq_some {e : Event τ} (h : step s e = some t) : s.expects e ∧ s.after e = t := by
  unfold step at h
  split at h
  · rename_i hexpects
    exact ⟨hexpects, Option.some.inj h⟩
  · cases h

@[simp] theorem accessToken_refreshSession (t : Tab τ) :
    t.refreshSession.accessToken = t.accessToken := by
  unfold Tab.refreshSession
  split <;> rfl

@[simp] theorem calls_refreshSession (t : Tab τ) : t.refreshSession.calls = t.calls := by
  unfold Tab.refreshSession
  split <;> rfl

/-- The settled refresh, under its number. -/
theorem settleRefresh_of_expects (h : s.inFlightRefresh.isSome) (result : Option (τ × Bool)) :
    ∃ refresh ∈ s.inFlightRefresh, s.settleRefresh result =
      ⟨result.map (·.1), none, s.refreshes, s.calls.map (Tab.resume refresh result)⟩ := by
  obtain ⟨refresh, hrefresh⟩ := Option.isSome_iff_exists.mp h
  refine ⟨refresh, hrefresh, ?_⟩
  unfold Tab.settleRefresh
  rw [hrefresh]

/-- **Every event leaves the token of `tokenAfter`.** -/
theorem accessToken_of_step {e : Event τ} (h : step s e = some t) :
    t.accessToken = tokenAfter s e := by
  obtain ⟨hexpects, rfl⟩ := step_eq_some h
  cases e with
  | unauthorized i => exact accessToken_refreshSession s
  | restore => exact accessToken_refreshSession s
  | refreshed token user =>
      obtain ⟨refresh, -, heq⟩ := settleRefresh_of_expects hexpects (some (token, user))
      exact congrArg Tab.accessToken heq
  | refreshFailed =>
      obtain ⟨refresh, -, heq⟩ := settleRefresh_of_expects hexpects none
      exact congrArg Tab.accessToken heq
  | _ => rfl

/-- A refresh is shared, or takes the next number. -/
theorem refreshSession_numbers (t : Tab τ) :
    t.refreshes ≤ t.refreshSession.refreshes ∧
      ∀ r ∈ t.refreshSession.inFlightRefresh, r ∈ t.inFlightRefresh ∨ t.refreshes ≤ r := by
  unfold Tab.refreshSession
  split
  · rename_i r hr
    exact ⟨le_rfl, fun r' hr' => Or.inl hr'⟩
  · refine ⟨Nat.le_succ _, ?_⟩
    intro r hr
    exact Or.inr (Option.some.inj hr).le

/-- **A refresh under way** was under way before, or has a new number. -/
theorem inFlightRefresh_of_step {e : Event τ} (h : step s e = some t) :
    s.refreshes ≤ t.refreshes ∧
      ∀ r ∈ t.inFlightRefresh, r ∈ s.inFlightRefresh ∨ s.refreshes ≤ r := by
  obtain ⟨hexpects, rfl⟩ := step_eq_some h
  cases e with
  | unauthorized i => exact refreshSession_numbers s
  | restore => exact refreshSession_numbers s
  | refreshed token user =>
      obtain ⟨refresh, -, heq⟩ := settleRefresh_of_expects hexpects (some (token, user))
      show s.refreshes ≤ (s.settleRefresh _).refreshes ∧ ∀ r ∈ (s.settleRefresh _).inFlightRefresh, _
      rw [heq]
      exact ⟨le_rfl, nofun⟩
  | refreshFailed =>
      obtain ⟨refresh, -, heq⟩ := settleRefresh_of_expects hexpects none
      show s.refreshes ≤ (s.settleRefresh _).refreshes ∧ ∀ r ∈ (s.settleRefresh _).inFlightRefresh, _
      rw [heq]
      exact ⟨le_rfl, nofun⟩
  | _ => exact ⟨le_rfl, fun r hr => Or.inl hr⟩

/-- A call that goes on to ask for the identity was asking, or goes on from this refresh. -/
theorem resume_eq_identifying {refresh r : ℕ} {result : Option (τ × Bool)} {call : Call τ}
    (h : Tab.resume refresh result call = .identifying r) :
    call = .identifying r ∨ refresh = r := by
  cases call with
  | awaitingRefresh =>
      simp only [Tab.resume] at h
      split at h <;> cases h
  | restoring =>
      simp only [Tab.resume] at h
      split at h
      · cases h
        exact Or.inr rfl
      · cases h
  | _ => exact Or.inl h

/-- **An identity asked for** was asked for before, or is that of the refresh under way. -/
theorem identifying_of_step {e : Event τ} (h : step s e = some t) {r : ℕ}
    (hcall : .identifying r ∈ t.calls) : .identifying r ∈ s.calls ∨ r ∈ s.inFlightRefresh := by
  obtain ⟨hexpects, rfl⟩ := step_eq_some h
  have hstart : ∀ (u : Tab τ) (call : Call τ), u.calls = s.calls → call ≠ .identifying r →
      .identifying r ∈ (u.start call).calls → .identifying r ∈ s.calls := by
    intro u call hu hne hmem
    rcases List.mem_append.mp hmem with hmem | hmem
    · exact hu ▸ hmem
    · exact absurd (List.mem_singleton.mp hmem).symm hne
  have hmove : ∀ (u : Tab τ) (i : ℕ) (call : Call τ), u.calls = s.calls →
      call ≠ .identifying r → .identifying r ∈ (u.move i call).calls →
      .identifying r ∈ s.calls := by
    intro u i call hu hne hmem
    rcases List.mem_or_eq_of_mem_set hmem with hmem | heq
    · exact hu ▸ hmem
    · exact absurd heq.symm hne
  have hsettle : ∀ result, s.inFlightRefresh.isSome →
      .identifying r ∈ (s.settleRefresh result).calls →
      .identifying r ∈ s.calls ∨ r ∈ s.inFlightRefresh := by
    intro result hsome hmem
    obtain ⟨refresh, hrefresh, heq⟩ := settleRefresh_of_expects hsome result
    rw [heq] at hmem
    obtain ⟨call, hcall, hresume⟩ := List.mem_map.mp hmem
    rcases resume_eq_identifying hresume with rfl | rfl
    · exact Or.inl hcall
    · exact Or.inr hrefresh
  cases e with
  | signIn => exact Or.inl (hstart s .signingIn rfl nofun hcall)
  | signOut => exact Or.inl (hstart s .signingOut rfl nofun hcall)
  | send => exact Or.inl (hstart s (.requested s.accessToken false) rfl nofun hcall)
  | restore => exact Or.inl (hstart _ .restoring (calls_refreshSession s) nofun hcall)
  | unauthorized i => exact Or.inl (hmove _ i .awaitingRefresh (calls_refreshSession s) nofun hcall)
  | refreshed token user => exact hsettle _ hexpects hcall
  | refreshFailed => exact hsettle _ hexpects hcall
  | signedIn i token => exact Or.inl (hmove s i .settled rfl nofun hcall)
  | signInFailed i => exact Or.inl (hmove s i .settled rfl nofun hcall)
  | signedOut i => exact Or.inl (hmove s i .settled rfl nofun hcall)
  | answered i => exact Or.inl (hmove s i .settled rfl nofun hcall)
  | identified i => exact Or.inl (hmove s i .settled rfl nofun hcall)
  | identificationFailed i => exact Or.inl (hmove s i .settled rfl nofun hcall)

/-! ## Every run -/

/-- The event handles the result of a refresh numbered `n` or later. -/
def ofRefreshSince (n : ℕ) (x : Tab τ × Event τ) : Bool :=
  match x.2 with
  | .refreshed _ _ | .refreshFailed => x.1.inFlightRefresh.any fun r => n ≤ r
  | .identificationFailed i => (x.1.calls[i]?.bind (·.refresh?)).any fun r => n ≤ r
  | _ => false

/-- The event sets a token that is no result of a refresh numbered below `n`. -/
def setsToken (n : ℕ) (x : Tab τ × Event τ) : Bool :=
  match x.2 with
  | .signedIn _ _ => true
  | .refreshed _ _ => ofRefreshSince n x
  | _ => false

/-- The event replaces the token, and is no result of a refresh numbered below `n`. -/
def replacesToken (n : ℕ) (x : Tab τ × Event τ) : Bool :=
  match x.2 with
  | .signedIn _ _ | .signedOut _ => true
  | _ => ofRefreshSince n x

/-- No refresh is under way when a sign-in is answered or a sign-out settles; a sign-in also
finds no identity asked for. -/
def SessionGuard (t : Tab τ) : Event τ → Prop
  | .signedIn _ _ => t.inFlightRefresh = none ∧ ∀ call ∈ t.calls, call.refresh? = none
  | .signedOut _ => t.inFlightRefresh = none
  | _ => True

instance (t : Tab τ) : (e : Event τ) → Decidable (SessionGuard t e)
  | .signedIn _ _ => inferInstanceAs (Decidable (_ ∧ ∀ call ∈ t.calls, call.refresh? = none))
  | .signedOut _ => inferInstanceAs (Decidable (t.inFlightRefresh = none))
  | .signIn | .signInFailed _ | .signOut | .send | .answered _ | .unauthorized _ | .restore
  | .refreshed _ _ | .refreshFailed | .identified _ | .identificationFailed _ => isTrue trivial

/-- After an event every refresh under way, and every identity asked for, is of a refresh
numbered `n` or later. -/
structure Since (n : ℕ) (t : Tab τ) : Prop where
  count : n ≤ t.refreshes
  inFlight : ∀ r ∈ t.inFlightRefresh, n ≤ r

/-- **A step keeps the numbers.** -/
theorem Since.step {n : ℕ} (hs : Since n s) {e : Event τ} (h : step s e = some t) : Since n t := by
  obtain ⟨hcount, hinFlight⟩ := inFlightRefresh_of_step h
  refine ⟨hs.count.trans hcount, ?_⟩
  intro r hr
  rcases hinFlight r hr with hold | hnew
  · exact hs.inFlight r hold
  · exact hs.count.trans hnew

/-- The refresh under way is numbered `n` or later. -/
theorem Since.ofRefresh {n : ℕ} (hs : Since n s) (h : s.inFlightRefresh.isSome) :
    (s.inFlightRefresh.any fun r => n ≤ r) = true := by
  obtain ⟨r, hr⟩ := Option.isSome_iff_exists.mp h
  rw [hr, Option.any_some]
  exact decide_eq_true (hs.inFlight r hr)

/-- An event that finds no refresh under way leaves only later ones. -/
theorem since_of_none {e : Event τ} (hnone : s.inFlightRefresh = none) (h : step s e = some t) :
    Since s.refreshes t := by
  have hs : Since s.refreshes s := by
    refine ⟨le_rfl, ?_⟩
    intro r hr
    rw [hnone] at hr
    cases hr
  exact hs.step h

/-- A settled sign-out leaves no token until one is set. -/
theorem signed_out {n : ℕ} {tr : List (Tab τ × Event τ)} {G : Tab τ → Event τ → Prop}
    (h : Execution step G s tr t) (hs : Since n s) (hnone : s.accessToken = none) :
    Since n t ∧ (t.accessToken = none ∨ ∃ x ∈ tr, setsToken n x) := by
  refine h.traceInvariant (I := fun tr t => Since n t ∧
    (t.accessToken = none ∨ ∃ x ∈ tr, setsToken n x)) ⟨hs, Or.inl hnone⟩ ?_
  rintro tr p e q ⟨hp, htoken⟩ - hq
  refine ⟨hp.step hq, ?_⟩
  have hkeep : q.accessToken = p.accessToken → q.accessToken = none ∨
      ∃ x ∈ (p, e) :: tr, setsToken n x := by
    intro heq
    rcases htoken with hnone | ⟨x, hx, hsets⟩
    · exact Or.inl (heq.trans hnone)
    · exact Or.inr ⟨x, List.mem_cons_of_mem _ hx, hsets⟩
  have hafter := accessToken_of_step hq
  cases e with
  | signedIn i token => exact Or.inr ⟨_, List.mem_cons_self, rfl⟩
  | refreshed token user =>
      exact Or.inr ⟨_, List.mem_cons_self, hp.ofRefresh (step_eq_some hq).1⟩
  | signedOut i => exact Or.inl hafter
  | refreshFailed => exact Or.inl hafter
  | identificationFailed i => exact Or.inl hafter
  | _ => exact hkeep hafter

/-- A sign-in leaves its token until it is replaced. -/
theorem signed_in {n : ℕ} {token : τ} {tr : List (Tab τ × Event τ)} {G : Tab τ → Event τ → Prop}
    (h : Execution step G s tr t) (hs : Since n s) (hcalls : ∀ r, .identifying r ∈ s.calls → n ≤ r)
    (hsome : s.accessToken = some token) :
    t.accessToken = some token ∨ ∃ x ∈ tr, replacesToken n x := by
  refine (h.traceInvariant (I := fun tr t => Since n t ∧
    (∀ r, .identifying r ∈ t.calls → n ≤ r) ∧
    (t.accessToken = some token ∨ ∃ x ∈ tr, replacesToken n x))
    ⟨hs, hcalls, Or.inl hsome⟩ ?_).2.2
  rintro tr p e q ⟨hp, hidentifying, htoken⟩ - hq
  refine ⟨hp.step hq, ?_, ?_⟩
  · intro r hr
    rcases identifying_of_step hq hr with hold | hold
    · exact hidentifying r hold
    · exact hp.inFlight r hold
  · have hkeep : q.accessToken = p.accessToken → q.accessToken = some token ∨
        ∃ x ∈ (p, e) :: tr, replacesToken n x := by
      intro heq
      rcases htoken with hsome | ⟨x, hx, hsets⟩
      · exact Or.inl (heq.trans hsome)
      · exact Or.inr ⟨x, List.mem_cons_of_mem _ hx, hsets⟩
    have hafter := accessToken_of_step hq
    have hexpects := (step_eq_some hq).1
    cases e with
    | signedIn i token' => exact Or.inr ⟨_, List.mem_cons_self, rfl⟩
    | signedOut i => exact Or.inr ⟨_, List.mem_cons_self, rfl⟩
    | refreshed token' user =>
        exact Or.inr ⟨_, List.mem_cons_self, hp.ofRefresh hexpects⟩
    | refreshFailed =>
        exact Or.inr ⟨_, List.mem_cons_self, hp.ofRefresh hexpects⟩
    | identificationFailed i =>
        simp only [Tab.expects] at hexpects
        split at hexpects
        · rename_i refresh hcall
          refine Or.inr ⟨_, List.mem_cons_self, ?_⟩
          show ((p.calls[i]?.bind (·.refresh?)).any fun r => n ≤ r) = true
          rw [hcall]
          exact decide_eq_true (hidentifying refresh (List.mem_of_getElem? hcall))
        · cases hexpects
    | _ => exact hkeep hafter

/-- **Signing out of the tab is final, and a sign-in is not undone.**  In every run of a tab
in which no refresh is under way when a sign-in is answered or a sign-out settles:

* once a sign-out has settled there is no token until a later sign-in, or a refresh started
  later, sets one;
* the token of a sign-in stays until a later sign-in or sign-out, or the result of a refresh
  started later, replaces it. -/
theorem session_final {tr₁ tr₂ : List (Tab τ × Event τ)} {p : Tab τ} {e : Event τ}
    (h : Execution step SessionGuard (Tab.initial τ) (tr₂ ++ (p, e) :: tr₁) t) :
    (∀ i, e = .signedOut i →
      t.accessToken = none ∨ ∃ x ∈ tr₂, setsToken p.refreshes x) ∧
    ∀ i token, e = .signedIn i token →
      t.accessToken = some token ∨ ∃ x ∈ tr₂, replacesToken p.refreshes x := by
  obtain ⟨q, -, hguard, hq, h₂⟩ := h.of_append
  constructor
  · rintro i rfl
    exact (signed_out h₂ (since_of_none hguard hq) (accessToken_of_step hq)).2
  · rintro i token rfl
    obtain ⟨hnone, hcalls⟩ := hguard
    refine signed_in h₂ (since_of_none hnone hq) ?_ (accessToken_of_step hq)
    intro r hr
    rcases identifying_of_step hq hr with hold | hold
    · cases hcalls _ hold
    · rw [hnone] at hold
      cases hold

/-- A sign-in, a 401 that a refresh answers, a sign-out, and a request after it. -/
theorem session_final_refresh : ∃ tr₁ tr₂ p t,
    Execution step SessionGuard (Tab.initial String) (tr₂ ++ (p, .signedOut 2) :: tr₁) t ∧
    t.calls[3]? = some (.requested none false) ∧
    (t.accessToken = none ∨ ∃ x ∈ tr₂, setsToken p.refreshes x) := by
  obtain ⟨tr, t, h, ⟨p, e⟩, hx, hevent, hcall⟩ : ∃ tr t,
      Execution step SessionGuard (Tab.initial String) tr t ∧
      ∃ x ∈ tr[1]?, x.2 = .signedOut 2 ∧ t.calls[3]? = some (.requested none false) :=
    Execution.exists_of_execute
      [.signIn, .signedIn 0 "first", .send, .unauthorized 1, .refreshed "second" true, .signOut,
        .signedOut 2, .send]
      (by decide +kernel) (by decide +kernel)
  have hevent : e = .signedOut 2 := hevent
  subst hevent
  rw [trace_split hx] at h
  exact ⟨_, _, p, t, h, hcall, (session_final h).1 2 rfl⟩

/-- **A refresh outlives the sign-out.**  It is under way when `logout` settles, and its
answer sets a token. -/
theorem refresh_outlives_logout : ∃ tr₁ tr₂ p t,
    Execution step unguarded (Tab.initial String) (tr₂ ++ (p, .signedOut 1) :: tr₁) t ∧
    t.accessToken = some "stale" ∧ ¬ ∃ x ∈ tr₂, setsToken p.refreshes x := by
  obtain ⟨tr, t, h, ⟨p, e⟩, hx, hevent, htoken, hsets⟩ : ∃ tr t,
      Execution step unguarded (Tab.initial String) tr t ∧
      ∃ x ∈ tr[1]?, x.2 = .signedOut 1 ∧ t.accessToken = some "stale" ∧
        ¬ ∃ y ∈ tr.take 1, setsToken x.1.refreshes y :=
    Execution.exists_of_execute
      [.send, .unauthorized 0, .signOut, .signedOut 1, .refreshed "stale" true]
      (by decide +kernel) (fun _ _ => trivial)
  have hevent : e = .signedOut 1 := hevent
  subst hevent
  rw [trace_split hx] at h
  exact ⟨_, _, p, t, h, htoken, hsets⟩

end ProcureSignal.Frontend
