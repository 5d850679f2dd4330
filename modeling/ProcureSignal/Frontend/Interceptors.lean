/-
# The interceptors and the shared refresh

`installAuthInterceptors` and `refreshSession` of `lib/auth.ts`, callback by callback.  A call can
be made at any time, also from a callback; an answer is a task of the browser and arrives when no
callback is left to run.  The callbacks that are left run in any order.

The request interceptor of a retry puts the token of the module into the header, whatever the
callback before it has put there.  It is the token of the refresh since nothing writes the token
while a retry is on its way (`Inv.writing`).

* `Does` : what an event does;
* `Request.Ok` : what a request has been through;
* `Inv` : the invariant of the tab, `Inv.step` that every event keeps it.
-/
import ProcureSignal.Library.Execution

namespace ProcureSignal.Frontend.Interceptors

variable {τ : Type}

/-! ## The module -/

/-- `isAuthEndpoint`. -/
def isAuthEndpoint : Option String → Bool
  | some url => "/api/auth/".toList <:+: url.toList
  | none => false

/-- The answer to a refresh: `data?.access_token ?? null`, or a failure. -/
inductive Answer (τ : Type)
  | success (token : Option τ)
  | failure
  deriving DecidableEq, Repr

/-- A refresh that was posted. -/
inductive Refresh (τ : Type)
  | outstanding
  /-- `then` or `catch` is to run. -/
  | answered (answer : Answer τ)
  /-- `finally` is to run. -/
  | passed (outcome : Option τ)
  | settled (outcome : Option τ)
  deriving DecidableEq, Repr

/-- Where a request is. -/
inductive Phase (τ : Type)
  /-- The request interceptor is to run. -/
  | intercepting
  | onWire
  /-- The response interceptor is to run; an error without response has no status. -/
  | responding (status : Option ℕ)
  | waiting (refresh : ℕ)
  /-- The refresh has settled, the response interceptor is to go on. -/
  | resuming (refresh : ℕ) (outcome : Option τ)
  | settled
  deriving DecidableEq, Repr

/-- A request: its configuration, and what has become of it. -/
structure Request (τ : Type) where
  url : Option String
  /-- the token of the `Authorization` header -/
  authorization : Option τ
  /-- `_retriedAfterRefresh` -/
  retriedAfterRefresh : Bool
  phase : Phase τ
  /-- the tokens it was sent with, the first send first -/
  sends : List (Option τ)
  /-- the refresh it has waited for -/
  refresh : Option ℕ
  deriving DecidableEq, Repr

/-- A caller of `refreshAccessToken` or of `restoreSession`. -/
inductive Caller (τ : Type)
  | waiting (refresh : ℕ)
  | resuming (refresh : ℕ) (outcome : Option τ)
  | resumed (refresh : ℕ) (outcome : Option τ)
  deriving DecidableEq, Repr

/-- The module variables, and what is under way in the tab. -/
structure Tab (τ : Type) where
  accessToken : Option τ
  inFlightRefresh : Option ℕ
  refreshes : List (Refresh τ)
  requests : List (Request τ)
  callers : List (Caller τ)
  /-- a callback of `startSession`, `logout` or `restoreSession` is to write the token -/
  assignment : Option (Option τ)
  deriving DecidableEq, Repr

/-- A page that was just loaded. -/
def Tab.initial (τ : Type) : Tab τ := ⟨none, none, [], [], [], none⟩

/-- What can happen next. -/
inductive Event (τ : Type)
  | request (url : Option String) (authorization : Option τ)
  /-- a call of `refreshAccessToken` or of `restoreSession` -/
  | refreshSession
  | answered (i : ℕ) (status : Option ℕ)
  | refreshed (r : ℕ) (answer : Answer τ)
  /-- the answer to another call, whose callback writes the token -/
  | assigned (token : Option τ)
  | runRequest (i : ℕ)
  | runCaller (j : ℕ)
  | runRefresh (r : ℕ)
  | runAssignment
  deriving DecidableEq, Repr

/-- A callback is to run. -/
def Phase.pending : Phase τ → Bool
  | .intercepting | .responding _ | .resuming _ _ => true
  | .onWire | .waiting _ | .settled => false

def Caller.pending : Caller τ → Bool
  | .resuming _ _ => true
  | .waiting _ | .resumed _ _ => false

def Refresh.pending : Refresh τ → Bool
  | .answered _ | .passed _ => true
  | .outstanding | .settled _ => false

variable (truthy : τ → Bool)

/-- The token that `then` and `catch` set. -/
def Answer.token : Answer τ → Option τ
  | .success token => token
  | .failure => none

/-- What `then` and `catch` hand on: a token that counts as one. -/
def Answer.outcome (answer : Answer τ) : Option τ := answer.token.filter truthy

/-- The request interceptor; the request goes out. -/
def Request.intercept (accessToken : Option τ) (q : Request τ) : Request τ :=
  let header := if accessToken.any truthy then accessToken else q.authorization
  { q with authorization := header, phase := .onWire, sends := q.sends ++ [header] }

/-- The response interceptor behind `await refreshAccessToken()`. -/
def Request.resume (outcome : Option τ) (q : Request τ) : Request τ :=
  match outcome with
  | some token => { q with authorization := some token, phase := .intercepting }
  | none => { q with phase := .settled }

/-- A settled refresh hands its outcome to a request that waits for it. -/
def Request.wake (r : ℕ) (outcome : Option τ) (q : Request τ) : Request τ :=
  match q.phase with
  | .waiting r' => if r' = r then { q with phase := .resuming r outcome } else q
  | _ => q

/-- A settled refresh hands its outcome to a caller that waits for it. -/
def Caller.wake (r : ℕ) (outcome : Option τ) : Caller τ → Caller τ
  | .waiting r' => if r' = r then .resuming r outcome else .waiting r'
  | caller => caller

namespace Tab

variable (t : Tab τ)

/-- No callback is left to run. -/
def idle : Bool :=
  t.requests.all (!·.phase.pending) && t.callers.all (!·.pending) &&
    t.refreshes.all (!·.pending) && t.assignment.isNone

/-- Another state of a request. -/
def put (i : ℕ) (q : Request τ) : Tab τ := { t with requests := t.requests.set i q }

/-- `refreshSession`: the refresh under way is shared; the number of the refresh to wait for. -/
def refreshSession : Tab τ × ℕ :=
  match t.inFlightRefresh with
  | some r => (t, r)
  | none =>
      ({ t with
          inFlightRefresh := some t.refreshes.length
          refreshes := t.refreshes ++ [.outstanding] }, t.refreshes.length)

/-- The response interceptor. -/
def respond (i : ℕ) (q : Request τ) (status : Option ℕ) : Tab τ :=
  if status ≠ some 401 || q.retriedAfterRefresh || isAuthEndpoint q.url then
    t.put i { q with phase := .settled }
  else
    (t.refreshSession.1).put i
      { q with
        retriedAfterRefresh := true
        phase := .waiting t.refreshSession.2
        refresh := some t.refreshSession.2 }

end Tab

/-- One event. -/
def step (t : Tab τ) : Event τ → Option (Tab τ)
  | .request url authorization =>
      some { t with
        requests := t.requests ++ [⟨url, authorization, false, .intercepting, [], none⟩] }
  | .refreshSession =>
      some { t.refreshSession.1 with
        callers := t.refreshSession.1.callers ++ [.waiting t.refreshSession.2] }
  | .answered i status => do
      guard t.idle
      let q ← t.requests[i]?
      match q.phase with
      | .onWire => return t.put i { q with phase := .responding status }
      | _ => none
  | .refreshed r answer => do
      guard t.idle
      match ← t.refreshes[r]? with
      | .outstanding => return { t with refreshes := t.refreshes.set r (.answered answer) }
      | _ => none
  | .assigned token => do
      guard t.idle
      return { t with assignment := some token }
  | .runRequest i => do
      let q ← t.requests[i]?
      match q.phase with
      | .intercepting => return t.put i (q.intercept truthy t.accessToken)
      | .responding status => return t.respond i q status
      | .resuming _ outcome => return t.put i (q.resume outcome)
      | _ => none
  | .runCaller j => do
      match ← t.callers[j]? with
      | .resuming r outcome => return { t with callers := t.callers.set j (.resumed r outcome) }
      | _ => none
  | .runRefresh r => do
      match ← t.refreshes[r]? with
      | .answered answer =>
          return { t with
            accessToken := answer.token
            refreshes := t.refreshes.set r (.passed (answer.outcome truthy)) }
      | .passed outcome =>
          return { t with
            inFlightRefresh := none
            refreshes := t.refreshes.set r (.settled outcome)
            requests := t.requests.map (·.wake r outcome)
            callers := t.callers.map (·.wake r outcome) }
      | _ => none
  | .runAssignment => do
      let token ← t.assignment
      return { t with accessToken := token, assignment := none }

/-! ## What an event does -/

/-- An event and the state after it, by the callback that runs. -/
inductive Does (s : Tab τ) : Event τ → Tab τ → Prop
  | request (url : Option String) (authorization : Option τ) :
      Does s (.request url authorization)
        { s with requests := s.requests ++ [⟨url, authorization, false, .intercepting, [], none⟩] }
  | refreshSession :
      Does s .refreshSession { s.refreshSession.1 with
        callers := s.refreshSession.1.callers ++ [.waiting s.refreshSession.2] }
  | answered (i : ℕ) (status : Option ℕ) (q : Request τ) (hidle : s.idle = true)
      (hq : s.requests[i]? = some q) (hphase : q.phase = .onWire) :
      Does s (.answered i status) (s.put i { q with phase := .responding status })
  | refreshed (r : ℕ) (answer : Answer τ) (hidle : s.idle = true)
      (hr : s.refreshes[r]? = some .outstanding) :
      Does s (.refreshed r answer) { s with refreshes := s.refreshes.set r (.answered answer) }
  | assigned (token : Option τ) (hidle : s.idle = true) :
      Does s (.assigned token) { s with assignment := some token }
  | intercept (i : ℕ) (q : Request τ) (hq : s.requests[i]? = some q)
      (hphase : q.phase = .intercepting) :
      Does s (.runRequest i) (s.put i (q.intercept truthy s.accessToken))
  | pass (i : ℕ) (q : Request τ) (status : Option ℕ) (hq : s.requests[i]? = some q)
      (hphase : q.phase = .responding status)
      (hpass : (status ≠ some 401 || q.retriedAfterRefresh || isAuthEndpoint q.url) = true) :
      Does s (.runRequest i) (s.put i { q with phase := .settled })
  | retry (i : ℕ) (q : Request τ) (hq : s.requests[i]? = some q)
      (hphase : q.phase = .responding (some 401)) (hretried : q.retriedAfterRefresh = false)
      (hurl : isAuthEndpoint q.url = false) :
      Does s (.runRequest i) ((s.refreshSession.1).put i
        { q with
          retriedAfterRefresh := true
          phase := .waiting s.refreshSession.2
          refresh := some s.refreshSession.2 })
  | resume (i : ℕ) (q : Request τ) (r : ℕ) (outcome : Option τ) (hq : s.requests[i]? = some q)
      (hphase : q.phase = .resuming r outcome) :
      Does s (.runRequest i) (s.put i (q.resume outcome))
  | caller (j r : ℕ) (outcome : Option τ) (hj : s.callers[j]? = some (.resuming r outcome)) :
      Does s (.runCaller j) { s with callers := s.callers.set j (.resumed r outcome) }
  | write (r : ℕ) (answer : Answer τ) (hr : s.refreshes[r]? = some (.answered answer)) :
      Does s (.runRefresh r) { s with
        accessToken := answer.token
        refreshes := s.refreshes.set r (.passed (answer.outcome truthy)) }
  | settle (r : ℕ) (outcome : Option τ) (hr : s.refreshes[r]? = some (.passed outcome)) :
      Does s (.runRefresh r) { s with
        inFlightRefresh := none
        refreshes := s.refreshes.set r (.settled outcome)
        requests := s.requests.map (·.wake r outcome)
        callers := s.callers.map (·.wake r outcome) }
  | assignment (token : Option τ) (hassignment : s.assignment = some token) :
      Does s .runAssignment { s with accessToken := token, assignment := none }

variable {truthy} {s t : Tab τ}

theorem does_of_step {e : Event τ} (h : step truthy s e = some t) : Does truthy s e t := by
  cases e with
  | request url authorization =>
      cases h
      exact .request url authorization
  | refreshSession =>
      cases h
      exact .refreshSession
  | answered i status =>
      simp only [step, bind, Option.bind_eq_some_iff, Option.guard_eq_some'] at h
      obtain ⟨-, hidle, q, hq, h⟩ := h
      split at h
      · cases h
        exact .answered i status q hidle hq ‹_›
      · cases h
  | refreshed r answer =>
      simp only [step, bind, Option.bind_eq_some_iff, Option.guard_eq_some'] at h
      obtain ⟨-, hidle, f, hr, h⟩ := h
      split at h
      · cases h
        exact .refreshed r answer hidle hr
      · cases h
  | assigned token =>
      simp only [step, bind, Option.bind_eq_some_iff, Option.guard_eq_some'] at h
      obtain ⟨-, hidle, h⟩ := h
      cases h
      exact .assigned token hidle
  | runRequest i =>
      simp only [step, bind, Option.bind_eq_some_iff] at h
      obtain ⟨q, hq, h⟩ := h
      split at h
      · cases h
        exact .intercept i q hq ‹_›
      · rename_i status hphase
        cases h
        unfold Tab.respond
        split
        · exact .pass i q status hq hphase ‹_›
        · rename_i hcond
          simp only [ne_eq, decide_not, Bool.or_eq_true, Bool.not_eq_true',
            decide_eq_false_iff_not, not_or, Bool.not_eq_true, not_not] at hcond
          exact .retry i q hq (hcond.1.1 ▸ hphase) hcond.1.2 hcond.2
      · cases h
        exact .resume i q _ _ hq ‹_›
      · cases h
  | runCaller j =>
      simp only [step, bind, Option.bind_eq_some_iff] at h
      obtain ⟨c, hj, h⟩ := h
      split at h
      · cases h
        exact .caller j _ _ hj
      · cases h
  | runRefresh r =>
      simp only [step, bind, Option.bind_eq_some_iff] at h
      obtain ⟨f, hr, h⟩ := h
      split at h
      · cases h
        exact .write r _ hr
      · cases h
        exact .settle r _ hr
      · cases h
  | runAssignment =>
      simp only [step, bind, Option.bind_eq_some_iff] at h
      obtain ⟨token, hassignment, h⟩ := h
      cases h
      exact .assignment token hassignment

theorem requests_refreshSession (t : Tab τ) : t.refreshSession.1.requests = t.requests := by
  unfold Tab.refreshSession
  split <;> rfl

theorem callers_refreshSession (t : Tab τ) : t.refreshSession.1.callers = t.callers := by
  unfold Tab.refreshSession
  split <;> rfl

/-! ## What a request has been through -/

def Refresh.isSettled : Refresh τ → Bool
  | .settled _ => true
  | .outstanding | .answered _ | .passed _ => false

/-- The refresh was posted, and its callbacks have not all run. -/
def Unsettled (refreshes : List (Refresh τ)) (r : ℕ) : Prop :=
  ∃ f, refreshes[r]? = some f ∧ f.isSettled = false

/-- The refresh has come to this outcome. -/
def Settled (refreshes : List (Refresh τ)) (r : ℕ) (outcome : Option τ) : Prop :=
  refreshes[r]? = some (.settled outcome)

/-- The request is out, answered, or done. -/
def Phase.isSent : Phase τ → Bool
  | .onWire | .responding _ | .settled => true
  | .intercepting | .waiting _ | .resuming _ _ => false

/-- The module has this token, and it counts as one. -/
def Held (truthy : τ → Bool) (accessToken : Option τ) (token : τ) : Prop :=
  accessToken = some token ∧ truthy token = true

/-- The stages of a request, with the refresh that it has waited for. -/
inductive Request.Ok (truthy : τ → Bool) (refreshes : List (Refresh τ)) (accessToken : Option τ) :
    Request τ → Prop
  | called (url : Option String) (header : Option τ) :
      Ok truthy refreshes accessToken ⟨url, header, false, .intercepting, [], none⟩
  | sent (url : Option String) (header bearer : Option τ) (phase : Phase τ)
      (hphase : phase.isSent = true) :
      Ok truthy refreshes accessToken ⟨url, header, false, phase, [bearer], none⟩
  | waiting (url : Option String) (header bearer : Option τ) (r : ℕ)
      (hurl : isAuthEndpoint url = false) (hr : Unsettled refreshes r) :
      Ok truthy refreshes accessToken ⟨url, header, true, .waiting r, [bearer], some r⟩
  | resuming (url : Option String) (header bearer : Option τ) (r : ℕ) (outcome : Option τ)
      (hurl : isAuthEndpoint url = false) (hr : Settled refreshes r outcome)
      (htoken : ∀ token, outcome = some token → Held truthy accessToken token) :
      Ok truthy refreshes accessToken ⟨url, header, true, .resuming r outcome, [bearer], some r⟩
  | rejected (url : Option String) (header bearer : Option τ) (r : ℕ)
      (hurl : isAuthEndpoint url = false) (hr : Settled refreshes r none) :
      Ok truthy refreshes accessToken ⟨url, header, true, .settled, [bearer], some r⟩
  | retrying (url : Option String) (header bearer : Option τ) (r : ℕ) (token : τ)
      (hurl : isAuthEndpoint url = false) (hr : Settled refreshes r (some token))
      (htoken : Held truthy accessToken token) :
      Ok truthy refreshes accessToken ⟨url, header, true, .intercepting, [bearer], some r⟩
  | resent (url : Option String) (header bearer : Option τ) (r : ℕ) (token : τ) (phase : Phase τ)
      (hurl : isAuthEndpoint url = false) (hr : Settled refreshes r (some token))
      (hphase : phase.isSent = true) :
      Ok truthy refreshes accessToken ⟨url, header, true, phase, [bearer, some token], some r⟩

/-- The request is between its refresh and its second send. -/
def Request.returning (q : Request τ) : Bool :=
  match q.phase with
  | .resuming _ _ => true
  | .intercepting => q.retriedAfterRefresh
  | _ => false

/-- A change elsewhere: what has settled stays, the refresh that is waited for stays unsettled, and
the token stays where a retry is on its way. -/
theorem Request.Ok.mono {refreshes refreshes' : List (Refresh τ)}
    {accessToken accessToken' : Option τ} {q : Request τ} (h : q.Ok truthy refreshes accessToken)
    (hsettled : ∀ r outcome, Settled refreshes r outcome → Settled refreshes' r outcome)
    (hwaiting : ∀ r, q.phase = .waiting r → Unsettled refreshes r → Unsettled refreshes' r)
    (htoken : q.returning = true → accessToken' = accessToken) :
    q.Ok truthy refreshes' accessToken' := by
  cases h with
  | called url header => exact .called url header
  | sent url header bearer phase hphase => exact .sent url header bearer phase hphase
  | waiting url header bearer r hurl hr =>
      exact .waiting url header bearer r hurl (hwaiting r rfl hr)
  | resuming url header bearer r outcome hurl hr hheld =>
      rw [htoken rfl]
      exact .resuming url header bearer r outcome hurl (hsettled r _ hr) hheld
  | rejected url header bearer r hurl hr =>
      exact .rejected url header bearer r hurl (hsettled r _ hr)
  | retrying url header bearer r token hurl hr hheld =>
      rw [htoken rfl]
      exact .retrying url header bearer r token hurl (hsettled r _ hr) hheld
  | resent url header bearer r token phase hurl hr hphase =>
      exact .resent url header bearer r token phase hurl (hsettled r _ hr) hphase

section Callbacks

variable {refreshes : List (Refresh τ)} {accessToken : Option τ} {q : Request τ}

theorem Request.Ok.answered (h : q.Ok truthy refreshes accessToken) (hphase : q.phase = .onWire)
    (status : Option ℕ) :
    Request.Ok truthy refreshes accessToken { q with phase := .responding status } := by
  cases h with
  | sent url header bearer phase _ => exact .sent url header bearer _ rfl
  | resent url header bearer r token phase hurl hr _ =>
      exact .resent url header bearer r token _ hurl hr rfl
  | _ => cases hphase

/-- **The request interceptor**: a retry goes out with the token of its refresh. -/
theorem Request.Ok.intercept (h : q.Ok truthy refreshes accessToken)
    (hphase : q.phase = .intercepting) :
    (q.intercept truthy accessToken).Ok truthy refreshes accessToken := by
  cases h with
  | called url header => exact .sent url _ _ _ rfl
  | sent url header bearer phase hsent =>
      rw [show phase = .intercepting from hphase] at hsent
      cases hsent
  | retrying url header bearer r token hurl hr hheld =>
      have hany : accessToken.any truthy = true := by rw [hheld.1]; exact hheld.2
      have hintercept : Request.intercept truthy accessToken
          ⟨url, header, true, .intercepting, [bearer], some r⟩ =
          ⟨url, some token, true, .onWire, [bearer, some token], some r⟩ := by
        rw [Request.intercept, if_pos hany, hheld.1]
        rfl
      rw [hintercept]
      exact .resent url _ bearer r token _ hurl hr rfl
  | resent url header bearer r token phase hurl hr hsent =>
      rw [show phase = .intercepting from hphase] at hsent
      cases hsent
  | _ => cases hphase

/-- The response interceptor lets an answer through. -/
theorem Request.Ok.pass (h : q.Ok truthy refreshes accessToken) {status : Option ℕ}
    (hphase : q.phase = .responding status) :
    Request.Ok truthy refreshes accessToken { q with phase := .settled } := by
  cases h with
  | sent url header bearer phase _ => exact .sent url header bearer _ rfl
  | resent url header bearer r token phase hurl hr _ =>
      exact .resent url header bearer r token _ hurl hr rfl
  | _ => cases hphase

/-- The response interceptor awaits a refresh. -/
theorem Request.Ok.retry (h : q.Ok truthy refreshes accessToken) {status : Option ℕ}
    (hphase : q.phase = .responding status) (hretried : q.retriedAfterRefresh = false)
    (hurl : isAuthEndpoint q.url = false) {r : ℕ} (hr : Unsettled refreshes r) :
    Request.Ok truthy refreshes accessToken
      { q with retriedAfterRefresh := true, phase := .waiting r, refresh := some r } := by
  cases h with
  | sent url header bearer phase _ => exact .waiting url header bearer r hurl hr
  | resent => cases hretried
  | _ => cases hphase

/-- The response interceptor goes on with the outcome. -/
theorem Request.Ok.resume (h : q.Ok truthy refreshes accessToken) {r : ℕ} {outcome : Option τ}
    (hphase : q.phase = .resuming r outcome) :
    (q.resume outcome).Ok truthy refreshes accessToken := by
  cases h with
  | resuming url header bearer r' outcome' hurl hr hheld =>
      obtain ⟨rfl, rfl⟩ := Phase.resuming.inj hphase
      cases outcome' with
      | none => exact .rejected url header bearer _ hurl hr
      | some token => exact .retrying url _ bearer _ token hurl hr (hheld token rfl)
  | sent url header bearer phase hsent =>
      rw [show phase = .resuming r outcome from hphase] at hsent
      cases hsent
  | resent url header bearer r' token phase hurl hr hsent =>
      rw [show phase = .resuming r outcome from hphase] at hsent
      cases hsent
  | _ => cases hphase

/-- What waits for a refresh that settles gets its outcome. -/
theorem Request.Ok.wake (h : q.Ok truthy refreshes accessToken) {refreshes' : List (Refresh τ)}
    {r : ℕ} {outcome : Option τ}
    (hsettled : ∀ r' o, Settled refreshes r' o → Settled refreshes' r' o)
    (hwaiting : ∀ r', Unsettled refreshes r' → r' = r)
    (hr : Settled refreshes' r outcome)
    (htoken : ∀ token, outcome = some token → Held truthy accessToken token) :
    (q.wake r outcome).Ok truthy refreshes' accessToken := by
  by_cases hphase : ∃ r', q.phase = .waiting r'
  · obtain ⟨r', hphase⟩ := hphase
    cases h with
    | waiting url header bearer r'' hurl hr'' =>
        have hwake : Request.wake r outcome ⟨url, header, true, .waiting r'', [bearer], some r''⟩ =
            ⟨url, header, true, .resuming r outcome, [bearer], some r''⟩ :=
          if_pos (hwaiting r'' hr'')
        rw [hwake, hwaiting r'' hr'']
        exact .resuming url header bearer r outcome hurl hr htoken
    | sent url header bearer phase hsent =>
        rw [show phase = .waiting r' from hphase] at hsent
        cases hsent
    | resent url header bearer r'' token phase hurl hr hsent =>
        rw [show phase = .waiting r' from hphase] at hsent
        cases hsent
    | _ => cases hphase
  · have hwake : q.wake r outcome = q := by
      unfold Request.wake
      split
      · exact absurd ⟨_, ‹_›⟩ hphase
      · rfl
    rw [hwake]
    exact h.mono hsettled (fun r' hr' => absurd ⟨r', hr'⟩ hphase) fun _ => rfl

end Callbacks

/-! ## The invariant -/

/-- A caller waits for a refresh that has not settled, or has the outcome of one that has. -/
def Caller.Ok (refreshes : List (Refresh τ)) : Caller τ → Prop
  | .waiting r => Unsettled refreshes r
  | .resuming r outcome | .resumed r outcome => Settled refreshes r outcome

/-- A callback that writes the token is to run. -/
def Tab.Writing (t : Tab τ) : Prop :=
  t.assignment ≠ none ∨ ∃ (r : ℕ) (answer : Answer τ), t.refreshes[r]? = some (.answered answer)

/-- The invariant of a tab. -/
structure Inv (truthy : τ → Bool) (t : Tab τ) : Prop where
  /-- the refresh that is shared is the one that has not settled -/
  flight : ∀ r, t.inFlightRefresh = some r ↔ Unsettled t.refreshes r
  request : ∀ q ∈ t.requests, q.Ok truthy t.refreshes t.accessToken
  caller : ∀ c ∈ t.callers, c.Ok t.refreshes
  /-- answers arrive one by one -/
  unassigned : ∀ (r : ℕ) f, t.refreshes[r]? = some f → f.pending = true → t.assignment = none
  /-- nothing writes the token while a retry is on its way -/
  writing : t.Writing → ∀ q ∈ t.requests, q.returning = false
  passed : ∀ (r : ℕ) token, t.refreshes[r]? = some (.passed (some token)) →
    Held truthy t.accessToken token

theorem Inv.initial (truthy : τ → Bool) : Inv truthy (Tab.initial τ) where
  flight r := by
    constructor
    · nofun
    · rintro ⟨f, hf, -⟩
      cases hf
  request q hq := absurd hq List.not_mem_nil
  caller c hc := absurd hc List.not_mem_nil
  unassigned r f hf := nomatch hf
  writing _ q hq := absurd hq List.not_mem_nil
  passed r token h := nomatch h

/-- At most one refresh has not settled. -/
theorem Inv.unique (hs : Inv truthy s) {r r' : ℕ} (hr : Unsettled s.refreshes r)
    (hr' : Unsettled s.refreshes r') : r = r' :=
  Option.some.inj (((hs.flight r).mpr hr).symm.trans ((hs.flight r').mpr hr'))

section Idle

variable (hidle : s.idle = true)

include hidle

theorem request_of_idle : ∀ q ∈ s.requests, q.phase.pending = false := by
  simp only [Tab.idle, Bool.and_eq_true, List.all_eq_true, Bool.not_eq_true'] at hidle
  exact hidle.1.1.1

theorem refresh_of_idle {r : ℕ} {f : Refresh τ} (hf : s.refreshes[r]? = some f) :
    f.pending = false := by
  simp only [Tab.idle, Bool.and_eq_true, List.all_eq_true, Bool.not_eq_true'] at hidle
  exact hidle.1.2 f (List.mem_of_getElem? hf)

theorem assignment_of_idle : s.assignment = none := by
  simp only [Tab.idle, Bool.and_eq_true] at hidle
  exact Option.isNone_iff_eq_none.mp hidle.2

theorem returning_of_idle : ∀ q ∈ s.requests, q.returning = false := by
  intro q hq
  have hpending := request_of_idle hidle q hq
  unfold Request.returning
  split <;> rename_i hphase
  · rw [hphase] at hpending
    cases hpending
  · rw [hphase] at hpending
    cases hpending
  · rfl

end Idle

/-! ### Changes of a refresh -/

section Set

variable {refreshes : List (Refresh τ)} {r : ℕ} {f f' : Refresh τ}

theorem getElem?_set_of_some (hr : refreshes[r]? = some f) (r' : ℕ) :
    (refreshes.set r f')[r']? = if r = r' then some f' else refreshes[r']? := by
  rw [List.getElem?_set]
  have hlt := (List.getElem?_eq_some_iff.mp hr).1
  split <;> rfl

/-- A callback that does not settle its refresh. -/
theorem unsettled_set_iff (hr : refreshes[r]? = some f) (hf : f.isSettled = false)
    (hf' : f'.isSettled = false) {r' : ℕ} :
    Unsettled (refreshes.set r f') r' ↔ Unsettled refreshes r' := by
  unfold Unsettled
  rw [getElem?_set_of_some hr]
  by_cases hrr : r = r'
  · subst hrr
    rw [if_pos rfl, hr]
    exact iff_of_true ⟨f', rfl, hf'⟩ ⟨f, rfl, hf⟩
  · rw [if_neg hrr]

theorem settled_set (hr : refreshes[r]? = some f) (hf : f.isSettled = false) {r' : ℕ}
    {outcome : Option τ} (h : Settled refreshes r' outcome) :
    Settled (refreshes.set r f') r' outcome := by
  unfold Settled at h ⊢
  rw [getElem?_set_of_some hr, if_neg]
  · exact h
  · rintro rfl
    rw [hr, Option.some_inj] at h
    rw [h] at hf
    cases hf

theorem Caller.Ok.set {c : Caller τ} (h : c.Ok refreshes) (hr : refreshes[r]? = some f)
    (hf : f.isSettled = false) (hf' : f'.isSettled = false) : c.Ok (refreshes.set r f') := by
  cases c with
  | waiting r' => exact (unsettled_set_iff hr hf hf').mpr h
  | resuming r' outcome => exact settled_set hr hf h
  | resumed r' outcome => exact settled_set hr hf h

end Set

/-! ### Every event -/

/-- A request moves, and nothing else does. -/
theorem Inv.put (hs : Inv truthy s) {i : ℕ} {q q' : Request τ} (hq : s.requests[i]? = some q)
    (hok : q'.Ok truthy s.refreshes s.accessToken)
    (hreturning : q'.returning = true → q.returning = true) : Inv truthy (s.put i q') where
  flight := hs.flight
  request q'' hq'' := by
    rcases List.mem_or_eq_of_mem_set hq'' with hmem | rfl
    · exact hs.request q'' hmem
    · exact hok
  caller := hs.caller
  unassigned := hs.unassigned
  writing hwriting q'' hq'' := by
    rcases List.mem_or_eq_of_mem_set hq'' with hmem | rfl
    · exact hs.writing hwriting q'' hmem
    · by_contra hne
      have hnone := hs.writing hwriting q (List.mem_of_getElem? hq)
      rw [hreturning (Bool.eq_true_of_not_eq_false hne)] at hnone
      cases hnone
  passed := hs.passed

/-- A call of `refreshSession`, and the refresh that its caller waits for. -/
theorem Inv.refreshSession (hs : Inv truthy s) :
    Inv truthy s.refreshSession.1 ∧
      Unsettled s.refreshSession.1.refreshes s.refreshSession.2 := by
  unfold Tab.refreshSession
  cases hflight : s.inFlightRefresh with
  | some r => exact ⟨hs, (hs.flight r).mp hflight⟩
  | none =>
      have hnone : ∀ r, ¬ Unsettled s.refreshes r := by
        intro r hr
        rw [← hs.flight, hflight] at hr
        cases hr
      -- the refreshes before are found where they were, and the new one behind them
      have hget : ∀ r f, (s.refreshes ++ [Refresh.outstanding])[r]? = some f ↔
          s.refreshes[r]? = some f ∨ r = s.refreshes.length ∧ f = .outstanding := by
        intro r f
        rw [List.getElem?_append]
        split
        · rename_i hlt
          exact ⟨Or.inl, fun h => h.resolve_right fun hr => absurd hlt (by omega)⟩
        · rename_i hle
          rw [List.getElem?_singleton]
          have hrnone : s.refreshes[r]? = none := List.getElem?_eq_none (not_lt.mp hle)
          rw [hrnone]
          constructor
          · intro h
            split at h
            · cases h
              exact Or.inr ⟨by omega, rfl⟩
            · cases h
          · rintro (h | ⟨rfl, rfl⟩)
            · cases h
            · rw [if_pos (by omega)]
      have hunsettled : ∀ r, Unsettled (s.refreshes ++ [Refresh.outstanding]) r ↔
          r = s.refreshes.length := by
        intro r
        constructor
        · rintro ⟨f, hf, hfalse⟩
          rcases (hget r f).mp hf with hold | ⟨rfl, -⟩
          · exact absurd ⟨f, hold, hfalse⟩ (hnone r)
          · rfl
        · rintro rfl
          exact ⟨.outstanding, (hget _ _).mpr (Or.inr ⟨rfl, rfl⟩), rfl⟩
      have hsettled : ∀ r outcome, Settled s.refreshes r outcome →
          Settled (s.refreshes ++ [Refresh.outstanding]) r outcome := fun r outcome h =>
        (hget r _).mpr (Or.inl h)
      refine ⟨⟨fun r => ?_, fun q hq => ?_, fun c hc => ?_, fun r f hf hpending => ?_, ?_, ?_⟩,
        (hunsettled _).mpr rfl⟩
      · rw [hunsettled, Option.some_inj, eq_comm]
      · exact (hs.request q hq).mono hsettled (fun r _ hr => absurd hr (hnone r)) fun _ => rfl
      · have hok := hs.caller c hc
        cases c with
        | waiting r => exact absurd hok (hnone r)
        | resuming r outcome => exact hsettled r outcome hok
        | resumed r outcome => exact hsettled r outcome hok
      · rcases (hget r f).mp hf with hold | ⟨-, rfl⟩
        · exact hs.unassigned r f hold hpending
        · cases hpending
      · rintro (hassignment | ⟨r, answer, hr⟩)
        · exact hs.writing (Or.inl hassignment)
        · rcases (hget r _).mp hr with hold | ⟨-, hne⟩
          · exact hs.writing (Or.inr ⟨r, answer, hold⟩)
          · cases hne
      · intro r token hr
        rcases (hget r _).mp hr with hold | ⟨-, hne⟩
        · exact hs.passed r token hold
        · cases hne

/-- The answer to a refresh arrives. -/
theorem Inv.refreshed (hs : Inv truthy s) (hidle : s.idle = true) {r : ℕ} (answer : Answer τ)
    (hr : s.refreshes[r]? = some .outstanding) :
    Inv truthy { s with refreshes := s.refreshes.set r (.answered answer) } where
  flight r' := by rw [hs.flight, unsettled_set_iff hr rfl rfl]
  request q hq := (hs.request q hq).mono (fun _ _ => settled_set hr rfl)
    (fun _ _ hr' => (unsettled_set_iff hr rfl rfl).mpr hr') fun _ => rfl
  caller c hc := (hs.caller c hc).set hr rfl rfl
  unassigned _ _ _ _ := show s.assignment = none from assignment_of_idle hidle
  writing _ := show ∀ q ∈ s.requests, q.returning = false from returning_of_idle hidle
  passed r' token h := by
    rw [getElem?_set_of_some hr] at h
    split at h
    · cases h
    · exact hs.passed r' token h

/-- `then` or `catch` writes the token. -/
theorem Inv.write (hs : Inv truthy s) {r : ℕ} {answer : Answer τ}
    (hr : s.refreshes[r]? = some (.answered answer)) :
    Inv truthy { s with
      accessToken := answer.token
      refreshes := s.refreshes.set r (.passed (answer.outcome truthy)) } where
  flight r' := by rw [hs.flight, unsettled_set_iff hr rfl rfl]
  request q hq := by
    have hreturning := hs.writing (Or.inr ⟨r, answer, hr⟩) q hq
    refine (hs.request q hq).mono (fun _ _ => settled_set hr rfl)
      (fun _ _ hr' => (unsettled_set_iff hr rfl rfl).mpr hr') fun h => ?_
    rw [hreturning] at h
    cases h
  caller c hc := (hs.caller c hc).set hr rfl rfl
  unassigned r' f hf hpending := by
    rw [getElem?_set_of_some hr] at hf
    split at hf
    · exact hs.unassigned r _ hr rfl
    · exact hs.unassigned r' f hf hpending
  writing _ := hs.writing (Or.inr ⟨r, answer, hr⟩)
  passed r' token h := by
    rw [getElem?_set_of_some hr] at h
    split at h
    · rw [Option.some_inj, Refresh.passed.injEq, Answer.outcome, Option.filter_eq_some_iff] at h
      exact h
    · rename_i hne
      have hunique := hs.unique ⟨_, hr, rfl⟩ ⟨_, h, rfl⟩
      exact absurd hunique hne

/-- `finally` forgets the refresh, and its outcome goes to all that wait for it. -/
theorem Inv.settle (hs : Inv truthy s) {r : ℕ} {outcome : Option τ}
    (hr : s.refreshes[r]? = some (.passed outcome)) :
    Inv truthy { s with
      inFlightRefresh := none
      refreshes := s.refreshes.set r (.settled outcome)
      requests := s.requests.map (·.wake r outcome)
      callers := s.callers.map (·.wake r outcome) } := by
  have hunsettled : Unsettled s.refreshes r := ⟨_, hr, rfl⟩
  have hsettled : Settled (s.refreshes.set r (.settled outcome)) r outcome := by
    rw [Settled, getElem?_set_of_some hr, if_pos rfl]
  have hothers : ∀ (r' : ℕ) f, (s.refreshes.set r (.settled outcome))[r']? = some f →
      f.isSettled = true := by
    intro r' f hf
    rw [getElem?_set_of_some hr] at hf
    split at hf
    · rw [← Option.some.inj hf]
      rfl
    · rename_i hne
      by_contra hfalse
      exact hne (hs.unique hunsettled ⟨f, hf, Bool.eq_false_of_not_eq_true hfalse⟩)
  refine ⟨fun r' => ?_, fun q hq => ?_, fun c hc => ?_, fun r' f hf hpending => ?_, ?_, ?_⟩
  · constructor
    · nofun
    · rintro ⟨f, hf, hfalse⟩
      rw [hothers r' f hf] at hfalse
      cases hfalse
  · obtain ⟨q', hq', rfl⟩ := List.mem_map.mp hq
    refine (hs.request q' hq').wake (fun _ _ => settled_set hr rfl)
      (fun r' hr' => hs.unique hr' hunsettled) hsettled fun token htoken => ?_
    exact hs.passed r token (htoken ▸ hr)
  · obtain ⟨c', hc', rfl⟩ := List.mem_map.mp hc
    have hok := hs.caller c' hc'
    cases c' with
    | waiting r' =>
        have hwake : Caller.wake r outcome (.waiting r') = .resuming r outcome :=
          if_pos (hs.unique hok hunsettled)
        rw [hwake]
        exact hsettled
    | resuming r' outcome' => exact settled_set hr rfl hok
    | resumed r' outcome' => exact settled_set hr rfl hok
  · have hf' := hothers r' f hf
    cases f with
    | settled => cases hpending
    | _ => cases hf'
  · rintro (hassignment | ⟨r', answer, hr'⟩)
    · exact absurd (hs.unassigned r _ hr rfl) hassignment
    · cases hothers r' _ hr'
  · intro r' token hr'
    cases hothers r' _ hr'

/-- **Every event keeps the invariant.** -/
theorem Inv.step (hs : Inv truthy s) {e : Event τ} (h : step truthy s e = some t) :
    Inv truthy t := by
  have hmem : ∀ {i : ℕ} {q : Request τ}, s.requests[i]? = some q →
      q.Ok truthy s.refreshes s.accessToken := fun hq => hs.request _ (List.mem_of_getElem? hq)
  cases does_of_step h with
  | request url header =>
      refine ⟨hs.flight, fun q hq => ?_, hs.caller, hs.unassigned, fun hwriting q hq => ?_,
        hs.passed⟩
      · rcases List.mem_append.mp hq with hq | hq
        · exact hs.request q hq
        · rw [List.mem_singleton.mp hq]
          exact .called url header
      · rcases List.mem_append.mp hq with hq | hq
        · exact hs.writing hwriting q hq
        · rw [List.mem_singleton.mp hq]
          rfl
  | refreshSession =>
      obtain ⟨hinv, hr⟩ := hs.refreshSession
      refine ⟨hinv.flight, hinv.request, fun c hc => ?_, hinv.unassigned, hinv.writing, hinv.passed⟩
      rcases List.mem_append.mp hc with hc | hc
      · exact hinv.caller c hc
      · rw [List.mem_singleton.mp hc]
        exact hr
  | answered i status q hidle hq hphase => exact hs.put hq ((hmem hq).answered hphase status) nofun
  | refreshed r answer hidle hr => exact hs.refreshed hidle answer hr
  | assigned token hidle =>
      refine ⟨hs.flight, hs.request, hs.caller, fun r f hf hpending => ?_,
        fun _ => show ∀ q ∈ s.requests, q.returning = false from returning_of_idle hidle,
        hs.passed⟩
      rw [refresh_of_idle hidle hf] at hpending
      cases hpending
  | intercept i q hq hphase => exact hs.put hq ((hmem hq).intercept hphase) nofun
  | pass i q status hq hphase => exact hs.put hq ((hmem hq).pass hphase) nofun
  | retry i q hq hphase hretried hurl =>
      obtain ⟨hinv, hr⟩ := hs.refreshSession
      rw [← requests_refreshSession] at hq
      exact hinv.put hq ((hinv.request q (List.mem_of_getElem? hq)).retry hphase hretried hurl hr)
        nofun
  | resume i q r outcome hq hphase =>
      refine hs.put hq ((hmem hq).resume hphase) fun _ => ?_
      unfold Request.returning
      rw [hphase]
  | caller j r outcome hj =>
      refine ⟨hs.flight, hs.request, fun c hc => ?_, hs.unassigned, hs.writing, hs.passed⟩
      rcases List.mem_or_eq_of_mem_set hc with hc | rfl
      · exact hs.caller c hc
      · have hsettled : Settled s.refreshes r outcome := hs.caller _ (List.mem_of_getElem? hj)
        exact hsettled
  | write r answer hr => exact hs.write hr
  | settle r outcome hr => exact hs.settle hr
  | assignment token hassignment =>
      have hsome : s.assignment ≠ none := by rw [hassignment]; exact Option.some_ne_none _
      have hreturning := hs.writing (Or.inl hsome)
      have hnone : ∀ (r : ℕ) f, s.refreshes[r]? = some f → f.pending = false := by
        intro r f hf
        by_contra hne
        exact hsome (hs.unassigned r f hf (Bool.eq_true_of_not_eq_false hne))
      refine ⟨hs.flight, fun q hq => ?_, hs.caller, fun _ _ _ _ => rfl, fun _ => hreturning,
        fun r token hr => ?_⟩
      · refine (hs.request q hq).mono (fun _ _ => id) (fun _ _ => id) fun h => ?_
        rw [hreturning q hq] at h
        cases h
      · cases hnone r _ hr

end ProcureSignal.Frontend.Interceptors
