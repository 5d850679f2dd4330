/-
# A browser and the server

Any number of tabs of one browser, each running the session module, share the refresh cookie
and talk to the routes of `api/routers/auth.py`.  Requests, answers, the delivery of
`Set-Cookie` and the callbacks of the tabs are steps of their own, in any order; a request or
an answer may be lost, and a tab may be reloaded.

A refused request leaves the cookie alone: `refresh` deletes it on the response object it
was handed, and the exception it then raises is answered by another one.
-/
import ProcureSignal.Auth.Registration
import ProcureSignal.Auth.Families
import ProcureSignal.Frontend.Session

namespace ProcureSignal.Frontend

open Auth

/-! ## The state -/

/-- A request of the session module. -/
inductive Kind
  | login (email password : String)
  | register (email : String)
  | refresh
  | logout
  deriving DecidableEq, Repr

/-- What the server answers: a session with its cookie, the deleted cookie, or an error. -/
inductive Answer (τ : Type)
  | session (accessToken : τ) (refreshToken : String)
  | cleared
  | refused
  deriving DecidableEq, Repr

/-- Where an exchange is. -/
inductive Status (τ : Type)
  | sent
  /-- it never reaches the server. -/
  | dropped
  | answered (answer : Answer τ)
  /-- the browser has the answer and has stored its cookie. -/
  | arrived (answer : Answer τ)
  /-- the browser never gets the answer. -/
  | lost (answer : Answer τ)
  deriving DecidableEq, Repr

/-- A request of a tab with the cookie it carries; `call` is the number of the call in the
tab, for a refresh there is none. -/
structure Exchange (τ : Type) where
  tab : ℕ
  call : Option ℕ
  kind : Kind
  presented : Option String
  status : Status τ
  deriving DecidableEq, Repr

/-- The browser and the committed tables of the server; exchanges are numbered as they are
sent, and `settled` says whose callbacks have run. -/
structure Browser (τ : Type) where
  cookie : Option String
  tabs : ℕ → Tab τ
  exchanges : List (Exchange τ)
  settled : ℕ → Bool
  tenants : Tenants

/-- Nobody is signed in. -/
def Browser.initial (τ : Type) (st : Tenants) : Browser τ :=
  ⟨none, fun _ => Tab.initial τ, [], fun _ => false, st⟩

/-- One step. -/
inductive Label (τ : Type)
  /-- an event of a tab that is no answer of the session routes. -/
  | tab (i : ℕ) (e : Event τ)
  | signIn (i : ℕ) (kind : Kind)
  | signOut (i : ℕ)
  | serve (k : ℕ) (context : ClientContext) (d : RegistrationDraw)
  | drop (k : ℕ)
  /-- the browser stores the cookie of an answer. -/
  | arrive (k : ℕ)
  | lose (k : ℕ)
  /-- the callbacks of the tab run. -/
  | settle (k : ℕ)
  | reload (i : ℕ)
  deriving DecidableEq, Repr

variable {τ : Type}

namespace Browser

variable (s : Browser τ)

/-- Change a tab. -/
def setTab (i : ℕ) (t : Tab τ) : Browser τ := { s with tabs := Function.update s.tabs i t }

/-- Send a request. -/
def send (i : ℕ) (call : Option ℕ) (kind : Kind) : Browser τ :=
  { s with exchanges := s.exchanges ++ [⟨i, call, kind, s.cookie, .sent⟩] }

/-- Move an exchange. -/
def restatus (k : ℕ) (e : Exchange τ) (status : Status τ) : Browser τ :=
  { s with exchanges := s.exchanges.set k { e with status := status } }

end Browser

/-! ## The steps -/

variable (C : Crypto τ) (U : Unicode)

/-- The routes, on the committed tables. -/
def serveKind (st : Tenants) (kind : Kind) (presented : Option String) (context : ClientContext)
    (d : RegistrationDraw) : Tenants × Answer τ :=
  match kind with
  | .login email password =>
      match login C U st.toStore email password context d.session with
      | (st', .ok issued) =>
          ({ st with toStore := st' }, .session issued.accessToken issued.refreshToken)
      | (st', .error _) => ({ st with toStore := st' }, .refused)
  | .register email =>
      match register C U st email none context d with
      | .ok (st', issued) => (st', .session issued.accessToken issued.refreshToken)
      | .error _ => (st, .refused)
  | .refresh =>
      match refresh C st.toStore presented context d.session with
      | (st', .ok issued) =>
          ({ st with toStore := st' }, .session issued.accessToken issued.refreshToken)
      | (st', .error _) => ({ st with toStore := st' }, .refused)
  | .logout => ({ st with toStore := logout C st.toStore presented d.now }, .cleared)

/-- The cookie after the `Set-Cookie` of an answer. -/
def Answer.storeCookie (cookie : Option String) : Answer τ → Option String
  | .session _ refreshToken => some refreshToken
  | .cleared => none
  | .refused => cookie

/-- The event a tab sees when an exchange settles. -/
def Exchange.event (e : Exchange τ) (answer : Answer τ) : Option (Event τ) :=
  match e.kind, e.call, answer with
  | .refresh, _, .session token _ => some (.refreshed token true)
  | .refresh, _, _ => some .refreshFailed
  | .logout, some i, _ => some (.signedOut i)
  | _, some i, .session token _ => some (.signedIn i token)
  | _, some i, _ => some (.signInFailed i)
  | _, none, _ => none

/-- The events of a tab that are no answers of the session routes. -/
def Event.isLocal : Event τ → Bool
  | .send | .answered _ | .unauthorized _ | .restore | .identified _ | .identificationFailed _ =>
      true
  | _ => false

/-- The event starts a refresh. -/
def startsRefresh (t : Tab τ) : Event τ → Bool
  | .unauthorized _ | .restore => t.inFlightRefresh.isNone
  | _ => false

/-- The callbacks of an exchange run in its tab. -/
def settleIn (k : ℕ) (e : Exchange τ) (answer : Answer τ) (s : Browser τ) : Option (Browser τ) :=
  (e.event answer).bind fun event =>
    (step (s.tabs e.tab) event).map fun t =>
      { s.setTab e.tab t with settled := Function.update s.settled k true }

/-- One step of the browser or of the server. -/
def browserStep (s : Browser τ) : Label τ → Option (Browser τ)
  | .tab i e =>
      if e.isLocal then
        (step (s.tabs i) e).map fun t =>
          if startsRefresh (s.tabs i) e then (s.setTab i t).send i none .refresh
          else s.setTab i t
      else none
  | .signIn i kind =>
      if kind ≠ .refresh ∧ kind ≠ .logout then
        (step (s.tabs i) .signIn).map fun t =>
          (s.setTab i t).send i (some (s.tabs i).calls.length) kind
      else none
  | .signOut i =>
      (step (s.tabs i) .signOut).map fun t =>
        (s.setTab i t).send i (some (s.tabs i).calls.length) .logout
  | .serve k context d =>
      match s.exchanges[k]? with
      | some e =>
          match e.status with
          | .sent =>
              let served := serveKind C U s.tenants e.kind e.presented context d
              some { s.restatus k e (.answered served.2) with tenants := served.1 }
          | _ => none
      | none => none
  | .drop k =>
      match s.exchanges[k]? with
      | some e =>
          match e.status with
          | .sent => some (s.restatus k e .dropped)
          | _ => none
      | none => none
  | .arrive k =>
      match s.exchanges[k]? with
      | some e =>
          match e.status with
          | .answered answer =>
              some { s.restatus k e (.arrived answer) with
                cookie := answer.storeCookie s.cookie }
          | _ => none
      | none => none
  | .lose k =>
      match s.exchanges[k]? with
      | some e =>
          match e.status with
          | .answered answer => some (s.restatus k e (.lost answer))
          | _ => none
      | none => none
  | .settle k =>
      match s.exchanges[k]? with
      | some e =>
          if s.settled k then none
          else
            match e.status with
            | .arrived answer => settleIn k e answer s
            | .dropped | .lost _ => settleIn k e .refused s
            | _ => none
      | none => none
  | .reload i =>
      some { s.setTab i (Tab.initial τ) with
        settled := fun k => s.settled k || s.exchanges[k]?.any (·.tab = i) }

/-! ## What the routes do to the tokens -/

/-- **The tokens after a request**, and what it is answered. -/
inductive Served (C : Crypto τ) (st st' : Store) (kind : Kind) (presented : Option String) :
    Answer τ → Prop
  /-- nothing is stored. -/
  | unchanged (answer : Answer τ) (hanswer : ∀ access token, answer ≠ .session access token)
      (htokens : ∀ d, st'.token? d = st.token? d) : Served C st st' kind presented answer
  /-- a sign-in stores a new token. -/
  | minted (access : τ) (token : String) (row : RefreshToken) (hkind : kind ≠ .refresh)
      (hfree : st.token? (C.hashRefreshToken token) = none) (hlive : row.Live)
      (htokens : ∀ d, st'.token? d =
        if d = C.hashRefreshToken token then some row else st.token? d) :
      Served C st st' kind presented (.session access token)
  /-- a rotation revokes the presented token and stores its successor. -/
  | rotated (access : τ) (token old : String) (stored row : RefreshToken) (now : Instant)
      (hkind : kind = .refresh) (hpresented : presented = some old)
      (hstored : st.token? (C.hashRefreshToken old) = some stored) (hlive : stored.Live)
      (hfree : st.token? (C.hashRefreshToken token) = none) (hnew : row.Live)
      (htokens : ∀ d, st'.token? d = if d = C.hashRefreshToken token then some row
        else if d = C.hashRefreshToken old then (st.token? d).map (·.revoke now)
        else st.token? d) :
      Served C st st' kind presented (.session access token)
  /-- a rotation of a revoked token revokes its family. -/
  | reused (old : String) (stored : RefreshToken) (now : Instant) (hkind : kind = .refresh)
      (hpresented : presented = some old)
      (hstored : st.token? (C.hashRefreshToken old) = some stored) (hdead : ¬ stored.Live)
      (htokens : ∀ d, st'.token? d = (st.token? d).map fun row =>
        if row.familyId = stored.familyId && row.revokedAt.isNone then row.revoke now else row) :
      Served C st st' kind presented .refused
  /-- a sign-out revokes the presented token. -/
  | signedOut (old : String) (stored : RefreshToken) (now : Instant) (hkind : kind = .logout)
      (hpresented : presented = some old)
      (hstored : st.token? (C.hashRefreshToken old) = some stored)
      (htokens : ∀ d, st'.token? d = if d = C.hashRefreshToken old then
        (st.token? d).map (·.revoke now) else st.token? d) :
      Served C st st' kind presented .cleared

variable {C U}

/-- **Every request is served in one of these ways.** -/
theorem served (st : Tenants) (kind : Kind) (presented : Option String) (context : ClientContext)
    (d : RegistrationDraw) :
    Served C st.toStore (serveKind C U st kind presented context d).1.toStore kind presented
      (serveKind C U st kind presented context d).2 := by
  cases kind with
  | login email password =>
      unfold serveKind
      simp only
      split
      · rename_i st' issued hlogin
        obtain ⟨userId, user, membership, organization, -, hfree, rfl, rfl⟩ := login_eq_ok hlogin
        refine .minted _ _ (tokenRow C userId none context d.session) nofun hfree rfl ?_
        exact token?_signIn hfree userId d.session.now
      · rename_i st' e hlogin
        rw [login_eq_error hlogin]
        exact .unchanged _ nofun fun _ => rfl
  | register email =>
      unfold serveKind
      simp only
      split
      · rename_i st' issued hregister
        obtain ⟨r, rfl, rfl, hcommit⟩ := register_eq_ok hregister
        obtain ⟨hfree, htokens, htoken⟩ := token?_of_commit? hcommit
        rw [htoken]
        exact .minted _ _ (tokenRow C st.users.nextId none r.context r.draw.session) nofun hfree
          rfl htokens
      · exact .unchanged _ nofun fun _ => rfl
  | refresh =>
      unfold serveKind refresh
      cases presented with
      | none => exact .unchanged _ nofun fun _ => rfl
      | some old =>
          by_cases hempty : old = ""
          · simp only [if_pos hempty]
            exact .unchanged _ nofun fun _ => rfl
          · simp only [if_neg hempty]
            split
            · rename_i st' issued hrotate
              obtain ⟨stored, user, membership, organization, hstored, hlive, -, -, hfree, rfl,
                rfl⟩ := rotateRefreshToken_eq_ok hrotate
              refine .rotated _ _ old stored _ d.session.now rfl rfl hstored hlive hfree ?_
                (token?_rotate hfree _ _)
              rfl
            · rename_i st' e hrotate
              rcases rotateRefreshToken_eq_error hrotate with rfl | ⟨stored, hstored, hdead, rfl⟩
              · exact .unchanged _ nofun fun _ => rfl
              · exact .reused old stored d.session.now rfl rfl hstored hdead
                  (token?_revokeWhere _ _ _)
  | logout =>
      unfold serveKind
      rcases logout_eq C st.toStore presented d.now with heq | ⟨old, rfl, heq⟩
      · simp only [heq]
        exact .unchanged _ nofun fun _ => rfl
      · simp only [heq]
        cases hstored : st.token? (C.hashRefreshToken old) with
        | some stored =>
            exact .signedOut old stored d.now rfl rfl hstored (token?_revokeHash _ _ _)
        | none =>
            refine .unchanged _ nofun ?_
            intro digest
            rw [token?_revokeHash]
            split
            · rename_i heq
              rw [heq, hstored]
              rfl
            · rfl

/-! ## What a step does to cookie, exchanges and tokens -/

/-- **What a step does**, but for the tabs. -/
inductive Effect (C : Crypto τ) (s t : Browser τ) : Label τ → Prop
  | quiet {l : Label τ} (hcookie : t.cookie = s.cookie) (hexchanges : t.exchanges = s.exchanges)
      (htenants : t.tenants = s.tenants) : Effect C s t l
  | sent {l : Label τ} (e : Exchange τ) (hstatus : e.status = .sent)
      (hpresented : e.presented = s.cookie)
      (hrefresh : e.kind = .refresh → ∃ i event, l = .tab i event ∧
        startsRefresh (s.tabs i) event)
      (hcookie : t.cookie = s.cookie) (hexchanges : t.exchanges = s.exchanges ++ [e])
      (htenants : t.tenants = s.tenants) : Effect C s t l
  | served (k : ℕ) (context : ClientContext) (d : RegistrationDraw) (e : Exchange τ)
      (answer : Answer τ) (he : s.exchanges[k]? = some e) (hstatus : e.status = .sent)
      (hserved : Served C s.tenants.toStore t.tenants.toStore e.kind e.presented answer)
      (hcookie : t.cookie = s.cookie)
      (hexchanges : t.exchanges = s.exchanges.set k { e with status := .answered answer }) :
      Effect C s t (.serve k context d)
  | dropped (k : ℕ) (e : Exchange τ) (he : s.exchanges[k]? = some e) (hstatus : e.status = .sent)
      (hcookie : t.cookie = s.cookie)
      (hexchanges : t.exchanges = s.exchanges.set k { e with status := .dropped })
      (htenants : t.tenants = s.tenants) : Effect C s t (.drop k)
  | lost (k : ℕ) (e : Exchange τ) (answer : Answer τ) (he : s.exchanges[k]? = some e)
      (hstatus : e.status = .answered answer) (hcookie : t.cookie = s.cookie)
      (hexchanges : t.exchanges = s.exchanges.set k { e with status := .lost answer })
      (htenants : t.tenants = s.tenants) : Effect C s t (.lose k)
  | arrived (k : ℕ) (e : Exchange τ) (answer : Answer τ) (he : s.exchanges[k]? = some e)
      (hstatus : e.status = .answered answer)
      (hcookie : t.cookie = answer.storeCookie s.cookie)
      (hexchanges : t.exchanges = s.exchanges.set k { e with status := .arrived answer })
      (htenants : t.tenants = s.tenants) : Effect C s t (.arrive k)

variable {s t : Browser τ}

/-- A settled exchange changes its tab only. -/
theorem settleIn_quiet {k : ℕ} {e : Exchange τ} {answer : Answer τ}
    (h : settleIn k e answer s = some t) :
    t.cookie = s.cookie ∧ t.exchanges = s.exchanges ∧ t.tenants = s.tenants := by
  unfold settleIn at h
  rw [Option.bind_eq_some_iff] at h
  obtain ⟨event, -, h⟩ := h
  obtain ⟨tab, -, rfl⟩ := Option.map_eq_some_iff.mp h
  exact ⟨rfl, rfl, rfl⟩

/-- **Every step is one of the effects.** -/
theorem effect_of_step {l : Label τ} (h : browserStep C U s l = some t) : Effect C s t l := by
  cases l with
  | tab i event =>
      simp only [browserStep] at h
      split at h
      · obtain ⟨tab, -, heq⟩ := Option.map_eq_some_iff.mp h
        split at heq
        · rename_i hstarts
          subst heq
          exact .sent _ rfl rfl (fun _ => ⟨i, event, rfl, hstarts⟩) rfl rfl rfl
        · subst heq
          exact .quiet rfl rfl rfl
      · cases h
  | signIn i kind =>
      simp only [browserStep] at h
      split at h
      · rename_i hkind
        obtain ⟨tab, -, rfl⟩ := Option.map_eq_some_iff.mp h
        exact .sent _ rfl rfl (fun hrefresh => absurd hrefresh hkind.1) rfl rfl rfl
      · cases h
  | signOut i =>
      simp only [browserStep] at h
      obtain ⟨tab, -, rfl⟩ := Option.map_eq_some_iff.mp h
      exact .sent _ rfl rfl (fun hrefresh => by cases hrefresh) rfl rfl rfl
  | serve k context d =>
      simp only [browserStep] at h
      split at h
      · rename_i e he
        split at h
        · rename_i hstatus
          rw [Option.some.injEq] at h
          subst h
          exact .served k context d e _ he hstatus (served s.tenants e.kind e.presented context d)
            rfl rfl
        · cases h
      · cases h
  | drop k =>
      simp only [browserStep] at h
      split at h
      · rename_i e he
        split at h
        · rename_i hstatus
          rw [Option.some.injEq] at h
          subst h
          exact .dropped k e he hstatus rfl rfl rfl
        · cases h
      · cases h
  | arrive k =>
      simp only [browserStep] at h
      split at h
      · rename_i e he
        split at h
        · rename_i answer hstatus
          rw [Option.some.injEq] at h
          subst h
          exact .arrived k e answer he hstatus rfl rfl rfl
        · cases h
      · cases h
  | lose k =>
      simp only [browserStep] at h
      split at h
      · rename_i e he
        split at h
        · rename_i answer hstatus
          rw [Option.some.injEq] at h
          subst h
          exact .lost k e answer he hstatus rfl rfl rfl
        · cases h
      · cases h
  | settle k =>
      simp only [browserStep] at h
      split at h
      · split at h
        · cases h
        · split at h
          · obtain ⟨hcookie, hexchanges, htenants⟩ := settleIn_quiet h
            exact .quiet hcookie hexchanges htenants
          · obtain ⟨hcookie, hexchanges, htenants⟩ := settleIn_quiet h
            exact .quiet hcookie hexchanges htenants
          · obtain ⟨hcookie, hexchanges, htenants⟩ := settleIn_quiet h
            exact .quiet hcookie hexchanges htenants
          · cases h
      · cases h
  | reload i =>
      simp only [browserStep, Option.some.injEq] at h
      subst h
      exact .quiet rfl rfl rfl

end ProcureSignal.Frontend
