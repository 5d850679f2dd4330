/-
# One refresh at a time

Runs of the tab of `Frontend.Interceptors`: who waits for which refresh, how often a request is
sent, and that the callbacks of an answer come to an end.

* `exists_idle` : **the callbacks come to an end**;
* `caller_of_step`, `request_of_step` : who waits for a refresh has its outcome and no other;
* `singleFlight` : **one refresh at a time, and every request sent at most twice**.
-/
import ProcureSignal.Frontend.Interceptors

namespace ProcureSignal.Frontend.Interceptors

variable {τ : Type} {truthy : τ → Bool} {s t : Tab τ}

/-! ## The callbacks come to an end -/

/-- A callback runs. -/
def Event.isCallback : Event τ → Bool
  | .runRequest _ | .runCaller _ | .runRefresh _ | .runAssignment => true
  | _ => false

def Request.left (q : Request τ) : ℕ :=
  match q.phase with
  | .responding _ => 4
  | .waiting _ => 3
  | .resuming _ _ => 2
  | .intercepting => 1
  | .onWire | .settled => 0

def Caller.left : Caller τ → ℕ
  | .waiting _ => 2
  | .resuming _ _ => 1
  | .resumed _ _ => 0

def Refresh.left : Refresh τ → ℕ
  | .answered _ => 2
  | .passed _ => 1
  | .outstanding | .settled _ => 0

/-- How many callbacks can run before the next answer. -/
def Tab.left (t : Tab τ) : ℕ :=
  (t.requests.map Request.left).sum + (t.callers.map Caller.left).sum +
    (t.refreshes.map Refresh.left).sum + t.assignment.toList.length

theorem sum_map_set_lt {α : Type} {f : α → ℕ} {l : List α} {i : ℕ} {a b : α} (ha : l[i]? = some a)
    (hlt : f b < f a) : ((l.set i b).map f).sum < (l.map f).sum := by
  induction l generalizing i with
  | nil => cases ha
  | cons c l ih =>
      cases i with
      | zero =>
          rw [List.getElem?_cons_zero, Option.some_inj] at ha
          rw [List.set_cons_zero, List.map_cons, List.map_cons, List.sum_cons, List.sum_cons, ha]
          omega
      | succ i =>
          have hrest := ih ha
          rw [List.set_cons_succ, List.map_cons, List.map_cons, List.sum_cons, List.sum_cons]
          omega

theorem sum_map_map_le {α : Type} {f : α → ℕ} {g : α → α} (h : ∀ a, f (g a) ≤ f a) (l : List α) :
    ((l.map g).map f).sum ≤ (l.map f).sum := by
  rw [List.map_map]
  exact List.sum_le_sum fun a _ => h a

theorem Request.left_wake (r : ℕ) (outcome : Option τ) (q : Request τ) :
    (q.wake r outcome).left ≤ q.left := by
  obtain ⟨url, header, retried, phase, sends, refresh⟩ := q
  cases phase with
  | waiting r' =>
      show (if r' = r then
        (⟨url, header, retried, .resuming r outcome, sends, refresh⟩ : Request τ) else
        ⟨url, header, retried, .waiting r', sends, refresh⟩).left ≤ 3
      split
      · exact Nat.le_succ 2
      · exact le_rfl
  | _ => exact le_rfl

theorem Caller.left_wake (r : ℕ) (outcome : Option τ) (c : Caller τ) :
    (c.wake r outcome).left ≤ c.left := by
  cases c with
  | waiting r' =>
      show (if r' = r then Caller.resuming r outcome else .waiting r').left ≤ 2
      split
      · exact Nat.le_succ 1
      · exact le_rfl
  | _ => exact le_rfl

theorem left_refreshSession (t : Tab τ) : (t.refreshSession.1.refreshes.map Refresh.left).sum =
    (t.refreshes.map Refresh.left).sum := by
  unfold Tab.refreshSession
  split
  · rfl
  · rw [List.map_append, List.sum_append]
    rfl

/-- **Every callback leaves fewer.** -/
theorem left_lt_of_step {e : Event τ} (he : e.isCallback = true) (h : step truthy s e = some t) :
    t.left < s.left := by
  have hput : ∀ {i : ℕ} {q q' : Request τ}, s.requests[i]? = some q → q'.left < q.left →
      (s.put i q').left < s.left := by
    intro i q q' hq hlt
    have hsum := @sum_map_set_lt _ Request.left _ _ _ _ hq hlt
    unfold Tab.left Tab.put
    dsimp only
    omega
  cases does_of_step h with
  | request | refreshSession | answered | refreshed | assigned => cases he
  | intercept i q hq hphase =>
      refine hput hq ?_
      unfold Request.left
      rw [hphase]
      exact Nat.zero_lt_one
  | pass i q status hq hphase =>
      refine hput hq ?_
      unfold Request.left
      rw [hphase]
      exact Nat.zero_lt_succ 3
  | retry i q hq hphase =>
      have hsum := @sum_map_set_lt _ Request.left _ _ _ { q with
        retriedAfterRefresh := true
        phase := .waiting s.refreshSession.2
        refresh := some s.refreshSession.2 } hq (by
          unfold Request.left
          rw [hphase]
          exact Nat.lt_succ_self 3)
      have hrefreshes := left_refreshSession s
      have hassignment : s.refreshSession.1.assignment = s.assignment := by
        unfold Tab.refreshSession
        split <;> rfl
      unfold Tab.left Tab.put
      rw [requests_refreshSession, callers_refreshSession, hassignment, hrefreshes]
      dsimp only
      omega
  | resume i q r outcome hq hphase =>
      refine hput hq ?_
      have hleft : q.left = 2 := by
        unfold Request.left
        rw [hphase]
      rw [hleft]
      cases outcome with
      | none => exact Nat.zero_lt_succ 1
      | some token => exact Nat.lt_succ_self 1
  | caller j r outcome hj =>
      have hsum := @sum_map_set_lt _ Caller.left _ _ _ (.resumed r outcome) hj Nat.zero_lt_one
      unfold Tab.left
      dsimp only
      omega
  | write r answer hr =>
      have hsum := @sum_map_set_lt _ Refresh.left _ _ _ (.passed (answer.outcome truthy)) hr
        (Nat.lt_succ_self 1)
      unfold Tab.left
      dsimp only
      omega
  | settle r outcome hr =>
      have hsum := @sum_map_set_lt _ Refresh.left _ _ _ (.settled outcome) hr Nat.zero_lt_one
      have hrequests : ((s.requests.map (·.wake r outcome)).map Request.left).sum ≤ _ :=
        sum_map_map_le (Request.left_wake r outcome) s.requests
      have hcallers : ((s.callers.map (·.wake r outcome)).map Caller.left).sum ≤ _ :=
        sum_map_map_le (Caller.left_wake r outcome) s.callers
      unfold Tab.left
      dsimp only
      omega
  | assignment token hassignment =>
      unfold Tab.left
      rw [hassignment]
      exact Nat.lt_succ_self _

/-- A callback that is left can run. -/
theorem exists_step_of_not_idle (hidle : s.idle = false) :
    ∃ e t, e.isCallback = true ∧ step truthy s e = some t := by
  simp only [Tab.idle, Bool.and_eq_false_iff, List.all_eq_false, Bool.not_eq_true',
    Bool.not_eq_false, Option.isNone_eq_false_iff] at hidle
  rcases hidle with ((⟨q, hq, hpending⟩ | ⟨c, hc, hpending⟩) | ⟨f, hf, hpending⟩) | hassignment
  · obtain ⟨i, hi⟩ := List.mem_iff_getElem?.mp hq
    refine ⟨.runRequest i, ?_⟩
    simp only [step, hi, bind, Option.bind_some]
    cases hphase : q.phase with
    | onWire => rw [hphase] at hpending; cases hpending
    | waiting r => rw [hphase] at hpending; cases hpending
    | settled => rw [hphase] at hpending; cases hpending
    | intercepting => exact ⟨_, rfl, rfl⟩
    | responding status => exact ⟨_, rfl, rfl⟩
    | resuming r outcome => exact ⟨_, rfl, rfl⟩
  · obtain ⟨j, hj⟩ := List.mem_iff_getElem?.mp hc
    cases c with
    | resuming r outcome => exact ⟨.runCaller j, _, rfl, by rw [step, hj]; rfl⟩
    | _ => cases hpending
  · obtain ⟨r, hr⟩ := List.mem_iff_getElem?.mp hf
    cases f with
    | answered answer => exact ⟨.runRefresh r, _, rfl, by rw [step, hr]; rfl⟩
    | passed outcome => exact ⟨.runRefresh r, _, rfl, by rw [step, hr]; rfl⟩
    | _ => cases hpending
  · obtain ⟨token, htoken⟩ := Option.isSome_iff_exists.mp hassignment
    exact ⟨.runAssignment, _, rfl, by rw [step, htoken]; rfl⟩

/-- **The callbacks come to an end**, by induction on how many are left. -/
theorem exists_idle (truthy : τ → Bool) (s : Tab τ) : ∃ tr t,
    Execution (step truthy) (fun _ e => e.isCallback = true) s tr t ∧ t.idle = true := by
  induction hleft : s.left using Nat.strong_induction_on generalizing s with
  | _ n ih =>
      cases hidle : s.idle with
      | true => exact ⟨[], s, .nil, hidle⟩
      | false =>
          obtain ⟨e, t, he, ht⟩ := exists_step_of_not_idle hidle
          obtain ⟨tr, u, hrun, hu⟩ := ih t.left (hleft ▸ left_lt_of_step he ht) t rfl
          have hfirst : Execution (step truthy) (fun _ e => e.isCallback = true) s [(s, e)] t :=
            Execution.nil.snoc he ht
          exact ⟨_, u, hfirst.trans hrun, hu⟩

/-! ## Who waits for which refresh -/

/-- The refresh a caller waits for, or has waited for. -/
def Caller.refresh : Caller τ → ℕ
  | .waiting r | .resuming r _ | .resumed r _ => r

theorem Caller.refresh_wake (r : ℕ) (outcome : Option τ) (c : Caller τ) :
    (c.wake r outcome).refresh = c.refresh := by
  cases c with
  | waiting r' =>
      show (if r' = r then Caller.resuming r outcome else .waiting r').refresh = r'
      split
      · exact (‹r' = r›).symm
      · rfl
  | _ => rfl

theorem Request.refresh_wake (r : ℕ) (outcome : Option τ) (q : Request τ) :
    (q.wake r outcome).refresh = q.refresh := by
  unfold Request.wake
  split
  · split <;> rfl
  · rfl

/-- While a refresh has not settled, whoever calls waits for it. -/
theorem Inv.refreshSession_eq (hs : Inv truthy s) {r : ℕ} (hr : Unsettled s.refreshes r) :
    s.refreshSession = (s, r) := by
  unfold Tab.refreshSession
  rw [(hs.flight r).mpr hr]

/-- A caller stays with its refresh. -/
theorem caller_of_step {e : Event τ} (h : step truthy s e = some t) {j : ℕ} {c : Caller τ}
    (hc : s.callers[j]? = some c) : ∃ c', t.callers[j]? = some c' ∧ c'.refresh = c.refresh := by
  cases does_of_step h with
  | refreshSession =>
      refine ⟨c, ?_, rfl⟩
      show (s.refreshSession.1.callers ++ _)[j]? = some c
      rw [callers_refreshSession, List.getElem?_append_left (List.getElem?_eq_some_iff.mp hc).1]
      exact hc
  | retry => exact ⟨c, (congrArg (·[j]?) (callers_refreshSession s)).trans hc, rfl⟩
  | caller j' r outcome hj =>
      show ∃ c', (s.callers.set j' _)[j]? = some c' ∧ _
      by_cases hjj : j' = j
      · subst hjj
        rw [hc, Option.some_inj] at hj
        refine ⟨_, List.getElem?_set_self (List.getElem?_eq_some_iff.mp hc).1, ?_⟩
        rw [hj]
        rfl
      · exact ⟨c, (List.getElem?_set_ne hjj).trans hc, rfl⟩
  | settle r outcome hr =>
      refine ⟨c.wake r outcome, ?_, Caller.refresh_wake r outcome c⟩
      show (s.callers.map _)[j]? = _
      rw [List.getElem?_map, hc]
      rfl
  | _ => exact ⟨c, hc, rfl⟩

/-- A request that has not been retried has waited for no refresh. -/
theorem Request.Ok.refresh_eq_none {refreshes : List (Refresh τ)} {accessToken : Option τ}
    {q : Request τ} (h : q.Ok truthy refreshes accessToken)
    (hretried : q.retriedAfterRefresh = false) : q.refresh = none := by
  cases h with
  | called | sent => rfl
  | _ => cases hretried

/-- A request stays with its refresh. -/
theorem request_of_step (hs : Inv truthy s) {e : Event τ} (h : step truthy s e = some t) {i r : ℕ}
    {q : Request τ} (hq : s.requests[i]? = some q) (hr : q.refresh = some r) :
    ∃ q', t.requests[i]? = some q' ∧ q'.refresh = some r := by
  have hput : ∀ {i' : ℕ} {p p' : Request τ}, s.requests[i']? = some p → p'.refresh = p.refresh →
      ∃ q', (s.requests.set i' p')[i]? = some q' ∧ q'.refresh = some r := by
    intro i' p p' hp hrefresh
    by_cases hii : i' = i
    · subst hii
      rw [hq, Option.some_inj] at hp
      exact ⟨p', List.getElem?_set_self (List.getElem?_eq_some_iff.mp hq).1,
        hrefresh.trans (hp ▸ hr)⟩
    · exact ⟨q, (List.getElem?_set_ne hii).trans hq, hr⟩
  cases does_of_step h with
  | request url header =>
      exact ⟨q, (List.getElem?_append_left (List.getElem?_eq_some_iff.mp hq).1).trans hq, hr⟩
  | refreshSession => exact ⟨q, (congrArg (·[i]?) (requests_refreshSession s)).trans hq, hr⟩
  | answered i' status p hidle hp => exact hput hp rfl
  | intercept i' p hp => exact hput hp rfl
  | pass i' p status hp => exact hput hp rfl
  | retry i' p hp hphase hretried =>
      show ∃ q', (s.refreshSession.1.requests.set i' _)[i]? = some q' ∧ _
      rw [requests_refreshSession]
      by_cases hii : i' = i
      · subst hii
        rw [hq, Option.some_inj] at hp
        subst hp
        have hnone := (hs.request q (List.mem_of_getElem? hq)).refresh_eq_none hretried
        rw [hr] at hnone
        cases hnone
      · exact ⟨q, (List.getElem?_set_ne hii).trans hq, hr⟩
  | resume i' p r' outcome hp => exact hput hp (by cases outcome <;> rfl)
  | settle r' outcome hr' =>
      refine ⟨q.wake r' outcome, ?_, (Request.refresh_wake r' outcome q).trans hr⟩
      show (s.requests.map _)[i]? = _
      rw [List.getElem?_map, hq]
      rfl
  | _ => exact ⟨q, hq, hr⟩

/-! ## Every run -/

/-- What a request has of the refresh it waited for: it waits, is about to go on with the outcome,
was rejected, or is sent again with the token. -/
def Request.Gets (refreshes : List (Refresh τ)) (q : Request τ) (r : ℕ) : Prop :=
  q.phase = .waiting r ∧ Unsettled refreshes r ∨
  (∃ outcome, q.phase = .resuming r outcome ∧ Settled refreshes r outcome) ∨
  q.phase = .settled ∧ q.sends.length = 1 ∧ Settled refreshes r none ∨
  ∃ token, Settled refreshes r (some token) ∧
    (q.phase = .intercepting ∨ ∃ bearer, q.sends = [bearer, some token])

/-- The laws of the shared refresh, of a run and the tab it leads to. -/
structure SingleFlight (truthy : τ → Bool) (tr : List (Tab τ × Event τ)) (t : Tab τ) : Prop where
  /-- at most one refresh has not settled -/
  atMostOne : ∀ r r', Unsettled t.refreshes r → Unsettled t.refreshes r' → r = r'
  /-- who called while a refresh was under way has waited for that one -/
  callerJoined : ∀ x ∈ tr, x.2 = .refreshSession → ∀ r, Unsettled x.1.refreshes r →
    ∃ c, t.callers[x.1.callers.length]? = some c ∧ c.refresh = r
  requestJoined : ∀ x ∈ tr, ∀ i q, x.2 = .runRequest i → x.1.requests[i]? = some q →
    q.phase = .responding (some 401) → q.retriedAfterRefresh = false →
    isAuthEndpoint q.url = false → ∀ r, Unsettled x.1.refreshes r →
      ∃ q', t.requests[i]? = some q' ∧ q'.refresh = some r
  /-- and has its outcome as soon as it has settled -/
  caller : ∀ c ∈ t.callers, c.Ok t.refreshes
  request : ∀ q ∈ t.requests, ∀ r, q.refresh = some r → q.Gets t.refreshes r
  /-- a refresh that has settled is not shared any more -/
  free : ∀ r, t.inFlightRefresh = some r → Unsettled t.refreshes r
  /-- the callbacks come to an end, and then the refresh that is shared has no answer yet -/
  drains : ∃ tr' t', Execution (step truthy) (fun _ e => e.isCallback = true) t tr' t' ∧
    t'.idle = true ∧ ∀ r, t'.inFlightRefresh = some r → t'.refreshes[r]? = some .outstanding
  /-- two sends at most, the second with the token of the refresh -/
  sends : ∀ q ∈ t.requests, q.sends.length ≤ 2 ∧ ∀ first second, q.sends = [first, second] →
    ∃ r token, q.refresh = some r ∧ Settled t.refreshes r (some token) ∧ second = some token
  /-- no request to an auth endpoint waits for a refresh or starts one -/
  auth : ∀ q ∈ t.requests, isAuthEndpoint q.url = true → q.refresh = none
  started : ∀ x ∈ tr, ∀ t', step truthy x.1 x.2 = some t' →
    x.1.refreshes.length < t'.refreshes.length → x.2 = .refreshSession ∨
      ∃ i q, x.2 = .runRequest i ∧ x.1.requests[i]? = some q ∧ isAuthEndpoint q.url = false

theorem Request.Ok.gets {refreshes : List (Refresh τ)} {accessToken : Option τ} {q : Request τ}
    (h : q.Ok truthy refreshes accessToken) {r : ℕ} (hr : q.refresh = some r) :
    q.Gets refreshes r := by
  cases h with
  | called | sent => cases hr
  | waiting url header bearer r' hurl hunsettled =>
      cases hr
      exact Or.inl ⟨rfl, hunsettled⟩
  | resuming url header bearer r' outcome hurl hsettled =>
      cases hr
      exact Or.inr (Or.inl ⟨outcome, rfl, hsettled⟩)
  | rejected url header bearer r' hurl hsettled =>
      cases hr
      exact Or.inr (Or.inr (Or.inl ⟨rfl, rfl, hsettled⟩))
  | retrying url header bearer r' token hurl hsettled =>
      cases hr
      exact Or.inr (Or.inr (Or.inr ⟨token, hsettled, Or.inl rfl⟩))
  | resent url header bearer r' token phase hurl hsettled =>
      cases hr
      exact Or.inr (Or.inr (Or.inr ⟨token, hsettled, Or.inr ⟨bearer, rfl⟩⟩))

theorem Request.Ok.sends {refreshes : List (Refresh τ)} {accessToken : Option τ} {q : Request τ}
    (h : q.Ok truthy refreshes accessToken) : q.sends.length ≤ 2 ∧
      ∀ first second, q.sends = [first, second] →
        ∃ r token, q.refresh = some r ∧ Settled refreshes r (some token) ∧ second = some token := by
  cases h with
  | called => exact ⟨Nat.zero_le 2, nofun⟩
  | resent url header bearer r token phase hurl hsettled =>
      refine ⟨le_rfl, fun first second h => ?_⟩
      cases h
      exact ⟨r, token, rfl, hsettled, rfl⟩
  | _ => exact ⟨Nat.le_succ 1, nofun⟩

theorem Request.Ok.auth {refreshes : List (Refresh τ)} {accessToken : Option τ} {q : Request τ}
    (h : q.Ok truthy refreshes accessToken) (hurl : isAuthEndpoint q.url = true) :
    q.refresh = none := by
  cases h with
  | called | sent => rfl
  | waiting _ _ _ _ hfalse => cases hfalse.symm.trans hurl
  | resuming _ _ _ _ _ hfalse => cases hfalse.symm.trans hurl
  | rejected _ _ _ _ hfalse => cases hfalse.symm.trans hurl
  | retrying _ _ _ _ _ hfalse => cases hfalse.symm.trans hurl
  | resent _ _ _ _ _ _ hfalse => cases hfalse.symm.trans hurl

/-- A refresh is posted by a call of `refreshSession`. -/
theorem started_of_step {e : Event τ} (h : step truthy s e = some t)
    (hlt : s.refreshes.length < t.refreshes.length) : e = .refreshSession ∨
      ∃ i q, e = .runRequest i ∧ s.requests[i]? = some q ∧ isAuthEndpoint q.url = false := by
  cases does_of_step h with
  | refreshSession => exact Or.inl rfl
  | retry i q hq hphase hretried hurl => exact Or.inr ⟨i, q, rfl, hq, hurl⟩
  | refreshed | write | settle => exact absurd hlt (by simp)
  | _ => exact absurd hlt (lt_irrefl _)

/-- **The refresh is single-flight and retries are bounded**, in every run of a tab. -/
theorem singleFlight {tr : List (Tab τ × Event τ)}
    (h : Execution (step truthy) unguarded (Tab.initial τ) tr t) : SingleFlight truthy tr t := by
  have hinv : ∀ {tr' u}, Execution (step truthy) unguarded (Tab.initial τ) tr' u → Inv truthy u :=
    fun hrun => hrun.invariant (Inv.initial truthy) fun _ _ _ hp _ hq => hp.step hq
  have ht := hinv h
  refine ⟨fun r r' => ht.unique, ?_, ?_, ht.caller, fun q hq r => (ht.request q hq).gets,
    fun r => (ht.flight r).mp, ?_, fun q hq => (ht.request q hq).sends,
    fun q hq => (ht.request q hq).auth, fun x _ t' => started_of_step⟩
  · rintro ⟨p, e⟩ hx rfl r hr
    obtain ⟨tr₁, tr₂, u, -, hp, -, hu, h₂⟩ := h.exists_of_mem hx
    have hjoined : u.callers[p.callers.length]? = some (.waiting r) := by
      rw [← Option.some.inj hu]
      show ((p.refreshSession.1).callers ++ [.waiting p.refreshSession.2])[p.callers.length]? = _
      rw [(hinv hp).refreshSession_eq hr]
      exact List.getElem?_concat_length
    exact h₂.invariant (I := fun v => ∃ c, v.callers[p.callers.length]? = some c ∧ c.refresh = r)
      ⟨_, hjoined, rfl⟩ fun v e' v' hv _ hv' => by
        obtain ⟨c, hc, hcr⟩ := hv
        obtain ⟨c', hc', hcr'⟩ := caller_of_step hv' hc
        exact ⟨c', hc', hcr'.trans hcr⟩
  · rintro ⟨p, e⟩ hx i q rfl hq hphase hretried hurl r hr
    obtain ⟨tr₁, tr₂, u, -, hp, -, hu, h₂⟩ := h.exists_of_mem hx
    have hjoined : ∃ q', u.requests[i]? = some q' ∧ q'.refresh = some r := by
      have hrespond : p.respond i q (some 401) = u := by
        simp only [step, hq, bind, Option.bind_some, hphase] at hu
        exact Option.some.inj hu
      rw [← hrespond, Tab.respond, if_neg (by simp [hretried, hurl]),
        (hinv hp).refreshSession_eq hr]
      exact ⟨_, List.getElem?_set_self (List.getElem?_eq_some_iff.mp hq).1, rfl⟩
    exact (h₂.invariant (I := fun v => Inv truthy v ∧
      ∃ q', v.requests[i]? = some q' ∧ q'.refresh = some r) ⟨(hinv hp).step hu, hjoined⟩
      fun v e' v' hv _ hv' => by
        obtain ⟨hv, q', hq', hqr⟩ := hv
        exact ⟨hv.step hv', request_of_step hv hv' hq' hqr⟩).2
  · obtain ⟨tr', t', hrun, hidle⟩ := exists_idle truthy t
    have ht' : Inv truthy t' := hrun.invariant ht fun _ _ _ hp _ hq => hp.step hq
    refine ⟨tr', t', hrun, hidle, fun r hr => ?_⟩
    obtain ⟨f, hf, hunsettled⟩ := (ht'.flight r).mp hr
    have hpending := refresh_of_idle hidle hf
    cases f with
    | outstanding => exact hf
    | settled outcome => cases hunsettled
    | _ => cases hpending

/-- Two requests meet a 401, share a refresh, and are sent again with its token. -/
theorem singleFlight_shared : ∃ tr t,
    Execution (step fun token : String => token ≠ "") unguarded (Tab.initial String) tr t ∧
    t.requests.map (·.sends) = [[none, some "fresh"], [none, some "fresh"]] ∧
    t.refreshes = [.settled (some "fresh")] ∧
    SingleFlight (fun token : String => token ≠ "") tr t := by
  obtain ⟨tr, t, h, hsends, hrefreshes⟩ : ∃ tr t,
      Execution (step fun token : String => token ≠ "") unguarded (Tab.initial String) tr t ∧
      t.requests.map (·.sends) = [[none, some "fresh"], [none, some "fresh"]] ∧
      t.refreshes = [.settled (some "fresh")] :=
    Execution.exists_of_execute
      [.request (some "/api/feed") none, .request (some "/api/search") none, .runRequest 0,
        .runRequest 1, .answered 1 (some 401), .runRequest 1, .answered 0 (some 401), .runRequest 0,
        .refreshed 0 (.success (some "fresh")), .runRefresh 0, .runRefresh 0, .runRequest 0,
        .runRequest 1, .runRequest 0, .runRequest 1]
      (by decide +kernel) (fun _ _ => trivial)
  exact ⟨tr, t, h, hsends, hrefreshes, singleFlight h⟩

end ProcureSignal.Frontend.Interceptors
