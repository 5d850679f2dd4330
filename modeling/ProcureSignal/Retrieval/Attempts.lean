/-
# What a fetch accounts for

`SafeFetcher.fetch` of `retrieval/fetching.py` as a program: its loop over the attempts and that of
`_attempt` over the redirects, run against a script of what the circuit store, the resolver, the
server, the clock and the jitter do.  The requests, the sleeps and the calls that record a failure
or a success are logged.

* `attemptFrom_spec` : what one attempt logs and returns;
* `ledger_attempts` : what the attempts of a fetch log;
* `exec_of_visited` : the hops of a fetch;
* `accounted_iff` : **when a fetch returns and accounts for its failures**;
* `execution_of_fetch` : a fetch is a run of the system of `Fetching`, with the requests it logs.
-/
import ProcureSignal.Library.Raising
import ProcureSignal.Retrieval.Fetching

namespace ProcureSignal.Retrieval.Fetching

/-! ## The program -/

/-- How a request ends: with a response, with an `HTTPError` or a `TimeoutError`, or with another
exception. -/
inductive Reply
  | response (r : Response)
  | networkError
  | raised
  deriving DecidableEq, Repr

/-- What the rest of the world does to one fetch, by the number of the hop; the jitter is drawn by
the number of the attempt. -/
structure Script where
  allowed : Bool
  answer : ℕ → Resolution
  reply : ℕ → Reply
  now : ℕ → Instant
  jitter : ℕ → ℚ → ℚ

inductive Event
  | attempt (i : ℕ)
  | request (i : ℕ) (url : String) (params : Option QueryParams)
  | sleep (seconds : ℚ)
  | circuitFailure
  | circuitSuccess
  deriving DecidableEq, Repr

/-- A fetch under way: the hops so far, and the log with its latest event first. -/
structure Call where
  hops : ℕ
  events : List Event
  deriving DecidableEq, Repr

/-- A part of a fetch; an exception is one that no clause catches. -/
abbrev Fetch := Raising Unit Call

def note (event : Event) : Fetch Unit :=
  modify fun c => { c with events := event :: c.events }

/-- The number of the next hop. -/
def nextHop : Fetch ℕ := modifyGet fun c => (c.hops, { c with hops := c.hops + 1 })

section Fetch

variable (P : Parsers) (N : Numbers) (A : Addresses) (fetcher : SafeFetcher) (source : Source)
  (params : Option QueryParams) (W : Script)

/-- The redirect loop of `_attempt`, in attempt `i`, with the hops that are left. -/
def attemptFrom (i : ℕ) : ℕ → String → Option QueryParams → Fetch FetchResult
  | 0, _, _ => pure (.failure .tooManyRedirects)
  | n + 1, url, params => do
      let k ← nextHop
      match Retrieval.validate P.unicode P.urls A url source.allowedHosts (W.answer k) with
      | .error .unsafeUrl => pure (.failure .unsafeUrl)
      | .error .other => throw ()
      | .ok _ =>
          note (.request i url params)
          match W.reply k with
          | .networkError => pure (.failure .networkError)
          | .raised => throw ()
          | .response r =>
              match respond P N fetcher source url (W.now k) r with
              | none => throw ()
              | some (.inl url) => attemptFrom i n url none
              | some (.inr result) => pure result

/-- The delay after attempt `i`. -/
def delay (i : ℕ) (result : FetchResult) : ℚ :=
  let seconds :=
    match result.retryAfterSeconds with
    | some seconds => seconds
    | none =>
        let base := min (2 ^ i) 30
        base + min (min (max 0 (W.jitter i base)) (base * (1 / 4))) 5
  min seconds 900

/-- What `fetch` does with the result of attempt `i`. -/
def settle (i : ℕ) (result : FetchResult) (again : Fetch FetchResult) : Fetch FetchResult := do
  if result.failureCode = none then
    if !fetcher.deferSuccess then note .circuitSuccess
    return result
  if ¬ retryable result ∨ min fetcher.maxAttempts 3 ≤ i + 1 then
    note .circuitFailure
    return result
  note (.sleep (delay W i result))
  again

/-- The loop of `fetch` from attempt `i` on. -/
def attempts : ℕ → ℕ → Fetch FetchResult
  -- `raise AssertionError("unreachable")`
  | 0, _ => throw ()
  | m + 1, i => do
      note (.attempt i)
      let result ← attemptFrom P N A fetcher source W i (min fetcher.maxRedirects 3 + 1)
        source.endpointUrl params
      settle fetcher W i result (attempts m (i + 1))

/-- `fetch` of a fetcher that is open. -/
def fetch : Fetch FetchResult :=
  if W.allowed then attempts P N A fetcher source params W (min fetcher.maxAttempts 3) 0
  else pure (.failure .circuitOpen)

/-! ## One hop -/

/-- How a hop ends: with the next URL, with the result of the attempt, or with an exception. -/
def hop (k : ℕ) (url : String) : Option (String ⊕ FetchResult) :=
  match Retrieval.validate P.unicode P.urls A url source.allowedHosts (W.answer k) with
  | .error .unsafeUrl => some (.inr (.failure .unsafeUrl))
  | .error .other => none
  | .ok _ =>
      match W.reply k with
      | .networkError => some (.inr (.failure .networkError))
      | .raised => none
      | .response r => respond P N fetcher source url (W.now k) r

/-- The call after a hop: a URL that is validated is requested. -/
def Call.after (i : ℕ) (url : String) (params' : Option QueryParams) (c : Call) : Call where
  hops := c.hops + 1
  events :=
    if (Retrieval.validate P.unicode P.urls A url source.allowedHosts (W.answer c.hops)).isOk then
      .request i url params' :: c.events
    else c.events

/-- The rest of a fetch from a hop on. -/
def fetchFrom (i n : ℕ) (url : String) (params' : Option QueryParams) : Fetch FetchResult := do
  let result ← attemptFrom P N A fetcher source W i (n + 1) url params'
  settle fetcher W i result
    (attempts P N A fetcher source params W (min fetcher.maxAttempts 3 - (i + 1)) (i + 1))

/-- Hop `k` goes to the URL, in attempt `i`, with `n` more redirects to follow. -/
inductive Visited : ℕ → ℕ → ℕ → String → Prop
  | start (hallowed : W.allowed = true) :
      Visited 0 0 (min fetcher.maxRedirects 3) source.endpointUrl
  | redirect {k i n : ℕ} {url url' : String} (h : Visited k i (n + 1) url)
      (hhop : hop P N A fetcher source W k url = some (.inl url')) : Visited (k + 1) i n url'
  | retry {k i n : ℕ} {url : String} {result : FetchResult} (h : Visited k i n url)
      (hhop : hop P N A fetcher source W k url = some (.inr result))
      (hretryable : retryable result = true) (hleft : i + 1 < min fetcher.maxAttempts 3) :
      Visited (k + 1) (i + 1) (min fetcher.maxRedirects 3) source.endpointUrl

/-- The `Location` of a redirect joins the URL, and the `Retry-After` of a 429 is a time. -/
def Response.Readable (url : String) (now : Instant) (r : Response) : Prop :=
  (300 ≤ r.statusCode ∧ r.statusCode ≤ 399 → ∀ location ∈ r.location, location ≠ "" →
    (P.urls.urljoin url location).isSome = true) ∧
  (r.statusCode = 429 → (parseRetryAfter P N r.retryAfter now).isSome = true)

/-- Nothing in the hop makes a parser or a client raise: the URL splits, and where it names an
allowed host its port is one and the resolver answers; then the request does not end with an
exception other than a network error, and the response can be read. -/
def Readable (k : ℕ) (url : String) : Prop :=
  Retrieval.validate P.unicode P.urls A url source.allowedHosts (W.answer k) ≠ .error .other ∧
    ∀ v, Retrieval.validate P.unicode P.urls A url source.allowedHosts (W.answer k) = .ok v →
      W.reply k ≠ .raised ∧ ∀ r, W.reply k = .response r → r.Readable P N url (W.now k)

/-! ## What a fetch accounts for -/

def Event.IsAttempt : Event → Prop
  | attempt _ => True
  | _ => False

def Event.IsRequestOf (i : ℕ) : Event → Prop
  | request j _ _ => j = i
  | _ => False

instance (e : Event) : Decidable e.IsAttempt := by
  cases e <;> unfold Event.IsAttempt <;> infer_instance

instance (i : ℕ) (e : Event) : Decidable (e.IsRequestOf i) := by
  cases e <;> unfold Event.IsRequestOf <;> infer_instance

/-- What a result and a log have to say of the fetch: the bounds on attempts, requests, sleeps and
the body, nothing at all where the circuit refuses, and else one failure for a failure and none for
a success. -/
structure Accounted (result : FetchResult) (events : List Event) : Prop where
  attempts : events.countP (·.IsAttempt) ≤ fetcher.maxAttempts
  requests : ∀ i, events.countP (·.IsRequestOf i) ≤ fetcher.maxRedirects + 1
  attempted : ∀ i url params, .request i url params ∈ events → .attempt i ∈ events
  sleeps : ∀ seconds, .sleep seconds ∈ events → seconds ≤ 900
  body : result.failureCode = none →
    ∃ content, result.content = some content ∧ content.length ≤ fetcher.maxResponseBytes
  refused : W.allowed = false → result.failureCode = some .circuitOpen ∧ events = []
  counted : W.allowed = true →
    events.count .circuitFailure = if result.failureCode = none then 0 else 1

variable {P N A fetcher source params W} {i k m n : ℕ} {url : String} {c d : Call}
  {result : FetchResult}

/-! ## One attempt -/

/-- A body that is read is within the bound. -/
theorem length_of_readContent {bound : ℕ} {content read : List UInt8} {chunks : List (List UInt8)}
    (hcontent : content.length ≤ bound) (h : readContent bound content chunks = .ok read) :
    read.length ≤ bound := by
  induction chunks generalizing content with
  | nil =>
      obtain rfl := Except.ok.inj h
      exact hcontent
  | cons chunk chunks ih =>
      rw [readContent] at h
      split at h
      · cases h
      · rename_i hbound
        exact ih (not_lt.mp hbound) h

/-- A result that is ok has a body within the bound. -/
def FetchResult.Bounded (fetcher : SafeFetcher) (result : FetchResult) : Prop :=
  result.failureCode = none →
    ∃ content, result.content = some content ∧ content.length ≤ fetcher.maxResponseBytes

theorem bounded_of_respond {now : Instant} {r : Response}
    (h : respond P N fetcher source url now r = some (.inr result)) : result.Bounded fetcher := by
  have hfailure : ∀ {result' : FetchResult}, result'.failureCode ≠ none →
      some (Sum.inr (α := String) result') = some (.inr result) → result.Bounded fetcher := by
    intro result' hcode heq hok
    rw [Sum.inr.inj (Option.some.inj heq)] at hcode
    exact absurd hok hcode
  unfold respond at h
  split at h
  · split at h
    · exact hfailure (by simp [FetchResult.failure]) h
    · exact hfailure (by simp [FetchResult.failure]) h
    · obtain ⟨url', -, heq⟩ := Option.map_eq_some_iff.mp h
      cases heq
  · split at h
    · obtain ⟨seconds, -, heq⟩ := Option.map_eq_some_iff.mp h
      exact hfailure (by simp [FetchResult.failure]) (congrArg some heq)
    · split at h
      · exact hfailure (by simp [FetchResult.failure]) h
      · split at h
        · exact hfailure (by simp [FetchResult.failure]) h
        · split at h
          · exact hfailure (by simp [FetchResult.failure]) h
          · split at h
            · exact hfailure (by simp [FetchResult.failure]) h
            · rename_i content hread
              intro _
              rw [← Sum.inr.inj (Option.some.inj h)]
              have hlength := length_of_readContent (Nat.zero_le _) hread
              exact ⟨content, rfl, hlength.trans (min_le_left _ _)⟩

/-- **One hop of an attempt** in the program. -/
theorem exec_attemptFrom_succ (i n : ℕ) (url : String) (params' : Option QueryParams) (c : Call) :
    (attemptFrom P N A fetcher source W i (n + 1) url params').exec c =
      match hop P N A fetcher source W c.hops url with
      | none => (.error (), c.after P A source W i url params')
      | some (.inl url') =>
          (attemptFrom P N A fetcher source W i n url' none).exec
            (c.after P A source W i url params')
      | some (.inr result) => (.ok result, c.after P A source W i url params') := by
  rw [attemptFrom]
  unfold hop Call.after
  cases hvalidate : Retrieval.validate P.unicode P.urls A url source.allowedHosts
      (W.answer c.hops) with
  | error e => cases e <;> simp [nextHop, hvalidate, Except.isOk, Except.toBool]
  | ok v =>
      cases hreply : W.reply c.hops with
      | networkError | raised => simp [nextHop, note, hvalidate, hreply, Except.isOk, Except.toBool]
      | response r =>
          cases hrespond : respond P N fetcher source url (W.now c.hops) r with
          | none => simp [nextHop, note, hvalidate, hreply, hrespond, Except.isOk, Except.toBool]
          | some next =>
              cases next <;>
                simp [nextHop, note, hvalidate, hreply, hrespond, Except.isOk, Except.toBool]

/-- A hop logs at most its request. -/
theorem events_after (i : ℕ) (url : String) (params' : Option QueryParams) (c : Call) :
    ∃ requests : List Event, requests.length ≤ 1 ∧ (∀ e ∈ requests, e = .request i url params') ∧
      (c.after P A source W i url params').events = requests ++ c.events := by
  unfold Call.after
  split
  · exact ⟨[.request i url params'], le_rfl, fun e he => List.mem_singleton.mp he, rfl⟩
  · exact ⟨[], Nat.zero_le 1, fun e he => absurd he List.not_mem_nil, rfl⟩

theorem bounded_of_hop (h : hop P N A fetcher source W k url = some (.inr result)) :
    result.Bounded fetcher := by
  unfold hop at h
  split at h
  · rw [← Sum.inr.inj (Option.some.inj h)]
    exact fun hok => absurd hok (by simp [FetchResult.failure])
  · cases h
  · split at h
    · rw [← Sum.inr.inj (Option.some.inj h)]
      exact fun hok => absurd hok (by simp [FetchResult.failure])
    · cases h
    · exact bounded_of_respond h

/-- **What one attempt logs and returns**: as many requests as there are hops, all of its own, and
a body within the bound. -/
theorem attemptFrom_spec (i n : ℕ) (url : String) (params : Option QueryParams) (c : Call) :
    ∃ requests : List Event, requests.length ≤ n ∧
      (∀ e ∈ requests, ∃ url params, e = .request i url params) ∧
      ((attemptFrom P N A fetcher source W i n url params).exec c).2.events =
        requests ++ c.events ∧
      ∀ result, ((attemptFrom P N A fetcher source W i n url params).exec c).1 = .ok result →
        result.Bounded fetcher := by
  induction n generalizing url params c with
  | zero =>
      refine ⟨[], le_rfl, fun e he => absurd he List.not_mem_nil, rfl, ?_⟩
      intro result h
      rw [← Except.ok.inj h]
      exact fun hok => absurd hok (by simp [FetchResult.failure])
  | succ n ih =>
      have hexec := @exec_attemptFrom_succ P N A fetcher source W i n url params c
      obtain ⟨own, hlength, hown, hafter⟩ := @events_after P A source W i url params c
      have hrequests : ∀ e ∈ own, ∃ url params, e = .request i url params :=
        fun e he => ⟨url, params, hown e he⟩
      rw [hexec]
      cases hhop : hop P N A fetcher source W c.hops url with
      | none =>
          exact ⟨own, hlength.trans (Nat.le_add_left 1 n), hrequests, hafter,
            fun result h => by cases h⟩
      | some next =>
          cases next with
          | inl url' =>
              -- the redirect is followed without parameters
              obtain ⟨rest, hrest, hall, hevents, hbounded⟩ :=
                ih url' none (c.after P A source W i url params)
              refine ⟨rest ++ own, ?_, ?_, ?_, hbounded⟩
              · rw [List.length_append]
                omega
              · intro e he
                rcases List.mem_append.mp he with he | he
                · exact hall e he
                · exact hrequests e he
              · rw [List.append_assoc, ← hafter]
                exact hevents
          | inr result =>
              refine ⟨own, hlength.trans (Nat.le_add_left 1 n), hrequests, hafter, ?_⟩
              intro result' h
              rw [← Except.ok.inj h]
              exact bounded_of_hop hhop

/-! ## The attempts of a fetch -/

/-- What the loop logs from attempt `i` on, with `m` attempts left. -/
structure Ledger (fetcher : SafeFetcher) (m i : ℕ) (result : FetchResult) (events : List Event) :
    Prop where
  attempts : events.countP (·.IsAttempt) ≤ m
  later : ∀ j url params, .request j url params ∈ events → i ≤ j
  requests : ∀ j, events.countP (·.IsRequestOf j) ≤ fetcher.maxRedirects + 1
  attempted : ∀ j url params, .request j url params ∈ events → .attempt j ∈ events
  sleeps : ∀ seconds, .sleep seconds ∈ events → seconds ≤ 900
  body : result.Bounded fetcher
  counted : events.count .circuitFailure = if result.failureCode = none then 0 else 1

/-- Requests of one attempt are of no other kind. -/
theorem countP_requests {requests : List Event}
    (h : ∀ e ∈ requests, ∃ url params, e = .request i url params) {p : Event → Bool}
    (hp : ∀ url params, p (.request i url params) = false) : requests.countP p = 0 := by
  rw [List.countP_eq_zero]
  intro e he
  obtain ⟨url, params, rfl⟩ := h e he
  rw [hp]
  exact Bool.false_ne_true

/-- At the end a failure is recorded, or a success is or is not. -/
theorem ledger_end {last : List Event}
    (hlast : ∀ e ∈ last, e = .circuitFailure ∨ e = .circuitSuccess)
    (hbody : result.Bounded fetcher)
    (hcounted : last.count .circuitFailure = if result.failureCode = none then 0 else 1) :
    Ledger fetcher m i result last := by
  have hnone : ∀ p : Event → Bool, p .circuitFailure = false → p .circuitSuccess = false →
      last.countP p = 0 := by
    intro p hfailure hsuccess
    rw [List.countP_eq_zero]
    intro e he
    rcases hlast e he with rfl | rfl
    · rw [hfailure]
      exact Bool.false_ne_true
    · rw [hsuccess]
      exact Bool.false_ne_true
  have hrequest : ∀ j url params, .request j url params ∉ last := by
    intro j url params hmem
    rcases hlast _ hmem with h | h <;> cases h
  constructor
  · rw [hnone _ rfl rfl]
    exact Nat.zero_le _
  · exact fun j url params hmem => absurd hmem (hrequest j url params)
  · intro j
    rw [hnone _ rfl rfl]
    exact Nat.zero_le _
  · exact fun j url params hmem => absurd hmem (hrequest j url params)
  · intro seconds hmem
    rcases hlast _ hmem with h | h <;> cases h
  · exact hbody
  · exact hcounted

/-- A sleep between two attempts. -/
theorem Ledger.sleep {events : List Event} {seconds : ℚ} (h : Ledger fetcher m i result events)
    (hseconds : seconds ≤ 900) : Ledger fetcher m i result (events ++ [.sleep seconds]) := by
  have hold : ∀ {e : Event}, e ∈ events ++ [.sleep seconds] → e ≠ .sleep seconds → e ∈ events := by
    intro e he hne
    rcases List.mem_append.mp he with he | he
    · exact he
    · exact absurd (List.mem_singleton.mp he) hne
  constructor
  · rw [List.countP_append]
    exact h.attempts
  · exact fun j url params hmem => h.later j url params (hold hmem (by simp))
  · intro j
    rw [List.countP_append]
    exact h.requests j
  · intro j url params hmem
    exact List.mem_append_left _ (h.attempted j url params (hold hmem (by simp)))
  · intro s hmem
    by_cases hs : s = seconds
    · exact hs ▸ hseconds
    · exact h.sleeps s (hold hmem (by simpa using hs))
  · exact h.body
  · rw [List.count_append]
    exact h.counted

/-- **One more attempt**, before those of the ledger. -/
theorem Ledger.attempt {requests events : List Event}
    (h : Ledger fetcher m (i + 1) result events)
    (hlength : requests.length ≤ fetcher.maxRedirects + 1)
    (hrequests : ∀ e ∈ requests, ∃ url params, e = .request i url params) :
    Ledger fetcher (m + 1) i result (events ++ (requests ++ [.attempt i])) := by
  have hcases : ∀ {j url params}, .request j url params ∈ events ++ (requests ++ [.attempt i]) →
      .request j url params ∈ events ∨ j = i := by
    intro j url params hmem
    rcases List.mem_append.mp hmem with hmem | hmem
    · exact Or.inl hmem
    · rcases List.mem_append.mp hmem with hmem | hmem
      · obtain ⟨url', params', heq⟩ := hrequests _ hmem
        exact Or.inr (Event.request.inj heq).1
      · cases List.mem_singleton.mp hmem
  constructor
  · rw [List.countP_append, List.countP_append, countP_requests hrequests fun _ _ => rfl, zero_add]
    exact Nat.add_le_add h.attempts le_rfl
  · intro j url params hmem
    rcases hcases hmem with hmem | rfl
    · exact (Nat.le_succ i).trans (h.later j url params hmem)
    · exact le_rfl
  · intro j
    rw [List.countP_append, List.countP_append]
    have hattempt : [Event.attempt i].countP (·.IsRequestOf j) = 0 := rfl
    by_cases hji : j = i
    · -- the later attempts have no request of this one
      have hlater : events.countP (·.IsRequestOf j) = 0 := by
        rw [List.countP_eq_zero]
        intro e he hof
        cases e with
        | request j' url params =>
            have heq : j' = j := of_decide_eq_true hof
            have hle := h.later j' url params he
            omega
        | _ => exact of_decide_eq_true hof
      have hown : requests.countP (·.IsRequestOf j) ≤ requests.length := List.countP_le_length
      omega
    · have hown : requests.countP (·.IsRequestOf j) = 0 :=
        countP_requests hrequests fun _ _ => decide_eq_false fun h => hji h.symm
      have hlater := h.requests j
      omega
  · intro j url params hmem
    rcases hcases hmem with hmem | rfl
    · exact List.mem_append_left _ (h.attempted j url params hmem)
    · exact List.mem_append_right _ (List.mem_append_right _ (List.mem_singleton_self _))
  · intro seconds hmem
    rcases List.mem_append.mp hmem with hmem | hmem
    · exact h.sleeps seconds hmem
    · rcases List.mem_append.mp hmem with hmem | hmem
      · obtain ⟨url, params, heq⟩ := hrequests _ hmem
        cases heq
      · cases List.mem_singleton.mp hmem
  · exact h.body
  · rw [List.count_append, List.count_append]
    have hown : requests.count .circuitFailure = 0 := countP_requests hrequests fun _ _ => rfl
    rw [hown]
    exact h.counted

/-- What `fetch` does with the result of an attempt. -/
theorem exec_settle (i : ℕ) (result : FetchResult) (again : Fetch FetchResult) (c : Call) :
    (settle fetcher W i result again).exec c =
      if result.failureCode = none then
        (.ok result, if fetcher.deferSuccess then c
          else { c with events := .circuitSuccess :: c.events })
      else if ¬ retryable result ∨ min fetcher.maxAttempts 3 ≤ i + 1 then
        (.ok result, { c with events := .circuitFailure :: c.events })
      else again.exec { c with events := .sleep (delay W i result) :: c.events } := by
  unfold settle
  by_cases hok : result.failureCode = none
  · cases fetcher.deferSuccess <;> simp [hok, note]
  · by_cases hend : ¬ retryable result ∨ min fetcher.maxAttempts 3 ≤ i + 1
    · simp only [hok, hend, if_true, if_false]
      simp [note]
    · simp only [hok, hend, if_false]
      simp [note]

/-- A delay is at most a quarter of an hour. -/
theorem delay_le (i : ℕ) (result : FetchResult) : delay W i result ≤ 900 := min_le_right _ _

/-- **What the attempts of a fetch log.** -/
theorem ledger_attempts (m i : ℕ) (c : Call)
    (h : (attempts P N A fetcher source params W m i).exec c = (.ok result, d)) :
    ∃ events, d.events = events ++ c.events ∧ Ledger fetcher m i result events := by
  induction m generalizing i c with
  | zero =>
      rw [attempts, Raising.exec_throw] at h
      cases h
  | succ m ih =>
      rw [attempts] at h
      simp only [note, Raising.exec_bind, Raising.exec_modify] at h
      obtain ⟨requests, hlength, hrequests, hevents, hbounded⟩ :=
        @attemptFrom_spec P N A fetcher source W i (min fetcher.maxRedirects 3 + 1)
          source.endpointUrl params ⟨c.hops, .attempt i :: c.events⟩
      have hredirects : requests.length ≤ fetcher.maxRedirects + 1 := by omega
      cases hexec : (attemptFrom P N A fetcher source W i (min fetcher.maxRedirects 3 + 1)
          source.endpointUrl params).exec ⟨c.hops, .attempt i :: c.events⟩ with
      | mk outcome c' =>
      rw [hexec] at h hevents hbounded
      cases outcome with
      | error e => cases h
      | ok result' =>
          have hbody := hbounded result' rfl
          dsimp only at h hevents
          rw [exec_settle] at h
          split at h
          · rename_i hok
            obtain ⟨hresult, rfl⟩ := Prod.mk.inj h
            obtain rfl := Except.ok.inj hresult
            have hend : ∀ last : List Event, (∀ e ∈ last, e = .circuitSuccess) →
                Ledger fetcher m (i + 1) result' last := by
              intro last hlast
              refine ledger_end (fun e he => Or.inr (hlast e he)) hbody ?_
              rw [if_pos hok, List.count_eq_zero]
              exact fun hmem => by cases hlast _ hmem
            cases hdefer : fetcher.deferSuccess with
            | true =>
                refine ⟨[] ++ (requests ++ [.attempt i]), ?_,
                  (hend [] (by simp)).attempt hredirects hrequests⟩
                simp [hevents]
            | false =>
                refine ⟨[.circuitSuccess] ++ (requests ++ [.attempt i]), ?_,
                  (hend [.circuitSuccess] (by simp)).attempt hredirects hrequests⟩
                simp [hevents]
          · rename_i hfailed
            split at h
            · obtain ⟨hresult, rfl⟩ := Prod.mk.inj h
              obtain rfl := Except.ok.inj hresult
              have hend : Ledger fetcher m (i + 1) result' [.circuitFailure] :=
                ledger_end (by simp) hbody (by rw [if_neg hfailed]; rfl)
              refine ⟨[.circuitFailure] ++ (requests ++ [.attempt i]), ?_,
                hend.attempt hredirects hrequests⟩
              simp [hevents]
            · obtain ⟨events, hlater, hledger⟩ := ih (i + 1) _ h
              refine ⟨events ++ [.sleep (delay W i result')] ++ (requests ++ [.attempt i]), ?_,
                (hledger.sleep (delay_le i result')).attempt hredirects hrequests⟩
              rw [hlater, hevents]
              simp

/-! ## When a fetch returns -/

/-- A response can be read exactly where its headers can. -/
theorem isSome_respond_iff {now : Instant} {r : Response} :
    (respond P N fetcher source url now r).isSome = true ↔ r.Readable P N url now := by
  unfold respond Response.Readable
  by_cases hredirect : 300 ≤ r.statusCode ∧ r.statusCode ≤ 399
  · have hstatus : r.statusCode ≠ 429 := by omega
    rw [if_pos hredirect]
    simp only [hredirect, hstatus, false_implies, and_true, true_implies]
    cases hlocation : r.location with
    | none => simp
    | some location =>
        by_cases hempty : location = ""
        · simp [hempty]
        · simp [hempty]
  · rw [if_neg hredirect]
    by_cases hlimited : r.statusCode = 429
    · simp [hlimited]
    · have htotal : ∀ b : Bool, b = true → (b = true ↔ (300 ≤ r.statusCode ∧ r.statusCode ≤ 399 →
          ∀ location ∈ r.location, location ≠ "" →
            (P.urls.urljoin url location).isSome = true) ∧
          (r.statusCode = 429 → (parseRetryAfter P N r.retryAfter now).isSome = true)) :=
        fun b hb => iff_of_true hb ⟨fun h => absurd h hredirect, fun h => absurd h hlimited⟩
      apply htotal
      rw [if_neg hlimited]
      split
      · rfl
      · split
        · rfl
        · split
          · rfl
          · split <;> rfl

/-- A hop raises exactly where something in it cannot be read. -/
theorem isSome_hop_iff : (hop P N A fetcher source W k url).isSome = true ↔
    Readable P N A source W k url := by
  unfold hop Readable
  cases hvalidate : Retrieval.validate P.unicode P.urls A url source.allowedHosts (W.answer k) with
  | error e => cases e <;> simp
  | ok v =>
      cases hreply : W.reply k with
      | networkError | raised => simp
      | response r => simp [isSome_respond_iff]

/-- Where an attempt is left, the loop goes on with its first hop. -/
theorem exec_attempts (hleft : i < min fetcher.maxAttempts 3) (c : Call) :
    (attempts P N A fetcher source params W (min fetcher.maxAttempts 3 - i) i).exec c =
      (fetchFrom P N A fetcher source params W i (min fetcher.maxRedirects 3) source.endpointUrl
        params).exec { c with events := .attempt i :: c.events } := by
  obtain ⟨m, hm⟩ : ∃ m, min fetcher.maxAttempts 3 - i = m + 1 :=
    ⟨min fetcher.maxAttempts 3 - i - 1, by omega⟩
  have hrest : min fetcher.maxAttempts 3 - (i + 1) = m := by omega
  rw [hm, attempts, fetchFrom, hrest, note, Raising.exec_bind, Raising.exec_modify]

/-- A result that is tried again is a failure. -/
theorem failed_of_retryable (h : retryable result = true) : result.failureCode ≠ none := by
  intro hok
  unfold retryable at h
  rw [hok] at h
  simp at h

/-- **The hops of a fetch**: from each of them on, the fetch is the rest of its run. -/
theorem exec_of_visited (hpositive : 0 < fetcher.maxAttempts)
    (h : Visited P N A fetcher source W k i n url) :
    ∃ params' c, c.hops = k ∧
      (fetch P N A fetcher source params W).exec ⟨0, []⟩ =
        (fetchFrom P N A fetcher source params W i n url params').exec c := by
  induction h with
  | start hallowed =>
      refine ⟨params, ⟨0, [.attempt 0]⟩, rfl, ?_⟩
      rw [fetch, if_pos hallowed]
      exact exec_attempts (lt_min hpositive (by omega)) ⟨0, []⟩
  | @redirect k i n url url' hvisited hhop ih =>
      obtain ⟨params', c, rfl, hexec⟩ := ih
      have hstep := @exec_attemptFrom_succ P N A fetcher source W i (n + 1) url params' c
      refine ⟨none, c.after P A source W i url params', rfl, ?_⟩
      rw [hexec, fetchFrom, fetchFrom, Raising.exec_bind, Raising.exec_bind, hstep, hhop]
  | @retry k i n url result hvisited hhop hretryable hleft ih =>
      obtain ⟨params', c, rfl, hexec⟩ := ih
      have hstep := @exec_attemptFrom_succ P N A fetcher source W i n url params' c
      have hagain : ¬ (¬ retryable result = true ∨ min fetcher.maxAttempts 3 ≤ i + 1) := by
        rintro (hnot | hlast)
        · exact hnot hretryable
        · omega
      refine ⟨params, ⟨c.hops + 1, .attempt (i + 1) :: .sleep (delay W i result) ::
        (c.after P A source W i url params').events⟩, rfl, ?_⟩
      rw [hexec, fetchFrom, Raising.exec_bind, hstep, hhop]
      dsimp only
      rw [exec_settle, if_neg (failed_of_retryable hretryable), if_neg hagain]
      exact exec_attempts hleft _

/-- An attempt whose hops can be read returns, and where it is tried again the next attempt is
visited. -/
theorem attemptFrom_returns
    (hreadable : ∀ k i n url, Visited P N A fetcher source W k i n url →
      Readable P N A source W k url)
    (i n : ℕ) (url : String) (params' : Option QueryParams) (c : Call)
    (h : Visited P N A fetcher source W c.hops i n url) :
    ∃ result d, (attemptFrom P N A fetcher source W i (n + 1) url params').exec c =
        (.ok result, d) ∧
      (retryable result = true → i + 1 < min fetcher.maxAttempts 3 →
        Visited P N A fetcher source W d.hops (i + 1) (min fetcher.maxRedirects 3)
          source.endpointUrl) := by
  induction n generalizing url params' c with
  | zero =>
      have hstep := @exec_attemptFrom_succ P N A fetcher source W i 0 url params' c
      obtain ⟨next, hhop⟩ := Option.isSome_iff_exists.mp (isSome_hop_iff.mpr (hreadable _ _ _ _ h))
      rw [hstep, hhop]
      cases next with
      | inr result => exact ⟨result, _, rfl, fun hretryable hleft => h.retry hhop hretryable hleft⟩
      | inl url' =>
          -- too many redirects, which is final
          exact ⟨.failure .tooManyRedirects, _, rfl, fun hretryable => by cases hretryable⟩
  | succ n ih =>
      have hstep := @exec_attemptFrom_succ P N A fetcher source W i (n + 1) url params' c
      obtain ⟨next, hhop⟩ := Option.isSome_iff_exists.mp (isSome_hop_iff.mpr (hreadable _ _ _ _ h))
      rw [hstep, hhop]
      cases next with
      | inr result => exact ⟨result, _, rfl, fun hretryable hleft => h.retry hhop hretryable hleft⟩
      | inl url' => exact ih url' none (c.after P A source W i url params') (h.redirect hhop)

/-- The loop returns where the hops can be read. -/
theorem attempts_return
    (hreadable : ∀ k i n url, Visited P N A fetcher source W k i n url →
      Readable P N A source W k url)
    (m i : ℕ) (c : Call) (hm : min fetcher.maxAttempts 3 - i = m)
    (hleft : i < min fetcher.maxAttempts 3)
    (h : Visited P N A fetcher source W c.hops i (min fetcher.maxRedirects 3) source.endpointUrl) :
    ∃ result d, (attempts P N A fetcher source params W m i).exec c = (.ok result, d) := by
  induction m generalizing i c with
  | zero => omega
  | succ m ih =>
      obtain ⟨result, d, hattempt, hnext⟩ := attemptFrom_returns hreadable i _ _ params
        { c with events := .attempt i :: c.events } h
      rw [← hm, exec_attempts hleft, fetchFrom, Raising.exec_bind, hattempt]
      dsimp only
      rw [exec_settle]
      split
      · exact ⟨result, _, rfl⟩
      · split
        · exact ⟨result, _, rfl⟩
        · rename_i hagain
          push Not at hagain
          have hrest : min fetcher.maxAttempts 3 - (i + 1) = m := by omega
          rw [hrest]
          exact ih (i + 1) _ hrest hagain.2 (hnext hagain.1 hagain.2)

/-- **When a fetch returns and accounts for its failures**: exactly when every hop it takes can be
read. -/
theorem accounted_iff (hpositive : 0 < fetcher.maxAttempts) :
    (∃ result c, (fetch P N A fetcher source params W).exec ⟨0, []⟩ = (.ok result, c) ∧
        Accounted fetcher W result c.events) ↔
      ∀ k i n url, Visited P N A fetcher source W k i n url → Readable P N A source W k url := by
  constructor
  · rintro ⟨result, c, hexec, -⟩ k i n url hvisited
    obtain ⟨params', c', rfl, hrest⟩ := @exec_of_visited P N A fetcher source params W i k n url
      hpositive hvisited
    have hstep := @exec_attemptFrom_succ P N A fetcher source W i n url params' c'
    rw [← isSome_hop_iff]
    cases hhop : hop P N A fetcher source W c'.hops url with
    | some next => rfl
    | none =>
        rw [hrest, fetchFrom, Raising.exec_bind, hstep, hhop] at hexec
        cases hexec
  · intro hreadable
    by_cases hallowed : W.allowed = true
    · obtain ⟨result, d, hexec⟩ := @attempts_return P N A fetcher source params W hreadable
        (min fetcher.maxAttempts 3) 0 ⟨0, []⟩ (Nat.sub_zero _) (lt_min hpositive (by omega))
        (.start hallowed)
      obtain ⟨events, hevents, hledger⟩ := ledger_attempts _ 0 ⟨0, []⟩ hexec
      rw [List.append_nil] at hevents
      refine ⟨result, d, by rw [fetch, if_pos hallowed, hexec], ?_⟩
      rw [hevents]
      exact
        { attempts := hledger.attempts.trans (min_le_left _ _)
          requests := hledger.requests
          attempted := hledger.attempted
          sleeps := hledger.sleeps
          body := hledger.body
          refused := fun hrefused => by rw [hallowed] at hrefused; cases hrefused
          counted := fun _ => hledger.counted }
    · refine ⟨.failure .circuitOpen, ⟨0, []⟩, by rw [fetch, if_neg hallowed]; rfl, ?_⟩
      constructor
      · exact Nat.zero_le _
      · exact fun _ => Nat.zero_le _
      · exact fun _ _ _ hmem => absurd hmem List.not_mem_nil
      · exact fun _ hmem => absurd hmem List.not_mem_nil
      · exact fun hok => by cases hok
      · exact fun _ => ⟨rfl, rfl⟩
      · exact fun h => absurd h hallowed

/-! ## The transition system -/

/-- What a logged event requests. -/
def Event.requested : Event → Option (String × Option QueryParams)
  | request _ url params => some (url, params)
  | _ => none

/-- The requests of a trace, newest first. -/
def requests (tr : List (State × Label)) : List (String × Option QueryParams) :=
  tr.filterMap fun x => issues x.1 x.2

theorem requests_append (later tr : List (State × Label)) :
    requests (later ++ tr) = requests later ++ requests tr := List.filterMap_append

/-- **A hop is a run of the system**, with the request that it logs. -/
theorem execution_of_hop (approved : String → Option (List IPAddress)) (i n : ℕ) (url : String)
    (params' : Option QueryParams) (c : Call) :
    ∃ tr t, Execution (step P N A fetcher source params) unguarded
        ⟨approved, .hop i n url params'⟩ tr t ∧
      t.phase = (match hop P N A fetcher source W c.hops url with
        | none => .raised
        | some (.inl url') =>
            match n with
            | 0 => .attempted i (.failure .tooManyRedirects)
            | n + 1 => .hop i n url' none
        | some (.inr result) => .attempted i result) ∧
      (c.after P A source W i url params').events.filterMap (·.requested) =
        requests tr ++ c.events.filterMap (·.requested) := by
  have hstart : Execution (step P N A fetcher source params) unguarded
      ⟨approved, .hop i n url params'⟩ [] ⟨approved, .hop i n url params'⟩ := .nil
  unfold hop Call.after
  cases hvalidate : Retrieval.validate P.unicode P.urls A url source.allowedHosts
      (W.answer c.hops) with
  | error e =>
      cases e with
      | unsafeUrl =>
          refine ⟨_, ⟨approved, .attempted i (.failure .unsafeUrl)⟩,
            hstart.snoc (l := .validate (W.answer c.hops)) trivial ?_, rfl, rfl⟩
          simp only [step, hvalidate]
      | other =>
          refine ⟨_, ⟨approved, .raised⟩,
            hstart.snoc (l := .validate (W.answer c.hops)) trivial ?_, rfl, rfl⟩
          simp only [step, hvalidate]
  | ok v =>
      obtain rfl : v.url = url := (validate_eq_ok hvalidate).url_eq
      have hvalidated := hstart.snoc (l := .validate (W.answer c.hops)) trivial
        (step_validate rfl hvalidate)
      have hwaiting := hvalidated.snoc (l := .request)
        (u := ⟨Function.update approved v.host (some v.addresses), .waiting i n v⟩) trivial rfl
      cases hreply : W.reply c.hops with
      | networkError =>
          exact ⟨_, ⟨_, .attempted i (.failure .networkError)⟩,
            hwaiting.snoc (l := .networkError) trivial rfl, rfl, rfl⟩
      | raised =>
          exact ⟨_, ⟨_, .raised⟩, hwaiting.snoc (l := .otherError) trivial rfl, rfl, rfl⟩
      | response r =>
          dsimp only
          cases hrespond : respond P N fetcher source v.url (W.now c.hops) r with
          | none =>
              refine ⟨_, ⟨Function.update approved v.host (some v.addresses), .raised⟩,
                hwaiting.snoc (l := .respond r (W.now c.hops)) trivial ?_, rfl, rfl⟩
              simp only [step, hrespond]
          | some next =>
              cases next with
              | inl url' =>
                  cases n with
                  | zero =>
                      refine ⟨_, ⟨Function.update approved v.host (some v.addresses),
                        .attempted i (.failure .tooManyRedirects)⟩,
                        hwaiting.snoc (l := .respond r (W.now c.hops)) trivial ?_, rfl, rfl⟩
                      simp only [step, hrespond]
                  | succ n =>
                      refine ⟨_, ⟨Function.update approved v.host (some v.addresses),
                        .hop i n url' none⟩,
                        hwaiting.snoc (l := .respond r (W.now c.hops)) trivial ?_, rfl, rfl⟩
                      simp only [step, hrespond]
              | inr result =>
                  refine ⟨_, ⟨Function.update approved v.host (some v.addresses),
                    .attempted i result⟩,
                    hwaiting.snoc (l := .respond r (W.now c.hops)) trivial ?_, rfl, rfl⟩
                  simp only [step, hrespond]

/-- How an attempt ends in the system. -/
def attemptedPhase (i : ℕ) : Except Unit FetchResult → Phase
  | .ok result => .attempted i result
  | .error _ => .raised

/-- An attempt is a run of the system, with its requests. -/
theorem execution_of_attempt (approved : String → Option (List IPAddress)) (i n : ℕ) (url : String)
    (params' : Option QueryParams) (c : Call) :
    ∃ tr t, Execution (step P N A fetcher source params) unguarded
        ⟨approved, .hop i n url params'⟩ tr t ∧
      t.phase = attemptedPhase i
        ((attemptFrom P N A fetcher source W i (n + 1) url params').exec c).1 ∧
      ((attemptFrom P N A fetcher source W i (n + 1) url params').exec c).2.events.filterMap
          (·.requested) = requests tr ++ c.events.filterMap (·.requested) := by
  induction n generalizing approved url params' c with
  | zero =>
      obtain ⟨tr, t, htr, hphase, hevents⟩ :=
        @execution_of_hop P N A fetcher source params W approved i 0 url params' c
      refine ⟨tr, t, htr, ?_⟩
      rw [exec_attemptFrom_succ]
      cases hhop : hop P N A fetcher source W c.hops url with
      | none => exact ⟨by rw [hphase, hhop]; rfl, hevents⟩
      | some next => cases next <;> exact ⟨by rw [hphase, hhop]; rfl, hevents⟩
  | succ n ih =>
      obtain ⟨tr, t, htr, hphase, hevents⟩ :=
        @execution_of_hop P N A fetcher source params W approved i (n + 1) url params' c
      rw [exec_attemptFrom_succ]
      cases hhop : hop P N A fetcher source W c.hops url with
      | none => exact ⟨tr, t, htr, by rw [hphase, hhop]; rfl, hevents⟩
      | some next =>
          cases next with
          | inr result => exact ⟨tr, t, htr, by rw [hphase, hhop]; rfl, hevents⟩
          | inl url' =>
              obtain ⟨approved', phase⟩ := t
              rw [hhop] at hphase
              obtain rfl : phase = .hop i n url' none := hphase
              obtain ⟨tr', t', htr', hphase', hevents'⟩ :=
                ih approved' url' none (c.after P A source W i url params')
              refine ⟨tr' ++ tr, t', htr.trans htr', hphase', ?_⟩
              rw [hevents', hevents, requests_append, List.append_assoc]

/-- How a fetch ends in the system. -/
def returnedPhase : Except Unit FetchResult → Phase
  | .ok result => .returned result
  | .error _ => .raised

/-- The attempts that are left are a run of the system, with their requests. -/
theorem execution_of_attempts (approved : String → Option (List IPAddress)) (m i : ℕ) (c : Call)
    (hm : min fetcher.maxAttempts 3 - i = m) (hleft : i < min fetcher.maxAttempts 3) :
    ∃ tr t, Execution (step P N A fetcher source params) unguarded
        ⟨approved, .hop i (min fetcher.maxRedirects 3) source.endpointUrl params⟩ tr t ∧
      t.phase = returnedPhase ((attempts P N A fetcher source params W m i).exec c).1 ∧
      ((attempts P N A fetcher source params W m i).exec c).2.events.filterMap (·.requested) =
        requests tr ++ c.events.filterMap (·.requested) := by
  induction m generalizing approved i c with
  | zero => omega
  | succ m ih =>
      obtain ⟨tr, ⟨approved', phase⟩, htr, hphase, hevents⟩ :=
        @execution_of_attempt P N A fetcher source params W approved i (min fetcher.maxRedirects 3)
          source.endpointUrl params { c with events := .attempt i :: c.events }
      rw [← hm, exec_attempts hleft, fetchFrom, Raising.exec_bind]
      cases hexec : (attemptFrom P N A fetcher source W i (min fetcher.maxRedirects 3 + 1)
          source.endpointUrl params).exec { c with events := .attempt i :: c.events } with
      | mk outcome d =>
      rw [hexec] at hphase hevents
      cases outcome with
      | error e => exact ⟨tr, _, htr, hphase, hevents⟩
      | ok result =>
          obtain rfl : phase = .attempted i result := hphase
          dsimp only
          rw [exec_settle]
          have hconcluded := htr.snoc (l := .conclude) trivial rfl
          by_cases hagain : retryable result = true ∧ i + 1 < min fetcher.maxAttempts 3
          · have hnot : ¬ (¬ retryable result = true ∨ min fetcher.maxAttempts 3 ≤ i + 1) := by
              rintro (h | h)
              · exact h hagain.1
              · omega
            have hrest : min fetcher.maxAttempts 3 - (i + 1) = m := by omega
            rw [if_neg (failed_of_retryable hagain.1), if_neg hnot, hrest]
            rw [if_pos hagain] at hconcluded
            obtain ⟨tr', t', htr', hphase', hevents'⟩ := ih approved' (i + 1)
              { d with events := .sleep (delay W i result) :: d.events } hrest hagain.2
            refine ⟨_, t', hconcluded.trans htr', hphase', ?_⟩
            rw [hevents', requests_append, List.append_assoc]
            exact congrArg _ hevents
          · rw [if_neg hagain] at hconcluded
            split
            · -- a success is logged, or is left to the caller
              refine ⟨_, _, hconcluded, rfl, ?_⟩
              cases fetcher.deferSuccess <;> exact hevents
            · have hlast : ¬ retryable result = true ∨ min fetcher.maxAttempts 3 ≤ i + 1 := by
                by_contra h
                push Not at h
                exact hagain h
              rw [if_pos hlast]
              exact ⟨_, _, hconcluded, rfl, hevents⟩

/-- **A fetch is a run of the system**, and its log has the requests of that run. -/
theorem execution_of_fetch (hpositive : 0 < fetcher.maxAttempts)
    (approved : String → Option (List IPAddress)) :
    ∃ tr t, Execution (step P N A fetcher source params) unguarded ⟨approved, .called⟩ tr t ∧
      t.phase = returnedPhase ((fetch P N A fetcher source params W).exec ⟨0, []⟩).1 ∧
      ((fetch P N A fetcher source params W).exec ⟨0, []⟩).2.events.filterMap (·.requested) =
        requests tr := by
  have hstart : Execution (step P N A fetcher source params) unguarded ⟨approved, .called⟩ []
      ⟨approved, .called⟩ := .nil
  have hcircuit := hstart.snoc (l := .circuit W.allowed) trivial rfl
  by_cases hallowed : W.allowed = true
  · obtain ⟨tr, t, htr, hphase, hevents⟩ := @execution_of_attempts P N A fetcher source params W
      approved (min fetcher.maxAttempts 3) 0 ⟨0, []⟩ (Nat.sub_zero _)
      (lt_min hpositive (by omega))
    rw [hallowed] at hcircuit
    refine ⟨_, t, hcircuit.trans htr, ?_, ?_⟩
    · rw [fetch, if_pos hallowed]
      exact hphase
    · rw [fetch, if_pos hallowed, requests_append]
      exact hevents
  · rw [Bool.not_eq_true] at hallowed
    rw [hallowed] at hcircuit
    refine ⟨_, _, hcircuit, ?_, ?_⟩
    · rw [fetch, hallowed]
      rfl
    · rw [fetch, hallowed]
      rfl

end Fetch

/-! ## One feed -/

/-- `urlsplit` finds no port in `99999`. -/
def portParsers : Parsers :=
  { feedParsers with
    urls := { feedParsers.urls with
      urlsplit := fun url => some ⟨"https", none, none, some "feed.example",
        if url = "https://feed.example:99999/" then none else some none, "/", ""⟩ } }

/-- A server that redirects to a port. -/
def redirecting (location : String) : Script where
  allowed := true
  answer _ := .addresses [feedAddress]
  reply _ := .response ⟨302, some location, none, none, []⟩
  now _ := 0
  jitter _ _ := 0

/-- The fetch of the feed from such a server. -/
abbrev fetchFeed (location : String) : Except Unit FetchResult × Call :=
  (fetch portParsers ⟨fun _ => none⟩ openInternet ⟨1024, 3, 3, false⟩ feedSource none
    (redirecting location)).exec ⟨0, []⟩

/-- A feed that redirects to itself. -/
theorem accounted_iff_redirecting :
    (∃ result c, fetchFeed "https://feed.example/" = (.ok result, c) ∧
        Accounted ⟨1024, 3, 3, false⟩ (redirecting "https://feed.example/") result c.events) ↔
      ∀ k i n url, Visited portParsers ⟨fun _ => none⟩ openInternet ⟨1024, 3, 3, false⟩ feedSource
          (redirecting "https://feed.example/") k i n url →
        Readable portParsers ⟨fun _ => none⟩ openInternet feedSource
          (redirecting "https://feed.example/") k url :=
  accounted_iff (by decide)

/-- **A redirect that is not accounted for.**  The port of the `Location` is out of range: the
exception leaves `fetch`, and no failure is recorded. -/
theorem redirect_unaccounted :
    fetchFeed "https://feed.example:99999/" =
        (.error (), ⟨2, [.request 0 "https://feed.example/" none, .attempt 0]⟩) ∧
      ¬ ∃ result c, fetchFeed "https://feed.example:99999/" = (.ok result, c) ∧
        Accounted ⟨1024, 3, 3, false⟩ (redirecting "https://feed.example:99999/") result
          c.events := by
  have hraised : fetchFeed "https://feed.example:99999/" =
      (.error (), ⟨2, [.request 0 "https://feed.example/" none, .attempt 0]⟩) := by
    decide +kernel
  refine ⟨hraised, ?_⟩
  rintro ⟨result, c, hreturned, -⟩
  rw [hraised] at hreturned
  cases hreturned

end ProcureSignal.Retrieval.Fetching
