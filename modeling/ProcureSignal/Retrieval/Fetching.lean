/-
# Confined requests

`SafeFetcher.fetch` of `retrieval/fetching.py` with its pinned network backend: one call, against
any resolver, any server and any network.  The answers of the resolver and the responses are part
of the labels.

* The map of approved addresses outlives the call, so a call begins with any map.
* `httpx` is what it takes of a URL when it connects (`Httpx`).

**Result**: `requests_confined`.
-/
import ProcureSignal.Library.Execution
import ProcureSignal.Retrieval.Adapters
import ProcureSignal.Retrieval.Audit
import ProcureSignal.Retrieval.UrlSafety

namespace ProcureSignal.Retrieval.Fetching

/-! ## The pinned network backend -/

/-- How dialling one address ends: there is no time left for it, the connection is made, an
exception that `connect_tcp` catches, or another one. -/
inductive Dial
  | expired
  | connected
  | failed
  | raised
  deriving DecidableEq, Repr

/-- The loop of `PinnedNetworkBackend.connect_tcp`: the addresses that are dialled. -/
def dialled (dial : ℕ → Dial) : ℕ → List IPAddress → List IPAddress
  | _, [] => []
  | k, address :: rest =>
      match dial k with
      | .expired => []
      | .connected | .raised => [address]
      | .failed => address :: dialled dial (k + 1) rest

/-- `connect_tcp`: no address is dialled for a host that was not approved. -/
def connectTcp (approved : String → Option (List IPAddress)) (host : String) (dial : ℕ → Dial) :
    List IPAddress :=
  dialled dial 0 ((approved host).getD [])

theorem mem_of_mem_dialled {dial : ℕ → Dial} {k : ℕ} {l : List IPAddress} {a : IPAddress}
    (h : a ∈ dialled dial k l) : a ∈ l := by
  induction l generalizing k with
  | nil => exact h
  | cons b l ih =>
      rw [dialled] at h
      split at h
      · exact absurd h List.not_mem_nil
      · rw [List.mem_singleton.mp h]
        exact List.mem_cons_self
      · rw [List.mem_singleton.mp h]
        exact List.mem_cons_self
      · rcases List.mem_cons.mp h with rfl | h
        · exact List.mem_cons_self
        · exact List.mem_cons_of_mem _ (ih h)

/-! ## Responses -/

/-- A response; `chunks` are the pieces of its body. -/
structure Response where
  statusCode : ℕ
  location : Option String
  retryAfter : Option String
  contentType : Option String
  chunks : List (List UInt8)
  deriving DecidableEq, Repr

/-- `FetchResult`. -/
structure FetchResult where
  content : Option (List UInt8)
  contentType : Option String
  finalUrl : Option String
  statusCode : Option ℕ
  failureCode : Option FetchFailureCode
  retryAfterSeconds : Option ℚ
  responseBytes : ℕ
  deriving DecidableEq, Repr

/-- A failure without any other field. -/
def FetchResult.failure (code : FetchFailureCode) : FetchResult :=
  ⟨none, none, none, none, some code, none, 0⟩

/-- The source that is fetched. -/
structure Source where
  endpointUrl : String
  allowedHosts : List String
  expectedContentTypes : List String

/-- `SafeFetcher`, with the bounds as `__init__` takes them. -/
structure SafeFetcher where
  maxResponseBytes : ℕ
  maxAttempts : ℕ
  maxRedirects : ℕ
  deferSuccess : Bool

/-- `float(value)`; the inner value is absent when it is not finite, the outer one for a
`ValueError`. -/
structure Numbers where
  float : String → Option (Option ℚ)

/-- `parse_retry_after`; absent when it raises. -/
def parseRetryAfter (P : Parsers) (N : Numbers) (value : Option String) (now : Instant) :
    Option (Option ℚ) :=
  match value with
  | none => some none
  | some text =>
      match N.float text with
      | some none => some none
      | some (some seconds) => some (some (min 900 (max 0 seconds)))
      | none =>
          match P.parsedateToDatetime text with
          | none => none
          | some none => some none
          | some (some d) =>
              d.utc.map fun t => some (min 900 (max 0 ((t - now : ℤ) / 1000000 : ℚ)))

/-- The loop over the chunks: the content, or its length where it exceeds the bound. -/
def readContent (bound : ℕ) : List UInt8 → List (List UInt8) → Except ℕ (List UInt8)
  | content, [] => .ok content
  | content, chunk :: chunks =>
      let content := content ++ chunk
      if bound < content.length then .error content.length else readContent bound content chunks

/-- `response.headers.get("content-type", "").split(";", 1)[0].lower()`. -/
def mediaType (P : Parsers) (contentType : Option String) : String :=
  P.unicode.lower (String.ofList ((contentType.getD "").toList.takeWhile (· ≠ ';')))

/-- What `_attempt` does with a response: follow a redirect, or return; absent when it raises. -/
def respond (P : Parsers) (N : Numbers) (fetcher : SafeFetcher) (source : Source) (url : String)
    (now : Instant) (r : Response) : Option (String ⊕ FetchResult) :=
  if 300 ≤ r.statusCode ∧ r.statusCode ≤ 399 then
    match r.location with
    | none | some "" => some (.inr (.failure .httpStatus))
    | some location => (P.urls.urljoin url location).map .inl
  else if r.statusCode = 429 then
    (parseRetryAfter P N r.retryAfter now).map fun seconds =>
      .inr { FetchResult.failure .rateLimited with
        statusCode := some 429
        retryAfterSeconds := seconds }
  else if 500 ≤ r.statusCode ∧ r.statusCode < 600 then
    some (.inr { FetchResult.failure .transientHttpStatus with statusCode := some r.statusCode })
  else if 400 ≤ r.statusCode then
    some (.inr { FetchResult.failure .httpStatus with statusCode := some r.statusCode })
  else if mediaType P r.contentType ∉ source.expectedContentTypes.map P.unicode.lower then
    some (.inr { FetchResult.failure .unexpectedContentType with statusCode := some r.statusCode })
  else
    match readContent (min fetcher.maxResponseBytes (5 * 1024 * 1024)) [] r.chunks with
    | .error length =>
        some (.inr { FetchResult.failure .oversizedResponse with responseBytes := length })
    | .ok content =>
        some (.inr ⟨some content, some (mediaType P r.contentType), some url, some r.statusCode,
          none, none, content.length⟩)

/-! ## The system -/

/-- Query parameters. -/
abbrev QueryParams := List (String × String)

/-- How far a call is; `remaining` counts the redirects that may still be followed. -/
inductive Phase
  | called
  /-- at the top of the redirect loop -/
  | hop (attempt remaining : ℕ) (url : String) (params : Option QueryParams)
  /-- `approve` is done, the request is next -/
  | approved (attempt remaining : ℕ) (v : ValidatedURL) (params : Option QueryParams)
  /-- the request is issued -/
  | waiting (attempt remaining : ℕ) (v : ValidatedURL)
  /-- `_attempt` has returned -/
  | attempted (attempt : ℕ) (result : FetchResult)
  | returned (result : FetchResult)
  | raised
  deriving DecidableEq, Repr

/-- The map of the network backend, and the call. -/
structure State where
  approved : String → Option (List IPAddress)
  phase : Phase

inductive Label
  /-- `allow_circuit_request` -/
  | circuit (allowed : Bool)
  /-- `validate`, with what the resolver answers, and `approve` -/
  | validate (answer : Resolution)
  /-- `client.stream("GET", url, params=params)` -/
  | request
  /-- `httpx` opens a connection -/
  | connect (dial : ℕ → Dial)
  | respond (r : Response) (now : Instant)
  /-- an `HTTPError` or a `TimeoutError` -/
  | networkError
  /-- another exception -/
  | otherError
  /-- `fetch` returns the result of the attempt or sleeps and tries again -/
  | conclude

/-- What `httpx` takes of a URL. -/
structure Httpx where
  scheme : String → String
  host : String → String

/-- `httpx` agrees with `urlsplit` on the scheme and the host. -/
def Httpx.Agrees (X : Httpx) (U : Unicode) (L : UrlParsing) : Prop :=
  ∀ url parsed host, L.urlsplit url = some parsed → parsed.hostname = some host →
    X.scheme url = parsed.scheme ∧ X.host url = U.lower host

/-- The failures that are tried again. -/
def retryable (result : FetchResult) : Bool :=
  result.failureCode ∈
    [some .networkError, some .rateLimited, some .transientHttpStatus]

section Step

variable (P : Parsers) (N : Numbers) (A : Addresses) (fetcher : SafeFetcher) (source : Source)
  (params : Option QueryParams)

/-- One step; a label that is not enabled yields `none`. -/
def step (s : State) : Label → Option State
  | .circuit allowed =>
      match s.phase with
      | .called =>
          some { s with
            phase :=
              if allowed then .hop 0 (min fetcher.maxRedirects 3) source.endpointUrl params
              else .returned (.failure .circuitOpen) }
      | _ => none
  | .validate answer =>
      match s.phase with
      | .hop attempt remaining url params =>
          match Retrieval.validate P.unicode P.urls A url source.allowedHosts answer with
          | .ok v =>
              some
                { approved := Function.update s.approved v.host (some v.addresses)
                  phase := .approved attempt remaining v params }
          | .error .unsafeUrl =>
              some { s with phase := .attempted attempt (.failure .unsafeUrl) }
          | .error .other => some { s with phase := .raised }
      | _ => none
  | .request =>
      match s.phase with
      | .approved attempt remaining v _ => some { s with phase := .waiting attempt remaining v }
      | _ => none
  | .connect _ =>
      match s.phase with
      | .waiting .. => some s
      | _ => none
  | .respond r now =>
      match s.phase with
      | .waiting attempt remaining v =>
          match Fetching.respond P N fetcher source v.url now r with
          | some (.inl url) =>
              some { s with
                phase :=
                  match remaining with
                  | 0 => .attempted attempt (.failure .tooManyRedirects)
                  | n + 1 => .hop attempt n url none }
          | some (.inr result) => some { s with phase := .attempted attempt result }
          | none => some { s with phase := .raised }
      | _ => none
  | .networkError =>
      match s.phase with
      | .waiting attempt _ _ =>
          some { s with phase := .attempted attempt (.failure .networkError) }
      | _ => none
  | .otherError =>
      match s.phase with
      | .waiting .. => some { s with phase := .raised }
      | _ => none
  | .conclude =>
      match s.phase with
      | .attempted attempt result =>
          some { s with
            phase :=
              if retryable result ∧ attempt + 1 < min fetcher.maxAttempts 3 then
                .hop (attempt + 1) (min fetcher.maxRedirects 3) source.endpointUrl params
              else .returned result }
      | _ => none

/-- The URL that a step requests, with its parameters. -/
def issues (s : State) : Label → Option (String × Option QueryParams)
  | .request =>
      match s.phase with
      | .approved _ _ v params => some (v.url, params)
      | _ => none
  | _ => none

/-- The addresses that a step dials: those of the host that `httpx` takes of the URL. -/
def dials (X : Httpx) (s : State) : Label → List IPAddress
  | .connect dial =>
      match s.phase with
      | .waiting _ _ v => connectTcp s.approved (X.host v.url) dial
      | _ => []
  | _ => []

end Step

/-! ## Confinement -/

section Confinement

variable {P : Parsers} {N : Numbers} {A : Addresses} {fetcher : SafeFetcher} {source : Source}
  {params : Option QueryParams} {X : Httpx} {s t : State} {l : Label}
  {tr : List (State × Label)}

/-- The last step of a history has validated the URL of `v`, with the result `v`. -/
def JustValidated (P : Parsers) (A : Addresses) (source : Source) (tr : List (State × Label))
    (v : ValidatedURL) : Prop :=
  ∃ q answer earlier attempt remaining params, tr = (q, .validate answer) :: earlier ∧
    q.phase = .hop attempt remaining v.url params ∧
    Retrieval.validate P.unicode P.urls A v.url source.allowedHosts answer = .ok v

/-- The request of a history that has just validated `v` is under way: since then connections
have been opened, and nothing else has happened. -/
def UnderWay (P : Parsers) (A : Addresses) (source : Source) (tr : List (State × Label))
    (v : ValidatedURL) : Prop :=
  ∃ connects q earlier, tr = connects ++ (q, .request) :: earlier ∧
    (∀ x ∈ connects, ∃ dial, x.2 = .connect dial) ∧ JustValidated P A source earlier v

/-- Before and during a request the map holds the addresses of its validation. -/
def Pinned (P : Parsers) (A : Addresses) (source : Source) (tr : List (State × Label))
    (s : State) : Prop :=
  match s.phase with
  | .approved _ _ v _ => JustValidated P A source tr v ∧ s.approved v.host = some v.addresses
  | .waiting _ _ v => UnderWay P A source tr v ∧ s.approved v.host = some v.addresses
  | _ => True

/-- Only a validation leads to an approved URL. -/
theorem pinned_of_step (hs : Pinned P A source tr s)
    (h : step P N A fetcher source params s l = some t) :
    Pinned P A source ((s, l) :: tr) t := by
  cases l with
  | circuit allowed =>
      simp only [step] at h
      split at h
      · rw [← Option.some.inj h]
        cases allowed <;> exact trivial
      · exact absurd h (by simp)
  | validate answer =>
      simp only [step] at h
      split at h
      · rename_i attempt remaining url params' hphase
        split at h
        · rename_i v hv
          rw [← Option.some.inj h]
          have hurl : v.url = url := (validate_eq_ok hv).url_eq
          refine ⟨⟨s, answer, tr, attempt, remaining, params', rfl, ?_, ?_⟩,
            Function.update_self _ _ _⟩
          · rw [hphase, hurl]
          · rw [hurl, hv]
        · rw [← Option.some.inj h]
          exact trivial
        · rw [← Option.some.inj h]
          exact trivial
      · exact absurd h (by simp)
  | request =>
      simp only [step] at h
      split at h
      · rename_i attempt remaining v params' hphase
        rw [Pinned, hphase] at hs
        rw [← Option.some.inj h]
        exact ⟨⟨[], s, tr, rfl, fun x hx => absurd hx List.not_mem_nil, hs.1⟩, hs.2⟩
      · exact absurd h (by simp)
  | connect dial =>
      simp only [step] at h
      split at h
      · rename_i attempt remaining v hphase
        rw [Pinned, hphase] at hs
        obtain ⟨⟨connects, q, earlier, htr, hconnects, hvalidated⟩, hmap⟩ := hs
        rw [← Option.some.inj h, Pinned, hphase]
        refine ⟨⟨(s, .connect dial) :: connects, q, earlier, by rw [htr]; rfl, ?_, hvalidated⟩,
          hmap⟩
        exact List.forall_mem_cons.mpr ⟨⟨dial, rfl⟩, hconnects⟩
      · exact absurd h (by simp)
  | respond r now =>
      simp only [step] at h
      split at h
      · rename_i attempt remaining v hphase
        split at h
        · rw [← Option.some.inj h]
          cases remaining <;> exact trivial
        · rw [← Option.some.inj h]
          exact trivial
        · rw [← Option.some.inj h]
          exact trivial
      · exact absurd h (by simp)
  | networkError | otherError =>
      simp only [step] at h
      split at h
      · rw [← Option.some.inj h]
        exact trivial
      · exact absurd h (by simp)
  | conclude =>
      simp only [step] at h
      split at h
      · rename_i attempt result hphase
        rw [← Option.some.inj h, Pinned]
        by_cases hretry : retryable result = true ∧ attempt + 1 < min fetcher.maxAttempts 3
        · simp only [if_pos hretry]
        · simp only [if_neg hretry]
      · exact absurd h (by simp)

/-- A validation that accepts. -/
theorem step_validate {attempt remaining : ℕ} {url : String} {params' : Option QueryParams}
    {answer : Resolution} {v : ValidatedURL}
    (hphase : s.phase = .hop attempt remaining url params')
    (hv : Retrieval.validate P.unicode P.urls A url source.allowedHosts answer = .ok v) :
    step P N A fetcher source params s (.validate answer) =
      some ⟨Function.update s.approved v.host (some v.addresses),
        .approved attempt remaining v params'⟩ := by
  simp only [step, hphase, hv]

theorem pinned_of_execution {approved : String → Option (List IPAddress)}
    (h : Execution (step P N A fetcher source params) unguarded ⟨approved, .called⟩ tr t) :
    Pinned P A source tr t := by
  refine h.traceInvariant trivial ?_
  intro tr p l q hp _ hstep
  exact pinned_of_step hp hstep

/-- **Requests are confined.**  In every call, against every resolver and every server, on the
first hop, a retry or a redirect: a request goes to a URL that the step before has validated,
over `https`, and every address that is dialled for it is one of those which that validation
found, and public. -/
theorem requests_confined (hagree : X.Agrees P.unicode P.urls)
    {approved : String → Option (List IPAddress)}
    (h : Execution (step P N A fetcher source params) unguarded ⟨approved, .called⟩ tr t)
    {later earlier : List (State × Label)} {p : State}
    (htr : tr = later ++ (p, l) :: earlier) :
    (∀ url params', issues p l = some (url, params') →
      ∃ v, JustValidated P A source earlier v ∧
        Accepted P.unicode P.urls A url source.allowedHosts v ∧
        X.scheme url = "https" ∧ X.host url = v.host) ∧
    ∀ a ∈ dials X p l, ∃ v, UnderWay P A source earlier v ∧
      Accepted P.unicode P.urls A v.url source.allowedHosts v ∧
      a ∈ v.addresses ∧ A.isPublic a = true := by
  subst htr
  obtain ⟨q, hbefore, -, -, -⟩ := h.of_append
  have hpinned := pinned_of_execution hbefore
  have haccepted : ∀ {v : ValidatedURL} {tr}, JustValidated P A source tr v →
      Accepted P.unicode P.urls A v.url source.allowedHosts v := by
    rintro v tr ⟨q, answer, earlier, attempt, remaining, params', -, -, hv⟩
    exact validate_eq_ok hv
  constructor
  · intro url params' hissues
    cases l with
    | request =>
        simp only [issues] at hissues
        split at hissues
        · rename_i attempt remaining v params'' hphase
          obtain ⟨rfl, -⟩ := Prod.mk.inj (Option.some.inj hissues)
          rw [Pinned, hphase] at hpinned
          have hv := haccepted hpinned.1
          obtain ⟨parsed, host, hsplit, hscheme, -, -, hhostname, -, hhost, -⟩ := hv.parsed
          obtain ⟨hsame, hconnect⟩ := hagree v.url parsed host hsplit hhostname
          exact ⟨v, hpinned.1, hv, hsame.trans hscheme, hconnect.trans hhost.symm⟩
        · exact absurd hissues (by simp)
    | _ => exact absurd hissues (by simp [issues])
  · intro a ha
    cases l with
    | connect dial =>
        simp only [dials] at ha
        split at ha
        · rename_i attempt remaining v hphase
          rw [Pinned, hphase] at hpinned
          obtain ⟨connects, q', earlier', -, -, hvalidated⟩ := hpinned.1
          have hv := haccepted hvalidated
          obtain ⟨parsed, host, hsplit, -, -, -, hhostname, -, hhost, -⟩ := hv.parsed
          have hconnect : X.host v.url = v.host :=
            (hagree v.url parsed host hsplit hhostname).2.trans hhost.symm
          have hmem : a ∈ v.addresses := by
            rw [hconnect, connectTcp, hpinned.2] at ha
            exact mem_of_mem_dialled ha
          exact ⟨v, hpinned.1, hv, hmem, hv.isPublic a hmem⟩
        · exact absurd ha List.not_mem_nil
    | _ => exact absurd ha List.not_mem_nil

end Confinement

/-! ## One request -/

/-- What the parsers make of `https://feed.example/`. -/
def feedParsers : Parsers where
  parsedateToDatetime _ := some none
  fromisoformat _ := none
  strptime _ := none
  utcOfLocal := id
  unescape := id
  htmlEvents _ := some []
  urls :=
    { urlsplit := fun _ => some ⟨"https", none, none, some "feed.example", some none, "/", ""⟩
      urljoin := fun _ url => some url
      parseQsl := fun _ => []
      urlencode := fun _ => ""
      urlunsplit := fun _ _ _ _ => "https://feed.example/" }
  unicode := .ascii

def feedSource : Source := ⟨"https://feed.example/", ["feed.example"], ["application/xml"]⟩

/-- The address that the resolver finds, `93.184.216.34`. -/
def feedAddress : IPAddress := .v4 0x5DB8D822#32

/-- Every address is global. -/
def openInternet : Addresses := ⟨fun _ => none, fun _ => true⟩

def feedValidated : ValidatedURL := ⟨"https://feed.example/", "feed.example", 443, [feedAddress]⟩

theorem validate_feed : Retrieval.validate feedParsers.unicode feedParsers.urls openInternet
    "https://feed.example/" ["feed.example"] (.addresses [feedAddress]) = .ok feedValidated := by
  decide +kernel

abbrev feedStep : State → Label → Option State :=
  step feedParsers ⟨fun _ => none⟩ openInternet ⟨1, 1, 0, false⟩ feedSource none

/-- The map after the validation. -/
def feedApproved : String → Option (List IPAddress) :=
  Function.update (fun _ => none) "feed.example" (some [feedAddress])

/-- The feed is requested, and the connection goes to the address that was found. -/
theorem requests_confined_feed :
    ∃ p : State, issues p .request = some ("https://feed.example/", none) ∧
      ∃ q : State, dials ⟨fun _ => "https", fun _ => "feed.example"⟩ q
          (.connect fun _ => .connected) = [feedAddress] ∧
        ∃ v tr, JustValidated feedParsers openInternet feedSource tr v ∧
          feedAddress ∈ v.addresses := by
  have hagree : Httpx.Agrees ⟨fun _ => "https", fun _ => "feed.example"⟩ feedParsers.unicode
      feedParsers.urls := by
    intro url parsed host hsplit hhostname
    obtain rfl := Option.some.inj hsplit
    obtain rfl := Option.some.inj hhostname
    have hlower : "feed.example" = feedParsers.unicode.lower "feed.example" := by decide +kernel
    exact ⟨rfl, hlower⟩
  have h₀ : Execution feedStep unguarded ⟨fun _ => none, .called⟩ [] ⟨fun _ => none, .called⟩ := .nil
  have h₁ := h₀.snoc (l := .circuit true)
    (u := ⟨fun _ => none, .hop 0 0 "https://feed.example/" none⟩) trivial rfl
  have hvalidate : feedStep ⟨fun _ => none, .hop 0 0 "https://feed.example/" none⟩
      (.validate (.addresses [feedAddress])) =
      some ⟨feedApproved, .approved 0 0 feedValidated none⟩ :=
    @step_validate feedParsers ⟨fun _ => none⟩ openInternet ⟨1, 1, 0, false⟩ feedSource none
      ⟨fun _ => none, .hop 0 0 "https://feed.example/" none⟩ 0 0 "https://feed.example/" none
      (.addresses [feedAddress]) feedValidated rfl validate_feed
  have h₂ := h₁.snoc (l := .validate (.addresses [feedAddress]))
    (u := ⟨feedApproved, .approved 0 0 feedValidated none⟩) trivial hvalidate
  have h₃ := h₂.snoc (l := .request) (u := ⟨feedApproved, .waiting 0 0 feedValidated⟩) trivial rfl
  have h₄ := h₃.snoc (l := .connect fun _ => .connected)
    (u := ⟨feedApproved, .waiting 0 0 feedValidated⟩) trivial rfl
  have hdials : dials ⟨fun _ => "https", fun _ => "feed.example"⟩
      ⟨feedApproved, .waiting 0 0 feedValidated⟩ (.connect fun _ => .connected) = [feedAddress] := by
    have hmap : feedApproved "feed.example" = some [feedAddress] := Function.update_self _ _ _
    show dialled (fun _ => .connected) 0 ((feedApproved "feed.example").getD []) = _
    rw [hmap]
    rfl
  obtain ⟨v, ⟨-, -, earlier, -, -, hvalidated⟩, -, hmem, -⟩ :=
    (requests_confined hagree h₄ (List.nil_append _).symm).2 feedAddress
      (by rw [hdials]; exact List.mem_singleton_self _)
  exact ⟨⟨feedApproved, .approved 0 0 feedValidated none⟩, rfl, _, hdials, v, earlier, hvalidated, hmem⟩

end ProcureSignal.Retrieval.Fetching
