/-
# Temporary files of the sanctions download

`retrieval/large_object.py`: the streamed download to a temporary file, with its retries, and the
artifact that hands the file on.  Every step may raise, also while a context is left, and the final
clauses run on each way out.

* `attempt_eq` : what one attempt returns and which files it leaves;
* `contained_iff` : **when no temporary file outlives its use**.
-/
import ProcureSignal.Library.Raising
import ProcureSignal.Retrieval.Fetching

namespace ProcureSignal.Retrieval.LargeObject

open Fetching (FetchResult Response Numbers SafeFetcher parseRetryAfter mediaType retryable)

/-! ## The process -/

/-- The temporary files and the open descriptors, and the local variables of `_attempt`. -/
structure Process where
  files : List ℕ
  descriptors : List ℕ
  fd : Option ℕ
  path : Option ℕ
  transferred : Bool
  deriving DecidableEq, Repr

/-- A number that is not taken. -/
def fresh (l : List ℕ) : ℕ := l.foldr max 0 + 1

theorem fresh_notMem (l : List ℕ) : fresh l ∉ l := by
  have hle : ∀ n ∈ l, n ≤ l.foldr max 0 := by
    intro n hn
    induction l with
    | nil => cases hn
    | cons m l ih =>
        rcases List.mem_cons.mp hn with rfl | hn
        · exact le_max_left _ _
        · exact (ih hn).trans (le_max_right _ _)
  intro hmem
  have hlt := hle _ hmem
  unfold fresh at hlt
  omega

/-- An exception, as the clauses tell them apart. -/
inductive Exc
  /-- a `LargeObjectFetchError` with its result -/
  | largeObject (result : FetchResult)
  | unsafeUrl
  /-- an `HTTPError` or a `TimeoutError` -/
  | network
  /-- `asyncio.CancelledError` -/
  | cancelled
  | other
  deriving DecidableEq, Repr

/-- The `except` clauses of `_attempt`. -/
def Exc.translated : Exc → Exc
  | unsafeUrl => largeObject (.failure .unsafeUrl)
  | network => largeObject (.failure .networkError)
  | e => e

/-- `TemporaryFetchArtifact`. -/
structure TemporaryFetchArtifact where
  path : ℕ
  contentType : String
  finalUrl : String
  responseBytes : ℕ
  deriving DecidableEq, Repr

/-- `_CONTENT_TYPES`. -/
def contentTypes : List String := ["application/xml", "text/xml"]

/-- `_MAX_DECODED_BYTES`. -/
def maxDecodedBytes : ℕ := 32 * 1024 * 1024

/-! ## Scripts -/

/-- What the world does to one attempt: how each of its steps ends.  `next k` is the read of chunk
`k` or of the end after the last one. -/
structure Attempt where
  validation : Except Exc Unit
  send : Except Exc Unit
  response : Response
  now : Instant
  mkstemp : Except Exc Unit
  fchmod : Except Exc Unit
  fdopen : Except Exc Unit
  next : ℕ → Except Exc Unit
  write : ℕ → Except Exc Unit
  closeOutput : Except Exc Unit
  closeResponse : Except Exc Unit
  closeDescriptor : Except Exc Unit
  unlink : Except Exc Unit

/-- What the world does to one fetch, and to its artifact when the context of that is left. -/
structure Script where
  token : Bool
  allowRequest : Except Exc Bool
  attempt : ℕ → Attempt
  recordFailure : Except Exc Unit
  recordSuccess : Except Exc Unit
  sleep : ℕ → Except Exc Unit
  unlinkArtifact : Except Exc Unit

/-- A program of the process. -/
abbrev Download := Raising Exc Process

section Fetch

variable (P : Parsers) (N : Numbers) (endpointUrl : String) (fetcher : SafeFetcher)

/-! ## One attempt -/

/-- The checks of the response, up to the content type. -/
def Attempt.receive (a : Attempt) : Except Exc String :=
  match parseRetryAfter P N a.response.retryAfter a.now with
  | none => .error .other
  | some retryAfter =>
      let status := a.response.statusCode
      if 300 ≤ status ∧ status ≤ 399 then .error (.largeObject (.failure .tooManyRedirects))
      else if status = 429 then
        .error (.largeObject { FetchResult.failure .rateLimited with
          retryAfterSeconds := retryAfter })
      else if 500 ≤ status ∧ status < 600 then
        .error (.largeObject { FetchResult.failure .transientHttpStatus with
          retryAfterSeconds := retryAfter })
      else if 400 ≤ status then .error (.largeObject (.failure .httpStatus))
      else if mediaType P a.response.contentType ∉ contentTypes then
        .error (.largeObject (.failure .unexpectedContentType))
      else .ok (mediaType P a.response.contentType)

/-- The loop over the chunks from chunk `k` on, with the bytes so far. -/
def Attempt.readFrom (a : Attempt) : ℕ → ℕ → List (List UInt8) → Except Exc ℕ
  | k, count, [] => do
      a.next k
      return count
  | k, count, chunk :: chunks => do
      a.next k
      let count := count + chunk.length
      if maxDecodedBytes < count then
        throw (.largeObject { FetchResult.failure .oversizedResponse with responseBytes := count })
      a.write k
      a.readFrom (k + 1) count chunks

/-- The loop over the chunks. -/
def Attempt.read (a : Attempt) : Except Exc ℕ := a.readFrom 0 0 a.response.chunks

/-- `tempfile.mkstemp`, into `fd` and `path`. -/
def mkstemp (a : Attempt) : Download Unit := do
  Raising.perform a.mkstemp
  modify fun p => { p with
    files := fresh p.files :: p.files
    descriptors := fresh p.descriptors :: p.descriptors
    fd := some (fresh p.descriptors)
    path := some (fresh p.files) }

/-- A descriptor is closed, also by a call that raises. -/
def close (fd : ℕ) (outcome : Except Exc Unit) : Download Unit := do
  modify fun p => { p with descriptors := p.descriptors.filter (· ≠ fd) }
  Raising.perform outcome

/-- `path.unlink(missing_ok=True)`; the file stays where it raises. -/
def unlink (path : ℕ) (outcome : Except Exc Unit) : Download Unit := do
  Raising.perform outcome
  modify fun p => { p with files := p.files.filter (· ≠ path) }

/-- `with os.fdopen(fd, "wb") as output`: the chunks are written, and the output is closed. -/
def store (a : Attempt) : Download ℕ := do
  Raising.perform a.fdopen
  let output := (← get).fd
  tryFinally
    (do
      modify fun p => { p with fd := none }
      Raising.perform a.read)
    (close (output.getD 0) a.closeOutput)

/-- The body of `async with self.fetcher._client.stream(...)`. -/
def receiveAndStore (a : Attempt) : Download TemporaryFetchArtifact := do
  let contentType ← Raising.perform (a.receive P N)
  mkstemp a
  Raising.perform a.fchmod
  let count ← store a
  let path := (← get).path
  modify fun p => { p with transferred := true }
  return ⟨path.getD 0, contentType, endpointUrl, count⟩

/-- The `try` of `_attempt` with its `except` clauses. -/
def download (a : Attempt) : Download TemporaryFetchArtifact :=
  tryCatch
    (do
      Raising.perform a.validation
      Raising.perform a.send
      tryFinally (receiveAndStore P N endpointUrl a) (Raising.perform a.closeResponse))
    fun e => throw e.translated

/-- The `finally` of `_attempt`. -/
def cleanUp (a : Attempt) : Download Unit := do
  match (← get).fd with
  | some fd => close fd a.closeDescriptor
  | none => pure ()
  match (← get).path with
  | some path => if (← get).transferred then pure () else unlink path a.unlink
  | none => pure ()

/-- `_attempt`. -/
def attempt (a : Attempt) : Download TemporaryFetchArtifact := do
  modify fun p => { p with fd := none, path := none, transferred := false }
  tryFinally (download P N endpointUrl a) (cleanUp a)

/-! ## The fetch -/

variable (S : Script)

/-- The loop of `fetch` from attempt `i` on. -/
def attempts : ℕ → ℕ → Download TemporaryFetchArtifact
  -- no attempt was made: `last` is as it was initialized
  | 0, _ => throw (.largeObject (.failure .networkError))
  | m + 1, i => do
      match ← observing (attempt P N endpointUrl (S.attempt i)) with
      | .error (.largeObject result) =>
          if ¬ retryable result ∨ min fetcher.maxAttempts 3 ≤ i + 1 then
            Raising.perform S.recordFailure
            throw (.largeObject result)
          Raising.perform (S.sleep i)
          attempts m (i + 1)
      | .error e => throw e
      | .ok artifact =>
          if !fetcher.deferSuccess then Raising.perform S.recordSuccess
          return artifact

/-- `fetch`. -/
def fetch : Download TemporaryFetchArtifact := do
  if !S.token then throw (.largeObject (.failure .configurationError))
  if !(← Raising.perform S.allowRequest) then throw (.largeObject (.failure .circuitOpen))
  attempts P N endpointUrl fetcher S (min fetcher.maxAttempts 3) 0

/-- `async with artifact`: `cleanup` swallows what `unlink` raises. -/
def TemporaryFetchArtifact.use {α : Type} (artifact : TemporaryFetchArtifact)
    (body : Download α) : Download α :=
  tryFinally body (tryCatch (unlink artifact.path S.unlinkArtifact) fun _ => pure ())

/-! ## An attempt without its files -/

/-- How far an attempt gets with its file. -/
inductive Stage
  | untouched
  /-- the file exists, and its descriptor is open -/
  | created
  /-- the file is opened, and so closed again -/
  | opened
  /-- the artifact has the file -/
  | transferred
  deriving DecidableEq, Repr

/-- The first of the steps that raises. -/
def Attempt.stage (a : Attempt) : Stage :=
  match (do a.validation; a.send; let _ ← a.receive P N; a.mkstemp : Except Exc Unit) with
  | .error _ => .untouched
  | .ok _ =>
      match (do a.fchmod; a.fdopen : Except Exc Unit) with
      | .error _ => .created
      | .ok _ =>
          match Raising.closing a.closeOutput a.read with
          | .error _ => .opened
          | .ok _ => .transferred

/-- The steps that have to clean up do not raise: those of the `finally` where the file is not
transferred, and the end of the response where it is. -/
def Attempt.Tidy (a : Attempt) : Prop :=
  match a.stage P N with
  | .untouched => True
  | .created => a.closeDescriptor = .ok () ∧ a.unlink = .ok ()
  | .opened => a.unlink = .ok ()
  | .transferred => a.closeResponse = .ok ()

/-- The `try` without its files: the content type and the bytes, or an exception. -/
def Attempt.body (a : Attempt) : Except Exc (String × ℕ) :=
  Except.mapError Exc.translated do
    a.validation
    a.send
    Raising.closing a.closeResponse do
      let contentType ← a.receive P N
      a.mkstemp
      a.fchmod
      a.fdopen
      let count ← Raising.closing a.closeOutput a.read
      return (contentType, count)

/-- What the `finally` raises. -/
def Attempt.cleanUp (a : Attempt) : Except Exc Unit :=
  match a.stage P N with
  | .created => do a.closeDescriptor; a.unlink
  | .opened => a.unlink
  | _ => .ok ()

/-- How an attempt ends. -/
def Attempt.outcome (a : Attempt) : Except Exc (String × ℕ) :=
  Raising.closing (a.cleanUp P N) (a.body P N)

/-- The process at a stage of an attempt that it began with these files. -/
def Process.reached (p : Process) : Stage → Process
  | .untouched => { p with fd := none, path := none, transferred := false }
  | .created =>
      { files := fresh p.files :: p.files
        descriptors := fresh p.descriptors :: p.descriptors
        fd := some (fresh p.descriptors)
        path := some (fresh p.files)
        transferred := false }
  | .opened =>
      { p with
        files := fresh p.files :: p.files
        fd := none
        path := some (fresh p.files)
        transferred := false }
  | .transferred =>
      { p with
        files := fresh p.files :: p.files
        fd := none
        path := some (fresh p.files)
        transferred := true }

variable {P N endpointUrl fetcher S}

theorem ne_fresh (l : List ℕ) : ∀ n ∈ l, ¬ n = fresh l :=
  fun _ hn h => fresh_notMem l (h ▸ hn)

/-- The `try` gets to its stage. -/
theorem exec_download (a : Attempt) (p : Process) :
    (download P N endpointUrl a).exec (p.reached .untouched) =
      ((a.body P N).map fun x => ⟨fresh p.files, x.1, endpointUrl, x.2⟩,
        p.reached (a.stage P N)) := by
  unfold download Attempt.body Attempt.stage
  cases hvalidation : a.validation with
  | error e => simp [Except.mapError, Except.map]
  | ok u =>
  cases hsend : a.send with
  | error e => simp [Except.mapError, Except.map]
  | ok u =>
  unfold receiveAndStore mkstemp store close
  cases a.receive P N with
  | error e => cases a.closeResponse <;> simp [Except.mapError, Except.map]
  | ok contentType =>
  cases a.mkstemp with
  | error e => cases a.closeResponse <;> simp [Except.mapError, Except.map]
  | ok u =>
  cases a.fchmod with
  | error e => cases a.closeResponse <;> simp [Except.mapError, Except.map, Process.reached]
  | ok u =>
  cases a.fdopen with
  | error e => cases a.closeResponse <;> simp [Except.mapError, Except.map, Process.reached]
  | ok u =>
  -- the descriptor is closed with the output, on every way out
  have hclosed := ne_fresh p.descriptors
  cases a.closeOutput with
  | error e =>
      cases a.closeResponse
      all_goals
        simp [Except.mapError, Except.map, Process.reached]
        exact hclosed
  | ok u =>
  cases a.read with
  | error e =>
      cases a.closeResponse
      all_goals
        simp [Except.mapError, Except.map, Process.reached]
        exact hclosed
  | ok count =>
      cases a.closeResponse
      all_goals
        simp [Except.mapError, Except.map, Process.reached]
        exact hclosed

/-- An attempt that does not clean up where it has to, or hands its file on. -/
def Attempt.Leaves (P : Parsers) (N : Numbers) (a : Attempt) : Prop :=
  a.stage P N ≠ .untouched ∧ (a.Tidy P N → a.stage P N = .transferred)

/-- **One attempt**: it leaves no descriptor open, and no file unless it is not tidy or hands its
file on. -/
theorem attempt_eq (a : Attempt) (p : Process) :
    ((attempt P N endpointUrl a).exec p).1 =
        (a.outcome P N).map (fun x => ⟨fresh p.files, x.1, endpointUrl, x.2⟩) ∧
      ((attempt P N endpointUrl a).exec p).2.descriptors = p.descriptors ∧
      (¬ a.Leaves P N → ((attempt P N endpointUrl a).exec p).2.files = p.files) ∧
      (a.Leaves P N →
        ((attempt P N endpointUrl a).exec p).2.files = fresh p.files :: p.files) := by
  have hexec : (attempt P N endpointUrl a).exec p =
      match (cleanUp a).exec (p.reached (a.stage P N)) with
      | (.ok _, q) => ((a.body P N).map fun x => ⟨fresh p.files, x.1, endpointUrl, x.2⟩, q)
      | (.error e, q) => (.error e, q) := by
    have hdownload : (download P N endpointUrl a).exec
        { p with fd := none, path := none, transferred := false } = _ := exec_download a p
    rw [attempt, Raising.exec_bind, Raising.exec_modify]
    dsimp only
    rw [Raising.exec_tryFinally, hdownload]
    dsimp only
    rcases (cleanUp a).exec (p.reached (a.stage P N)) with ⟨_ | u, q⟩ <;> rfl
  have hfile := ne_fresh p.files
  have hdescriptor := ne_fresh p.descriptors
  rw [hexec]
  unfold Attempt.Leaves Attempt.outcome Attempt.cleanUp Attempt.Tidy cleanUp
  cases hstage : a.stage P N with
  | untouched => simp [Process.reached]
  | transferred => simp [Process.reached]
  | opened =>
      cases a.unlink with
      | error e => simp [Process.reached, unlink, Except.map]
      | ok u =>
          simp [Process.reached, unlink]
          exact hfile
  | created =>
      cases a.closeDescriptor with
      | error e =>
          simp [Process.reached, close, Except.map]
          exact hdescriptor
      | ok u =>
          cases a.unlink with
          | error e =>
              simp [Process.reached, close, unlink, Except.map]
              exact hdescriptor
          | ok u =>
              simp [Process.reached, close, unlink]
              exact ⟨hdescriptor, hfile⟩

/-- The `try` returns exactly where the file is handed on and the end of the response does not
raise. -/
theorem body_eq_ok_iff {a : Attempt} :
    (∃ x, a.body P N = .ok x) ↔ a.stage P N = .transferred ∧ a.closeResponse = .ok () := by
  unfold Attempt.body Attempt.stage
  cases a.validation with
  | error e => simp [Except.mapError]
  | ok u =>
  cases a.send with
  | error e => simp [Except.mapError]
  | ok u =>
  cases a.closeResponse with
  | error e => simp [Except.mapError]
  | ok u =>
  cases a.receive P N with
  | error e => simp [Except.mapError]
  | ok contentType =>
  cases a.mkstemp with
  | error e => simp [Except.mapError]
  | ok u =>
  cases a.fchmod with
  | error e => simp [Except.mapError]
  | ok u =>
  cases a.fdopen with
  | error e => simp [Except.mapError]
  | ok u =>
  cases Raising.closing a.closeOutput a.read with
  | error e => simp [Except.mapError]
  | ok count => simp [Except.mapError]

/-- An attempt returns exactly where it hands its file on and is tidy. -/
theorem outcome_eq_ok_iff {a : Attempt} :
    (∃ x, a.outcome P N = .ok x) ↔ a.stage P N = .transferred ∧ a.Tidy P N := by
  unfold Attempt.outcome Attempt.cleanUp Attempt.Tidy
  have hbody := @body_eq_ok_iff P N a
  cases hstage : a.stage P N with
  | transferred => simpa [hstage] using hbody
  | untouched => simpa [hstage] using hbody
  | created =>
      rw [hstage] at hbody
      cases a.closeDescriptor with
      | error e => simp
      | ok u =>
          cases a.unlink with
          | error e => simp
          | ok u =>
              simp at hbody ⊢
              exact hbody
  | opened =>
      rw [hstage] at hbody
      cases a.unlink with
      | error e => simp
      | ok u =>
          simp at hbody ⊢
          exact hbody

/-! ## What a fetch leaves -/

/-- Attempt `i` is made. -/
inductive Tried (P : Parsers) (N : Numbers) (fetcher : SafeFetcher) (S : Script) : ℕ → Prop
  | first (htoken : S.token = true) (hallowed : S.allowRequest = .ok true)
      (hleft : 0 < min fetcher.maxAttempts 3) : Tried P N fetcher S 0
  | again {i : ℕ} {result : FetchResult} (h : Tried P N fetcher S i)
      (hfailed : (S.attempt i).outcome P N = .error (.largeObject result))
      (hretryable : retryable result = true) (hleft : i + 1 < min fetcher.maxAttempts 3)
      (hsleep : S.sleep i = .ok ()) : Tried P N fetcher S (i + 1)

/-- The attempt cleans up; and where it returns, recording the success does not raise, and the file
can be deleted. -/
def Kept (P : Parsers) (N : Numbers) (fetcher : SafeFetcher) (S : Script) (i : ℕ) : Prop :=
  (S.attempt i).Tidy P N ∧ ∀ x, (S.attempt i).outcome P N = .ok x →
    (fetcher.deferSuccess = true ∨ S.recordSuccess = .ok ()) ∧ S.unlinkArtifact = .ok ()

/-- After the fetch the descriptors are those of before, and so are the files but for that of the
artifact that it returned; that one is gone when the context of the artifact is left, whatever its
body has done. -/
structure Contained (S : Script) (s : Process)
    (result : Except Exc TemporaryFetchArtifact × Process) : Prop where
  descriptors : result.2.descriptors = s.descriptors
  files : ∀ f, f ∈ result.2.files ↔
    f ∈ s.files ∨ ∃ artifact, result.1 = .ok artifact ∧ f = artifact.path
  new : ∀ artifact, result.1 = .ok artifact → artifact.path ∉ s.files
  deleted : ∀ artifact, result.1 = .ok artifact → ∀ {α : Type} (body : Download α),
    artifact.path ∉ ((artifact.use S body).exec result.2).2.files

/-- One turn of the loop. -/
theorem exec_attempts_succ (m i : ℕ) (p : Process) :
    (attempts P N endpointUrl fetcher S (m + 1) i).exec p =
      match (attempt P N endpointUrl (S.attempt i)).exec p with
      | (.error (.largeObject result), q) =>
          if ¬ retryable result ∨ min fetcher.maxAttempts 3 ≤ i + 1 then
            match S.recordFailure with
            | .ok _ => (.error (.largeObject result), q)
            | .error e => (.error e, q)
          else
            match S.sleep i with
            | .ok _ => (attempts P N endpointUrl fetcher S m (i + 1)).exec q
            | .error e => (.error e, q)
      | (.error e, q) => (.error e, q)
      | (.ok artifact, q) =>
          if fetcher.deferSuccess then (.ok artifact, q)
          else
            match S.recordSuccess with
            | .ok _ => (.ok artifact, q)
            | .error e => (.error e, q) := by
  rw [attempts, Raising.exec_bind, Raising.exec_observing]
  rcases (attempt P N endpointUrl (S.attempt i)).exec p with ⟨e | artifact, q⟩
  · cases e with
    | largeObject result =>
        dsimp only
        split
        · cases S.recordFailure <;> simp
        · cases S.sleep i <;> simp
    | _ => rfl
  · dsimp only
    cases fetcher.deferSuccess
    · cases S.recordSuccess <;> simp
    · simp

/-- **The ways an attempt ends**: it returns the artifact of a new file, or it raises, with its file
left or not. -/
theorem attempt_cases (a : Attempt) (p : Process) :
    ∃ q, q.descriptors = p.descriptors ∧
      ((∃ x, a.outcome P N = .ok x ∧ q.files = fresh p.files :: p.files ∧
          (attempt P N endpointUrl a).exec p = (.ok ⟨fresh p.files, x.1, endpointUrl, x.2⟩, q)) ∨
        ∃ e, a.outcome P N = .error e ∧ (attempt P N endpointUrl a).exec p = (.error e, q) ∧
          (a.Tidy P N ∧ q.files = p.files ∨
            ¬ a.Tidy P N ∧ q.files = fresh p.files :: p.files)) := by
  obtain ⟨houtcome, hdescriptors, hnone, hleft⟩ := @attempt_eq P N endpointUrl a p
  have hiff := @outcome_eq_ok_iff P N a
  refine ⟨_, hdescriptors, ?_⟩
  cases hresult : a.outcome P N with
  | ok x =>
      obtain ⟨hstage, -⟩ := hiff.mp ⟨x, hresult⟩
      have hleaves : a.Leaves P N := ⟨by rw [hstage]; exact Stage.noConfusion, fun _ => hstage⟩
      rw [hresult] at houtcome
      exact Or.inl ⟨x, rfl, hleft hleaves, Prod.ext houtcome rfl⟩
  | error e =>
      rw [hresult] at houtcome
      refine Or.inr ⟨e, rfl, Prod.ext houtcome rfl, ?_⟩
      by_cases htidy : a.Tidy P N
      · refine Or.inl ⟨htidy, hnone fun hleaves => ?_⟩
        obtain ⟨x, hx⟩ := hiff.mpr ⟨hleaves.2 htidy, htidy⟩
        rw [hresult] at hx
        cases hx
      · refine Or.inr ⟨htidy, hleft ⟨fun huntouched => htidy ?_, fun h => absurd h htidy⟩⟩
        unfold Attempt.Tidy
        rw [huntouched]
        trivial

/-- The file of an attempt that raised. -/
def Attempt.FileAfter (P : Parsers) (N : Numbers) (a : Attempt) (p q : Process) : Prop :=
  a.Tidy P N ∧ q.files = p.files ∨ ¬ a.Tidy P N ∧ q.files = fresh p.files :: p.files

/-- What a turn of the loop does with the process `q` that its attempt left. -/
inductive Turn (P : Parsers) (N : Numbers) (endpointUrl : String) (fetcher : SafeFetcher)
    (S : Script) (m i : ℕ) (p q : Process) : Except Exc TemporaryFetchArtifact × Process → Prop
  | returned (x : String × ℕ) (h : (S.attempt i).outcome P N = .ok x)
      (hfiles : q.files = fresh p.files :: p.files)
      (hrecorded : fetcher.deferSuccess = true ∨ S.recordSuccess = .ok ()) :
      Turn P N endpointUrl fetcher S m i p q (.ok ⟨fresh p.files, x.1, endpointUrl, x.2⟩, q)
  | unrecorded (x : String × ℕ) (e : Exc) (h : (S.attempt i).outcome P N = .ok x)
      (hfiles : q.files = fresh p.files :: p.files)
      (hrecorded : ¬ (fetcher.deferSuccess = true ∨ S.recordSuccess = .ok ())) :
      Turn P N endpointUrl fetcher S m i p q (.error e, q)
  | failed (e e' : Exc) (h : (S.attempt i).outcome P N = .error e)
      (hfiles : (S.attempt i).FileAfter P N p q) :
      Turn P N endpointUrl fetcher S m i p q (.error e', q)
  | again (result : FetchResult)
      (h : (S.attempt i).outcome P N = .error (.largeObject result))
      (hfiles : (S.attempt i).FileAfter P N p q) (hretryable : retryable result = true)
      (hleft : i + 1 < min fetcher.maxAttempts 3) (hsleep : S.sleep i = .ok ()) :
      Turn P N endpointUrl fetcher S m i p q
        ((attempts P N endpointUrl fetcher S m (i + 1)).exec q)

/-- **One turn of the loop.** -/
theorem turn_attempts (m i : ℕ) (p : Process) :
    ∃ q, q.descriptors = p.descriptors ∧ Turn P N endpointUrl fetcher S m i p q
      ((attempts P N endpointUrl fetcher S (m + 1) i).exec p) := by
  rw [exec_attempts_succ]
  obtain ⟨q, hdescriptors, ⟨x, hok, hfiles, hexec⟩ | ⟨e, herror, hexec, hfiles⟩⟩ :=
    @attempt_cases P N endpointUrl (S.attempt i) p
  · refine ⟨q, hdescriptors, ?_⟩
    rw [hexec]
    dsimp only
    cases hdefer : fetcher.deferSuccess with
    | true => exact .returned x hok hfiles (Or.inl hdefer)
    | false =>
        cases hrecord : S.recordSuccess with
        | ok u => exact .returned x hok hfiles (Or.inr hrecord)
        | error e =>
            refine .unrecorded x e hok hfiles ?_
            rw [hdefer, hrecord]
            simp
  · refine ⟨q, hdescriptors, ?_⟩
    rw [hexec]
    cases e with
    | largeObject result =>
        dsimp only
        by_cases hlast : ¬ retryable result = true ∨ min fetcher.maxAttempts 3 ≤ i + 1
        · rw [if_pos hlast]
          cases S.recordFailure with
          | ok u => exact .failed _ _ herror hfiles
          | error e => exact .failed _ _ herror hfiles
        · rw [if_neg hlast]
          push Not at hlast
          cases hsleep : S.sleep i with
          | ok u => exact .again result herror hfiles hlast.1 hlast.2 hsleep
          | error e => exact .failed _ _ herror hfiles
    | _ => exact .failed _ _ herror hfiles

/-- A raised attempt keeps the files that are there. -/
theorem Attempt.FileAfter.mem {a : Attempt} {p q : Process} (h : a.FileAfter P N p q) {f : ℕ}
    (hf : f ∈ p.files) : f ∈ q.files := by
  rcases h with ⟨-, hsame⟩ | ⟨-, hleft⟩
  · exact hsame ▸ hf
  · exact hleft ▸ List.mem_cons_of_mem _ hf

/-- The files that are there before a loop are there after it, and its artifact is not one of
them. -/
theorem files_attempts (m i : ℕ) (p : Process) :
    (∀ f ∈ p.files, f ∈ ((attempts P N endpointUrl fetcher S m i).exec p).2.files) ∧
      ∀ artifact, ((attempts P N endpointUrl fetcher S m i).exec p).1 = .ok artifact →
        artifact.path ∉ p.files := by
  induction m generalizing i p with
  | zero =>
      rw [attempts, Raising.exec_throw]
      exact ⟨fun _ => id, fun artifact h => by cases h⟩
  | succ m ih =>
      obtain ⟨q, -, hturn⟩ := @turn_attempts P N endpointUrl fetcher S m i p
      generalize (attempts P N endpointUrl fetcher S (m + 1) i).exec p = result at hturn ⊢
      cases hturn with
      | returned x h hfiles hrecorded =>
          refine ⟨fun f hf => hfiles ▸ List.mem_cons_of_mem _ hf, fun artifact hartifact => ?_⟩
          rw [← Except.ok.inj hartifact]
          exact fresh_notMem p.files
      | unrecorded x e h hfiles hrecorded =>
          exact ⟨fun f hf => hfiles ▸ List.mem_cons_of_mem _ hf, fun artifact h => by cases h⟩
      | failed e e' h hfiles =>
          exact ⟨fun f hf => hfiles.mem hf, fun artifact h => by cases h⟩
      | again result h hfiles hretryable hleft hsleep =>
          obtain ⟨hmono, hnew⟩ := ih (i + 1) q
          exact ⟨fun f hf => hmono f (hfiles.mem hf),
            fun artifact hartifact hmem => hnew artifact hartifact (hfiles.mem hmem)⟩

/-- The context of an artifact deletes its file, whatever the body does. -/
theorem deleted_of_unlink {α : Type} (hunlink : S.unlinkArtifact = .ok ())
    (artifact : TemporaryFetchArtifact) (body : Download α) (p : Process) :
    artifact.path ∉ ((artifact.use S body).exec p).2.files := by
  unfold TemporaryFetchArtifact.use unlink
  rw [hunlink]
  rcases hbody : body.exec p with ⟨outcome, q⟩
  simp [hbody]

/-- A fetch that raises with the files and the descriptors of before. -/
theorem contained_of_raised {p q : Process} {e : Exc} (hfiles : q.files = p.files)
    (hdescriptors : q.descriptors = p.descriptors) : Contained S p (.error e, q) where
  descriptors := hdescriptors
  files f := by
    rw [hfiles]
    exact ⟨Or.inl, fun h => h.resolve_right fun ⟨artifact, hok, _⟩ => by cases hok⟩
  new := fun artifact h => by cases h
  deleted := fun artifact h => by cases h

/-- Where the attempts clean up, the loop leaves the file of its artifact alone. -/
theorem contained_of_kept (hkept : ∀ j, Tried P N fetcher S j → Kept P N fetcher S j) (m i : ℕ)
    (p : Process) (htried : Tried P N fetcher S i) :
    Contained S p ((attempts P N endpointUrl fetcher S m i).exec p) := by
  induction m generalizing i p with
  | zero => exact contained_of_raised rfl rfl
  | succ m ih =>
      obtain ⟨htidy, hreturns⟩ := hkept i htried
      obtain ⟨q, hdescriptors, hturn⟩ := @turn_attempts P N endpointUrl fetcher S m i p
      generalize (attempts P N endpointUrl fetcher S (m + 1) i).exec p = result at hturn ⊢
      have hsame : (S.attempt i).FileAfter P N p q → q.files = p.files := fun h =>
        h.elim And.right fun hleft => absurd htidy hleft.1
      cases hturn with
      | returned x h hfiles hrecorded =>
          obtain ⟨-, hunlink⟩ := hreturns x h
          constructor
          · exact hdescriptors
          · intro f
            show f ∈ q.files ↔ _
            rw [hfiles, List.mem_cons, or_comm]
            refine or_congr_right ⟨fun hf => ⟨_, rfl, hf⟩, ?_⟩
            rintro ⟨artifact, hartifact, hf⟩
            rw [← Except.ok.inj hartifact] at hf
            exact hf
          · intro artifact hartifact
            rw [← Except.ok.inj hartifact]
            exact fresh_notMem p.files
          · exact fun artifact _ _ body => deleted_of_unlink hunlink artifact body q
      | unrecorded x e h hfiles hrecorded => exact absurd (hreturns x h).1 hrecorded
      | failed e e' h hfiles => exact contained_of_raised (hsame hfiles) hdescriptors
      | again result h hfiles hretryable hleft hsleep =>
          have hrest := ih (i + 1) q (htried.again h hretryable hleft hsleep)
          have hfile := hsame hfiles
          constructor
          · exact hrest.descriptors.trans hdescriptors
          · intro f
            rw [hrest.files, hfile]
          · exact fun artifact hartifact => hfile ▸ hrest.new artifact hartifact
          · exact hrest.deleted

/-- A new file that stays is not contained, unless it is that of the artifact. -/
theorem not_contained_of_file {s : Process} {result : Except Exc TemporaryFetchArtifact × Process}
    {f : ℕ} (hnew : f ∉ s.files) (hleft : f ∈ result.2.files)
    (hother : ∀ artifact, result.1 = .ok artifact → artifact.path ≠ f) :
    ¬ Contained S s result := by
  intro h
  rcases (h.files f).mp hleft with hold | ⟨artifact, hartifact, rfl⟩
  · exact hnew hold
  · exact hother artifact hartifact rfl

/-- From each attempt that is made on, the fetch is the rest of its loop, and the files of before
are still there. -/
theorem exec_of_tried {i : ℕ} (h : Tried P N fetcher S i) (s : Process) :
    i < min fetcher.maxAttempts 3 ∧ ∃ p, (∀ f ∈ s.files, f ∈ p.files) ∧
      (fetch P N endpointUrl fetcher S).exec s =
        (attempts P N endpointUrl fetcher S (min fetcher.maxAttempts 3 - i) i).exec p := by
  induction h with
  | first htoken hallowed hleft =>
      refine ⟨hleft, s, fun _ => id, ?_⟩
      unfold fetch
      simp [htoken, hallowed]
  | @again i result hi hfailed hretryable hleft hsleep ih =>
      obtain ⟨hlt, p, hfiles, hexec⟩ := ih
      obtain ⟨m, hm⟩ : ∃ m, min fetcher.maxAttempts 3 - i = m + 1 :=
        ⟨min fetcher.maxAttempts 3 - i - 1, by omega⟩
      have hrest : min fetcher.maxAttempts 3 - (i + 1) = m := by omega
      obtain ⟨q, -, ⟨x, hok, -⟩ | ⟨e, herror, hattempt, hafter⟩⟩ :=
        @attempt_cases P N endpointUrl (S.attempt i) p
      · rw [hfailed] at hok
        cases hok
      · obtain rfl := Except.error.inj (herror.symm.trans hfailed)
        have hagain : ¬ (¬ retryable result = true ∨ min fetcher.maxAttempts 3 ≤ i + 1) := by
          rintro (h | h)
          · exact h hretryable
          · omega
        refine ⟨hleft, q, fun f hf => Attempt.FileAfter.mem hafter (hfiles f hf), ?_⟩
        rw [hexec, hm, exec_attempts_succ, hattempt, hrest]
        dsimp only
        rw [if_neg hagain, hsleep]

/-- **When no temporary file outlives its use**: exactly when every attempt that is made cleans up,
and recording the success of one that returns does not raise, and its file can be deleted. -/
theorem contained_iff (s : Process) :
    Contained S s ((fetch P N endpointUrl fetcher S).exec s) ↔
      ∀ i, Tried P N fetcher S i → Kept P N fetcher S i := by
  constructor
  · intro hcontained i htried
    obtain ⟨hlt, p, hfiles, hexec⟩ := @exec_of_tried P N endpointUrl fetcher S i htried s
    obtain ⟨m, hm⟩ : ∃ m, min fetcher.maxAttempts 3 - i = m + 1 :=
      ⟨min fetcher.maxAttempts 3 - i - 1, by omega⟩
    rw [hexec, hm] at hcontained
    have hnew : fresh p.files ∉ s.files := fun h => fresh_notMem p.files (hfiles _ h)
    obtain ⟨q, -, hturn⟩ := @turn_attempts P N endpointUrl fetcher S m i p
    generalize (attempts P N endpointUrl fetcher S (m + 1) i).exec p = result
      at hturn hcontained
    -- an attempt that raised and is not tidy leaves its file to the end
    have hraised : ∀ {e}, (S.attempt i).outcome P N = .error e →
        (S.attempt i).FileAfter P N p q → (fresh p.files ∉ q.files) →
          Kept P N fetcher S i := by
      intro e herror hafter hnot
      refine ⟨hafter.elim And.left fun hleft => absurd (hleft.2 ▸ List.mem_cons_self) hnot, ?_⟩
      intro x hok
      rw [herror] at hok
      cases hok
    cases hturn with
    | returned x h hfiles hrecorded =>
        refine ⟨(outcome_eq_ok_iff.mp ⟨x, h⟩).2, fun _ _ => ⟨hrecorded, ?_⟩⟩
        cases hunlink : S.unlinkArtifact with
        | ok u => rfl
        | error e =>
            have hdeleted := hcontained.deleted _ rfl (pure ())
            unfold TemporaryFetchArtifact.use unlink at hdeleted
            rw [hunlink] at hdeleted
            simp [hfiles] at hdeleted
    | unrecorded x e h hfiles hrecorded =>
        refine absurd hcontained (not_contained_of_file hnew ?_ fun artifact h => by cases h)
        exact hfiles ▸ List.mem_cons_self
    | failed e e' h hfiles =>
        refine hraised h hfiles fun hmem => ?_
        exact not_contained_of_file hnew hmem (fun artifact h => by cases h) hcontained
    | again result h hfiles hretryable hleft hsleep =>
        refine hraised h hfiles fun hmem => ?_
        obtain ⟨hkept, hother⟩ := @files_attempts P N endpointUrl fetcher S m (i + 1) q
        exact not_contained_of_file hnew (hkept _ hmem)
          (fun artifact hartifact heq => hother artifact hartifact (heq ▸ hmem)) hcontained
  · intro hkept
    unfold fetch
    cases htoken : S.token with
    | false => simpa using contained_of_raised rfl rfl
    | true =>
        cases hallowed : S.allowRequest with
        | error e => simpa using contained_of_raised rfl rfl
        | ok allowed =>
            cases allowed with
            | false => simpa using contained_of_raised rfl rfl
            | true =>
                have hloop : Contained S s ((attempts P N endpointUrl fetcher S
                    (min fetcher.maxAttempts 3) 0).exec s) := by
                  rcases Nat.eq_zero_or_pos (min fetcher.maxAttempts 3) with hzero | hleft
                  · rw [hzero]
                    exact contained_of_raised rfl rfl
                  · exact contained_of_kept hkept _ 0 s (.first htoken hallowed hleft)
                simpa using hloop

end Fetch

/-! ## One download -/

/-- A response with an empty export. -/
def emptyExport : Response := ⟨200, none, none, some "application/xml", []⟩

/-- Every step of the attempt succeeds, but for the end of the response. -/
def attemptClosing (closeResponse : Except Exc Unit) : Attempt where
  validation := .ok ()
  send := .ok ()
  response := emptyExport
  now := 0
  mkstemp := .ok ()
  fchmod := .ok ()
  fdopen := .ok ()
  next _ := .ok ()
  write _ := .ok ()
  closeOutput := .ok ()
  closeResponse := closeResponse
  closeDescriptor := .ok ()
  unlink := .ok ()

/-- A download whose attempts end so, with a circuit store that records so. -/
def scriptClosing (closeResponse recordSuccess : Except Exc Unit) : Script where
  token := true
  allowRequest := .ok true
  attempt _ := attemptClosing closeResponse
  recordFailure := .ok ()
  recordSuccess := recordSuccess
  sleep _ := .ok ()
  unlinkArtifact := .ok ()

/-- No file, and no descriptor. -/
def idle : Process := ⟨[], [], none, none, false⟩

/-- The download of a fetcher with one attempt. -/
abbrev downloadOnce (S : Script) : Except Exc TemporaryFetchArtifact × Process :=
  (fetch Fetching.feedParsers ⟨fun _ => none⟩ "https://feed.example/" ⟨1024, 1, 3, false⟩ S).exec
    idle

/-- **A temporary file that outlives its use.**  The download is cancelled while the response is
closed, or while the success is recorded: it raises, and the file is there. -/
theorem download_outlived :
    downloadOnce (scriptClosing (.error .cancelled) (.ok ())) =
        (.error .cancelled, ⟨[1], [], none, some 1, true⟩) ∧
      downloadOnce (scriptClosing (.ok ()) (.error .cancelled)) =
        (.error .cancelled, ⟨[1], [], none, some 1, true⟩) ∧
      ¬ Contained (scriptClosing (.error .cancelled) (.ok ())) idle
        (downloadOnce (scriptClosing (.error .cancelled) (.ok ()))) := by
  have hclosing : downloadOnce (scriptClosing (.error .cancelled) (.ok ())) =
      (.error .cancelled, ⟨[1], [], none, some 1, true⟩) := by
    decide +kernel
  refine ⟨hclosing, by decide +kernel, ?_⟩
  rw [hclosing]
  exact not_contained_of_file (f := 1) List.not_mem_nil List.mem_cons_self
    fun artifact h => by cases h

end ProcureSignal.Retrieval.LargeObject
