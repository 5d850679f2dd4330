/-
# Backups and restore drills

`operations/recovery.py`: the commands for the PostgreSQL client tools, what is reported of their
failures, a backup, and a drill that restores an archive into a database of its own.

* `Machine` : the programs, files and databases around the process, and what SQLAlchemy and Alembic
  make of a URL;
* `sanitizedDiagnostic`, `runCommand`, `createBackup`, `restoreDrill` : what the source calls them.
-/
import ProcureSignal.Library.Replacing
import ProcureSignal.Library.Triples
import ProcureSignal.Library.Unicode
import ProcureSignal.Library.Urlencoded

namespace ProcureSignal.Operations

/-! ## What surrounds the process -/

/-- An exception with its text. -/
inductive Exc
  | valueError (message : String)
  | runtimeError (message : String)
  | fileExistsError (message : String)
  | other (message : String)
  deriving DecidableEq, Repr

/-- `str(exc)`. -/
def Exc.text : Exc → String
  | valueError message | runtimeError message | fileExistsError message | other message => message

/-- The environment of a process. -/
abbrev Environment := String → Option String

/-- `sqlalchemy.engine.url.URL`. -/
structure URL where
  drivername : String
  username : Option String
  password : Option String
  host : Option String
  port : Option ℕ
  database : Option String
  deriving DecidableEq, Repr

/-- How `subprocess.run(check=True)` ends: normally, with a `CalledProcessError`, with a
`TimeoutExpired`, or with another exception. -/
inductive Result
  | ok
  | exit (code : ℤ) (stderr : Option String)
  | timeout
  | raised (exc : Exc)
  deriving DecidableEq, Repr

/-- What a path names. -/
inductive Entry
  | file (contents : List UInt8)
  | directory
  deriving DecidableEq, Repr

/-- What is read in a restored database. -/
structure Inspection where
  alembicHead : String
  tables : List String
  proofRows : ℕ
  deriving DecidableEq, Repr

/-- The programs, files and databases around the process. -/
structure Machine (Ω : Type) where
  /-- `make_url` -/
  makeUrl : String → Except Exc URL
  /-- `URL.render_as_string(hide_password=False)` -/
  render : URL → String
  /-- `shutil.which` finds the program -/
  which : String → Ω → Bool
  /-- `subprocess.run` -/
  run : List String → Environment → Ω → Result × Ω
  /-- `expanduser().resolve()` -/
  resolve : String → String
  /-- `parent` -/
  parent : String → String
  /-- what a path names -/
  entry : String → Ω → Option Entry
  /-- `mkdir(parents=True, exist_ok=True)` -/
  mkdir : String → Ω → Except Exc Unit × Ω
  /-- `Path.replace` -/
  replace : String → String → Ω → Except Exc Unit × Ω
  /-- `unlink(missing_ok=True)` -/
  unlink : String → Ω → Except Exc Unit × Ω
  /-- what `_verify_restored_database` reads over a connection to the URL -/
  inspect : String → Ω → Except Exc Inspection
  /-- `ScriptDirectory.get_current_head` -/
  head : Except Exc (Option String)
  /-- `os.environ` -/
  environ : Environment
  /-- `sys.executable` -/
  executable : String
  /-- `Base.metadata.tables` -/
  declared : List String
  /-- the order in which a set of texts is iterated -/
  iterate : List String → List String
  iterate_perm : ∀ texts, (iterate texts).Perm texts

/-- The size of a path that is a file. -/
def Entry.size : Option Entry → Option ℕ
  | some (.file contents) => some contents.length
  | _ => none

/-! ## Endpoints and commands -/

/-- `PostgresEndpoint`. -/
structure PostgresEndpoint where
  host : String
  port : ℕ
  username : String
  password : Option String
  database : String
  deriving DecidableEq, Repr

/-- A text that is a true value. -/
def given (text : Option String) : Option String := text.filter (· ≠ "")

/-- `SUPPORTED_DRIVERS`. -/
def supportedDrivers : List String := ["postgresql", "postgresql+asyncpg"]

variable {Ω : Type} (M : Machine Ω) (U : Unicode)

/-- `PostgresEndpoint.from_url`. -/
def PostgresEndpoint.fromUrl (url : String) : Except Exc PostgresEndpoint :=
  match M.makeUrl url with
  | .error exc => .error exc
  | .ok parsed =>
      if parsed.drivername ∉ supportedDrivers then
        .error (.valueError "database URL must use PostgreSQL")
      else
        match given parsed.host, given parsed.username, given parsed.database with
        | some host, some username, some database =>
            .ok ⟨host, (parsed.port.filter (· ≠ 0)).getD 5432, username, parsed.password, database⟩
        | _, _, _ => .error (.valueError "database URL must include host, username, and database")

namespace PostgresEndpoint

variable (endpoint : PostgresEndpoint)

/-- `tool_args`. -/
def toolArgs (database : Option String) : List String :=
  ["--host", endpoint.host, "--port", toString endpoint.port, "--username", endpoint.username,
    "--dbname", (given database).getD endpoint.database]

/-- `_administrative_args`. -/
def administrativeArgs : List String :=
  ["--host", endpoint.host, "--port", toString endpoint.port, "--username", endpoint.username,
    "--maintenance-db", endpoint.database]

/-- `environment`. -/
def environment (base : Environment) : Environment :=
  Function.update base "PGPASSWORD" endpoint.password

end PostgresEndpoint

/-- A digit of `secrets.token_hex`. -/
def isLowerHex (c : Char) : Bool := c ∈ "0123456789abcdef".toList

/-- What a drill database is called, up to the token. -/
def drillStem : String := "procuresignal_restore_"

/-- `DRILL_DATABASE_PATTERN.fullmatch`. -/
def isDrillName (name : String) : Bool :=
  drillStem.toList.isPrefixOf name.toList &&
    let token := name.toList.drop drillStem.length
    token.length = 12 && token.all isLowerHex

/-- `validate_drill_database`. -/
def validateDrillDatabase (name sourceDatabase : String) : Except Exc Unit :=
  if name = sourceDatabase then
    .error (.valueError ("restore database cannot be the source database; target must match " ++
      "procuresignal_restore_<12 lowercase hex>"))
  else if isDrillName name then .ok ()
  else .error (.valueError
    "restore database must match procuresignal_restore_<12 lowercase hex>")

/-- `backup_command`. -/
def backupCommand (endpoint : PostgresEndpoint) (temporaryOutput : String) : List String :=
  "pg_dump" :: endpoint.toolArgs none ++
    ["--format=custom", "--compress=6", "--no-owner", "--no-privileges",
      "--file=" ++ temporaryOutput]

/-- `restore_command`. -/
def restoreCommand (endpoint : PostgresEndpoint) (archive database : String) :
    Except Exc (List String) := do
  validateDrillDatabase database endpoint.database
  return "pg_restore" :: endpoint.toolArgs (some database) ++
    ["--exit-on-error", "--no-owner", "--no-privileges", archive]

/-- `_create_database_command`. -/
def createDatabaseCommand (endpoint : PostgresEndpoint) (database : String) :
    Except Exc (List String) := do
  validateDrillDatabase database endpoint.database
  return "createdb" :: endpoint.administrativeArgs ++ [database]

/-- `_drop_database_command`. -/
def dropDatabaseCommand (endpoint : PostgresEndpoint) (database : String) :
    Except Exc (List String) := do
  validateDrillDatabase database endpoint.database
  return "dropdb" :: endpoint.administrativeArgs ++ ["--if-exists", "--force", database]

/-- `PostgresEndpoint.async_url`. -/
def PostgresEndpoint.asyncUrl (endpoint : PostgresEndpoint) (database : String) :
    Except Exc String := do
  validateDrillDatabase database endpoint.database
  return M.render ⟨"postgresql+asyncpg", some endpoint.username, endpoint.password,
    some endpoint.host, some endpoint.port, some database⟩

/-! ## Diagnostics -/

/-- `quote` without a safe character. -/
def quote (cs : List Char) : List Char :=
  cs.flatMap fun c => if Urllib.isSafe c then [c] else (Urllib.utf8 c).flatMap Urllib.escape

/-- The value of a variable, or no text. -/
def Environment.text (environment : Environment) (name : String) : String :=
  (environment name).getD ""

/-- `secrets_to_remove`, without the empty text. -/
def secretsToRemove (environment : Environment) : List String :=
  let password := environment.text "PGPASSWORD"
  ([password, String.ofList (quote password.toList),
    String.ofList (Urllib.quotePlus password.toList),
    environment.text "DATABASE_URL"].dedup).filter (· ≠ "")

/-- What a credential is replaced by. -/
def redacted : List Char := "[redacted]".toList

/-- What is reported where the tool said nothing. -/
def noDiagnostic : String := "no child diagnostic was returned"

/-- `_sanitized_diagnostic`. -/
def sanitizedDiagnostic (detail : Option String) (environment : Environment) : String :=
  let stripped := U.strip (detail.getD "")
  let secrets := (M.iterate (secretsToRemove environment)).insertionSort fun v w =>
    w.length ≤ v.length
  let sanitized := secrets.foldl (fun cs v => Replacing.subst v.toList redacted cs) stripped.toList
  let kept := sanitized.drop (sanitized.length - 2000)
  if kept = [] then noDiagnostic else String.ofList kept

/-! ## The process -/

/-- The world, the commands run so far, newest first, and the local variables of the drill. -/
structure Process (Ω : Type) where
  world : Ω
  commands : List (List String × Result)
  created : Bool
  failed : Bool

/-- A process that begins. -/
def Process.start (world : Ω) : Process Ω := ⟨world, [], false, true⟩

/-- A program of the process. -/
abbrev Program (Ω : Type) := Raising Exc (Process Ω)

/-- What `_run_command` makes of the result of a command. -/
def reported (operation : String) (environment : Environment) : Result → Except Exc Unit
  | .ok => .ok ()
  | .timeout => .error (.runtimeError (operation ++ " timed out"))
  | .exit code stderr => .error (.runtimeError (operation ++ " failed with exit code " ++
      toString code ++ ": " ++ sanitizedDiagnostic M U stderr environment))
  | .raised exc => .error exc

/-- The process after a command. -/
def Process.after (p : Process Ω) (command : List String) (environment : Environment) :
    Process Ω :=
  { p with
    world := (M.run command environment p.world).2
    commands := (command, (M.run command environment p.world).1) :: p.commands }

/-- `_run_command`. -/
def runCommand (command : List String) (environment : Environment) (operation : String) :
    Program Ω Unit := do
  let result ← modifyGet fun p =>
    ((M.run command environment p.world).1, p.after M command environment)
  Raising.perform (reported M U operation environment result)

/-- `_require_tool`. -/
def requireTool (name : String) : Program Ω Unit := do
  let p ← get
  if M.which name p.world then pure ()
  else throw (.runtimeError ("required PostgreSQL client tool is unavailable: " ++ name))

/-- A change of the file system. -/
def change (f : Ω → Except Exc Unit × Ω) : Program Ω Unit := do
  let result ← modifyGet fun p => ((f p.world).1, { p with world := (f p.world).2 })
  Raising.perform result

/-! ## The backup -/

/-- `output.with_suffix(output.suffix + ".tmp")`. -/
def temporary (output : String) : String := output ++ ".tmp"

section Backup

variable (endpoint : PostgresEndpoint) (output : String) (overwrite : Bool)

/-- The `try` block of `create_backup`. -/
def dumpAndPublish : Program Ω Unit := do
  runCommand M U (backupCommand endpoint (temporary output)) (endpoint.environment M.environ)
    "pg_dump"
  let p ← get
  if (Entry.size (M.entry (temporary output) p.world)).getD 0 = 0 then
    throw (.runtimeError "pg_dump produced an empty backup archive")
  else if M.entry output p.world ≠ none ∧ overwrite = false then
    throw (.fileExistsError ("backup output appeared while pg_dump was running: " ++ output))
  else change (M.replace (temporary output) output)

end Backup

/-- `create_backup`. -/
def createBackup (url path : String) (overwrite : Bool) : Program Ω String := do
  let output := M.resolve path
  let p ← get
  if M.entry output p.world ≠ none ∧ overwrite = false then
    throw (.fileExistsError ("backup output already exists: " ++ output))
  else if M.entry (temporary output) p.world ≠ none then
    throw (.fileExistsError ("temporary backup output already exists: " ++ temporary output))
  else
    requireTool M "pg_dump"
    let endpoint ← Raising.perform (PostgresEndpoint.fromUrl M url)
    change (M.mkdir (M.parent output))
    tryFinally (dumpAndPublish M U endpoint output overwrite)
      (change (M.unlink (temporary output)))
    return output

/-! ## The drill -/

/-- `secrets.token_hex(6)`. -/
structure Token where
  text : String
  length_eq : text.length = 12
  hex : text.toList.all isLowerHex = true

/-- The database of a drill. -/
def Token.database (token : Token) : String := drillStem ++ token.text

/-- `RestoreReceipt`. -/
structure RestoreReceipt where
  database : String
  alembicHead : String
  tables : List String
  proofRows : ℕ
  deriving DecidableEq, Repr

/-- `_verify_restored_database`. -/
def verifyRestoredDatabase (databaseUrl : String) (world : Ω) : Except Exc Inspection :=
  match M.inspect databaseUrl world with
  | .error exc => .error exc
  | .ok seen =>
      match M.head with
      | .error exc => .error exc
      | .ok none => .error (.runtimeError "Alembic has no current head")
      | .ok (some expected) =>
          if seen.alembicHead ≠ expected then
            .error (.runtimeError "restored database is not at the current Alembic head")
          else
            let missing := M.declared.dedup.filter (· ∉ seen.tables)
            if missing ≠ [] then
              .error (.runtimeError ("restored database is missing " ++ toString missing.length ++
                " declared table(s)"))
            else .ok seen

section Drill

variable (endpoint : PostgresEndpoint) (archive database : String) (environment : Environment)
  (targetUrl : String) (keepFailed : Bool)

/-- The `try` block of `restore_drill`. -/
def restoreAndVerify : Program Ω RestoreReceipt := do
  let create ← Raising.perform (createDatabaseCommand endpoint database)
  runCommand M U create environment "createdb"
  modify fun p => { p with created := true }
  let restore ← Raising.perform (restoreCommand endpoint archive database)
  runCommand M U restore environment "pg_restore"
  runCommand M U [M.executable, "-m", "alembic", "upgrade", "head"]
    (Function.update environment "DATABASE_URL" (some targetUrl)) "alembic upgrade"
  let p ← get
  let seen ← Raising.perform (verifyRestoredDatabase M targetUrl p.world)
  modify fun p => { p with failed := false }
  return ⟨database, seen.alembicHead, seen.tables, seen.proofRows⟩

/-- What a failure with a database that is kept is reported as. -/
def preserved (exc : Exc) : Exc :=
  .runtimeError ("restore drill database " ++ database ++ " preserved after failure: " ++ exc.text)

/-- The `except` clause. -/
def onFailure (exc : Exc) : Program Ω RestoreReceipt := do
  let p ← get
  if p.created && keepFailed then throw (preserved database exc) else throw exc

/-- The `finally` clause. -/
def dropDatabase : Program Ω Unit := do
  let p ← get
  if p.created && !(p.failed && keepFailed) then
    let drop ← Raising.perform (dropDatabaseCommand endpoint database)
    runCommand M U drop environment "dropdb"

end Drill

/-- `restore_drill`. -/
def restoreDrill (url archive : String) (token : Token) (keepFailed : Bool) :
    Program Ω RestoreReceipt := do
  let p ← get
  if (Entry.size (M.entry (M.resolve archive) p.world)).getD 0 = 0 then
    throw (.valueError "restore archive must be an existing non-empty file")
  requireTool M "createdb"
  requireTool M "pg_restore"
  requireTool M "dropdb"
  let endpoint ← Raising.perform (PostgresEndpoint.fromUrl M url)
  let database := token.database
  let environment := endpoint.environment M.environ
  let targetUrl ← Raising.perform (endpoint.asyncUrl M database)
  modify fun p => { p with created := false, failed := true }
  tryFinally
    (tryCatch (restoreAndVerify M U endpoint (M.resolve archive) database environment targetUrl)
      (onFailure database keepFailed))
    (dropDatabase M U endpoint database environment keepFailed)

/-! ## What a command does to the process -/

section Commands

open Raising

variable {M U} {command : List String} {environment : Environment} {operation : String}
  {P : Process Ω → Prop}

theorem reported_eq_ok {result : Result} {u : Unit}
    (h : reported M U operation environment result = .ok u) : result = .ok := by
  cases result with
  | ok => rfl
  | exit code stderr => cases h
  | timeout => cases h
  | raised exc => cases h

theorem reported_eq_error {result : Result} {exc : Exc}
    (h : reported M U operation environment result = .error exc) : result ≠ .ok := by
  rintro rfl
  cases h

/-- `q` is the process `p` after a command that ended with this result. -/
structure Process.Ran (M : Machine Ω) (command : List String) (environment : Environment)
    (p : Process Ω) (result : Result) (q : Process Ω) : Prop where
  run : M.run command environment p.world = (result, q.world)
  commands_eq : q.commands = (command, result) :: p.commands
  created_eq : q.created = p.created
  failed_eq : q.failed = p.failed

/-- **One command** returns where it succeeded, and raises where it did not. -/
theorem triple_runCommand :
    Triple P (runCommand M U command environment operation)
      (fun _ q => ∃ p, P p ∧ p.Ran M command environment .ok q)
      (fun _ q => ∃ p result, P p ∧ result ≠ .ok ∧ p.Ran M command environment result q) := by
  intro p hp
  have hran : p.Ran M command environment (M.run command environment p.world).1
      (p.after M command environment) := ⟨rfl, rfl, rfl, rfl⟩
  rw [runCommand, exec_bind, exec_modifyGet]
  dsimp only
  rw [exec_perform]
  cases houtcome : reported M U operation environment (M.run command environment p.world).1 with
  | error exc => exact ⟨p, _, hp, reported_eq_error houtcome, hran⟩
  | ok u =>
      rw [reported_eq_ok houtcome] at hran
      exact ⟨p, hp, hran⟩

theorem triple_change {f : Ω → Except Exc Unit × Ω} :
    Triple P (change f) (fun _ q => ∃ p, P p ∧ f p.world = (.ok (), q.world))
      (fun exc q => ∃ p, P p ∧ f p.world = (.error exc, q.world) ∧ q.commands = p.commands) := by
  intro p hp
  rw [change, exec_bind, exec_modifyGet]
  dsimp only
  rw [exec_perform]
  cases houtcome : (f p.world).1 with
  | error exc => exact ⟨p, hp, Prod.ext houtcome rfl, rfl⟩
  | ok u => exact ⟨p, hp, Prod.ext houtcome rfl⟩

/-- Looking for a tool changes nothing. -/
theorem triple_requireTool (name : String) :
    Triple P (requireTool M name) (fun _ => P) (fun _ => P) := by
  refine triple_get_bind fun q => triple_ite (fun _ => triple_pure ?_) fun _ => triple_throw ?_
  all_goals exact fun _ hs => hs.2

end Commands

end ProcureSignal.Operations
