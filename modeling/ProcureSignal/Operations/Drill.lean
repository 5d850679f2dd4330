/-
# What a restore drill leaves behind

A drill creates a database under a name of its own, restores into it and drops it.  The client
tools may fail at any command, time out, or raise, and have worked on their database or not.

* `Machine.target`, `Confined` : the database that a command works on, and that it works on no
  other;
* `restoreDrill_safe` : **a drill touches no other database, drops what it created and nothing else,
  and gives a receipt only for a restored database at the current head**.
-/
import ProcureSignal.Operations.Recovery

namespace ProcureSignal.Operations

variable {Ω δ : Type} {M : Machine Ω} {U : Unicode} {databases : Ω → String → Option δ}

/-! ## The client tools -/

/-- The value of an option, where an option with a value takes the next argument. -/
def optionValue (name : String) : List String → Option String
  | option :: value :: rest =>
      if option = name then some value
      else if option ∈ ["--host", "--port", "--username", "--dbname"] then optionValue name rest
      else optionValue name (value :: rest)
  | _ => none

/-- The database that a command works on. -/
def Machine.target (M : Machine Ω) (command : List String) (environment : Environment) :
    Option String :=
  match command with
  | [_, "-m", "alembic", "upgrade", "head"] =>
      (environment "DATABASE_URL").bind fun url => (M.makeUrl url).toOption.bind (·.database)
  | program :: arguments =>
      if program = "createdb" ∨ program = "dropdb" then arguments.getLast?
      else if program = "pg_restore" then optionValue "--dbname" arguments
      else none
  | [] => none

/-- A command works on its own database only, however it ends. -/
def Confined (M : Machine Ω) (databases : Ω → String → Option δ) : Prop :=
  ∀ command environment world d, M.target command environment ≠ some d →
    databases (M.run command environment world).2 d = databases world d

/-- Every other database is as it was before a command. -/
theorem Confined.same_of_run {command : List String} {environment : Environment} {world world' : Ω}
    {database : String} {result : Result} (hconfined : Confined M databases)
    (htarget : M.target command environment = some database)
    (hrun : M.run command environment world = (result, world')) :
    ∀ d, d ≠ database → databases world' d = databases world d := by
  intro d hd
  have hne : M.target command environment ≠ some d := by
    rw [htarget]
    exact fun heq => hd (Option.some.inj heq).symm
  have hsame := hconfined command environment world d hne
  rwa [hrun] at hsame

/-- A `dropdb` that succeeds leaves no such database. -/
def Drops (M : Machine Ω) (databases : Ω → String → Option δ) : Prop :=
  ∀ arguments environment world d, arguments.getLast? = some d →
    (M.run ("dropdb" :: arguments) environment world).1 = .ok →
      databases (M.run ("dropdb" :: arguments) environment world).2 d = none

/-- The URL of a drill is one to the database of the drill. -/
def Renders (M : Machine Ω) (url : String) (token : Token) : Prop :=
  ∀ endpoint targetUrl, PostgresEndpoint.fromUrl M url = .ok endpoint →
    endpoint.asyncUrl M token.database = .ok targetUrl →
      (M.makeUrl targetUrl).toOption.bind (·.database) = some token.database

/-! ## Names and commands -/

/-- The name of a drill is one that is restored into. -/
theorem isDrillName_database (token : Token) : isDrillName token.database = true := by
  have hprefix : drillStem.toList.isPrefixOf token.database.toList = true := by
    rw [List.isPrefixOf_iff_prefix, Token.database, String.toList_append]
    exact List.prefix_append _ _
  have hdrop : token.database.toList.drop drillStem.length = token.text.toList := by
    rw [Token.database, String.toList_append, ← String.length_toList, List.drop_left]
  rw [isDrillName, hprefix, hdrop]
  have hlength : token.text.toList.length = 12 := token.length_eq
  simp [hlength, token.hex]

theorem database_ne_empty (token : Token) : token.database ≠ "" := by
  intro h
  have hname := isDrillName_database token
  rw [h] at hname
  exact absurd hname (by decide)

theorem validateDrillDatabase_ne {name source : String}
    (h : validateDrillDatabase name source = .ok ()) : name ≠ source := by
  unfold validateDrillDatabase at h
  split_ifs at h with hsource hname
  exact hsource

/-- A command is built once its database has been accepted. -/
theorem eq_of_validated {x : Except Exc Unit} {command arguments : List String}
    (h : (x >>= fun _ => pure arguments) = .ok command) : command = arguments := by
  cases x with
  | error exc => cases h
  | ok _ => exact (Except.ok.inj h).symm

theorem createDatabaseCommand_eq {endpoint : PostgresEndpoint} {database : String}
    {command : List String} (h : createDatabaseCommand endpoint database = .ok command) :
    command = "createdb" :: (endpoint.administrativeArgs ++ [database]) := eq_of_validated h

theorem restoreCommand_eq {endpoint : PostgresEndpoint} {archive database : String}
    {command : List String} (h : restoreCommand endpoint archive database = .ok command) :
    command = "pg_restore" :: (endpoint.toolArgs (some database) ++
      ["--exit-on-error", "--no-owner", "--no-privileges", archive]) := eq_of_validated h

theorem dropDatabaseCommand_eq {endpoint : PostgresEndpoint} {database : String}
    {command : List String} (h : dropDatabaseCommand endpoint database = .ok command) :
    command = "dropdb" :: (endpoint.administrativeArgs ++ ["--if-exists", "--force", database]) :=
  eq_of_validated h

/-! ## The database a command works on -/

theorem target_create {endpoint : PostgresEndpoint} {database : String} {environment : Environment} :
    M.target ("createdb" :: (endpoint.administrativeArgs ++ [database])) environment =
      some database := by
  simp [Machine.target, PostgresEndpoint.administrativeArgs]

theorem target_drop {endpoint : PostgresEndpoint} {database : String} {environment : Environment} :
    M.target ("dropdb" :: (endpoint.administrativeArgs ++ ["--if-exists", "--force", database]))
      environment = some database := by
  simp [Machine.target, PostgresEndpoint.administrativeArgs]

theorem target_restore {endpoint : PostgresEndpoint} {archive database : String}
    {environment : Environment} (hname : database ≠ "") :
    M.target ("pg_restore" :: (endpoint.toolArgs (some database) ++
      ["--exit-on-error", "--no-owner", "--no-privileges", archive])) environment =
      some database := by
  have hgiven : given (some database) = some database := by
    rw [given, Option.filter_some, if_pos (decide_eq_true hname)]
  simp [Machine.target, PostgresEndpoint.toolArgs, optionValue, hgiven]

theorem target_upgrade {targetUrl executable database : String} {environment : Environment}
    (hurl : (M.makeUrl targetUrl).toOption.bind (·.database) = some database) :
    M.target [executable, "-m", "alembic", "upgrade", "head"]
      (Function.update environment "DATABASE_URL" (some targetUrl)) = some database := by
  simp [Machine.target, hurl]

/-! ## Stages of a drill -/

/-- A client tool has run with this result. -/
def Ran (p : Process Ω) (program : String) (result : Result) : Prop :=
  ∃ arguments, (program :: "--host" :: arguments, result) ∈ p.commands

/-- What has been run and what the local variables are, with the other databases as they were. -/
structure Stage (databases : Ω → String → Option δ) (world₀ : Ω) (database : String)
    (commands : List (List String × Result)) (created failed : Bool) (p : Process Ω) : Prop where
  same : ∀ d, d ≠ database → databases p.world d = databases world₀ d
  commands_eq : p.commands = commands
  created_eq : p.created = created
  failed_eq : p.failed = failed

section Drill

open Raising

variable {world₀ : Ω} {endpoint : PostgresEndpoint} {archive database targetUrl : String}
  {environment : Environment} {keepFailed : Bool} {commands : List (List String × Result)}
  {created failed : Bool}

/-- **One command of a drill.** -/
theorem triple_stage {command : List String} {operation : String}
    (hconfined : Confined M databases) (htarget : M.target command environment = some database) :
    Triple (Stage databases world₀ database commands created failed)
      (runCommand M U command environment operation)
      (fun _ => Stage databases world₀ database ((command, .ok) :: commands) created failed)
      (fun _ p => ∃ result, result ≠ .ok ∧
        Stage databases world₀ database ((command, result) :: commands) created failed p) := by
  have hafter : ∀ {p q : Process Ω} {result : Result},
      Stage databases world₀ database commands created failed p →
      p.Ran M command environment result q →
      Stage databases world₀ database ((command, result) :: commands) created failed q := by
    intro p q result hp hran
    refine ⟨fun d hd => ?_, ?_, hran.created_eq.trans hp.created_eq,
      hran.failed_eq.trans hp.failed_eq⟩
    · exact (hconfined.same_of_run htarget hran.run d hd).trans (hp.same d hd)
    · rw [hran.commands_eq, hp.commands_eq]
  refine triple_runCommand.conseq (fun _ h => h) ?_ ?_
  · rintro - q ⟨p, hp, hran⟩
    exact hafter hp hran
  · rintro - q ⟨p, result, hp, hresult, hran⟩
    exact ⟨result, hresult, hafter hp hran⟩

/-! ## The parts of a drill -/

/-- Where the `try` block may raise. -/
structure Underway (databases : Ω → String → Option δ) (world₀ : Ω) (database : String)
    (p : Process Ω) : Prop where
  same : ∀ d, d ≠ database → databases p.world d = databases world₀ d
  created_iff : p.created = true ↔ Ran p "createdb" .ok
  undropped : ∀ result, ¬ Ran p "dropdb" result
  failed : p.failed = true

theorem Stage.underway {p : Process Ω}
    (h : Stage databases world₀ database commands created true p)
    (hcreated : created = true ↔ ∃ arguments, ("createdb" :: "--host" :: arguments, .ok) ∈ commands)
    (hdropped : ∀ arguments result, ("dropdb" :: "--host" :: arguments, result) ∉ commands) :
    Underway databases world₀ database p := by
  refine ⟨h.same, ?_, ?_, h.failed_eq⟩
  · rw [h.created_eq, Ran, h.commands_eq]
    exact hcreated
  · rintro result ⟨arguments, hmem⟩
    rw [h.commands_eq] at hmem
    exact hdropped arguments result hmem

/-- What a receipt says of a database. -/
structure RestoreReceipt.Witnesses (M : Machine Ω) (world : Ω) (targetUrl : String)
    (receipt : RestoreReceipt) : Prop where
  head : M.head = .ok (some receipt.alembicHead)
  declared : ∀ table ∈ M.declared, table ∈ receipt.tables
  inspected : M.inspect targetUrl world =
    .ok ⟨receipt.alembicHead, receipt.tables, receipt.proofRows⟩

/-- A database that passed is at the current head and has every declared table. -/
theorem witnesses_of_verified {world : Ω} {seen : Inspection}
    (h : verifyRestoredDatabase M targetUrl world = .ok seen) :
    RestoreReceipt.Witnesses M world targetUrl
      ⟨database, seen.alembicHead, seen.tables, seen.proofRows⟩ := by
  unfold verifyRestoredDatabase at h
  split at h
  · cases h
  · rename_i found hfound
    split at h
    · cases h
    · cases h
    · rename_i expected hhead
      simp only [ite_not] at h
      split at h
      · rename_i heq
        split at h
        · rename_i hmissing
          obtain rfl := Except.ok.inj h
          refine ⟨by rw [hhead, ← heq], fun table htable => ?_, hfound⟩
          by_contra hnot
          have hmem : table ∈ M.declared.dedup.filter (· ∉ found.tables) := by
            simpa using ⟨htable, hnot⟩
          rw [hmissing] at hmem
          exact List.not_mem_nil hmem
        · cases h
      · cases h

/-- Where the `try` block may return. -/
structure Returned (M : Machine Ω) (databases : Ω → String → Option δ) (world₀ : Ω)
    (database targetUrl : String) (receipt : RestoreReceipt) (p : Process Ω) : Prop where
  same : ∀ d, d ≠ database → databases p.world d = databases world₀ d
  created : p.created = true
  kept : p.failed = false
  programs : p.commands.map (fun entry => (entry.1.head?, entry.2)) =
    [(some M.executable, .ok), (some "pg_restore", .ok), (some "createdb", .ok)]
  ran : Ran p "createdb" .ok
  undropped : ∀ result, ¬ Ran p "dropdb" result
  named : receipt.database = database
  witnesses : receipt.Witnesses M p.world targetUrl

/-- **The `try` block.** -/
theorem triple_restoreAndVerify (hconfined : Confined M databases)
    (hname : database ≠ "") (hvalid : validateDrillDatabase database endpoint.database = .ok ())
    (hurl : (M.makeUrl targetUrl).toOption.bind (·.database) = some database) :
    Triple (Stage databases world₀ database [] false true)
      (restoreAndVerify M U endpoint archive database environment targetUrl)
      (Returned M databases world₀ database targetUrl)
      (fun _ => Underway databases world₀ database) := by
  unfold restoreAndVerify
  refine triple_perform_bind (fun create hcreate => ?_) fun exc p hcreate _ => ?_
  swap
  · rw [createDatabaseCommand, hvalid] at hcreate
    cases hcreate
  obtain rfl := createDatabaseCommand_eq hcreate
  -- `createdb`: only from here on does `created` say that it has succeeded
  refine triple_bind ((triple_stage hconfined target_create).conseq (fun _ h => h)
    (fun _ _ h => h) ?_) fun _ => ?_
  · rintro - p ⟨result, hresult, hstage⟩
    exact hstage.underway (by simp [PostgresEndpoint.administrativeArgs, Ne.symm hresult]) (by simp)
  refine triple_bind (triple_modify (Q := fun _ => Stage databases world₀ database
    [("createdb" :: (endpoint.administrativeArgs ++ [database]), .ok)] true true)
    fun p h => ⟨h.same, h.commands_eq, rfl, h.failed_eq⟩) fun _ => ?_
  refine triple_perform_bind (fun restore hrestore => ?_) fun exc p hrestore _ => ?_
  swap
  · rw [restoreCommand, hvalid] at hrestore
    cases hrestore
  obtain rfl := restoreCommand_eq hrestore
  refine triple_bind ((triple_stage hconfined (target_restore hname)).conseq (fun _ h => h)
    (fun _ _ h => h) ?_) fun _ => ?_
  · rintro - p ⟨result, -, hstage⟩
    exact hstage.underway (by simp [PostgresEndpoint.administrativeArgs]) (by simp)
  refine triple_bind ((triple_stage hconfined (target_upgrade hurl)).conseq (fun _ h => h)
    (fun _ _ h => h) ?_) fun _ => triple_get_bind fun p => ?_
  · rintro - p ⟨result, -, hstage⟩
    exact hstage.underway (by simp [PostgresEndpoint.administrativeArgs]) (by simp)
  refine triple_perform_bind (fun seen hseen => ?_) fun exc q _ hq => ?_
  swap
  · exact hq.2.underway (by simp [PostgresEndpoint.administrativeArgs]) (by simp)
  refine triple_bind (triple_modify (Q := fun _ =>
    Returned M databases world₀ database targetUrl
      ⟨database, seen.alembicHead, seen.tables, seen.proofRows⟩) ?_) fun _ =>
    triple_pure fun _ h => h
  rintro q ⟨rfl, hq⟩
  refine ⟨hq.same, hq.created_eq, rfl, ?_, ⟨endpoint.administrativeArgs.tail ++ [database], ?_⟩, ?_,
    rfl, witnesses_of_verified hseen⟩
  · rw [hq.commands_eq]
    rfl
  · rw [hq.commands_eq]
    simp [PostgresEndpoint.administrativeArgs]
  · rintro result ⟨arguments, hmem⟩
    rw [hq.commands_eq] at hmem
    simp at hmem

/-- The command that drops the database of a drill. -/
def dropCommand (endpoint : PostgresEndpoint) (database : String) : List String :=
  "dropdb" :: (endpoint.administrativeArgs ++ ["--if-exists", "--force", database])

/-- A `dropdb` that ended with this result. -/
structure Dropped (M : Machine Ω) (databases : Ω → String → Option δ) (world₀ : Ω)
    (endpoint : PostgresEndpoint) (database : String) (environment : Environment)
    (p : Process Ω) (result : Result) (q : Process Ω) : Prop where
  same : ∀ d, d ≠ database → databases q.world d = databases world₀ d
  commands_eq : q.commands = (dropCommand endpoint database, result) :: p.commands
  run : M.run (dropCommand endpoint database) environment p.world = (result, q.world)
  gone : result = .ok → databases q.world database = none

theorem Dropped.ran {p q : Process Ω} {result : Result}
    (h : Dropped M databases world₀ endpoint database environment p result q) :
    Ran q "dropdb" result := by
  refine ⟨(endpoint.administrativeArgs ++ ["--if-exists", "--force", database]).tail, ?_⟩
  rw [h.commands_eq]
  exact List.mem_cons_self

theorem Dropped.createdb {p q : Process Ω} {result : Result}
    (h : Dropped M databases world₀ endpoint database environment p result q)
    (hp : Ran p "createdb" .ok) : Ran q "createdb" .ok := by
  obtain ⟨arguments, hmem⟩ := hp
  refine ⟨arguments, ?_⟩
  rw [h.commands_eq]
  exact List.mem_cons_of_mem _ hmem

/-- **The command of the `finally` clause.** -/
theorem triple_drop {p : Process Ω} (hconfined : Confined M databases)
    (hdrops : Drops M databases)
    (hvalid : validateDrillDatabase database endpoint.database = .ok ())
    (hsame : ∀ d, d ≠ database → databases p.world d = databases world₀ d) :
    Triple (fun q => q = p)
      (perform (dropDatabaseCommand endpoint database) >>= fun drop =>
        runCommand M U drop environment "dropdb")
      (fun _ => Dropped M databases world₀ endpoint database environment p .ok)
      (fun _ q => ∃ result, result ≠ .ok ∧
        Dropped M databases world₀ endpoint database environment p result q) := by
  refine triple_perform_bind (fun drop hdrop => ?_) fun exc q hdrop _ => ?_
  swap
  · rw [dropDatabaseCommand, hvalid] at hdrop
    cases hdrop
  obtain rfl := dropDatabaseCommand_eq hdrop
  have hdropped : ∀ {q : Process Ω} {result : Result},
      p.Ran M (dropCommand endpoint database) environment result q →
      Dropped M databases world₀ endpoint database environment p result q := by
    intro q result hran
    refine ⟨fun d hd => ?_, hran.commands_eq, hran.run, ?_⟩
    · exact (hconfined.same_of_run target_drop hran.run d hd).trans (hsame d hd)
    · rintro rfl
      have hrun : M.run (dropCommand endpoint database) environment p.world = (.ok, q.world) :=
        hran.run
      have hgone := hdrops (endpoint.administrativeArgs ++ ["--if-exists", "--force", database])
        environment p.world database (by simp)
      rw [← dropCommand, hrun] at hgone
      exact hgone rfl
  refine triple_runCommand.conseq (fun _ h => h) ?_ ?_
  · rintro - q ⟨_, rfl, hran⟩
    exact hdropped hran
  · rintro - q ⟨_, result, rfl, hresult, hran⟩
    exact ⟨result, hresult, hdropped hran⟩

/-! ## The drill -/

/-- What a drill that is over leaves. -/
structure Tidied (databases : Ω → String → Option δ) (world₀ : Ω) (database : String)
    (keepFailed : Bool) (outcome : Except Exc RestoreReceipt) (p : Process Ω) : Prop where
  same : ∀ d, d ≠ database → databases p.world d = databases world₀ d
  created_of_dropped : ∀ result, Ran p "dropdb" result → Ran p "createdb" .ok
  gone : Ran p "dropdb" .ok → databases p.world database = none
  dropped_of_created : Ran p "createdb" .ok → (∃ result, Ran p "dropdb" result) ∨
    keepFailed = true ∧ ∃ cause, outcome = .error (preserved database cause)

/-- What a receipt is given for. -/
structure Receipted (M : Machine Ω) (databases : Ω → String → Option δ) (database : String)
    (receipt : RestoreReceipt) (p : Process Ω) : Prop where
  named : receipt.database = database
  programs : p.commands.map (fun entry => (entry.1.head?, entry.2)) =
    [(some "dropdb", .ok), (some M.executable, .ok), (some "pg_restore", .ok),
      (some "createdb", .ok)]
  gone : databases p.world database = none
  witnesses : ∃ world targetUrl drop environment, M.run drop environment world = (.ok, p.world) ∧
    (M.makeUrl targetUrl).toOption.bind (·.database) = some database ∧
    receipt.Witnesses M world targetUrl

theorem Dropped.tidied {p q : Process Ω} {result : Result} {outcome : Except Exc RestoreReceipt}
    (h : Dropped M databases world₀ endpoint database environment p result q)
    (hcreated : Ran p "createdb" .ok) (hundropped : ∀ r, ¬ Ran p "dropdb" r) :
    Tidied databases world₀ database keepFailed outcome q := by
  refine ⟨h.same, fun _ _ => h.createdb hcreated, ?_, fun _ => .inl ⟨result, h.ran⟩⟩
  rintro ⟨arguments, hmem⟩
  rw [h.commands_eq, List.mem_cons] at hmem
  obtain heq | hmem := hmem
  · exact h.gone (Prod.ext_iff.mp heq).2.symm
  · exact absurd ⟨arguments, hmem⟩ (hundropped .ok)

/-- The handler: where the database is to be kept, the exception says so. -/
theorem triple_onFailure {exc : Exc} :
    Triple (Underway databases world₀ database) (onFailure database keepFailed exc)
      (fun _ _ => False)
      (fun exc' p => Underway databases world₀ database p ∧
        (p.created = true → keepFailed = true → ∃ cause, exc' = preserved database cause)) := by
  refine triple_get_bind fun p => triple_ite (fun hkept => triple_throw ?_) fun hkept =>
    triple_throw ?_
  · rintro q ⟨rfl, hq⟩
    exact ⟨hq, fun _ _ => ⟨exc, rfl⟩⟩
  · rintro q ⟨rfl, hq⟩
    refine ⟨hq, fun hcreated hkeep => absurd ?_ hkept⟩
    rw [hcreated, hkeep]
    rfl

/-- **The `finally` clause after a receipt.** -/
theorem triple_dropDatabase_returned {receipt : RestoreReceipt} (hconfined : Confined M databases)
    (hdrops : Drops M databases)
    (hvalid : validateDrillDatabase database endpoint.database = .ok ())
    (hurl : (M.makeUrl targetUrl).toOption.bind (·.database) = some database) :
    Triple (Returned M databases world₀ database targetUrl receipt)
      (dropDatabase M U endpoint database environment keepFailed)
      (fun _ p => Tidied databases world₀ database keepFailed (.ok receipt) p ∧
        Receipted M databases database receipt p)
      (fun exc p => Tidied databases world₀ database keepFailed (.error exc) p) := by
  refine triple_get_bind fun p => triple_ite (fun _ => ?_) fun hnot => ?_
  · by_cases hp : Returned M databases world₀ database targetUrl receipt p
    · refine (triple_drop hconfined hdrops hvalid hp.same).conseq (fun q hq => hq.1)
        (fun _ q hq => ?_) fun exc q hq => ?_
      · refine ⟨hq.tidied hp.ran hp.undropped, hp.named, ?_, hq.gone rfl, p.world, targetUrl, _, _,
          hq.run, hurl, hp.witnesses⟩
        rw [hq.commands_eq, List.map_cons, hp.programs]
        rfl
      · obtain ⟨result, -, hdropped⟩ := hq
        exact hdropped.tidied hp.ran hp.undropped
    · rintro q ⟨rfl, hq⟩
      exact absurd hq hp
  · rintro q ⟨rfl, hq⟩
    rw [hq.created, hq.kept] at hnot
    exact absurd rfl hnot

/-- **The `finally` clause after an exception.** -/
theorem triple_dropDatabase_raised {exc : Exc} (hconfined : Confined M databases)
    (hdrops : Drops M databases)
    (hvalid : validateDrillDatabase database endpoint.database = .ok ()) :
    Triple (fun p => Underway databases world₀ database p ∧
        (p.created = true → keepFailed = true → ∃ cause, exc = preserved database cause))
      (dropDatabase M U endpoint database environment keepFailed)
      (fun _ p => Tidied databases world₀ database keepFailed (.error exc) p)
      (fun exc p => Tidied databases world₀ database keepFailed (.error exc) p) := by
  refine triple_get_bind fun p => triple_ite (fun hdrop => ?_) fun hnot => ?_
  · by_cases hp : Underway databases world₀ database p
    · have hcreated : Ran p "createdb" .ok := hp.created_iff.mp (Bool.and_eq_true_iff.mp hdrop).1
      refine (triple_drop hconfined hdrops hvalid hp.same).conseq (fun q hq => hq.1)
        (fun _ q hq => hq.tidied hcreated hp.undropped) fun exc q hq => ?_
      obtain ⟨result, -, hdropped⟩ := hq
      exact hdropped.tidied hcreated hp.undropped
    · rintro q ⟨rfl, hq, -⟩
      exact absurd hq hp
  · refine triple_pure ?_
    rintro q ⟨rfl, hq, hcause⟩
    refine ⟨hq.same, fun result hran => absurd hran (hq.undropped result),
      fun hran => absurd hran (hq.undropped .ok), fun hran => .inr ?_⟩
    have hcreated := hq.created_iff.mpr hran
    rw [hcreated, hq.failed] at hnot
    have hkeep : keepFailed = true := by simpa using hnot
    obtain ⟨cause, rfl⟩ := hcause hcreated hkeep
    exact ⟨hkeep, cause, rfl⟩

/-- A drill that has run nothing has changed nothing. -/
theorem tidied_start {world : Ω} {outcome : Except Exc RestoreReceipt} :
    Tidied databases world database keepFailed outcome (.start world) :=
  ⟨fun _ _ => rfl, fun _ hran => absurd hran.choose_spec List.not_mem_nil,
    fun hran => absurd hran.choose_spec List.not_mem_nil,
    fun hran => absurd hran.choose_spec List.not_mem_nil⟩

/-- What is proved of a drill. -/
structure Safe (M : Machine Ω) (databases : Ω → String → Option δ) (url : String) (token : Token)
    (keepFailed : Bool) (world : Ω) (outcome : Except Exc RestoreReceipt) (p : Process Ω) :
    Prop where
  tidied : Tidied databases world token.database keepFailed outcome p
  source : ∀ endpoint, PostgresEndpoint.fromUrl M url = .ok endpoint →
    databases p.world endpoint.database = databases world endpoint.database
  receipted : ∀ receipt, outcome = .ok receipt → Receipted M databases token.database receipt p

/-- The run of a drill, from its two ways to end. -/
theorem triple_restoreDrill (hconfined : Confined M databases) (hdrops : Drops M databases)
    (url archive : String) (token : Token) (keepFailed : Bool) (hurl : Renders M url token)
    (world : Ω) :
    Triple (fun p => p = .start world) (restoreDrill M U url archive token keepFailed)
      (fun receipt => Safe M databases url token keepFailed world (.ok receipt))
      (fun exc => Safe M databases url token keepFailed world (.error exc)) := by
  have hearly : ∀ (exc : Exc) p, p = Process.start world →
      Safe M databases url token keepFailed world (.error exc) p := by
    rintro exc p rfl
    exact ⟨tidied_start, fun _ _ => rfl, fun receipt h => by cases h⟩
  have htool : ∀ name, Triple (fun p => p = Process.start world) (requireTool M name)
      (fun _ p => p = Process.start world)
      (fun exc => Safe M databases url token keepFailed world (.error exc)) :=
    fun name => (triple_requireTool (M := M) name).conseq (fun _ h => h) (fun _ _ h => h) hearly
  refine triple_get_bind fun p => triple_ite (fun _ => triple_bind (Q := fun _ _ => False)
    (triple_throw fun q hq => hearly _ q hq.2) fun _ q hq => hq.elim) fun _ => ?_
  refine Triple.conseq (P := fun q => q = Process.start world) ?_ (fun q hq => hq.2)
    (fun _ _ h => h) fun _ _ h => h
  refine triple_bind (htool "createdb") fun _ => triple_bind (htool "pg_restore") fun _ =>
    triple_bind (htool "dropdb") fun _ => ?_
  refine triple_perform_bind (fun endpoint hendpoint => ?_) fun exc q _ hq => hearly exc q hq
  refine triple_perform_bind (fun targetUrl htarget => ?_) fun exc q _ hq => hearly exc q hq
  -- the source bears another name, or the drill would have been refused by now
  have hvalid : validateDrillDatabase token.database endpoint.database = .ok () := by
    unfold PostgresEndpoint.asyncUrl at htarget
    cases hname : validateDrillDatabase token.database endpoint.database with
    | ok u => rfl
    | error exc =>
        rw [hname] at htarget
        cases htarget
  have hsource : ∀ {outcome : Except Exc RestoreReceipt} {q : Process Ω},
      Tidied databases world token.database keepFailed outcome q →
      ∀ endpoint, PostgresEndpoint.fromUrl M url = .ok endpoint →
        databases q.world endpoint.database = databases world endpoint.database := by
    intro outcome q hq other hother
    obtain rfl := Except.ok.inj (hendpoint.symm.trans hother)
    exact hq.same _ (validateDrillDatabase_ne hvalid).symm
  have hparsed := hurl endpoint targetUrl hendpoint htarget
  refine triple_bind (triple_modify (Q := fun _ =>
    Stage databases world token.database [] false true) ?_) fun _ => ?_
  · rintro q rfl
    exact ⟨fun _ _ => rfl, rfl, rfl, rfl⟩
  refine triple_tryFinally (triple_tryCatch
    (triple_restoreAndVerify hconfined (database_ne_empty token) hvalid hparsed)
    fun exc => triple_onFailure.conseq (fun _ h => h) (fun _ _ h => h.elim) fun _ _ h => h)
    (fun receipt => (triple_dropDatabase_returned hconfined hdrops hvalid hparsed).conseq
      (fun _ h => h) (fun _ q hq => ?_) fun exc q hq => ?_)
    fun exc => (triple_dropDatabase_raised hconfined hdrops hvalid).conseq (fun _ h => h)
      (fun _ q hq => ?_) fun exc q hq => ?_
  · refine ⟨hq.1, hsource hq.1, fun given hgiven => ?_⟩
    obtain rfl := Except.ok.inj hgiven
    exact hq.2
  all_goals exact ⟨hq, hsource hq, fun receipt h => by cases h⟩

end Drill

/-- **A restore drill.**  However its commands end, a drill leaves every other database as it was,
the source among them.  It drops a database only where it has created one, and one that it has
created it drops, but where the caller keeps what failed: then the exception names it.  It gives a
receipt only after its four commands succeeded, for a database that was at the current head with
every declared table, and that is gone. -/
theorem restoreDrill_safe (hconfined : Confined M databases) (hdrops : Drops M databases)
    (url archive : String) (token : Token) (keepFailed : Bool) (hurl : Renders M url token)
    (world : Ω) :
    Safe M databases url token keepFailed world
      ((restoreDrill M U url archive token keepFailed).exec (.start world)).1
      ((restoreDrill M U url archive token keepFailed).exec (.start world)).2 := by
  have hend := triple_restoreDrill (U := U) hconfined hdrops url archive token keepFailed hurl world
    (.start world) rfl
  generalize (restoreDrill M U url archive token keepFailed).exec (.start world) = out at hend
  obtain ⟨_ | receipt, q⟩ := out
  · exact hend
  · exact hend

/-! ## A cluster with its databases only -/

/-- The database of a URL is what follows its last slash. -/
def urlOf (text : String) : URL :=
  ⟨String.ofList (text.toList.takeWhile (· ≠ ':')), some "app", some "secret", some "db", none,
    some (String.ofList (text.toList.reverse.takeWhile (· ≠ '/')).reverse)⟩

/-- The tools on the names of the databases. -/
def runTool (command : List String) (_ : Environment) (names : List String) :
    Result × List String :=
  if command.take 2 = ["createdb", "--host"] then (.ok, command.getLast?.toList ++ names)
  else if command.take 2 = ["dropdb", "--host"] then
    (.ok, names.filter (some · ≠ command.getLast?))
  else if command.head? = some "dropdb" then (.exit 1 none, names)
  else (.ok, names)

/-- A cluster where the tools do their work. -/
def cluster : Machine (List String) where
  makeUrl text := .ok (urlOf text)
  render url := url.drivername ++ "://app:secret@db:5432/" ++ url.database.getD ""
  which _ _ := true
  run := runTool
  resolve := id
  parent := id
  entry _ _ := some (.file [80, 71, 68, 77, 80])
  mkdir _ names := (.ok (), names)
  replace _ _ names := (.ok (), names)
  unlink _ names := (.ok (), names)
  inspect _ _ := .ok ⟨"0042", ["organizations", "users"], 1⟩
  head := .ok (some "0042")
  environ _ := none
  executable := "python"
  declared := ["users", "organizations"]
  iterate := id
  iterate_perm := List.Perm.refl

/-- Whether a database is there. -/
def presence (names : List String) (name : String) : Option Unit :=
  if name ∈ names then some () else none

theorem cons_of_take {command : List String} {program : String}
    (h : command.take 2 = [program, "--host"]) : ∃ rest, command = program :: "--host" :: rest := by
  obtain _ | ⟨first, _ | ⟨second, rest⟩⟩ := command
  · cases h
  · cases h
  · simp only [List.take_succ_cons, List.take_zero, List.cons.injEq, and_true] at h
    obtain ⟨rfl, rfl⟩ := h
    exact ⟨rest, rfl⟩

theorem target_client {rest : List String} {program : String} {environment : Environment}
    (h : program = "createdb" ∨ program = "dropdb") :
    cluster.target (program :: "--host" :: rest) environment = ("--host" :: rest).getLast? := by
  simp [Machine.target, h]

theorem confined_cluster : Confined cluster presence := by
  intro command environment names d htarget
  change presence (runTool command environment names).2 d = _
  unfold runTool
  split_ifs with hcreate hdrop hother
  · obtain ⟨rest, rfl⟩ := cons_of_take hcreate
    rw [target_client (.inl rfl), List.getLast?_cons] at htarget
    rw [List.getLast?_cons_cons, List.getLast?_cons]
    simp only [presence, Option.toList_some, List.singleton_append, List.mem_cons]
    simp [show d ≠ rest.getLast?.getD "--host" from fun h => htarget (congrArg some h.symm)]
  · obtain ⟨rest, rfl⟩ := cons_of_take hdrop
    rw [target_client (.inr rfl)] at htarget
    rw [List.getLast?_cons_cons]
    simp [presence, List.mem_filter, Ne.symm htarget]
  · rfl
  · rfl

theorem drops_cluster : Drops cluster presence := by
  intro arguments environment names d hlast hok
  have hdrop : ("dropdb" :: arguments).take 2 = ["dropdb", "--host"] := by
    by_contra hdrop
    have hexit : runTool ("dropdb" :: arguments) environment names = (.exit 1 none, names) := by
      rw [runTool, if_neg (by simp), if_neg hdrop]
      rfl
    have hok' : (runTool ("dropdb" :: arguments) environment names).1 = .ok := hok
    rw [hexit] at hok'
    cases hok'
  obtain ⟨rest, hrest⟩ := cons_of_take hdrop
  obtain rfl := List.tail_eq_of_cons_eq hrest
  change presence (runTool _ environment names).2 d = none
  rw [runTool, if_neg (by simp), if_pos hdrop, List.getLast?_cons_cons, hlast]
  simp [presence]

/-- The digits of a drill. -/
def drillToken : Token := ⟨"0123456789ab", by decide, by decide⟩

theorem renders_cluster : Renders cluster "postgresql://app:secret@db/app" drillToken := by
  intro endpoint targetUrl hendpoint htarget
  obtain rfl : endpoint = ⟨"db", 5432, "app", some "secret", "app"⟩ := by
    exact (Except.ok.inj hendpoint).symm
  obtain rfl := Except.ok.inj htarget
  rfl

theorem restoreDrill_safe_cluster :
    Safe cluster presence "postgresql://app:secret@db/app" drillToken false ["app"]
      ((restoreDrill cluster .ascii "postgresql://app:secret@db/app" "app.dump" drillToken
        false).exec (.start ["app"])).1
      ((restoreDrill cluster .ascii "postgresql://app:secret@db/app" "app.dump" drillToken
        false).exec (.start ["app"])).2 :=
  restoreDrill_safe confined_cluster drops_cluster _ _ drillToken false renders_cluster ["app"]

end ProcureSignal.Operations
