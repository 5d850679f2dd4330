/-
# A backup is published whole or not at all

`create_backup` lets `pg_dump` write a temporary file beside the output and renames it.  `pg_dump`
may end in any way and do anything to the file system meanwhile.

* `Posix` : what the file operations do to the entries of the file system;
* `createBackup_atomic` : **the output is the archive of a dump that succeeded, or what it was when
  the dump ended**, and the temporary file is gone.
-/
import ProcureSignal.Operations.Recovery

namespace ProcureSignal.Operations

variable {Ω : Type} {M : Machine Ω} {U : Unicode}

/-! ## The file system -/

/-- The file operations. -/
structure Posix (M : Machine Ω) : Prop where
  mkdir_file : ∀ path directory ω contents,
    M.entry path (M.mkdir directory ω).2 = some (.file contents) ↔
      M.entry path ω = some (.file contents)
  replace_ok : ∀ source target ω ω' contents, M.replace source target ω = (.ok (), ω') →
    source ≠ target → M.entry source ω = some (.file contents) →
      M.entry target ω' = some (.file contents) ∧ M.entry source ω' = none ∧
        ∀ path, path ≠ source → path ≠ target → M.entry path ω' = M.entry path ω
  replace_error : ∀ source target ω ω' exc, M.replace source target ω = (.error exc, ω') →
    ∀ path, M.entry path ω' = M.entry path ω
  unlink_missing : ∀ path ω, M.entry path ω = none → M.unlink path ω = (.ok (), ω)
  unlink_ok : ∀ path ω ω', M.unlink path ω = (.ok (), ω') →
    M.entry path ω' = none ∧ ∀ other, other ≠ path → M.entry other ω' = M.entry other ω
  unlink_error : ∀ path ω ω' exc, M.unlink path ω = (.error exc, ω') →
    ∀ other, M.entry other ω' = M.entry other ω

theorem temporary_ne (output : String) : temporary output ≠ output := by
  intro h
  have hlength := congrArg String.length h
  rw [temporary, String.length_append] at hlength
  have : ".tmp".length = 4 := by decide
  omega

theorem exists_contents_of_size {entry : Option Entry} (h : (Entry.size entry).getD 0 ≠ 0) :
    ∃ contents, entry = some (.file contents) ∧ contents ≠ [] := by
  cases entry with
  | none => exact absurd rfl h
  | some found =>
      cases found with
      | directory => exact absurd rfl h
      | file contents =>
          refine ⟨contents, rfl, ?_⟩
          rintro rfl
          exact h rfl

/-! ## The parts of a backup -/

section Backup

open Raising

variable {endpoint : PostgresEndpoint} {output : String} {overwrite : Bool}

/-- The dump has run, and left this state. -/
def Dumped (M : Machine Ω) (output : String) (result : Result) (after : Ω) : Prop :=
  ∃ endpoint before, M.run (backupCommand endpoint (temporary output))
    (endpoint.environment M.environ) before = (result, after)

/-- The archive of a dump stands at the output. -/
structure Published (M : Machine Ω) (output : String) (overwrite : Bool) (after world : Ω) :
    Prop where
  dumped : Dumped M output .ok after
  archive : ∃ contents, contents ≠ [] ∧ M.entry (temporary output) after = some (.file contents) ∧
    M.entry output world = some (.file contents)
  fresh : overwrite = false → M.entry output after = none
  removed : M.entry (temporary output) world = none
  others : ∀ path, path ≠ temporary output → path ≠ output →
    M.entry path world = M.entry path after

/-- The dump has ended, and nothing has changed since. -/
def Unpublished (M : Machine Ω) (output : String) (world : Ω) : Prop :=
  ∃ result after, Dumped M output result after ∧
    ∀ path, M.entry path world = M.entry path after

/-- **The `try` block.** -/
theorem triple_dumpAndPublish (hposix : Posix M) :
    Triple (fun _ => True) (dumpAndPublish M U endpoint output overwrite)
      (fun _ p => ∃ after, Published M output overwrite after p.world)
      (fun _ p => Unpublished M output p.world) := by
  have hdumped : ∀ {p q : Process Ω} {result : Result},
      p.Ran M (backupCommand endpoint (temporary output)) (endpoint.environment M.environ)
        result q → Dumped M output result q.world :=
    fun hran => ⟨endpoint, _, hran.run⟩
  refine triple_bind (Q := fun _ p => Dumped M output .ok p.world)
    (triple_runCommand.conseq (fun _ h => h) ?_ ?_) fun _ => ?_
  · rintro - q ⟨p, -, hran⟩
    exact hdumped hran
  · rintro - q ⟨p, result, -, -, hran⟩
    exact ⟨result, q.world, hdumped hran, fun _ => rfl⟩
  refine triple_get_bind fun p => triple_ite (fun _ => triple_throw ?_) fun hsize =>
    triple_ite (fun _ => triple_throw ?_) fun hfresh => ?_
  · rintro q ⟨-, hq⟩
    exact ⟨.ok, q.world, hq, fun _ => rfl⟩
  · rintro q ⟨-, hq⟩
    exact ⟨.ok, q.world, hq, fun _ => rfl⟩
  obtain ⟨contents, hentry, hcontents⟩ := exists_contents_of_size hsize
  refine triple_change.conseq (fun _ h => h) ?_ ?_
  · rintro - q ⟨r, ⟨rfl, hr⟩, hreplaced⟩
    obtain ⟨houtput, hremoved, hothers⟩ := hposix.replace_ok _ _ _ _ contents hreplaced
      (temporary_ne output) hentry
    refine ⟨r.world, hr, ⟨contents, hcontents, hentry, houtput⟩, fun hover => ?_, hremoved, hothers⟩
    by_contra hthere
    exact hfresh ⟨hthere, hover⟩
  · rintro exc q ⟨r, ⟨rfl, hr⟩, hreplaced, -⟩
    exact ⟨.ok, r.world, hr, hposix.replace_error _ _ _ _ exc hreplaced⟩

/-! ## The backup -/

/-- What a backup leaves that raised after the dump. -/
structure Withdrawn (M : Machine Ω) (output : String) (world : Ω) : Prop where
  dumped : ∃ result after, Dumped M output result after ∧
    ∀ path, path ≠ temporary output → M.entry path world = M.entry path after
  removed : M.entry (temporary output) world = none ∨
    ∃ before exc, M.unlink (temporary output) before = (.error exc, world)

/-- **The final clause** after a publication finds nothing to remove. -/
theorem triple_unlink_published (hposix : Posix M) {E : Exc → Process Ω → Prop} :
    Triple (fun p => ∃ after, Published M output overwrite after p.world)
      (change (M.unlink (temporary output)))
      (fun _ p => ∃ after, Published M output overwrite after p.world) E := by
  refine triple_change.conseq (fun _ h => h) ?_ ?_
  · rintro - q ⟨p, ⟨after, hp⟩, hunlink⟩
    rw [hposix.unlink_missing _ _ hp.removed] at hunlink
    exact ⟨after, (Prod.mk.inj hunlink).2 ▸ hp⟩
  · rintro exc q ⟨p, ⟨after, hp⟩, hunlink, -⟩
    rw [hposix.unlink_missing _ _ hp.removed] at hunlink
    cases (Prod.mk.inj hunlink).1

/-- **The final clause** after an exception removes the temporary file. -/
theorem triple_unlink_unpublished (hposix : Posix M) :
    Triple (fun p => Unpublished M output p.world) (change (M.unlink (temporary output)))
      (fun _ p => Withdrawn M output p.world) (fun _ p => Withdrawn M output p.world) := by
  refine triple_change.conseq (fun _ h => h) ?_ ?_
  · rintro - q ⟨p, ⟨result, after, hdumped, hsame⟩, hunlink⟩
    obtain ⟨hremoved, hothers⟩ := hposix.unlink_ok _ _ _ hunlink
    exact ⟨⟨result, after, hdumped, fun path hpath => (hothers path hpath).trans (hsame path)⟩,
      .inl hremoved⟩
  · rintro exc q ⟨p, ⟨result, after, hdumped, hsame⟩, hunlink, -⟩
    have hothers := hposix.unlink_error _ _ _ exc hunlink
    exact ⟨⟨result, after, hdumped, fun path _ => (hothers path).trans (hsame path)⟩,
      .inr ⟨p.world, exc, hunlink⟩⟩

/-- The files are as they were. -/
def SameFiles (M : Machine Ω) (world world' : Ω) : Prop :=
  ∀ path contents, M.entry path world' = some (.file contents) ↔
    M.entry path world = some (.file contents)

/-- What is proved of a backup. -/
structure Atomic (M : Machine Ω) (output : String) (overwrite : Bool) (world : Ω)
    (outcome : Except Exc String) (p : Process Ω) : Prop where
  returned : ∀ path, outcome = .ok path → path = output ∧
    (overwrite = false → M.entry output world = none) ∧
      ∃ after, Published M output overwrite after p.world
  raised : ∀ exc, outcome = .error exc →
    p.commands = [] ∧ SameFiles M world p.world ∨ Withdrawn M output p.world
  refused : M.entry (temporary output) world ≠ none ∨
      M.entry output world ≠ none ∧ overwrite = false →
    (∃ message, outcome = .error (.fileExistsError message)) ∧ p = .start world

/-- The run of a backup, from its two ways to end. -/
theorem triple_createBackup (hposix : Posix M) (url path : String) (overwrite : Bool) (world : Ω) :
    Triple (fun p => p = .start world) (createBackup M U url path overwrite)
      (fun returned => Atomic M (M.resolve path) overwrite world (.ok returned))
      (fun exc => Atomic M (M.resolve path) overwrite world (.error exc)) := by
  have hearly : ∀ (exc : Exc) (q : Process Ω), q.commands = [] → SameFiles M world q.world →
      (M.entry (temporary (M.resolve path)) world ≠ none ∨
        M.entry (M.resolve path) world ≠ none ∧ overwrite = false →
          (∃ message, exc = .fileExistsError message) ∧ q = .start world) →
      Atomic M (M.resolve path) overwrite world (.error exc) q := by
    intro exc q hcommands hsame hrefused
    refine ⟨fun _ h => (by cases h), fun _ _ => .inl ⟨hcommands, hsame⟩, fun h => ?_⟩
    obtain ⟨⟨message, rfl⟩, hq⟩ := hrefused h
    exact ⟨⟨message, rfl⟩, hq⟩
  refine triple_get_bind fun p => triple_ite (fun hthere => triple_throw ?_) fun hfresh =>
    triple_ite (fun htemporary => triple_throw ?_) fun htemporary => ?_
  · rintro q ⟨-, rfl⟩
    exact hearly _ _ rfl (fun _ _ => Iff.rfl) fun _ => ⟨⟨_, rfl⟩, rfl⟩
  · rintro q ⟨-, rfl⟩
    exact hearly _ _ rfl (fun _ _ => Iff.rfl) fun _ => ⟨⟨_, rfl⟩, rfl⟩
  -- from here on neither path was there when the backup began
  by_cases hp : p = .start world
  swap
  · rintro q ⟨rfl, hq⟩
    exact absurd hq hp
  subst hp
  have hallowed : ¬ (M.entry (temporary (M.resolve path)) world ≠ none ∨
      M.entry (M.resolve path) world ≠ none ∧ overwrite = false) :=
    not_or.mpr ⟨htemporary, hfresh⟩
  have hstart : ∀ exc (q : Process Ω), q = .start world →
      Atomic M (M.resolve path) overwrite world (.error exc) q := by
    rintro exc q rfl
    exact hearly exc _ rfl (fun _ _ => Iff.rfl) fun h => absurd h hallowed
  refine triple_bind ((triple_requireTool "pg_dump").conseq (fun q hq => hq.2) (fun _ _ h => h)
    hstart) fun _ => ?_
  refine triple_perform_bind (fun endpoint _ => ?_) fun exc q _ hq => hstart exc q hq
  refine triple_bind (Q := fun _ _ => True) (Triple.conseq triple_change (fun _ h => h)
    (fun _ _ _ => trivial) ?_) fun _ => ?_
  · rintro exc q ⟨r, rfl, hmkdir, hcommands⟩
    refine hearly exc q hcommands (fun other contents => ?_) fun h => absurd h hallowed
    have hfile := hposix.mkdir_file other (M.parent (M.resolve path)) world contents
    rwa [show M.mkdir (M.parent (M.resolve path)) world = (.error exc, q.world) from hmkdir]
      at hfile
  refine triple_bind (triple_tryFinally (triple_dumpAndPublish hposix)
    (fun _ => triple_unlink_published hposix) fun exc =>
      (triple_unlink_unpublished hposix).conseq (fun _ h => h) ?_ ?_) fun _ => triple_pure ?_
  · exact fun _ q hq => ⟨fun _ h => (by cases h), fun _ _ => .inr hq, fun h => absurd h hallowed⟩
  · exact fun _ q hq => ⟨fun _ h => (by cases h), fun _ _ => .inr hq, fun h => absurd h hallowed⟩
  · rintro q ⟨after, hq⟩
    refine ⟨fun returned h => ⟨(Except.ok.inj h).symm, fun hover => ?_, after, hq⟩,
      fun _ h => (by cases h), fun h => absurd h hallowed⟩
    by_contra hthere
    exact hfresh ⟨hthere, hover⟩

end Backup

/-- **A backup.**  However `pg_dump` ends and whatever it does meanwhile, a path is returned only
where the dump succeeded and its archive, which is not empty, now stands at the output, where there
was nothing at either look unless the caller overwrites.  Where the backup raises, its own steps
have changed no file, or none but the temporary one, which is gone if it could be removed; a
temporary file that was there is left alone. -/
theorem createBackup_atomic (hposix : Posix M) (url path : String) (overwrite : Bool) (world : Ω) :
    Atomic M (M.resolve path) overwrite world
      ((createBackup M U url path overwrite).exec (.start world)).1
      ((createBackup M U url path overwrite).exec (.start world)).2 := by
  have hend := triple_createBackup (U := U) hposix url path overwrite world (.start world) rfl
  generalize (createBackup M U url path overwrite).exec (.start world) = out at hend
  obtain ⟨_ | returned, q⟩ := out
  · exact hend
  · exact hend

/-! ## A disk -/

/-- A disk where `pg_dump` writes an archive to the file that it is given. -/
def disk : Machine (String → Option Entry) where
  makeUrl _ := .ok ⟨"postgresql", some "app", some "secret", some "db", none, some "app"⟩
  render _ := "postgresql+asyncpg://app:secret@db:5432/app"
  which _ _ := true
  run command _ files :=
    (.ok, Function.update files (String.ofList ((command.getLast?.getD "").toList.drop 7))
      (some (.file [80, 71, 68, 77, 80])))
  resolve := id
  parent _ := "/backups"
  entry path files := files path
  mkdir _ files := (.ok (), files)
  replace source target files :=
    match files source with
    | some found => (.ok (), Function.update (Function.update files target (some found)) source none)
    | none => (.error (.other "FileNotFoundError"), files)
  unlink path files := (.ok (), Function.update files path none)
  inspect _ _ := .error (.other "OperationalError")
  head := .ok none
  environ _ := none
  executable := "python"
  declared := []
  iterate := id
  iterate_perm := List.Perm.refl

theorem posix_disk : Posix disk where
  mkdir_file _ _ _ _ := Iff.rfl
  replace_ok source target files files' contents hreplaced hne hsource := by
    have hfound : files source = some (.file contents) := hsource
    simp only [disk, hfound, Prod.mk.injEq, true_and] at hreplaced
    subst hreplaced
    refine ⟨?_, ?_, fun path hsource htarget => ?_⟩
    · simp [disk, hne.symm]
    · simp [disk]
    · simp [disk, hsource, htarget]
  replace_error source target files files' exc hreplaced := by
    simp only [disk] at hreplaced
    split at hreplaced
    · cases (Prod.mk.inj hreplaced).1
    · obtain rfl := (Prod.mk.inj hreplaced).2
      exact fun _ => rfl
  unlink_missing path files hmissing := by
    have hfiles : files path = none := hmissing
    exact congrArg (Prod.mk _) (Function.update_eq_self_iff.mpr hfiles.symm)
  unlink_ok path files files' hunlink := by
    obtain rfl := (Prod.mk.inj hunlink).2
    exact ⟨Function.update_self .., fun other hother => Function.update_of_ne hother ..⟩
  unlink_error path files files' exc hunlink := by
    cases (Prod.mk.inj hunlink).1

theorem createBackup_atomic_disk :
    Atomic disk "/backups/nightly.dump" false (fun _ => none)
      ((createBackup disk .ascii "postgresql://app:secret@db/app" "/backups/nightly.dump"
        false).exec (.start fun _ => none)).1
      ((createBackup disk .ascii "postgresql://app:secret@db/app" "/backups/nightly.dump"
        false).exec (.start fun _ => none)).2 :=
  createBackup_atomic posix_disk "postgresql://app:secret@db/app" "/backups/nightly.dump" false
    fun _ => none

end ProcureSignal.Operations
