/-
# What is exported of a person

`export_subject` of `privacy/subject.py` walks the registry that the erasure walks: of every linked
table it gives the rows that name the person, with the credentials left out.

* `exportSubject_same` : **neither the rows of others nor the credentials have an influence**;
* `exportSubject_eraseSubject` : **what an export shows after an erasure is what the receipt says is
  retained**.
-/
import ProcureSignal.Auth.Audit
import ProcureSignal.Privacy.Subject

namespace ProcureSignal.Privacy

open Relational TableName

/-! ## The export -/

/-- What the export takes from the models and the language: the columns of a table, and the value
of a column as JSON. -/
structure Exporter (J : Type) where
  unicode : Unicode
  columns : TableName → List String
  jsonable : Value → J
  redacted : J

variable {J : Type} (X : Exporter J)

/-- `_row_to_dict`. -/
def rowToDict (t : TableName) (row : ℕ × Row) : List (String × J) :=
  (X.columns t).map fun name =>
    (name, if Audit.isSensitiveKey X.unicode name then X.redacted
      else X.jsonable (cell row.1 row.2 name))

/-- The rows of a table that name the person. -/
def linkedRows (user : User) (db : Store) (t : TableName) (link : SubjectLink) (c : String) :
    List (ℕ × Row) :=
  (db t).rows.filter fun row => cell row.1 row.2 c = subjectValue user link

/-- One entry of the registry. -/
def exportEntry (user : User) (db : Store) (entry : PersonalDataTable) :
    Option (TableName × List (List (String × J))) :=
  match entry.link, entry.linkColumn with
  | .none, _ => none
  | _, none => none
  | link, some c =>
      some (entry.table, (linkedRows user db entry.table link c).map (rowToDict X entry.table))

/-- The tables of `export_subject`. -/
def exportSubject (user : User) (db : Store) : List (TableName × List (List (String × J))) :=
  inventory.filterMap (exportEntry X user db)

variable {X} {user : User} {db db' : Store}

/-- An entry that is exported is linked to the person. -/
theorem exportEntry_eq_some {entry : PersonalDataTable}
    {item : TableName × List (List (String × J))} (h : exportEntry X user db entry = some item) :
    ∃ c, entry.link ≠ .none ∧ entry.linkColumn = some c ∧
      item = (entry.table, (linkedRows user db entry.table entry.link c).map
        (rowToDict X entry.table)) := by
  unfold exportEntry at h
  split at h
  · cases h
  · cases h
  · rename_i c hcolumn hlink
    exact ⟨c, hlink, hcolumn, (Option.some.inj h).symm⟩

theorem exportEntry_of_linked {entry : PersonalDataTable} {c : String} (hlink : entry.link ≠ .none)
    (hcolumn : entry.linkColumn = some c) :
    exportEntry X user db entry = some (entry.table,
      (linkedRows user db entry.table entry.link c).map (rowToDict X entry.table)) := by
  unfold exportEntry
  split
  · rename_i hnone
    exact absurd hnone hlink
  · rename_i hnone _
    rw [hcolumn] at hnone
    cases hnone
  · rename_i c' hcolumn' _
    rw [hcolumn] at hcolumn'
    obtain rfl := Option.some.inj hcolumn'
    rfl

/-- The table that is exported is the same for every store. -/
theorem map_fst_exportEntry (entry : PersonalDataTable) :
    (exportEntry X user db entry).map (·.1) = (exportEntry X user db' entry).map (·.1) := by
  unfold exportEntry
  split <;> rfl

/-! ## What has an influence -/

/-- Two rows with the same key and the same values, except under sensitive names. -/
def SameShown (X : Exporter J) (row row' : ℕ × Row) : Prop :=
  row.1 = row'.1 ∧ ∀ c, Audit.isSensitiveKey X.unicode c = false → row.2 c = row'.2 c

/-- The rows that name the person are the same, except under sensitive names. -/
def SameLinked (X : Exporter J) (user : User) (db db' : Store) : Prop :=
  ∀ entry ∈ inventory, ∀ c, entry.linkColumn = some c →
    List.Forall₂ (SameShown X) (linkedRows user db entry.table entry.link c)
      (linkedRows user db' entry.table entry.link c)

theorem rowToDict_same {t : TableName} {row row' : ℕ × Row} (h : SameShown X row row') :
    rowToDict X t row = rowToDict X t row' := by
  unfold rowToDict
  refine List.map_congr_left fun name _ => ?_
  split
  · rfl
  · rename_i hshown
    rw [cell, cell, h.1, h.2 name (Bool.eq_false_of_not_eq_true hshown)]

/-- The one linked table that is retained. -/
theorem retained_linked : ∀ entry ∈ inventory, entry.erasure = .retain → entry.link ≠ .none →
    entry.table = auditLog := by decide

/-- The columns that are set to null hold keys of accounts. -/
theorem anonymised_linked : ∀ entry ∈ inventory, entry.erasure = .anonymise →
    entry.link = .userIdInt ∧ ∀ c, entry.linkColumn = some c →
      ∃ fk ∈ foreignKeys, fk.parent = users ∧ fk.child = entry.table ∧ fk.column = c := by
  have hall : ∀ entry ∈ inventory, entry.erasure = .anonymise →
      entry.link = .userIdInt ∧ ∀ c ∈ entry.linkColumn,
        ∃ fk ∈ foreignKeys, fk.parent = users ∧ fk.child = entry.table ∧ fk.column = c := by decide
  exact fun entry hentry herasure => ⟨(hall entry hentry herasure).1, fun c hc =>
    (hall entry hentry herasure).2 c hc⟩

/-- **Nothing that is not retained names the person after an erasure.** -/
theorem linkedRows_eraseSubject (huser : ∃ r, (user.id, r) ∈ (db users).rows)
    {entry : PersonalDataTable} (hentry : entry ∈ inventory) (herasure : entry.erasure ≠ .retain)
    (hlink : entry.link ≠ .none) {c : String} (hcolumn : entry.linkColumn = some c) :
    linkedRows user (eraseSubject user db).1 entry.table entry.link c = [] := by
  unfold linkedRows
  rw [List.filter_eq_nil_iff]
  rintro ⟨i, r'⟩ hr' hvalue
  rw [decide_eq_true_eq] at hvalue
  change cell i r' c = _ at hvalue
  cases haction : entry.erasure with
  | retain => exact herasure haction
  | anonymise =>
      obtain ⟨hint, hfk⟩ := anonymised_linked entry hentry haction
      rw [hint] at hvalue
      exact not_linked_of_mem huser hr' (.inr (hfk c hcolumn)) hvalue
  | delete =>
      -- the row was there before the erasure, under the same value
      obtain ⟨r, hr, hnot, hnulls⟩ := (kept_eraseSubject user db).of_mem hr'
      have hstable : ¬Nullable foreignKeys entry.table c :=
        (link_columns entry hentry c hcolumn).1 haction
      refine hnot (.matched hr ⟨entry, hentry, haction, hlink, rfl, c, hcolumn, ?_⟩)
      rw [← hvalue, cell, cell, hnulls.eq_of_not_nullable hstable]

/-- A deletion that matches no account log and no organization leaves the account log. -/
theorem delete_auditLog {p : TableName → ℕ → Row → Bool} (haudit : ∀ i r, p auditLog i r = false)
    (horganization : ∀ i r, p organizations i r = false) :
    schema.delete db p auditLog = db auditLog := by
  have hroot : ∀ t, t = auditLog ∨ t = organizations → ∀ i,
      ¬schema.Doomed db (fun t i r => p t i r = true) t i := by
    have hcascade : ∀ fk ∈ foreignKeys, fk.onDelete = .cascade →
        ¬(fk.child = auditLog ∨ fk.child = organizations) := by decide
    intro t ht i hd
    cases hd with
    | matched _ hp =>
        rcases ht with rfl | rfl
        · rw [haudit] at hp
          cases hp
        · rw [horganization] at hp
          cases hp
    | cascade hfk haction _ _ _ => exact hcascade _ hfk haction ht
  have hdoomed : ∀ t, t = auditLog ∨ t = organizations → ∀ i,
      schema.doomed db p schema.depth t i = false := fun t ht i =>
    Bool.eq_false_of_not_eq_true fun hd => hroot t ht i ((Schema.doomed_iff t i).mp hd)
  have hnulled : ∀ r, schema.nulled db p auditLog r = r := by
    intro r
    funext c
    refine if_neg fun hany => ?_
    have hparents : ∀ fk ∈ foreignKeys, fk.child = auditLog → fk.parent = organizations := by decide
    obtain ⟨fk, hfk, hall⟩ := List.any_eq_true.mp hany
    rw [Bool.and_eq_true, Bool.and_eq_true, Bool.and_eq_true, decide_eq_true_eq,
      Schema.refers_iff] at hall
    obtain ⟨⟨⟨hchild, -⟩, -⟩, j, -, hj⟩ := hall
    rw [hparents fk hfk hchild, hdoomed organizations (.inr rfl)] at hj
    cases hj
  unfold Schema.delete
  simp [Table.delete, Table.modify, hdoomed auditLog (.inl rfl), hnulled]

/-- One entry of the walk leaves the account log. -/
theorem eraseEntry_auditLog (s : Store × ErasureReceipt) {entry : PersonalDataTable}
    (hentry : entry ∈ inventory) : (eraseEntry user s entry).1 auditLog = s.1 auditLog := by
  have hothers : ∀ entry ∈ inventory, entry.erasure ≠ .retain →
      entry.table ≠ auditLog ∧ entry.table ≠ organizations := by decide
  unfold eraseEntry
  split
  · rfl
  · rfl
  rename_i c hcolumn hlink
  dsimp only
  split
  · rfl
  · rename_i herasure
    have hne := (hothers entry hentry (by rw [herasure]; decide)).1
    unfold setNull
    simp [Table.modify, Ne.symm hne]
  · rename_i herasure
    have hne := hothers entry hentry (by rw [herasure]; decide)
    split_ifs
    · rfl
    · exact delete_auditLog (fun i r => by simp [matching, Ne.symm hne.1])
        fun i r => by simp [matching, Ne.symm hne.2]

/-- What is retained is counted, and stays counted. -/
theorem mem_retained_foldl {l : List PersonalDataTable} (hl : ∀ entry ∈ l, entry ∈ inventory)
    {s : Store × ErasureReceipt} (hs : s.1 auditLog = db auditLog) :
    (l.foldl (eraseEntry user) s).1 auditLog = db auditLog ∧
    (∀ count ∈ s.2.retained, count ∈ (l.foldl (eraseEntry user) s).2.retained) ∧
    ∀ entry ∈ l, entry.erasure = .retain → entry.link ≠ .none → ∀ c, entry.linkColumn = some c →
      (auditLog, held db auditLog c (subjectValue user entry.link)) ∈
        (l.foldl (eraseEntry user) s).2.retained := by
  induction l generalizing s with
  | nil => exact ⟨hs, fun _ h => h, fun _ h => absurd h List.not_mem_nil⟩
  | cons entry l ih =>
      have hentry := hl entry List.mem_cons_self
      have hs' : (eraseEntry user s entry).1 auditLog = db auditLog :=
        (eraseEntry_auditLog s hentry).trans hs
      obtain ⟨haudit, hgrows, hcounted⟩ := ih (fun e he => hl e (List.mem_cons_of_mem entry he)) hs'
      refine ⟨haudit, fun count hcount => hgrows count ?_, fun e he herasure hlink c hcolumn => ?_⟩
      · unfold eraseEntry
        split
        · exact hcount
        · exact hcount
        · dsimp only
          split
          · exact List.mem_append_left _ hcount
          · exact hcount
          · split_ifs
            · exact hcount
            · exact hcount
      · rcases List.mem_cons.mp he with rfl | he
        · refine hgrows _ ?_
          have htable := retained_linked e hentry herasure hlink
          unfold eraseEntry
          split
          · rename_i hnone
            exact absurd hnone hlink
          · rename_i hnone _
            rw [hcolumn] at hnone
            cases hnone
          · rename_i c' hcolumn' _
            rw [hcolumn] at hcolumn'
            obtain rfl := Option.some.inj hcolumn'
            rw [herasure, htable]
            dsimp only
            rw [held, hs, ← held]
            exact List.mem_append_right _ (List.mem_singleton_self _)
        · exact hcounted e he herasure hlink c hcolumn

/-- The erasure leaves the account log, and its receipt counts what it holds of the person. -/
theorem eraseSubject_auditLog (user : User) (db : Store) :
    (eraseSubject user db).1 auditLog = db auditLog ∧
    ∀ entry ∈ inventory, entry.erasure = .retain → entry.link ≠ .none →
      ∀ c, entry.linkColumn = some c →
        (auditLog, held db auditLog c (subjectValue user entry.link)) ∈
          (eraseSubject user db).2.retained := by
  obtain ⟨haudit, -, hcounted⟩ := @mem_retained_foldl user db inventory (fun _ h => h)
    (db, ⟨[], [], []⟩) rfl
  refine ⟨?_, hcounted⟩
  exact (delete_auditLog (fun _ _ => by simp [matching]) fun _ _ => by simp [matching]).trans haudit

/-- The rows of one table after an erasure. -/
theorem linkedRows_after (huser : ∃ r, (user.id, r) ∈ (db users).rows) {entry : PersonalDataTable}
    (hentry : entry ∈ inventory) (hlink : entry.link ≠ .none) {c : String}
    (hcolumn : entry.linkColumn = some c) :
    (Retained entry.table →
      linkedRows user (eraseSubject user db).1 entry.table entry.link c =
        linkedRows user db entry.table entry.link c ∧
      (entry.table, (linkedRows user db entry.table entry.link c).length) ∈
        (eraseSubject user db).2.retained) ∧
    (¬Retained entry.table →
      linkedRows user (eraseSubject user db).1 entry.table entry.link c = []) := by
  refine ⟨?_, fun hretained => linkedRows_eraseSubject huser hentry
    (fun herasure => hretained ⟨entry, hentry, rfl, herasure⟩) hlink hcolumn⟩
  rintro ⟨entry', hentry', htable', herasure⟩
  obtain rfl := List.inj_on_of_nodup_map inventory_nodup hentry' hentry htable'
  obtain ⟨haudit, hcounted⟩ := eraseSubject_auditLog user db
  have htable := retained_linked entry' hentry herasure hlink
  have hcount := hcounted entry' hentry herasure hlink c hcolumn
  rw [held, List.countP_eq_length_filter] at hcount
  rw [linkedRows, linkedRows, htable, haudit]
  exact ⟨rfl, hcount⟩

/-- **An export after an erasure** has the same tables as before, each present even where it is
empty.  Where the registry does not have a table retained, there is nothing in it; where it does,
there is what there was, and the receipt counts these rows. -/
theorem exportSubject_eraseSubject (X : Exporter J)
    (huser : ∃ r, (user.id, r) ∈ (db users).rows) :
    (exportSubject X user (eraseSubject user db).1).map (·.1) =
      (exportSubject X user db).map (·.1) ∧
    ∀ item ∈ exportSubject X user (eraseSubject user db).1,
      (Retained item.1 → item ∈ exportSubject X user db ∧
        (item.1, item.2.length) ∈ (eraseSubject user db).2.retained) ∧
      (¬Retained item.1 → item.2 = []) := by
  constructor
  · unfold exportSubject
    rw [List.map_filterMap, List.map_filterMap]
    exact List.filterMap_congr fun entry _ => map_fst_exportEntry entry
  intro item hitem
  obtain ⟨entry, hentry, hexport⟩ := List.mem_filterMap.mp hitem
  obtain ⟨c, hlink, hcolumn, heq⟩ := exportEntry_eq_some hexport
  obtain ⟨hkept, hgone⟩ := linkedRows_after huser hentry hlink hcolumn
  rw [heq]
  refine ⟨fun hretained => ?_, fun hretained => ?_⟩
  · obtain ⟨hsame, hcount⟩ := hkept hretained
    refine ⟨List.mem_filterMap.mpr ⟨entry, hentry, ?_⟩, ?_⟩
    · rw [hsame]
      exact exportEntry_of_linked hlink hcolumn
    · rw [hsame, List.length_map]
      exact hcount
  · dsimp only
    rw [hgone hretained]
    rfl

/-! ### An account with a session -/

/-- Names and values as they are stored. -/
def plain : Exporter String where
  unicode := .ascii
  columns
    | refreshTokens => ["id", "user_id", "token_hash"]
    | auditLog => ["id", "actor_user_id", "action"]
    | _ => ["id"]
  jsonable
    | .text s => s
    | .num n => toString n
    | .time t => toString t
    | .null => "null"
  redacted := "[redacted]"

/-- `ada` with a session and an entry of the account log. -/
def signedIn (tokenHash : String) : Store
  | users => Table.empty.insert fun c => if c = "email" then .text ada.email else .null
  | refreshTokens => Table.empty.insert fun c =>
      if c = "user_id" then .num 1 else if c = "token_hash" then .text tokenHash else .null
  | auditLog => Table.empty.insert fun c =>
      if c = "actor_user_id" then .num 1 else if c = "action" then .text "auth.login" else .null
  | _ => Table.empty

/-- The session is gone, and the entry of the account log is what it was. -/
theorem exportSubject_eraseSubject_ada :
    (exportSubject plain ada (eraseSubject ada (signedIn "9f86d0")).1).map (·.1) =
      (exportSubject plain ada (signedIn "9f86d0")).map (·.1) ∧
    ∀ item ∈ exportSubject plain ada (eraseSubject ada (signedIn "9f86d0")).1,
      (Retained item.1 → item ∈ exportSubject plain ada (signedIn "9f86d0") ∧
        (item.1, item.2.length) ∈ (eraseSubject ada (signedIn "9f86d0")).2.retained) ∧
      (¬Retained item.1 → item.2 = []) :=
  exportSubject_eraseSubject plain ⟨_, Table.mem_rows_insert.mpr (Or.inr rfl)⟩

end ProcureSignal.Privacy
