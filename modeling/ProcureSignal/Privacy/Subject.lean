/-
# Erasure of a person

`erase_subject` of `privacy/subject.py` walks the registry: it counts what is retained, sets
the link to null where the row is to stay, and deletes the rest, the account last.

* `kept_eraseSubject` : the erasure takes the rows tied to the person and, along the cascades,
  what depends on them;
* `erased_iff` : **when nothing that names the person is left**.
-/
import ProcureSignal.Privacy.Inventory

namespace ProcureSignal.Privacy

open Relational TableName

/-! ## The walk over the registry -/

/-- A loaded `User`. -/
structure User where
  id : ℕ
  publicId : String
  email : String
  deriving DecidableEq, Repr

/-- `_subject_value`. -/
def subjectValue (user : User) (link : SubjectLink) : Value :=
  if link = .userPublicId then .text user.publicId else .num user.id

/-- `ErasureReceipt`: what was done with the rows of each table. -/
structure ErasureReceipt where
  deleted : List (TableName × ℕ)
  anonymised : List (TableName × ℕ)
  retained : List (TableName × ℕ)
  deriving DecidableEq, Repr

/-- The rows that hold a value in a column. -/
def held (db : Store) (t : TableName) (c : String) (v : Value) : ℕ :=
  (db t).rows.countP fun r => cell r.1 r.2 c = v

/-- The rows of one table with a value in a column. -/
def matching (t : TableName) (c : String) (v : Value) (t' : TableName) (i : ℕ) (r : Row) : Bool :=
  t' = t && cell i r c = v

/-- One entry of the registry. -/
def eraseEntry (user : User) (s : Store × ErasureReceipt)
    (entry : PersonalDataTable) : Store × ErasureReceipt :=
  match entry.link, entry.linkColumn with
  | .none, _ => s
  | _, none => s
  | link, some c =>
      let v := subjectValue user link
      let count := (entry.table, held s.1 entry.table c v)
      match entry.erasure with
      | .retain => (s.1, { s.2 with retained := s.2.retained ++ [count] })
      | .anonymise =>
          (setNull s.1 entry.table c v, { s.2 with anonymised := s.2.anonymised ++ [count] })
      | .delete =>
          if entry.table = users then s
          else (schema.delete s.1 (matching entry.table c v),
            { s.2 with deleted := s.2.deleted ++ [count] })

/-- `erase_subject`: the store afterwards, and the receipt. -/
def eraseSubject (user : User) (db : Store) : Store × ErasureReceipt :=
  let s := inventory.foldl (eraseEntry user) (db, ⟨[], [], []⟩)
  (schema.delete s.1 (matching users "id" (.num user.id)),
    { s.2 with deleted := s.2.deleted ++ [(users, held s.1 users "id" (.num user.id))] })

/-! ## What the walk takes -/

/-- The entry has the row deleted, because its link column names the person. -/
def Ties (user : User) (entry : PersonalDataTable) (t : TableName) (i : ℕ) (r : Row) : Prop :=
  entry.erasure = .delete ∧ entry.link ≠ .none ∧ entry.table = t ∧
    ∃ c, entry.linkColumn = some c ∧ cell i r c = subjectValue user entry.link

/-- The registry has the row deleted with the person. -/
def Tied (user : User) (t : TableName) (i : ℕ) (r : Row) : Prop :=
  ∃ entry ∈ inventory, Ties user entry t i r

variable {user : User} {db db' : Store}

/-- A key and a column that cannot be set to null. -/
theorem stable_matching {t : TableName} {c : String} {v : Value}
    (hc : ¬Nullable foreignKeys t c) :
    Stable schema fun t' i r => matching t c v t' i r = true := by
  intro t' i r r' hn
  simp only [matching, Bool.and_eq_true, decide_eq_true_eq]
  refine and_congr_right ?_
  rintro rfl
  rw [cell, cell, hn.eq_of_not_nullable hc]

/-- The columns by which rows are deleted are never set to null; those that are set to null
hold keys of users. -/
theorem link_columns : ∀ entry ∈ inventory, ∀ c, entry.linkColumn = some c →
    (entry.erasure = .delete → ¬Nullable foreignKeys entry.table c) ∧
    (entry.erasure = .anonymise →
      Nullable foreignKeys entry.table c ∧ entry.link = .userIdInt) := by
  have hall : ∀ entry ∈ inventory, ∀ c ∈ entry.linkColumn,
      (entry.erasure = .delete → ¬Nullable foreignKeys entry.table c) ∧
      (entry.erasure = .anonymise →
        Nullable foreignKeys entry.table c ∧ entry.link = .userIdInt) := by decide
  exact fun entry hentry c hc => hall entry hentry c hc

/-- One entry takes the rows that it ties to the person; the account waits. -/
theorem kept_eraseEntry {P : TableName → ℕ → Row → Prop} {s : Store × ErasureReceipt}
    (h : Kept schema db P s.1) {entry : PersonalDataTable} (hentry : entry ∈ inventory) :
    Kept schema db (fun t i r => P t i r ∨ entry.table ≠ users ∧ Ties user entry t i r)
      (eraseEntry user s entry).1 := by
  have hnothing : (∀ t i r, ¬(entry.table ≠ users ∧ Ties user entry t i r)) →
      Kept schema db (fun t i r => P t i r ∨ entry.table ≠ users ∧ Ties user entry t i r) s.1 :=
    fun hnone => h.congr fun t i r => ⟨Or.inl, fun hor => hor.resolve_right (hnone t i r)⟩
  unfold eraseEntry
  split
  · rename_i hlink
    exact hnothing fun t i r hties => hties.2.2.1 hlink
  · rename_i hcolumn _
    refine hnothing fun t i r hties => ?_
    obtain ⟨-, -, -, -, c, hc, -⟩ := hties
    rw [hcolumn] at hc
    cases hc
  · rename_i c hcolumn hlink
    obtain ⟨hdelete, hanonymise⟩ := link_columns entry hentry c hcolumn
    dsimp only
    split
    · rename_i herasure
      refine hnothing fun t i r hties => ?_
      rw [hties.2.1] at herasure
      cases herasure
    · rename_i herasure
      obtain ⟨hnullable, hint⟩ := hanonymise herasure
      have hvalue : subjectValue user entry.link = .num user.id := by
        rw [hint]
        rfl
      rw [hvalue]
      refine (h.setNull user.id hnullable).congr fun t i r =>
        ⟨Or.inl, fun hor => hor.resolve_right fun hties => ?_⟩
      rw [hties.2.1] at herasure
      cases herasure
    · rename_i herasure
      split_ifs with htable
      · exact hnothing fun t i r hties => hties.1 htable
      · refine (h.delete (stable_matching (hdelete herasure))).congr fun t i r =>
          or_congr_right ?_
        simp only [matching, Bool.and_eq_true, decide_eq_true_eq]
        constructor
        · rintro ⟨ht, hvalue⟩
          exact ⟨htable, herasure, hlink, ht.symm, c, hcolumn, hvalue⟩
        · rintro ⟨-, -, -, ht, c', hc', hvalue⟩
          rw [hcolumn] at hc'
          cases hc'
          exact ⟨ht.symm, hvalue⟩

/-- The walk takes what the entries tie to the person, the account excepted. -/
theorem kept_walk (user : User) (db : Store) :
    Kept schema db (fun t i r => ∃ entry ∈ inventory, entry.table ≠ users ∧ Ties user entry t i r)
      (inventory.foldl (eraseEntry user) (db, ⟨[], [], []⟩)).1 := by
  refine (Kept.foldl Prod.fst
    (fun entry t i r => entry.table ≠ users ∧ Ties user entry t i r) inventory
    (fun entry hentry P s h => kept_eraseEntry h hentry)
    (s := (db, ⟨[], [], []⟩)) (Kept.refl schema db)).congr fun t i r => ?_
  rw [false_or]

/-- The entry of the accounts. -/
theorem users_entry : ∀ entry ∈ inventory, entry.table = users →
    entry.erasure = .delete ∧ entry.link = .userIdInt ∧ entry.linkColumn = some "id" := by
  decide

/-- An account is tied to the person by its key. -/
theorem tied_iff (t : TableName) (i : ℕ) (r : Row) :
    Tied user t i r ↔ (∃ entry ∈ inventory, entry.table ≠ users ∧ Ties user entry t i r) ∨
      t = users ∧ i = user.id := by
  constructor
  · rintro ⟨entry, hentry, hties⟩
    by_cases htable : entry.table = users
    · obtain ⟨-, hlink, hcolumn⟩ := users_entry entry hentry htable
      obtain ⟨-, -, ht, c, hc, hvalue⟩ := hties
      rw [hcolumn] at hc
      cases hc
      rw [hlink] at hvalue
      exact Or.inr ⟨ht.symm.trans htable, Value.num.inj hvalue⟩
    · exact Or.inl ⟨entry, hentry, htable, hties⟩
  · rintro (⟨entry, hentry, -, hties⟩ | ⟨rfl, rfl⟩)
    · exact ⟨entry, hentry, hties⟩
    · obtain ⟨entry, hentry, htable⟩ := exists_entry users
      obtain ⟨herasure, hlink, hcolumn⟩ := users_entry entry hentry htable
      refine ⟨entry, hentry, herasure, ?_, htable, "id", hcolumn, ?_⟩
      · rw [hlink]
        decide
      · rw [hlink]
        rfl

/-- **What the erasure takes**: the rows that the registry ties to the person, and what
cascades from these. -/
theorem kept_eraseSubject (user : User) (db : Store) :
    Kept schema db (Tied user) (eraseSubject user db).1 := by
  have hkey : ¬Nullable foreignKeys users "id" := by decide
  refine ((kept_walk user db).delete (stable_matching hkey)).congr fun t i r => ?_
  rw [tied_iff]
  refine or_congr_right ?_
  simp only [matching, Bool.and_eq_true, decide_eq_true_eq]
  exact and_congr_right fun _ => ⟨Value.num.inj, congrArg Value.num⟩

/-! ## What is left of the person -/

/-- The registry has a table retained. -/
def Retained (t : TableName) : Prop :=
  ∃ entry ∈ inventory, entry.table = t ∧ entry.erasure = .retain

instance (t : TableName) : Decidable (Retained t) :=
  inferInstanceAs (Decidable (∃ entry ∈ inventory, entry.table = t ∧ entry.erasure = .retain))

/-- The column holds keys of accounts. -/
def LinkedToUsers (t : TableName) (c : String) : Prop :=
  t = users ∧ c = "id" ∨ ∃ fk ∈ foreignKeys, fk.parent = users ∧ fk.child = t ∧ fk.column = c

/-- The row names the person: by the key in a column of such keys, by the public id, or by the
address. -/
def Names (user : User) (t : TableName) (i : ℕ) (r : Row) : Prop :=
  (∃ c, LinkedToUsers t c ∧ cell i r c = .num user.id) ∨
    ∃ c, r c = .text user.publicId ∨ r c = .text user.email

/-- No row of a table that is not retained names the person. -/
def Erased (user : User) (db : Store) : Prop :=
  ∀ t, ¬Retained t → ∀ i r, (i, r) ∈ (db t).rows → ¬Names user t i r

/-- No account is taken with the rows of other tables. -/
theorem not_doomed_users {P : TableName → ℕ → Row → Prop} (h : ∀ i r, ¬P users i r) (i : ℕ) :
    ¬schema.Doomed db P users i := by
  have hchild : ∀ fk ∈ foreignKeys, fk.child ≠ users := by decide
  intro hd
  generalize ht : users = t at hd
  cases hd with
  | matched _ hp => exact h _ _ (ht ▸ hp)
  | cascade hfk _ _ _ _ => exact hchild _ hfk ht.symm

/-- The key of an erased account is in no column of such keys, whatever the table. -/
theorem not_linked_of_mem (huser : ∃ r, (user.id, r) ∈ (db users).rows) {t : TableName} {i : ℕ}
    {r : Row} (hr : (i, r) ∈ ((eraseSubject user db).1 t).rows) {c : String}
    (hc : LinkedToUsers t c) : cell i r c ≠ .num user.id := by
  rcases hc with ⟨rfl, rfl⟩ | ⟨fk, hfk, hparent, rfl, rfl⟩
  · intro hkey
    obtain ⟨r₀, hr₀, hnot, -⟩ := (kept_eraseSubject user db).of_mem hr
    exact hnot (.matched hr₀ ((tied_iff _ _ _).mpr (Or.inr ⟨rfl, Value.num.inj hkey⟩)))
  · have hcolumn : ∀ fk ∈ foreignKeys, fk.column ≠ "id" := by decide
    rw [cell, if_neg (hcolumn fk hfk)]
    -- the account is still there when its deletion begins
    obtain ⟨r₀, hr₀⟩ := huser
    obtain ⟨r₁, hr₁, -⟩ := (kept_walk user db).to_mem hr₀ (not_doomed_users (by
      rintro i r ⟨entry, -, htable, -, -, ht, -⟩
      exact htable ht) user.id)
    refine Schema.not_refers_of_mem_delete hfk hr ?_
    rw [hparent]
    refine .matched hr₁ ?_
    simp [matching, cell]

/-- **When nothing that names the person is left**: exactly when no row that the registry does
not tie to the person, and that nothing tied takes along, holds the public id or the address. -/
theorem erased_iff (user : User) (db : Store) (huser : ∃ r, (user.id, r) ∈ (db users).rows) :
    Erased user (eraseSubject user db).1 ↔
      ∀ t, ¬Retained t → ∀ i r, (i, r) ∈ (db t).rows → ¬schema.Doomed db (Tied user) t i →
        ∀ c, r c ≠ .text user.publicId ∧ r c ≠ .text user.email := by
  have hkept := kept_eraseSubject user db
  constructor
  · intro herased t ht i r hr hnot c
    obtain ⟨r', hr', hn⟩ := hkept.to_mem hr hnot
    refine not_or.mp fun htext => herased t ht i r' hr' (Or.inr ⟨c, ?_⟩)
    rw [hn.text_iff, hn.text_iff]
    exact htext
  · rintro hclean t ht i r' hr' (⟨c, hc, hkey⟩ | ⟨c, htext⟩)
    · exact not_linked_of_mem huser hr' hc hkey
    · obtain ⟨r, hr, hnot, hn⟩ := hkept.of_mem hr'
      rw [hn.text_iff, hn.text_iff] at htext
      exact not_or.mpr (hclean t ht i r hr hnot c) htext

/-- A row stays that no entry has deleted, if the rows that it depends on stay. -/
theorem not_doomed_tied {t : TableName}
    (hentry : ∀ entry ∈ inventory, entry.table = t → entry.erasure ≠ .delete)
    (hparent : ∀ fk ∈ foreignKeys, fk.onDelete = .cascade → fk.child = t →
      ∀ j, ¬schema.Doomed db (Tied user) fk.parent j) (i : ℕ) :
    ¬schema.Doomed db (Tied user) t i := by
  intro hd
  cases hd with
  | matched _ hp =>
      obtain ⟨entry, hmem, herasure, -, ht, -⟩ := hp
      exact hentry entry hmem ht herasure
  | cascade hfk haction _ _ hd => exact hparent _ hfk haction rfl _ hd

/-- No erasure takes an organization. -/
theorem not_doomed_organization (user : User) (db : Store) (j : ℕ) :
    ¬schema.Doomed db (Tied user) organizations j := by
  have hroot : ∀ fk ∈ foreignKeys, fk.child ≠ organizations := by decide
  exact not_doomed_tied (by decide) (fun fk hfk _ hchild => absurd hchild (hroot fk hfk)) j

/-- An erasure takes one account at most. -/
theorem eq_of_doomed_users {i : ℕ} (h : schema.Doomed db (Tied user) users i) : i = user.id := by
  have hchild : ∀ fk ∈ foreignKeys, fk.child ≠ users := by decide
  generalize ht : users = t at h
  cases h with
  | matched _ hp =>
      rcases (tied_iff _ _ _).mp hp with ⟨entry, -, htable, -, -, ht', -⟩ | ⟨-, hi⟩
      · exact absurd (ht'.trans ht.symm) htable
      · exact hi
  | cascade hfk _ _ _ _ => exact absurd ht.symm (hchild _ hfk)

/-- No erasure takes an invitation. -/
theorem not_doomed_invitation (user : User) (db : Store) (i : ℕ) :
    ¬schema.Doomed db (Tied user) organizationInvitations i := by
  have hparents : ∀ fk ∈ foreignKeys, fk.onDelete = .cascade →
      fk.child = organizationInvitations → fk.parent = organizations := by decide
  refine not_doomed_tied (by decide) (fun fk hfk haction hchild j => ?_) i
  rw [hparents fk hfk haction hchild]
  exact not_doomed_organization user db j

/-! ### An invitation that somebody else sent -/

/-- A person with an account. -/
def ada : User := ⟨1, "5d1f", "ada@example.com"⟩

/-- The account of `ada`, and an invitation that account `2` sent. -/
def invited (email : String) : Store
  | users => Table.empty.insert fun c => if c = "email" then .text ada.email else .null
  | organizationInvitations => Table.empty.insert fun c =>
      if c = "email" then .text email else if c = "invited_by_user_id" then .num 2 else .null
  | _ => Table.empty

/-- The address stays in the invitation that was sent to it. -/
theorem address_left : ¬Erased ada (eraseSubject ada (invited ada.email)).1 := by
  intro herased
  obtain ⟨r, hr, hn⟩ := (kept_eraseSubject ada (invited ada.email)).to_mem
    (t := organizationInvitations) (i := 1) (Table.mem_rows_insert.mpr (Or.inr rfl))
    (not_doomed_invitation ada _ 1)
  refine herased organizationInvitations (by decide) 1 r hr (Or.inr ⟨"email", Or.inr ?_⟩)
  rw [hn.text_iff]
  rfl

/-- An invitation to somebody else does not name the person. -/
theorem erased_iff_elsewhere :
    Erased ada (eraseSubject ada (invited "bob@example.com")).1 := by
  refine (erased_iff ada _ ⟨_, Table.mem_rows_insert.mpr (Or.inr rfl)⟩).mpr
    fun t _ i r hr hnot c => ?_
  cases t with
  | users =>
      -- the account itself goes
      obtain ⟨rfl, rfl⟩ := Prod.mk.inj (List.mem_singleton.mp hr)
      exact absurd (.matched hr ((tied_iff _ _ _).mpr (Or.inr ⟨rfl, rfl⟩))) hnot
  | organizationInvitations =>
      obtain ⟨rfl, rfl⟩ := Prod.mk.inj (List.mem_singleton.mp hr)
      dsimp only
      split_ifs <;> exact ⟨by decide, by decide⟩
  | _ => cases hr

end ProcureSignal.Privacy
