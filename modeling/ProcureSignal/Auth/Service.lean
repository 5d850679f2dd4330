/-
# Sign-in and session lifecycle

The functions of `auth/service.py` on refresh tokens, with the routes of
`api/routers/auth.py` that commit them and `resolve_access_token` of
`api/dependencies.py`, each run from its start to its commit.

What the code takes from elsewhere is a parameter: the hash of a refresh token, the
password check and the signed access tokens (`Crypto`), and the values one call draws
(`Draw`: the minted token, `uuid4`, the clock).

`eq_ok` lemmas say what each accepted call did.
-/
import ProcureSignal.Models
import ProcureSignal.Library.Unicode

namespace ProcureSignal.Auth

/-! ## Rows and parameters -/

/-- `Role`. -/
inductive Role
  | owner
  | admin
  | member
  | viewer
  deriving DecidableEq, Repr

/-- `Organization`. -/
structure Organization where
  publicId : String
  deriving DecidableEq, Repr

/-- `User`. -/
structure User where
  publicId : String
  email : String
  passwordHash : Option String
  isActive : Bool
  tokenVersion : ℕ
  lastLoginAt : Option Instant
  deriving DecidableEq, Repr

/-- `Membership`. -/
structure Membership where
  userId : ℕ
  organizationId : ℕ
  role : Role
  deriving DecidableEq, Repr

/-- A `family_id`: the digits of a `uuid4`, which are a true value in
`family_id or uuid4().hex`. -/
structure FamilyId where
  hex : String
  nonempty : hex ≠ ""
  deriving DecidableEq, Repr

-- the families drawn in the runs on fixed inputs

theorem f1_ne_empty : "f-1" ≠ "" := by decide

theorem f2_ne_empty : "f-2" ≠ "" := by decide

theorem f3_ne_empty : "f-3" ≠ "" := by decide

/-- `RefreshToken`. -/
structure RefreshToken where
  userId : ℕ
  tokenHash : String
  familyId : FamilyId
  expiresAt : Instant
  revokedAt : Option Instant
  userAgent : Option String
  clientIp : Option String
  deriving DecidableEq, Repr

/-- `AccessClaims`. -/
structure AccessClaims where
  subject : String
  organization : String
  role : Role
  tokenVersion : ℕ
  jti : String
  deriving DecidableEq, Repr

/-- `ACCESS_TOKEN_TTL`. -/
def accessTokenTtl : ℤ := minutes 15

/-- `REFRESH_TOKEN_TTL`. -/
def refreshTokenTtl : ℤ := days 30

/-- The cryptographic functions; `τ` is the type of signed access tokens. -/
structure Crypto (τ : Type) where
  hashRefreshToken : String → String
  /-- argon2's check of a stored hash against a password -/
  verify : String → String → Bool
  /-- sign claims with an expiry -/
  encode : AccessClaims → Instant → τ
  /-- verify a token at a time -/
  decode : Instant → τ → Option AccessClaims
  decode_encode : ∀ now claims exp,
    decode now (encode claims exp) = if now < exp then some claims else none

/-- `ClientContext`. -/
structure ClientContext where
  userAgent : Option String
  clientIp : Option String
  deriving DecidableEq, Repr

/-- What one call draws: the minted plaintext, two values of `uuid4`, and the clock when
the stored token is checked and when the new one is issued. -/
structure Draw where
  plaintext : String
  familyId : FamilyId
  jti : String
  now : Instant
  issuedAt : Instant
  deriving DecidableEq, Repr

/-- `IssuedSession`. -/
structure IssuedSession (τ : Type) where
  user : User
  organization : Organization
  role : Role
  accessToken : τ
  refreshToken : String
  deriving DecidableEq, Repr

/-- `AuthenticatedUser`. -/
structure AuthenticatedUser where
  id : ℕ
  publicId : String
  email : String
  organizationId : ℕ
  organizationPublicId : String
  role : Role
  deriving DecidableEq, Repr

/-- Why a call raised: `InvalidCredentialsError`, or the database at the commit. -/
inductive AuthError
  | invalidCredentials
  | databaseError
  deriving DecidableEq, Repr

/-- `users`: unique `public_id` and `email`. -/
abbrev UserTable := UniqueTable User String [fun u => some u.publicId, fun u => some u.email]

/-- `organizations`: unique `public_id`. -/
abbrev OrganizationTable := UniqueTable Organization String [fun o => some o.publicId]

/-- `refresh_tokens`: unique `token_hash`. -/
abbrev RefreshTokenTable := UniqueTable RefreshToken String [fun r => some r.tokenHash]

/-- The committed tables of the identity service. -/
structure Store where
  users : UserTable
  organizations : OrganizationTable
  memberships : Table Membership
  refreshTokens : RefreshTokenTable

/-! ## Queries and updates -/

/-- `RefreshToken.revoked_at` set. -/
def RefreshToken.revoke (row : RefreshToken) (now : Instant) : RefreshToken :=
  { row with revokedAt := some now }

@[simp] theorem tokenHash_revoke (row : RefreshToken) (now : Instant) :
    (row.revoke now).tokenHash = row.tokenHash := rfl

namespace Store

variable (st : Store)

/-- The first membership of a user with its organization, in the order of its key. -/
def membershipOf (userId : ℕ) : Option (Membership × Organization) :=
  st.memberships.rows.findSome? fun r =>
    if r.2.userId = userId then (st.organizations.find? r.2.organizationId).map (r.2, ·) else none

/-- The refresh token with the given hash. -/
def token? (digest : String) : Option RefreshToken :=
  st.refreshTokens.values.find? fun row => row.tokenHash = digest

/-- `UPDATE refresh_tokens SET revoked_at` of the rows that meet a condition. -/
def revokeRows (p : RefreshToken → Bool) (now : Instant) : Store :=
  { st with
    refreshTokens := st.refreshTokens.update (fun _ row => p row) (·.revoke now) (by simp) }

/-- `UPDATE refresh_tokens SET revoked_at` of one row. -/
def revokeHash (digest : String) (now : Instant) : Store :=
  st.revokeRows (fun row => row.tokenHash = digest) now

/-- `UPDATE refresh_tokens SET revoked_at` of the unrevoked rows that meet a condition. -/
def revokeWhere (p : RefreshToken → Bool) (now : Instant) : Store :=
  st.revokeRows (fun row => p row && row.revokedAt.isNone) now

/-- `INSERT` of a refresh token, rejected when its hash is stored. -/
def insertToken? (row : RefreshToken) : Option Store :=
  (st.refreshTokens.insert? row).map fun t => { st with refreshTokens := t }

/-- The store with a refresh token inserted, where its hash is free. -/
def putToken (row : RefreshToken) : Store := (st.insertToken? row).getD st

/-- `UPDATE users SET token_version = token_version + 1` of one user. -/
def bumpVersion (userId : ℕ) : Store :=
  { st with
    users := st.users.update (fun i _ => i = userId)
      (fun u => { u with tokenVersion := u.tokenVersion + 1 }) (by simp) }

/-- `users.last_login_at` set. -/
def recordLogin (userId : ℕ) (now : Instant) : Store :=
  { st with
    users := st.users.update (fun i _ => i = userId)
      (fun u => { u with lastLoginAt := some now }) (by simp) }

end Store

/-! ## The service -/

variable {τ : Type} (C : Crypto τ) (U : Unicode)

/-- `normalize_email`. -/
def normalizeEmail (email : String) : String := U.lower (U.strip email)

/-- `verify_password`: an account without a hash never matches. -/
def verifyPassword (password : String) (storedHash : Option String) : Bool :=
  storedHash.any fun h => h ≠ "" && C.verify h password

/-- The row `_issue` adds: the family of the exchanged token, or a new one. -/
def tokenRow (userId : ℕ) (familyId : Option FamilyId) (context : ClientContext) (d : Draw) :
    RefreshToken where
  userId := userId
  tokenHash := C.hashRefreshToken d.plaintext
  familyId := familyId.getD d.familyId
  expiresAt := d.issuedAt + refreshTokenTtl
  revokedAt := none
  userAgent := context.userAgent.bind fun agent =>
    if agent = "" then none else some (String.ofList (agent.toList.take 300))
  clientIp := context.clientIp

/-- The claims `_issue` signs. -/
def claimsOf (user : User) (organization : Organization) (role : Role) (d : Draw) :
    AccessClaims where
  subject := user.publicId
  organization := organization.publicId
  role := role
  tokenVersion := user.tokenVersion
  jti := d.jti

/-- What `_issue` hands back. -/
def issuedSession (user : User) (organization : Organization) (role : Role) (d : Draw) :
    IssuedSession τ where
  user := user
  organization := organization
  role := role
  accessToken := C.encode (claimsOf user organization role d) (d.issuedAt + accessTokenTtl)
  refreshToken := d.plaintext

/-- `_issue`, up to the commit that may reject the new row. -/
def issue (st : Store) (userId : ℕ) (user : User) (organization : Organization) (role : Role)
    (familyId : Option FamilyId) (context : ClientContext) (d : Draw) :
    Except AuthError (Store × IssuedSession τ) :=
  match st.insertToken? (tokenRow C userId familyId context d) with
  | some st' => .ok (st', issuedSession C user organization role d)
  | none => .error .databaseError

/-- The active user with this address and password, with its first membership. -/
def credentialsOf (st : Store) (email password : String) :
    Option (ℕ × User × Membership × Organization) :=
  match st.users.rows.find? fun r => r.2.email = normalizeEmail U email with
  | none => none
  | some (userId, user) =>
      if verifyPassword C password user.passwordHash ∧ user.isActive then
        (st.membershipOf userId).map fun r => (userId, user, r.1, r.2)
      else none

/-- `authenticate`. -/
def authenticate (st : Store) (email password : String) (context : ClientContext) (d : Draw) :
    Except AuthError (Store × IssuedSession τ) :=
  match credentialsOf C U st email password with
  | none => .error .invalidCredentials
  | some (userId, user, membership, organization) =>
      issue C (st.recordLogin userId d.now) userId user organization membership.role none context d

/-- `revoke_family`. -/
def revokeFamily (st : Store) (familyId : FamilyId) (now : Instant) : Store :=
  st.revokeWhere (fun row => row.familyId = familyId) now

/-- The active owner of a token, with its first membership. -/
def ownerOf (st : Store) (userId : ℕ) : Option (User × Membership × Organization) :=
  match st.users.find? userId with
  | none => none
  | some user =>
      if user.isActive then (st.membershipOf userId).map fun r => (user, r.1, r.2) else none

/-- `rotate_refresh_token`: the session when the call returns or raises. -/
def rotateRefreshToken (st : Store) (presented : String) (context : ClientContext) (d : Draw) :
    Store × Except AuthError (IssuedSession τ) :=
  let digest := C.hashRefreshToken presented
  match st.token? digest with
  | none => (st, .error .invalidCredentials)
  | some stored =>
      if stored.revokedAt ≠ none then
        (revokeFamily st stored.familyId d.now, .error .invalidCredentials)
      else if stored.expiresAt ≤ d.now then (st, .error .invalidCredentials)
      else
        match ownerOf st stored.userId with
        | none => (st, .error .invalidCredentials)
        | some (user, membership, organization) =>
            match issue C (st.revokeHash digest d.now) stored.userId user organization
              membership.role (some stored.familyId) context d with
            | .ok (st', issued) => (st', .ok issued)
            | .error e => (st, .error e)

/-- `revoke_token`. -/
def revokeToken (st : Store) (presented : String) (now : Instant) : Store × Bool :=
  match st.token? (C.hashRefreshToken presented) with
  | none => (st, false)
  | some stored =>
      if stored.revokedAt ≠ none then (st, false)
      else (st.revokeHash (C.hashRefreshToken presented) now, true)

/-- `revoke_all_sessions`. -/
def revokeAllSessions (st : Store) (userId : ℕ) (now : Instant) : Store :=
  (st.revokeWhere (fun row => row.userId = userId) now).bumpVersion userId

/-! ## The routes -/

/-- The route `login`; a refused sign-in commits its audit record only. -/
def login (st : Store) (email password : String) (context : ClientContext) (d : Draw) :
    Store × Except AuthError (IssuedSession τ) :=
  match authenticate C U st email password context d with
  | .ok (st', issued) => (st', .ok issued)
  | .error e => (st, .error e)

/-- The route `refresh`: what the service did is committed also when it refused. -/
def refresh (st : Store) (presented : Option String) (context : ClientContext) (d : Draw) :
    Store × Except AuthError (IssuedSession τ) :=
  match presented with
  | none => (st, .error .invalidCredentials)
  | some token =>
      if token = "" then (st, .error .invalidCredentials)
      else rotateRefreshToken C st token context d

/-- The route `logout`. -/
def logout (st : Store) (presented : Option String) (now : Instant) : Store :=
  match presented with
  | none => st
  | some token => if token = "" then st else (revokeToken C st token now).1

/-- `resolve_access_token`. -/
def resolveAccessToken (st : Store) (token : τ) (now : Instant) : Option AuthenticatedUser :=
  (C.decode now token).bind fun claims =>
    (st.users.rows.findSome? fun r =>
      if r.2.publicId = claims.subject then
        st.memberships.rows.findSome? fun m =>
          if m.2.userId = r.1 then
            (st.organizations.find? m.2.organizationId).bind fun organization =>
              if organization.publicId = claims.organization then some (r, m.2, organization)
              else none
          else none
      else none).bind fun row =>
        let (userRow, membership, organization) := row
        if !userRow.2.isActive || userRow.2.tokenVersion ≠ claims.tokenVersion then none
        else some {
          id := userRow.1
          publicId := userRow.2.publicId
          email := userRow.2.email
          organizationId := membership.organizationId
          organizationPublicId := organization.publicId
          role := membership.role }

/-! ## A concrete store -/

/-- Cryptography that hides nothing: the hash is the token, a signed token its payload. -/
def Crypto.plain : Crypto (AccessClaims × Instant) where
  hashRefreshToken := id
  verify := fun storedHash password => storedHash = password
  encode := fun claims exp => (claims, exp)
  decode := fun now token => if now < token.2 then some token.1 else none
  decode_encode := fun _ _ _ => rfl

/-- One active user, the owner of one organization, not signed in. -/
def oneUser : Store where
  users := UniqueTable.empty.insertFree
    ⟨"u-1", "buyer@acme.com", some "password", true, 0, none⟩ (by decide)
  organizations := UniqueTable.empty.insertFree ⟨"o-1"⟩ (by decide)
  memberships := Table.empty.insert ⟨1, 1, .owner⟩
  refreshTokens := UniqueTable.empty

/-! ## What the calls do -/

variable {C U} {st st' : Store}

@[simp] theorem tokenHash_tokenRow (C : Crypto τ) (userId : ℕ) (familyId : Option FamilyId)
    (context : ClientContext) (d : Draw) :
    (tokenRow C userId familyId context d).tokenHash = C.hashRefreshToken d.plaintext := rfl

@[simp] theorem token?_bumpVersion (st : Store) (userId : ℕ) :
    (st.bumpVersion userId).token? = st.token? := rfl

@[simp] theorem token?_recordLogin (st : Store) (userId : ℕ) (now : Instant) :
    (st.recordLogin userId now).token? = st.token? := rfl

/-- The stored row has the hash it is found under. -/
theorem tokenHash_of_token? {digest : String} {row : RefreshToken}
    (h : st.token? digest = some row) : row.tokenHash = digest := by
  simpa using List.find?_some h

/-- Every stored row is found under its hash. -/
theorem token?_of_mem {row : RefreshToken} (h : row ∈ st.refreshTokens.values) :
    st.token? row.tokenHash = some row := by
  have hnd := st.refreshTokens.unique _ List.mem_cons_self
  cases hfind : st.token? row.tokenHash with
  | none =>
      have hnot := List.find?_eq_none.mp hfind row h
      simp at hnot
  | some row' =>
      have hhash : row'.tokenHash = row.tokenHash := tokenHash_of_token? hfind
      have hmem : row' ∈ st.refreshTokens.values := List.mem_of_find?_eq_some hfind
      rw [eq_of_nodup_filterMap hnd hmem h (congrArg some hhash) rfl]

/-- The version of one user is raised. -/
theorem find?_bumpVersion (st : Store) (userId i : ℕ) :
    (st.bumpVersion userId).users.find? i = (st.users.find? i).map fun u =>
      if i = userId then { u with tokenVersion := u.tokenVersion + 1 } else u := by
  show (st.users.toTable.modify _).find? i = _
  rw [Table.find?_modify]
  simp only [decide_eq_true_eq]

/-- The sign-in of one user is recorded. -/
theorem find?_recordLogin (st : Store) (userId : ℕ) (now : Instant) (i : ℕ) :
    (st.recordLogin userId now).users.find? i = (st.users.find? i).map fun u =>
      if i = userId then { u with lastLoginAt := some now } else u := by
  show (st.users.toTable.modify _).find? i = _
  rw [Table.find?_modify]
  simp only [decide_eq_true_eq]

/-- Revoking rows leaves every row under its hash. -/
theorem token?_revokeRows (st : Store) (p : RefreshToken → Bool) (now : Instant)
    (digest : String) :
    (st.revokeRows p now).token? digest = (st.token? digest).map fun row =>
      if p row then row.revoke now else row := by
  have hvalues : (st.revokeRows p now).refreshTokens.values =
      st.refreshTokens.values.map fun row => if p row then row.revoke now else row := by
    simp only [Store.revokeRows, UniqueTable.toTable_update, Table.values_update]
  have hhash : ∀ row : RefreshToken,
      (if p row then row.revoke now else row).tokenHash = row.tokenHash := by
    intro row
    split <;> rfl
  unfold Store.token?
  rw [hvalues, List.find?_map]
  simp only [Function.comp_def, hhash]

/-- The token just revoked, the others as they were. -/
theorem token?_revokeHash (st : Store) (digest : String) (now : Instant) (d : String) :
    (st.revokeHash digest now).token? d =
      if d = digest then (st.token? d).map (·.revoke now) else st.token? d := by
  rw [Store.revokeHash, token?_revokeRows]
  cases hrow : st.token? d with
  | none => simp
  | some row =>
      simp only [Option.map_some, tokenHash_of_token? hrow, decide_eq_true_eq]
      split <;> rfl

/-- The rows that meet the condition are revoked. -/
theorem token?_revokeWhere (st : Store) (p : RefreshToken → Bool) (now : Instant) (d : String) :
    (st.revokeWhere p now).token? d = (st.token? d).map fun row =>
      if p row && row.revokedAt.isNone then row.revoke now else row := token?_revokeRows st _ now d

/-- A resolved caller is a member of the organization, with the role it is shown. -/
theorem resolveAccessToken_eq_some {token : τ} {now : Instant} {caller : AuthenticatedUser}
    (h : resolveAccessToken C st token now = some caller) :
    (⟨caller.id, caller.organizationId, caller.role⟩ : Membership) ∈ st.memberships.values := by
  unfold resolveAccessToken at h
  rw [Option.bind_eq_some_iff] at h
  obtain ⟨claims, -, h⟩ := h
  rw [Option.bind_eq_some_iff] at h
  obtain ⟨⟨userRow, membership, organization⟩, hfind, h⟩ := h
  have hmember : ∃ i, (i, membership) ∈ st.memberships.rows ∧ membership.userId = userRow.1 := by
    rw [List.findSome?_eq_some_iff] at hfind
    obtain ⟨l₁, r, l₂, -, hr, -⟩ := hfind
    split at hr
    · rw [List.findSome?_eq_some_iff] at hr
      obtain ⟨m₁, m, m₂, hrows, hm, -⟩ := hr
      split at hm
      · rename_i huser
        rw [Option.bind_eq_some_iff] at hm
        obtain ⟨organization', -, hm⟩ := hm
        split at hm
        · obtain ⟨rfl, rfl, -⟩ : r = userRow ∧ m.2 = membership ∧ organization' = organization := by
            simpa only [Option.some.injEq, Prod.mk.injEq] using hm
          refine ⟨m.1, ?_, huser⟩
          rw [hrows]
          exact List.mem_append_right _ List.mem_cons_self
        · cases hm
      · cases hm
    · cases hr
  obtain ⟨i, hi, huser⟩ := hmember
  simp only at h
  split at h
  · cases h
  · rw [← Option.some.inj h, ← huser]
    exact Table.mem_values.mpr ⟨i, hi⟩

/-- An insert finds its hash free. -/
theorem insertToken?_eq_some {row : RefreshToken} (h : st.insertToken? row = some st') :
    st.token? row.tokenHash = none ∧ st' = st.putToken row := by
  refine ⟨?_, by rw [Store.putToken, h]; rfl⟩
  unfold Store.insertToken? at h
  rw [Option.map_eq_some_iff] at h
  obtain ⟨t, ht, -⟩ := h
  obtain ⟨hfree, -⟩ := UniqueTable.insert?_eq_some_iff.mp ht
  unfold Store.token?
  rw [List.find?_eq_none]
  intro r hr hhash
  exact hfree _ List.mem_cons_self _ rfl
    (List.mem_filterMap.mpr ⟨r, hr, by simpa using hhash⟩)

/-- A free hash admits an insert. -/
theorem insertToken?_of_free {row : RefreshToken} (hfree : st.token? row.tokenHash = none) :
    ∃ h : st.refreshTokens.Free row, st.putToken row =
      { st with refreshTokens := st.refreshTokens.insertFree row h } := by
  have h : st.refreshTokens.Free row := by
    intro k hk v hv hmem
    rw [List.mem_singleton] at hk
    subst hk
    obtain ⟨r, hr, hhash⟩ := List.mem_filterMap.mp hmem
    rw [Option.mem_some] at hv
    rw [Option.some.injEq] at hhash
    have hnot := List.find?_eq_none.mp hfree r hr
    exact hnot (by simpa using hhash.trans hv.symm)
  refine ⟨h, ?_⟩
  rw [Store.putToken, Store.insertToken?, UniqueTable.insert?_of_free h]
  rfl

/-- The token just stored, the others as they were. -/
theorem token?_putToken {row : RefreshToken} (hfree : st.token? row.tokenHash = none) (d : String) :
    (st.putToken row).token? d = if d = row.tokenHash then some row else st.token? d := by
  obtain ⟨h, heq⟩ := insertToken?_of_free hfree
  rw [heq]
  unfold Store.token? at hfree ⊢
  simp only [UniqueTable.toTable_insertFree, Table.values_insert, List.find?_append]
  split
  · rename_i hd
    rw [hd, hfree]
    simp
  · rename_i hd
    simp [Ne.symm hd]

/-- The token of a sign-in, the others as they were. -/
theorem token?_signIn {row : RefreshToken} (hfree : st.token? row.tokenHash = none) (userId : ℕ)
    (now : Instant) (d : String) :
    ((st.recordLogin userId now).putToken row).token? d =
      if d = row.tokenHash then some row else st.token? d := by
  have hfree' : (st.recordLogin userId now).token? row.tokenHash = none := hfree
  rw [token?_putToken hfree', token?_recordLogin]

/-- The tokens after a rotation of `parent`. -/
theorem token?_rotate {row : RefreshToken} (hfree : st.token? row.tokenHash = none)
    (parent : String) (now : Instant) (d : String) :
    ((st.revokeHash parent now).putToken row).token? d =
      if d = row.tokenHash then some row
      else if d = parent then (st.token? d).map (·.revoke now) else st.token? d := by
  have hfree' : (st.revokeHash parent now).token? row.tokenHash = none := by
    rw [token?_revokeHash, hfree, Option.map_none, ite_self]
  rw [token?_putToken hfree', token?_revokeHash]

/-- Storing a token touches no other table. -/
theorem tables_putToken (st : Store) (row : RefreshToken) :
    (st.putToken row).users = st.users ∧ (st.putToken row).organizations = st.organizations ∧
      (st.putToken row).memberships = st.memberships := by
  unfold Store.putToken Store.insertToken?
  cases st.refreshTokens.insert? row <;> exact ⟨rfl, rfl, rfl⟩

/-- **Issuing** adds one token row, under a hash that was free. -/
theorem issue_eq_ok {userId : ℕ} {user : User} {organization : Organization} {role : Role}
    {familyId : Option FamilyId} {context : ClientContext} {d : Draw} {issued : IssuedSession τ}
    (h : issue C st userId user organization role familyId context d = .ok (st', issued)) :
    st.token? (C.hashRefreshToken d.plaintext) = none ∧
      st' = st.putToken (tokenRow C userId familyId context d) ∧
      issued = issuedSession C user organization role d := by
  unfold issue at h
  split at h
  · rename_i st₁ hinsert
    rw [Except.ok.injEq, Prod.mk.injEq] at h
    obtain ⟨rfl, rfl⟩ := h
    obtain ⟨hfree, heq⟩ := insertToken?_eq_some hinsert
    exact ⟨hfree, heq, rfl⟩
  · cases h

/-- Credentials name an active user of the store. -/
theorem credentialsOf_eq_some {email password : String} {userId : ℕ} {user : User}
    {membership : Membership} {organization : Organization}
    (h : credentialsOf C U st email password = some (userId, user, membership, organization)) :
    st.users.find? userId = some user ∧ user.isActive = true := by
  unfold credentialsOf at h
  split at h
  · cases h
  · rename_i userId' user' hfind
    split at h
    · rename_i hvalid
      obtain ⟨r, -, heq⟩ := Option.map_eq_some_iff.mp h
      obtain ⟨rfl, rfl, -⟩ : userId' = userId ∧ user' = user ∧ r = (membership, organization) := by
        simpa using heq
      exact ⟨Table.find?_eq_some_iff.mpr (List.mem_of_find?_eq_some hfind), hvalid.2⟩
    · cases h

/-- An owner is an active user of the store. -/
theorem ownerOf_eq_some {userId : ℕ} {user : User} {membership : Membership}
    {organization : Organization} (h : ownerOf st userId = some (user, membership, organization)) :
    st.users.find? userId = some user ∧ user.isActive = true := by
  unfold ownerOf at h
  split at h
  · cases h
  · rename_i user' hfind
    split at h
    · rename_i hactive
      obtain ⟨r, -, heq⟩ := Option.map_eq_some_iff.mp h
      obtain ⟨rfl, -⟩ : user' = user ∧ r = (membership, organization) := by simpa using heq
      exact ⟨hfind, hactive⟩
    · cases h

/-- **A sign-in** issues the first token of a new family. -/
theorem login_eq_ok {email password : String} {context : ClientContext} {d : Draw}
    {issued : IssuedSession τ}
    (h : login C U st email password context d = (st', .ok issued)) :
    ∃ userId user membership organization,
      credentialsOf C U st email password = some (userId, user, membership, organization) ∧
      st.token? (C.hashRefreshToken d.plaintext) = none ∧
      st' = (st.recordLogin userId d.now).putToken (tokenRow C userId none context d) ∧
      issued = issuedSession C user organization membership.role d := by
  unfold login at h
  split at h
  · rename_i st₁ issued₁ hauth
    rw [Prod.mk.injEq, Except.ok.injEq] at h
    obtain ⟨rfl, rfl⟩ := h
    unfold authenticate at hauth
    split at hauth
    · cases hauth
    · rename_i userId user membership organization hcredentials
      exact ⟨userId, user, membership, organization, hcredentials, issue_eq_ok hauth⟩
  · cases h

/-- A refused sign-in commits nothing. -/
theorem login_eq_error {email password : String} {context : ClientContext} {d : Draw}
    {e : AuthError} (h : login C U st email password context d = (st', .error e)) : st' = st := by
  unfold login at h
  split at h
  · cases h
  · exact (Prod.mk.inj h).1.symm

/-- **An accepted rotation** revokes the presented token, which was not revoked, and adds
its successor under the same family. -/
theorem rotateRefreshToken_eq_ok {presented : String} {context : ClientContext} {d : Draw}
    {issued : IssuedSession τ}
    (h : rotateRefreshToken C st presented context d = (st', .ok issued)) :
    ∃ stored user membership organization,
      st.token? (C.hashRefreshToken presented) = some stored ∧ stored.revokedAt = none ∧
      d.now < stored.expiresAt ∧
      ownerOf st stored.userId = some (user, membership, organization) ∧
      st.token? (C.hashRefreshToken d.plaintext) = none ∧
      st' = (st.revokeHash (C.hashRefreshToken presented) d.now).putToken
        (tokenRow C stored.userId (some stored.familyId) context d) ∧
      issued = issuedSession C user organization membership.role d := by
  unfold rotateRefreshToken at h
  simp only at h
  split at h
  · cases (Prod.mk.inj h).2
  · rename_i stored hstored
    split at h
    · cases (Prod.mk.inj h).2
    · rename_i hlive
      split at h
      · cases (Prod.mk.inj h).2
      · rename_i hexpires
        split at h
        · cases (Prod.mk.inj h).2
        · rename_i user membership organization howner
          split at h
          · rename_i st₁ issued₁ hissue
            rw [Prod.mk.injEq, Except.ok.injEq] at h
            obtain ⟨rfl, rfl⟩ := h
            obtain ⟨hfree, hst, hissued⟩ := issue_eq_ok hissue
            refine ⟨stored, user, membership, organization, hstored, not_not.mp hlive,
              not_le.mp hexpires, howner, ?_, hst, hissued⟩
            rw [token?_revokeHash] at hfree
            split at hfree
            · rename_i heq
              rw [heq, hstored] at hfree
              cases hfree
            · exact hfree
          · cases (Prod.mk.inj h).2

/-- **A refused rotation** commits nothing, but for a revoked token: then its family is
revoked. -/
theorem rotateRefreshToken_eq_error {presented : String} {context : ClientContext} {d : Draw}
    {e : AuthError} (h : rotateRefreshToken C st presented context d = (st', .error e)) :
    st' = st ∨
      ∃ stored, st.token? (C.hashRefreshToken presented) = some stored ∧
        stored.revokedAt ≠ none ∧ st' = revokeFamily st stored.familyId d.now := by
  unfold rotateRefreshToken at h
  simp only at h
  split at h
  · exact Or.inl (Prod.mk.inj h).1.symm
  · rename_i stored hstored
    split at h
    · rename_i hrevoked
      exact Or.inr ⟨stored, hstored, hrevoked, (Prod.mk.inj h).1.symm⟩
    · refine Or.inl ?_
      split at h
      · exact (Prod.mk.inj h).1.symm
      · split at h
        · exact (Prod.mk.inj h).1.symm
        · split at h
          · cases (Prod.mk.inj h).2
          · exact (Prod.mk.inj h).1.symm

/-- A sign-out revokes the presented token, or commits nothing. -/
theorem logout_eq (C : Crypto τ) (st : Store) (presented : Option String) (now : Instant) :
    logout C st presented now = st ∨
      ∃ token, presented = some token ∧
        logout C st presented now = st.revokeHash (C.hashRefreshToken token) now := by
  cases presented with
  | none => exact Or.inl rfl
  | some token =>
      unfold logout revokeToken
      simp only
      split
      · exact Or.inl rfl
      · split
        · exact Or.inl rfl
        · split
          · exact Or.inl rfl
          · exact Or.inr ⟨token, rfl, rfl⟩

end ProcureSignal.Auth
