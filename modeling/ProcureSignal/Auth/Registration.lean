/-
# Registration and invitations

The functions of `auth/service.py` that create users and memberships (`register`,
`create_invitation`, `_redeem_invitation`) with the route `invite` of `api/routers/auth.py`
and `require_role` of `api/dependencies.py`.

A registration runs in three parts, as its statements do: it looks for the address, finds a
place (a new organization or an invitation), and commits its unit of work.  The name and the
slug of a new organization are left out: nothing here reads them, and a clash of slugs rolls
the registration back as any other failure of the database does.
-/
import ProcureSignal.Auth.Service

namespace ProcureSignal.Auth

/-! ## Roles -/

/-- `_ROLE_RANK`: strongest first. -/
def Role.rank : Role → ℕ
  | .owner => 0
  | .admin => 1
  | .member => 2
  | .viewer => 3

/-- `Role(text)`, which raises on any other text. -/
def Role.parse : String → Option Role
  | "owner" => some .owner
  | "admin" => some .admin
  | "member" => some .member
  | "viewer" => some .viewer
  | _ => none

/-! ## Rows -/

/-- `OrganizationInvitation`. -/
structure OrganizationInvitation where
  organizationId : ℕ
  invitedByUserId : Option ℕ
  email : String
  role : Role
  tokenHash : String
  expiresAt : Instant
  acceptedAt : Option Instant
  deriving DecidableEq, Repr

/-- `organization_invitations`: unique `token_hash`. -/
abbrev InvitationTable :=
  UniqueTable OrganizationInvitation String [fun i => some i.tokenHash]

/-- The identity tables with the invitations. -/
structure Tenants extends Store where
  invitations : InvitationTable

/-- Nobody has registered. -/
def Tenants.empty : Tenants :=
  ⟨⟨UniqueTable.empty, UniqueTable.empty, Table.empty, UniqueTable.empty⟩, UniqueTable.empty⟩

/-- `INVITATION_TTL`. -/
def invitationTtl : ℤ := days 7

/-- Why a registration was refused. -/
inductive RegistrationError
  | emailAlreadyRegistered (address : String)
  | invalidInvitation (detail : String)
  | invitationAlreadyUsed (detail : String)
  | databaseError
  deriving DecidableEq, Repr

/-- What one registration draws: the identifiers of the user and of a new organization, the
salted hash of the password, the clock at the two reads of it, and its session. -/
structure RegistrationDraw where
  userPublicId : String
  organizationPublicId : String
  passwordHash : String
  now : Instant
  acceptedAt : Instant
  session : Draw
  deriving DecidableEq, Repr

/-- The organization a registration joins. -/
inductive Placement
  /-- `_new_organization_for` -/
  | founded (organization : Organization)
  /-- `_redeem_invitation`: the invitation under its key, and its organization -/
  | invited (id : ℕ) (invitation : OrganizationInvitation) (organization : Organization)
  deriving DecidableEq, Repr

/-- The organization of a place. -/
def Placement.organization : Placement → Organization
  | .founded organization | .invited _ _ organization => organization

/-- The role that goes with a place. -/
def Placement.role : Placement → Role
  | .founded _ => .owner
  | .invited _ invitation _ => invitation.role

/-- The invitation of a place, as it was read. -/
def Placement.invitation? : Placement → Option OrganizationInvitation
  | .founded _ => none
  | .invited _ invitation _ => some invitation

/-- The key of the invitation a place redeems. -/
def Placement.redeemed : Placement → Option ℕ
  | .founded _ => none
  | .invited id _ _ => some id

/-- A registration whose unit of work is ready. -/
structure Registration where
  address : String
  placement : Placement
  context : ClientContext
  draw : RegistrationDraw
  deriving DecidableEq, Repr

/-! ## The service -/

variable {τ : Type} (C : Crypto τ) (U : Unicode)

/-- An account with this address. -/
def registered (st : Store) (address : String) : Bool :=
  st.users.values.any fun user => user.email = address

/-- The invitation with the given token, under its key. -/
def Tenants.invitation? (st : Tenants) (digest : String) : Option (ℕ × OrganizationInvitation) :=
  st.invitations.rows.find? fun r => r.2.tokenHash = digest

/-- `_redeem_invitation`: what it decides; `accepted_at` is written at the commit. -/
def redeemInvitation (st : Tenants) (token email : String) (now : Instant) :
    Except RegistrationError Placement :=
  match st.invitation? (C.hashRefreshToken token) with
  | none => .error (.invalidInvitation "that invitation is not valid")
  | some (id, invitation) =>
      if invitation.expiresAt ≤ now then
        .error (.invalidInvitation "that invitation is not valid")
      else if invitation.acceptedAt ≠ none then
        .error (.invitationAlreadyUsed "that invitation has already been used")
      else if invitation.email ≠ normalizeEmail U email then
        .error (.invalidInvitation "that invitation was issued for another address")
      else
        match st.organizations.find? invitation.organizationId with
        | none => .error (.invalidInvitation "that invitation is not valid")
        | some organization => .ok (.invited id invitation organization)

/-- The place of a registration; an empty token counts as none. -/
def place (st : Tenants) (address : String) (invitationToken : Option String)
    (d : RegistrationDraw) : Except RegistrationError Placement :=
  match invitationToken with
  | none => .ok (.founded ⟨d.organizationPublicId⟩)
  | some token =>
      if token = "" then .ok (.founded ⟨d.organizationPublicId⟩)
      else redeemInvitation C U st token address d.now

namespace Registration

variable (r : Registration)

/-- The row of the new user. -/
def user : User where
  publicId := r.draw.userPublicId
  email := r.address
  passwordHash := some r.draw.passwordHash
  isActive := true
  tokenVersion := 0
  lastLoginAt := none

/-- The key of the organization it joins; a new organization takes the next key. -/
def organizationId (st : Store) : ℕ :=
  match r.placement with
  | .founded _ => st.organizations.nextId
  | .invited _ invitation _ => invitation.organizationId

/-- The row of the new membership. -/
def membership (st : Store) : Membership where
  userId := st.users.nextId
  organizationId := r.organizationId st
  role := r.placement.role

/-- The organizations with a new one. -/
def organizations? (st : Store) : Option OrganizationTable :=
  match r.placement with
  | .founded organization => st.organizations.insert? organization
  | .invited _ _ _ => some st.organizations

/-- The invitations with the redeemed one accepted. -/
def invitations (st : Tenants) : InvitationTable :=
  match r.placement with
  | .founded _ => st.invitations
  | .invited id _ _ =>
      st.invitations.update (fun i _ => i = id)
        (fun invitation => { invitation with acceptedAt := some r.draw.acceptedAt }) (by simp)

/-- The unit of work of a registration: the rejected rows roll it back. -/
def commit? (st : Tenants) : Option (Tenants × IssuedSession τ) :=
  (r.organizations? st.toStore).bind fun organizations =>
    (st.users.insert? r.user).bind fun users =>
      let row := tokenRow C st.users.nextId none r.context r.draw.session
      (st.refreshTokens.insert? row).map fun refreshTokens =>
        ({ users := users
           organizations := organizations
           memberships := st.memberships.insert (r.membership st.toStore)
           refreshTokens := refreshTokens
           invitations := r.invitations st },
          issuedSession C r.user r.placement.organization r.placement.role r.draw.session)

end Registration

/-- `register`, from its start to its commit. -/
def register (st : Tenants) (email : String) (invitationToken : Option String)
    (context : ClientContext) (d : RegistrationDraw) :
    Except RegistrationError (Tenants × IssuedSession τ) :=
  let address := normalizeEmail U email
  if registered st.toStore address then .error (.emailAlreadyRegistered address)
  else
    match place C U st address invitationToken d with
    | .error e => .error e
    | .ok placement =>
        match (Registration.mk address placement context d).commit? C st with
        | some result => .ok result
        | none => .error .databaseError

/-- The row `create_invitation` adds. -/
def invitationRow (organizationId : ℕ) (email : String) (role : Role)
    (invitedByUserId : Option ℕ) (plaintext : String) (now : Instant) :
    OrganizationInvitation where
  organizationId := organizationId
  invitedByUserId := invitedByUserId
  email := normalizeEmail U email
  role := role
  tokenHash := C.hashRefreshToken plaintext
  expiresAt := now + invitationTtl
  acceptedAt := none

/-! ## The route `invite` -/

/-- `require_role`: the caller behind a token, holding `minimum` or a stronger role. -/
def requireRole (minimum : Role) (st : Store) (token : τ) (now : Instant) :
    Option AuthenticatedUser :=
  (resolveAccessToken C st token now).filter fun user => user.role.rank ≤ minimum.rank

/-- The invitation `invite` is about to store: an admin's, with the role of the payload. -/
def offer (st : Store) (token : τ) (email role : String) (plaintext : String) (now : Instant) :
    Option OrganizationInvitation :=
  (requireRole C .admin st token now).bind fun caller =>
    (Role.parse role).map fun role =>
      invitationRow C U caller.organizationId email role (some caller.id) plaintext now

/-- The commit of `invite`. -/
def Tenants.invite? (st : Tenants) (invitation : OrganizationInvitation) : Option Tenants :=
  (st.invitations.insert? invitation).map fun invitations => { st with invitations := invitations }

/-! ## What the calls do -/

variable {C U} {st st' : Tenants}

/-- A place that redeems an invitation. -/
theorem exists_of_redeemed {placement : Placement} {id : ℕ} (h : placement.redeemed = some id) :
    ∃ invitation organization, placement = .invited id invitation organization := by
  cases placement with
  | founded organization => cases h
  | invited i invitation organization =>
      rw [Placement.redeemed, Option.some.injEq] at h
      exact ⟨invitation, organization, by rw [h]⟩

/-- Normalizing an address twice changes nothing more. -/
theorem normalizeEmail_normalizeEmail (hU : U.LowerLaws) (email : String) :
    normalizeEmail U (normalizeEmail U email) = normalizeEmail U email := by
  unfold normalizeEmail
  rw [hU.strip_lower_strip, hU.lower_lower]

/-- **A redemption** finds an unexpired, unaccepted invitation for the address. -/
theorem redeemInvitation_eq_ok {token email : String} {now : Instant} {placement : Placement}
    (h : redeemInvitation C U st token email now = .ok placement) :
    ∃ id invitation organization, placement = .invited id invitation organization ∧
      st.invitations.find? id = some invitation ∧ now < invitation.expiresAt ∧
      invitation.acceptedAt = none ∧ invitation.email = normalizeEmail U email := by
  unfold redeemInvitation at h
  split at h
  · cases h
  · rename_i id invitation hfind
    split at h
    · cases h
    · rename_i hexpires
      split at h
      · cases h
      · rename_i haccepted
        split at h
        · cases h
        · rename_i hemail
          split at h
          · cases h
          · rename_i organization horganization
            refine ⟨id, invitation, organization, (Except.ok.inj h).symm, ?_, not_le.mp hexpires,
              not_not.mp haccepted, not_not.mp hemail⟩
            exact Table.find?_eq_some_iff.mpr (List.mem_of_find?_eq_some hfind)

/-- A place is a new organization or a redeemed invitation. -/
theorem place_eq_ok {address : String} {token : Option String} {d : RegistrationDraw}
    {placement : Placement} (h : place C U st address token d = .ok placement) :
    (∃ organization, placement = .founded organization) ∨
      ∃ id invitation organization, placement = .invited id invitation organization ∧
        st.invitations.find? id = some invitation ∧ d.now < invitation.expiresAt ∧
        invitation.acceptedAt = none ∧ invitation.email = normalizeEmail U address := by
  unfold place at h
  split at h
  · exact Or.inl ⟨_, (Except.ok.inj h).symm⟩
  · split at h
    · exact Or.inl ⟨_, (Except.ok.inj h).symm⟩
    · exact Or.inr (redeemInvitation_eq_ok h)

/-- **The commit of a registration** adds the user, whose address was free, the membership
and what its place says. -/
theorem commit?_eq_some {r : Registration} {issued : IssuedSession τ}
    (h : r.commit? C st = some (st', issued)) :
    r.organizations? st.toStore = some st'.organizations ∧
      (∃ hfree, st'.users = st.users.insertFree r.user hfree) ∧
      st'.memberships = st.memberships.insert (r.membership st.toStore) ∧
      st'.invitations = r.invitations st := by
  simp only [Registration.commit?, Option.bind_eq_some_iff, Option.map_eq_some_iff] at h
  obtain ⟨organizations, horganizations, users, husers, tokens, -, heq⟩ := h
  rw [Prod.mk.injEq] at heq
  obtain ⟨rfl, -⟩ := heq
  exact ⟨horganizations, UniqueTable.insert?_eq_some_iff.mp husers, rfl, rfl⟩

/-- **A registration signs in**: the first token of a new family is stored, under a hash that
was free. -/
theorem token?_of_commit? {r : Registration} {issued : IssuedSession τ}
    (h : r.commit? C st = some (st', issued)) :
    st.token? (C.hashRefreshToken r.draw.session.plaintext) = none ∧
      (∀ d, st'.token? d = if d = C.hashRefreshToken r.draw.session.plaintext then
        some (tokenRow C st.users.nextId none r.context r.draw.session) else st.token? d) ∧
      issued.refreshToken = r.draw.session.plaintext := by
  simp only [Registration.commit?, Option.bind_eq_some_iff, Option.map_eq_some_iff] at h
  obtain ⟨organizations, -, users, -, tokens, htokens, heq⟩ := h
  rw [Prod.mk.injEq] at heq
  obtain ⟨rfl, rfl⟩ := heq
  have hinsert : st.toStore.insertToken?
      (tokenRow C st.users.nextId none r.context r.draw.session) =
        some { st.toStore with refreshTokens := tokens } := by
    rw [Store.insertToken?, htokens]
    rfl
  obtain ⟨hfree, hput⟩ := insertToken?_eq_some hinsert
  refine ⟨hfree, ?_, rfl⟩
  intro d
  show ({ st.toStore with refreshTokens := tokens } : Store).token? d = _
  rw [hput, token?_putToken hfree]
  rfl

/-- An accepted registration is the commit of its unit of work. -/
theorem register_eq_ok {email : String} {token : Option String} {context : ClientContext}
    {d : RegistrationDraw} {issued : IssuedSession τ}
    (h : register C U st email token context d = .ok (st', issued)) :
    ∃ r : Registration, r.draw = d ∧ r.context = context ∧ r.commit? C st = some (st', issued) := by
  unfold register at h
  simp only at h
  split at h
  · cases h
  · split at h
    · cases h
    · split at h
      · rename_i result hcommit
        rw [Except.ok.injEq] at h
        subst h
        exact ⟨_, rfl, rfl, hcommit⟩
      · cases h

/-- An offer is made by a member of the organization who is an admin or an owner. -/
theorem offer_eq_some {st : Store} {token : τ} {email role plaintext : String} {now : Instant}
    {invitation : OrganizationInvitation}
    (h : offer C U st token email role plaintext now = some invitation) :
    ∃ caller callerRole, invitation.invitedByUserId = some caller ∧
      (⟨caller, invitation.organizationId, callerRole⟩ : Membership) ∈ st.memberships.values ∧
      callerRole.rank ≤ Role.admin.rank ∧ invitation.acceptedAt = none := by
  unfold offer requireRole at h
  rw [Option.bind_eq_some_iff] at h
  obtain ⟨caller, hcaller, h⟩ := h
  rw [Option.filter_eq_some_iff, decide_eq_true_eq] at hcaller
  obtain ⟨offered, -, rfl⟩ := Option.map_eq_some_iff.mp h
  exact ⟨caller.id, caller.role, rfl, resolveAccessToken_eq_some hcaller.1, hcaller.2, rfl⟩

end ProcureSignal.Auth
