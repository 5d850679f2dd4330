/-
# Token families as lineages

The refresh tokens of a store are a lineage in the sense of `Library.Lineage`: a row is
live while it is not revoked, and what a row's family is may be read off any columns but
`revoked_at`.  Each write of the service is one renewal.
-/
import ProcureSignal.Auth.Service
import ProcureSignal.Library.Lineage

namespace ProcureSignal.Auth

open Lineage

/-- Not revoked. -/
def RefreshToken.Live (row : RefreshToken) : Prop := row.revokedAt = none

instance (row : RefreshToken) : Decidable row.Live := inferInstanceAs (Decidable (_ = none))

/-- The tokens descended from one sign-in share this. -/
def RefreshToken.lineage (row : RefreshToken) : ℕ × FamilyId := (row.userId, row.familyId)

variable {τ φ : Type} {C : Crypto τ} {U : Unicode} {st : Store}

section renewals

variable {family : RefreshToken → φ}

/-- Revoking rows is a renewal. -/
theorem renewal_revokeRows (hfamily : ∀ row now, family (row.revoke now) = family row)
    (st : Store) (p : RefreshToken → Bool) (now : Instant) :
    Renewal family RefreshToken.Live st.token? (st.revokeRows p now).token? := by
  refine .retire ?_ ?_
  · intro d row hrow
    refine ⟨if p row then row.revoke now else row, by rw [token?_revokeRows, hrow]; rfl, ?_⟩
    split
    · exact ⟨hfamily row now, nofun⟩
    · exact .refl row
  · intro d hnone
    rw [token?_revokeRows, hnone]
    rfl

/-- Storing a token under a free hash keeps the others. -/
theorem keeps_putToken {row : RefreshToken} (hfree : st.token? row.tokenHash = none) :
    Keeps family RefreshToken.Live st.token? (st.putToken row).token? := by
  intro d r hr
  refine ⟨r, ?_, .refl r⟩
  rw [token?_putToken hfree, if_neg, hr]
  rintro rfl
  rw [hfree] at hr
  cases hr

/-- A sign-in keeps the other tokens. -/
theorem keeps_signIn {row : RefreshToken} (hfree : st.token? row.tokenHash = none) (userId : ℕ)
    (now : Instant) :
    Keeps family RefreshToken.Live st.token?
      ((st.recordLogin userId now).putToken row).token? := by
  have hfree' : (st.recordLogin userId now).token? row.tokenHash = none := hfree
  exact keeps_putToken hfree'

/-- **A sign-in founds a family.** -/
theorem renewal_signIn {row : RefreshToken} (hfree : st.token? row.tokenHash = none)
    (hfresh : ∀ d r, st.token? d = some r → family r ≠ family row) (userId : ℕ) (now : Instant) :
    Renewal family RefreshToken.Live st.token?
      ((st.recordLogin userId now).putToken row).token? := by
  refine .found row.tokenHash row (keeps_signIn hfree userId now) hfree ?_ hfresh
  intro d hnone
  rw [token?_signIn hfree, hnone]

/-- A rotation keeps the other tokens. -/
theorem keeps_rotate (hfamily : ∀ row now, family (row.revoke now) = family row)
    {row : RefreshToken} (hfree : st.token? row.tokenHash = none) (parent : String)
    (now : Instant) :
    Keeps family RefreshToken.Live st.token?
      ((st.revokeHash parent now).putToken row).token? := by
  intro d r hr
  have hnotnew : d ≠ row.tokenHash := by
    rintro rfl
    rw [hfree] at hr
    cases hr
  rw [token?_rotate hfree, if_neg hnotnew, ← token?_revokeHash]
  exact (renewal_revokeRows hfamily st _ now).keeps d r hr

/-- **A rotation replaces the presented token.** -/
theorem renewal_rotate (hfamily : ∀ row now, family (row.revoke now) = family row)
    {parent : String} {stored row : RefreshToken} {now : Instant}
    (hstored : st.token? parent = some stored) (hlive : stored.Live)
    (hfree : st.token? row.tokenHash = none) (hinherits : family row = family stored) :
    Renewal family RefreshToken.Live st.token? ((st.revokeHash parent now).putToken row).token? := by
  have hnotnew : parent ≠ row.tokenHash := by
    rintro rfl
    rw [hfree] at hstored
    cases hstored
  refine .exchange parent row.tokenHash row stored (stored.revoke now)
    (keeps_rotate hfamily hfree parent now) hfree ?_ hstored hlive ?_ nofun hinherits
  · intro d hnone
    rw [token?_rotate hfree, hnone, Option.map_none, ite_self]
  · rw [token?_rotate hfree, if_neg hnotnew, if_pos rfl, hstored]
    rfl

end renewals

/-! ## Columns of a new row -/

@[simp] theorem familyId_revoke (row : RefreshToken) (now : Instant) :
    (row.revoke now).familyId = row.familyId := rfl

@[simp] theorem lineage_revoke (row : RefreshToken) (now : Instant) :
    (row.revoke now).lineage = row.lineage := rfl

@[simp] theorem live_tokenRow (userId : ℕ) (familyId : Option FamilyId) (context : ClientContext)
    (d : Draw) : (tokenRow C userId familyId context d).Live := rfl

/-- A sign-in takes the family drawn for it. -/
@[simp] theorem familyId_tokenRow_none (userId : ℕ) (context : ClientContext) (d : Draw) :
    (tokenRow C userId none context d).familyId = d.familyId := rfl

/-- A rotation inherits the family. -/
@[simp] theorem familyId_tokenRow_some (userId : ℕ) (familyId : FamilyId)
    (context : ClientContext) (d : Draw) :
    (tokenRow C userId (some familyId) context d).familyId = familyId := rfl

end ProcureSignal.Auth
