/-
# Safe destinations

`URLSafetyPolicy` of `retrieval/security.py`.  What the resolver answers is an argument; which
addresses are global is a parameter.

* `validate_eq_ok` : what an accepted URL is.
-/
import ProcureSignal.Retrieval.Url

namespace ProcureSignal.Retrieval

/-! ## Addresses -/

/-- `IPv4Address` or `IPv6Address`. -/
inductive IPAddress
  | v4 (n : BitVec 32)
  | v6 (n : BitVec 128)
  deriving DecidableEq, Repr

/-- `address.ipv4_mapped`: the last 32 bits of `::ffff:0:0/96`. -/
def IPAddress.ipv4Mapped : IPAddress → Option (BitVec 32)
  | v4 _ => none
  | v6 n => if n >>> 32 = 0xFFFF#128 then some (n.setWidth 32) else none

/-- `ipaddress`: the literal in a host, and `is_global`. -/
structure Addresses where
  ipAddress : String → Option IPAddress
  isGlobal : IPAddress → Bool

/-- `_is_public`: an IPv4-mapped address counts as the IPv4 address. -/
def Addresses.isPublic (A : Addresses) (address : IPAddress) : Bool :=
  A.isGlobal ((address.ipv4Mapped.map .v4).getD address)

/-! ## The policy -/

/-- What the resolver does: an answer, an `OSError` or a `KeyError`, or another exception. -/
inductive Resolution
  | addresses (l : List IPAddress)
  | failed
  | raised
  deriving DecidableEq, Repr

/-- `ValidatedURL`. -/
structure ValidatedURL where
  url : String
  host : String
  port : ℕ
  addresses : List IPAddress
  deriving DecidableEq, Repr

/-- `UnsafeURL`, or another exception. -/
inductive ValidationError
  | unsafeUrl
  | other
  deriving DecidableEq, Repr

/-- `item.rstrip(".").lower()`. -/
def normalizedHost (U : Unicode) (host : String) : String :=
  U.lower (String.ofList (host.toList.rdropWhile (· = '.')))

variable (U : Unicode) (L : UrlParsing) (A : Addresses)

/-- `URLSafetyPolicy.validate`. -/
def validate (url : String) (allowedHosts : List String) (answer : Resolution) :
    Except ValidationError ValidatedURL :=
  match L.urlsplit url with
  | none => .error .other
  | some parsed =>
      let host := parsed.hostname.getD ""
      if parsed.scheme ≠ "https" ∨ host = "" ∨ parsed.username ≠ none ∨ parsed.password ≠ none ∨
          normalizedHost U host ∉ allowedHosts.map (normalizedHost U) then
        .error .unsafeUrl
      else
        match parsed.port with
        | none => .error .other
        | some port =>
            let resolved : Except ValidationError (List IPAddress) :=
              match A.ipAddress host, answer with
              | some literal, _ => .ok [literal]
              | none, .addresses l => .ok l
              | none, .failed => .error .unsafeUrl
              | none, .raised => .error .other
            match resolved with
            | .error e => .error e
            | .ok addresses =>
                if addresses = [] ∨ ∃ a ∈ addresses, A.isPublic a = false then .error .unsafeUrl
                else .ok ⟨url, U.lower host, if port.getD 0 = 0 then 443 else port.getD 0, addresses⟩

/-- An accepted URL: `https` without credentials to an allowed host, all of whose addresses are
public, and there is one. -/
structure Accepted (url : String) (allowedHosts : List String) (v : ValidatedURL) : Prop where
  url_eq : v.url = url
  parsed : ∃ parsed host, L.urlsplit url = some parsed ∧ parsed.scheme = "https" ∧
    parsed.username = none ∧ parsed.password = none ∧ parsed.hostname = some host ∧
    host ≠ "" ∧ v.host = U.lower host ∧
    normalizedHost U host ∈ allowedHosts.map (normalizedHost U)
  addresses_ne : v.addresses ≠ []
  isPublic : ∀ a ∈ v.addresses, A.isPublic a = true

variable {U L A}

/-- **What the policy accepts.** -/
theorem validate_eq_ok {url : String} {allowedHosts : List String} {answer : Resolution}
    {v : ValidatedURL} (h : validate U L A url allowedHosts answer = .ok v) :
    Accepted U L A url allowedHosts v := by
  unfold validate at h
  split at h
  · exact absurd h (by simp)
  rename_i parsed hparsed
  dsimp only at h
  split at h
  · exact absurd h (by simp)
  rename_i hallowed
  push Not at hallowed
  obtain ⟨hscheme, hhost, husername, hpassword, hmem⟩ := hallowed
  split at h
  · exact absurd h (by simp)
  split at h
  · exact absurd h (by simp)
  rename_i addresses hresolved
  split at h
  · exact absurd h (by simp)
  rename_i hpublic
  push Not at hpublic
  obtain rfl := Except.ok.inj h
  refine ⟨rfl, ?_, hpublic.1, fun a ha => by simpa using hpublic.2 a ha⟩
  cases hhostname : parsed.hostname with
  | none => exact absurd (by rw [hhostname]; rfl) hhost
  | some host =>
      rw [hhostname, Option.getD_some] at hhost hmem
      exact ⟨parsed, host, hparsed, hscheme, husername, hpassword, hhostname, hhost, rfl, hmem⟩

end ProcureSignal.Retrieval
