/-
# URLs

`canonicalize_url` of `retrieval/deduplication.py`, over what `urllib.parse` makes of a URL.
-/
import ProcureSignal.Library.Unicode

namespace ProcureSignal.Retrieval

/-- `SplitResult` with its derived attributes; `port` is absent when reading it raises. -/
structure SplitUrl where
  scheme : String
  username : Option String
  password : Option String
  hostname : Option String
  port : Option (Option ℕ)
  path : String
  query : String
  deriving DecidableEq, Repr

/-- The functions of `urllib.parse`; an absent result is a `ValueError`. -/
structure UrlParsing where
  urlsplit : String → Option SplitUrl
  urljoin : String → String → Option String
  /-- `parse_qsl(·, keep_blank_values=True)` -/
  parseQsl : String → List (String × String)
  urlencode : List (String × String) → String
  /-- the scheme, the network location, the path and the query -/
  urlunsplit : String → String → String → String → String

/-- `_TRACKING_PARAMETERS`. -/
def trackingParameters : List String :=
  ["fbclid", "gclid", "mc_cid", "mc_eid", "ref", "referrer"]

/-- `canonicalize_url`; absent when it raises. -/
def canonicalizeUrl (U : Unicode) (L : UrlParsing) (url : String) : Option String :=
  (L.urlsplit (U.strip url)).bind fun parsed =>
    parsed.port.map fun port =>
      let scheme := U.lower parsed.scheme
      let host := U.lower (parsed.hostname.getD "")
      let hostname := if ':' ∈ host.toList then "[" ++ host ++ "]" else host
      let netloc :=
        match port with
        | some n =>
            if scheme = "https" ∧ n = 443 ∨ scheme = "http" ∧ n = 80 then hostname
            else hostname ++ ":" ++ toString n
        | none => hostname
      let query := (L.parseQsl parsed.query).filter fun p =>
        ¬ (U.lower p.1).startsWith "utm_" ∧ U.lower p.1 ∉ trackingParameters
      L.urlunsplit scheme netloc (if parsed.path = "" then "/" else parsed.path)
        (L.urlencode query)

end ProcureSignal.Retrieval
