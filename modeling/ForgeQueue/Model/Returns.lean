import ForgeQueue.Base.Utf8
import ForgeQueue.Model.Oidc

/-!
# Where a login returns to

`internal/auth/oidc.go`, the targets a login may be sent back to (`NewOIDC`,
`SetAllowedOrigins`, `ResolveReturn`, `originOf`), and `redirectTo` of
`internal/httpapi/handlers.go`, which sends the browser there.

`urlParse` is `url.Parse` as far as these read its result: scheme and host as RFC 3986 cuts
them out of a reference, and the host without its escapes, so it is bytes. It rejects more
than is said here (control characters, bad ports, bad user information); which texts it
accepts is a parameter.
-/

namespace ForgeQueue

open Base

/-- The checks of `url.Parse` beyond cutting the reference into its parts. -/
class UrlLib where
  accepts : String → Bool

/-- The parts of a parsed reference; empty when they are missing. -/
structure Url where
  scheme : String
  host : Bytes
  deriving DecidableEq

/-- `scheme://host`. -/
def Url.origin (u : Url) : Bytes := utf8 (u.scheme.toList ++ "://".toList) ++ u.host

def isLetter (c : Char) : Bool := ('a' ≤ c && c ≤ 'z') || ('A' ≤ c && c ≤ 'Z')

/-- A character of a scheme. -/
def isSchemeChar (c : Char) : Bool :=
  isLetter c || ('0' ≤ c && c ≤ '9') || c == '+' || c == '-' || c == '.'

/-- `getScheme`: the scheme, if there is one, and what follows. A leading colon is an
error. -/
def getScheme (s : Text) : Option (Text × Text) :=
  match s.dropWhile isSchemeChar with
  | ':' :: rest =>
    match s.takeWhile isSchemeChar with
    | [] => none
    | c :: cs => if isLetter c then some (c :: cs, rest) else some ([], s)
  | _ => some ([], s)

/-- The authority: between a double slash and the path, the query or the fragment. -/
def authorityOf (rest : Text) : Option Text :=
  match rest with
  | '/' :: '/' :: rest => some (rest.takeWhile fun c => c != '/' && c != '?' && c != '#')
  | _ => none

/-- The host with its port: what follows the user information. -/
def hostOf (authority : Text) : Text := (authority.reverse.takeWhile (· != '@')).reverse

/-- The value of a hexadecimal digit. -/
def unhex (c : Char) : Option ℕ :=
  if '0' ≤ c ∧ c ≤ '9' then some (c.toNat - '0'.toNat)
  else if 'a' ≤ c ∧ c ≤ 'f' then some (c.toNat - 'a'.toNat + 10)
  else if 'A' ≤ c ∧ c ≤ 'F' then some (c.toNat - 'A'.toNat + 10)
  else none

/-- `unescape` in the modes `encodeHost` and `encodeZone`. In a host an escape may only stand
for a byte beyond ASCII or for the percent sign. -/
def unescape (zone : Bool) : Text → Option Bytes
  | [] => some []
  | '%' :: x :: y :: rest => do
    let high ← unhex x
    let low ← unhex y
    if zone ∨ 8 ≤ high ∨ (high = 2 ∧ low = 5) then
      (unescape zone rest).map (UInt8.ofNat (high * 16 + low) :: ·)
    else none
  | c :: rest => if c = '%' then none else (unescape zone rest).map (utf8 [c] ++ ·)

/-- What stands before the first `mark`, and the rest from there. -/
def cutAt (mark : Text) : Text → Text × Text
  | [] => ([], [])
  | c :: cs => if mark <+: c :: cs then ([], c :: cs) else (cutAt mark cs).map (c :: ·) id

/-- `parseHost`. Between brackets `%25` starts the zone of an IPv6 address. -/
def parseHost (host : Text) : Option Bytes :=
  match host with
  | '[' :: _ =>
    if ']' ∈ host then do
      let closing := ((host.reverse.dropWhile (· != ']')).drop 1).length
      let (address, zone) := cutAt "%25".toList (host.take closing)
      let address ← unescape false address
      let zone ← unescape true zone
      let port ← unescape false (host.drop closing)
      pure (address ++ zone ++ port)
    else none
  | _ => unescape false host

section

variable [CaseTable]

/-- `strings.ToLower` of a string that need not be UTF-8. -/
def toLowerBytes (bytes : Bytes) : String := .ofList ((runes bytes).map CaseTable.toLower)

variable [UrlLib]

/-- `url.Parse`. -/
def urlParse (raw : String) : Option Url :=
  if UrlLib.accepts raw then
    match getScheme raw.toList with
    | none => none
    | some (scheme, rest) =>
      match parseHost ((authorityOf rest).elim [] hostOf) with
      | none => none
      | some host => some ⟨toLowerText (.ofList scheme), host⟩
  else none

/-- `originOf`: the normalized `scheme://host`, or nothing. -/
def originOf (raw : String) : String :=
  match urlParse (trimSpace raw) with
  | none => ""
  | some u => if u.scheme = "" ∨ u.host = [] then "" else toLowerBytes u.origin

/-- The fields of `OIDCConfig` that decide where a login may return to. -/
structure ReturnConfig where
  issuer : String
  clientID : String
  redirectURL : String
  webURL : String

/-- The part of `OIDC` that they decide. No entry of the allowlist is empty. -/
structure OIDC where
  allowed : List String
  allowedDefault : String
  allowed_ne : "" ∉ allowed

/-- The non-empty origins of a list of URLs. -/
def originsOf (raws : List String) : List String := (raws.map originOf).filter (· ≠ "")

omit [CaseTable] [UrlLib] in
theorem empty_not_mem_filter (l : List String) : "" ∉ l.filter (· ≠ "") := by
  simp

/-- `SetAllowedOrigins`. -/
def OIDC.setAllowedOrigins (o : OIDC) (origins : List String) : OIDC where
  allowed := o.allowed ++ originsOf origins
  allowedDefault := o.allowedDefault
  allowed_ne h := (List.mem_append.mp h).elim o.allowed_ne (empty_not_mem_filter _)

/-- `NewOIDC`, given a state store. -/
def newOIDC (cfg : ReturnConfig) : Except String OIDC :=
  if cfg.issuer = "" ∨ cfg.clientID = "" ∨ cfg.redirectURL = "" then
    .error "auth: OIDC requires issuer, client id and redirect URL"
  else
    .ok
      { allowed := originsOf [cfg.webURL, cfg.redirectURL]
        allowedDefault := if cfg.webURL = "" then "/" else cfg.webURL
        allowed_ne := empty_not_mem_filter _ }

/-- `ResolveReturn`. -/
def OIDC.resolveReturn (o : OIDC) (raw : String) : String :=
  let raw := trimSpace raw
  if raw = "" then o.allowedDefault
  else if ¬ "://".toList <:+: raw.toList then
    if "/".toList <+: raw.toList then raw else o.allowedDefault
  else if originOf raw ∈ o.allowed then raw
  else o.allowedDefault

/-- Where a browser is sent: to the API's own origin, or elsewhere. An empty scheme is the
one of the API. -/
inductive Destination where
  | own
  | other (u : Url)
  deriving DecidableEq

/-- `redirectTo`. It only touches the query; a target that does not parse becomes `/`. -/
def redirectTo (target : String) : Destination :=
  match urlParse target with
  | none => .own
  | some u => if u.scheme = "" ∧ u.host = [] then .own else .other u

end

end ForgeQueue
