import ForgeQueue.Base.Keyed
import ForgeQueue.Base.Text
import Mathlib.Data.List.Sort

/-!
# Roles, bearer tokens and the account service

`internal/auth`: the permission table (`rbac.go`), HS256 tokens (`token.go`) and the
service that issues and verifies them (`service.go`). Base64 and splitting are real
functions here; `encoding/json` on the claims and HMAC-SHA256 are library code and
parameters (`TokenLib`), the first with its round trip as a law, the second any
function of secret and input.

Instants are nanoseconds since the epoch.
-/

namespace ForgeQueue

open Base

abbrev Bytes := List UInt8

/-- A bearer token or a part of one. -/
abbrev Text := List Char

/-! ## `rbac.go` -/

inductive Permission where
  | systemRead
  | queuesRead
  | queuesWrite
  | jobsRead
  | jobsWrite
  | workersRead
  | dlqRead
  | dlqWrite
  | delayedRead
  | delayedWrite
  | metricsRead
  deriving DecidableEq

/-- The text of a permission; the sort order of `permissionsForRoles`. -/
def Permission.text : Permission → String
  | .systemRead => "system:read"
  | .queuesRead => "queues:read"
  | .queuesWrite => "queues:write"
  | .jobsRead => "jobs:read"
  | .jobsWrite => "jobs:write"
  | .workersRead => "workers:read"
  | .dlqRead => "dlq:read"
  | .dlqWrite => "dlq:write"
  | .delayedRead => "delayed:read"
  | .delayedWrite => "delayed:write"
  | .metricsRead => "metrics:read"

/-- `Role` is a string type: a configuration or a token may name a role the server
does not know. -/
abbrev Role := String

def roleAdmin : Role := "admin"
def roleOperator : Role := "operator"
def roleViewer : Role := "viewer"

/-- What every role may do. -/
def viewerPermissions : List Permission :=
  [.systemRead, .queuesRead, .jobsRead, .workersRead, .dlqRead, .delayedRead, .metricsRead]

/-- What operators and admins may do. -/
def operatorPermissions : List Permission :=
  [.systemRead, .queuesRead, .queuesWrite, .jobsRead, .jobsWrite, .workersRead, .dlqRead,
    .dlqWrite, .delayedRead, .delayedWrite, .metricsRead]

/-- `rolePermissions`, as a lookup. -/
def rolePermissions (r : Role) : Option (List Permission) :=
  if r = roleViewer then some viewerPermissions
  else if r = roleOperator then some operatorPermissions
  else if r = roleAdmin then some operatorPermissions
  else none

def validRole (r : Role) : Bool := (rolePermissions r).isSome

/-- De-duplicated and sorted by text. -/
def permissionsForRoles (roles : List Role) : List Permission :=
  (roles.flatMap fun r => (rolePermissions r).getD []).dedup.insertionSort
    fun p q => p.text ≤ q.text

/-! ## `token.go` -/

/-- Seconds since the epoch. -/
def unix (instant : Int) : Int64 := .ofInt (instant / 1000000000)

/-- The JWT payload. -/
structure Claims where
  subject : String
  roles : List String
  issued : Int64
  expires : Int64
  deriving DecidableEq

/-- The library calls of `token.go`. -/
class TokenLib where
  /-- `json.Marshal(claims)`. -/
  marshalClaims : Claims → Bytes
  /-- `json.Unmarshal` into `claims`. -/
  unmarshalClaims : Bytes → Option Claims
  /-- HMAC-SHA256 under a secret. -/
  hmacSha256 : Bytes → Text → Bytes

export TokenLib (marshalClaims unmarshalClaims hmacSha256)

/-- JSON round-trips the claims. -/
class LawfulTokenLib extends TokenLib where
  unmarshal_marshal : ∀ c : Claims, unmarshalClaims (marshalClaims c) = some c

/-- `ErrInvalidToken`, and its wrapped form for an expired token. -/
inductive TokenError where
  | invalid
  | expired
  deriving DecidableEq

structure TokenManager where
  secret : Bytes
  ttl : Int

/-- The encoded header object with members `alg` and `typ`. -/
def jwtHeader : Text :=
  encode64 ("\x7b\"alg\":\"HS256\",\"typ\":\"JWT\"\x7d".toList.map fun c => .ofNat c.toNat)

section Tokens

variable [TokenLib]

def TokenManager.sign (m : TokenManager) (input : Text) : Text :=
  encode64 (hmacSha256 m.secret input)

/-- `issue`: the token and the instant it expires. -/
def TokenManager.issue (m : TokenManager) (now : Int) (username : String) (roles : List Role) :
    Text × Int :=
  let expires := now + m.ttl
  let payload := marshalClaims ⟨username, roles, unix now, unix expires⟩
  let signingInput := jwtHeader ++ '.' :: encode64 payload
  (signingInput ++ '.' :: m.sign signingInput, expires)

/-- `verify`, with its checks in order: shape, signature, payload, subject, expiry. -/
def TokenManager.verify (m : TokenManager) (now : Int) (token : Text) :
    Except TokenError Claims :=
  match splitOn '.' token with
  | [header, payload, signature] =>
    if m.sign (header ++ '.' :: payload) ≠ signature then .error .invalid
    else
      match decode64 payload with
      | none => .error .invalid
      | some bytes =>
        match unmarshalClaims bytes with
        | none => .error .invalid
        | some c =>
          if c.subject = "" then .error .invalid
          else if c.expires ≤ unix now then .error .expired
          else .ok c
  | _ => .error .invalid

theorem TokenManager.dot_not_mem_sign (m : TokenManager) (input : Text) :
    '.' ∉ m.sign input :=
  dot_not_mem_encode64 _

/-- Two managers with one secret verify alike: the lifetime is not read. -/
theorem TokenManager.verify_congr {m m' : TokenManager} (h : m.secret = m'.secret) (now : Int)
    (token : Text) : m.verify now token = m'.verify now token := by
  have hsign : m.sign = m'.sign := by
    funext input
    rw [TokenManager.sign, TokenManager.sign, h]
  simp only [TokenManager.verify, hsign]

end Tokens

/-- **Round trip.** A token verifies, before the second it expires in, to the claims
it was issued with. -/
theorem TokenManager.verify_issue [LawfulTokenLib] (m : TokenManager) (now now' : Int)
    (username : String) (roles : List Role) :
    m.verify now' (m.issue now username roles).1 =
      if username = "" then .error .invalid
      else if unix (now + m.ttl) ≤ unix now' then .error .expired
      else .ok ⟨username, roles, unix now, unix (now + m.ttl)⟩ := by
  have hh : '.' ∉ jwtHeader := dot_not_mem_encode64 _
  unfold TokenManager.issue TokenManager.verify
  dsimp only
  rw [List.append_assoc, List.cons_append, splitOn_append hh,
    splitOn_append (dot_not_mem_encode64 _), splitOn_of_not_mem (m.dot_not_mem_sign _)]
  dsimp only
  rw [if_neg (by simp), decode64_encode64]
  dsimp only
  rw [LawfulTokenLib.unmarshal_marshal]

/-! ## `service.go` -/

structure Identity where
  username : String
  roles : List Role
  permissions : List Permission
  deriving DecidableEq

structure User where
  username : String
  passwordHash : String
  roles : List Role
  deriving DecidableEq

inductive ServiceError where
  | emptySecret
  | emptyUsername
  | duplicateUser (name : String)
  | unknownRole (name : String) (role : Role)
  deriving DecidableEq

/-- `Service`: the account table and the token manager. -/
structure Service where
  users : String → Option User
  tokens : TokenManager

/-- The loop of `NewService` over the configured users. -/
def registerUsers (byName : String → Option User) :
    List User → Except ServiceError (String → Option User)
  | [] => .ok byName
  | u :: rest =>
    if u.username = "" then .error .emptyUsername
    else if (byName u.username).isSome then .error (.duplicateUser u.username)
    else
      match u.roles.find? fun r => !validRole r with
      | some r => .error (.unknownRole u.username r)
      | none => registerUsers (put byName u.username u) rest

/-- The token lifetime when none is configured: twelve hours. -/
def defaultTTL : Int := 12 * 3600 * 1000000000

def newService (users : List User) (secret : Bytes) (ttl : Int) :
    Except ServiceError Service :=
  if secret = [] then .error .emptySecret
  else
    match registerUsers nothing users with
    | .error e => .error e
    | .ok byName => .ok ⟨byName, ⟨secret, if ttl ≤ 0 then defaultTTL else ttl⟩⟩

def identityFor (username : String) (roles : List Role) : Identity :=
  ⟨username, roles, permissionsForRoles roles⟩

section Verify

variable [TokenLib]

/-- `IssueToken`. -/
def Service.issueToken (s : Service) (now : Int) (id : Identity) : Text × Int :=
  s.tokens.issue now id.username id.roles

/-- `VerifyToken`: a subject that is a local account gets the roles of that account;
any other subject keeps the known roles of the token. -/
def Service.verifyToken (s : Service) (now : Int) (token : Text) :
    Except TokenError Identity :=
  match s.tokens.verify now token with
  | .error e => .error e
  | .ok c =>
    match s.users c.subject with
    | some u => .ok (identityFor u.username u.roles)
    | none =>
      let roles := c.roles.filter validRole
      if roles = [] then .error .invalid else .ok (identityFor c.subject roles)

/-- A token that verifies is answered from the user list, or from its own roles. -/
theorem Service.verifyToken_of_ok {s : Service} {now : Int} {token : Text} {c : Claims}
    (h : s.tokens.verify now token = .ok c) :
    s.verifyToken now token =
      match s.users c.subject with
      | some u => .ok (identityFor u.username u.roles)
      | none =>
        if c.roles.filter validRole = [] then .error .invalid
        else .ok (identityFor c.subject (c.roles.filter validRole)) := by
  unfold Service.verifyToken
  simp only [h]

end Verify

/-- What `NewService` checks of an account filed under `name`. -/
structure User.FiledAs (u : User) (name : String) : Prop where
  key : u.username = name
  named : name ≠ ""
  known : ∀ r ∈ u.roles, validRole r = true

theorem registerUsers_filed {users : List User} :
    ∀ {byName table : String → Option User}, registerUsers byName users = .ok table →
      (∀ n u, byName n = some u → u.FiledAs n) → ∀ n u, table n = some u → u.FiledAs n := by
  induction users with
  | nil =>
    intro byName table h hk
    obtain rfl := Except.ok.inj h
    exact hk
  | cons u rest ih =>
    intro byName table h hk
    unfold registerUsers at h
    split at h
    · cases h
    · next hname =>
      split at h
      · cases h
      · split at h
        · cases h
        · next hroles =>
          refine ih h ?_
          intro n v hv
          rcases put_eq_some.mp hv with ⟨rfl, rfl⟩ | ⟨-, hv'⟩
          · exact ⟨rfl, hname, fun r hr => by simpa using List.find?_eq_none.mp hroles r hr⟩
          · exact hk n v hv'

/-- Every account of a service passed the checks. -/
theorem newService_filed {users : List User} {secret : Bytes} {ttl : Int} {s : Service}
    (h : newService users secret ttl = .ok s) : ∀ n u, s.users n = some u → u.FiledAs n := by
  unfold newService at h
  split at h
  · cases h
  · split at h
    · cases h
    · obtain rfl := Except.ok.inj h
      refine registerUsers_filed ‹_› ?_
      intro n u hu
      cases hu

theorem newService_secret {users : List User} {secret : Bytes} {ttl : Int} {s : Service}
    (h : newService users secret ttl = .ok s) : s.tokens.secret = secret := by
  unfold newService at h
  split at h
  · cases h
  · split at h
    · cases h
    · obtain rfl := Except.ok.inj h
      rfl

end ForgeQueue
