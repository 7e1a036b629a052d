import ForgeQueue.Model.Access
import ForgeQueue.Model.ClaimsJson
import ForgeQueue.Model.Password

/-!
# Accounts from the environment

`internal/auth/config.go`: `NewFromEnv` builds the account service from environment
variables, with the passwords hashed by `hashPassword` of `internal/auth/password.go`; and
the `Login` handler of `internal/httpapi/handlers.go`, which exchanges a password for a
token. What `crypto/rand` yields is an argument; `none` is a failed read.
-/

namespace ForgeQueue

open Base

/-! ## Hashes -/

def pbkdf2Iterations : Int := 210000

def pbkdf2KeyLength : ℕ := 32

/-- `hashPassword`, with the salt that was read. -/
def hashPassword [PasswordLib] (salt : Option Bytes) (password : String) : Option String :=
  match salt with
  | none => none
  | some salt =>
    match pbkdf2Key password salt pbkdf2Iterations pbkdf2KeyLength with
    | none => none
    | some key => some (.ofList ("pbkdf2".toList ++ '$' :: ("sha256".toList ++ '$' ::
        ("210000".toList ++ '$' :: (encodeStd64 salt ++ '$' :: encodeStd64 key)))))

/-! ## `NewFromEnv` -/

/-- `userConfig`. -/
structure UserConfig where
  username : String
  password : String
  roles : List String
  deriving DecidableEq

/-- The library calls of `config.go`. -/
class ConfigLib where
  /-- `json.Unmarshal` into a list of `userConfig`. -/
  unmarshalUsers : String → Option (List UserConfig)
  /-- `time.ParseDuration`, in nanoseconds. -/
  parseDuration : String → Option Int

export ConfigLib (unmarshalUsers parseDuration)

/-- The variables that are read, empty when unset. -/
structure Environment where
  /-- `FORGEQUEUE_AUTH_SECRET`. -/
  authSecret : String
  /-- `FORGEQUEUE_AUTH_TTL`. -/
  authTTL : String
  /-- `FORGEQUEUE_USERS`. -/
  users : String
  /-- `FORGEQUEUE_ADMIN_USER`. -/
  adminUser : String
  /-- `FORGEQUEUE_ADMIN_PASSWORD`. -/
  adminPassword : String
  /-- `FORGEQUEUE_OIDC_ISSUER`. -/
  oidcIssuer : String

/-- What is read from `crypto/rand`: for the secret, for a generated password, and the salts
in their order. -/
structure Randomness where
  secret : Option Bytes
  password : Option Bytes
  salt : ℕ → Option Bytes

inductive ConfigError where
  | invalidTTL (raw : String)
  /-- "FORGEQUEUE_USERS is not valid JSON". -/
  | usersNotJSON
  /-- "FORGEQUEUE_USERS is empty". -/
  | usersEmpty
  | missingUsername
  | missingPassword (username : String)
  /-- A read of random bytes, or the key derivation. -/
  | crypto
  | service (e : ServiceError)
  deriving DecidableEq

/-- `randomToken`. -/
def randomToken (bytes : Option Bytes) : Except ConfigError Text :=
  match bytes with
  | none => .error .crypto
  | some bytes => .ok (encode64 bytes)

/-- `resolveSecret`. -/
def resolveSecret (env : Environment) (rnd : Randomness) : Except ConfigError Bytes :=
  if trimSpace env.authSecret ≠ "" then .ok (utf8 (trimSpace env.authSecret).toList)
  else
    match randomToken rnd.secret with
    | .error e => .error e
    | .ok token => .ok (utf8 token)

/-- `oidcConfigured`. -/
def oidcConfigured (env : Environment) : Bool := trimSpace env.oidcIssuer ≠ ""

section

variable [PasswordLib]

/-- The loop of `parseUsers`, at entry `i`. -/
def parseEntries (salt : ℕ → Option Bytes) (i : ℕ) :
    List UserConfig → Except ConfigError (List User)
  | [] => .ok []
  | c :: rest =>
    if trimSpace c.username = "" then .error .missingUsername
    else if c.password = "" then .error (.missingPassword c.username)
    else
      match hashPassword (salt i) c.password with
      | none => .error .crypto
      | some hash =>
        match parseEntries salt (i + 1) rest with
        | .error e => .error e
        | .ok users => .ok (⟨c.username, hash, c.roles⟩ :: users)

/-- `bootstrapAdmin`. -/
def bootstrapAdmin (env : Environment) (rnd : Randomness) : Except ConfigError (List User) :=
  let username := trimSpace env.adminUser
  let username := if username = "" then "admin" else username
  let password : Except ConfigError String :=
    if env.adminPassword = "" then
      match randomToken rnd.password with
      | .error e => .error e
      | .ok token => .ok (.ofList token)
    else .ok env.adminPassword
  match password with
  | .error e => .error e
  | .ok password =>
    match hashPassword (rnd.salt 0) password with
    | none => .error .crypto
    | some hash => .ok [⟨username, hash, [roleAdmin]⟩]

variable [ConfigLib]

/-- `parseUsers`. -/
def parseUsers (salt : ℕ → Option Bytes) (raw : String) : Except ConfigError (List User) :=
  match unmarshalUsers raw with
  | none => .error .usersNotJSON
  | some [] => .error .usersEmpty
  | some (c :: rest) => parseEntries salt 0 (c :: rest)

/-- The token lifetime. -/
def resolveTTL (env : Environment) : Except ConfigError Int :=
  if trimSpace env.authTTL = "" then .ok defaultTTL
  else
    match parseDuration (trimSpace env.authTTL) with
    | none => .error (.invalidTTL (trimSpace env.authTTL))
    | some ttl => .ok ttl

/-- The accounts: as configured, none with single sign-on alone, or one administrator. -/
def resolveUsers (env : Environment) (rnd : Randomness) : Except ConfigError (List User) :=
  if trimSpace env.users ≠ "" then parseUsers rnd.salt env.users
  else if oidcConfigured env = true ∧ trimSpace env.adminPassword = "" then .ok []
  else bootstrapAdmin env rnd

/-- `NewFromEnv`. -/
def newFromEnv (env : Environment) (rnd : Randomness) : Except ConfigError Service :=
  match resolveSecret env rnd with
  | .error e => .error e
  | .ok secret =>
    match resolveTTL env with
    | .error e => .error e
    | .ok ttl =>
      match resolveUsers env rnd with
      | .error e => .error e
      | .ok users =>
        match newService users secret ttl with
        | .error e => .error (.service e)
        | .ok svc => .ok svc

end

/-! ## `Login` -/

/-- `LoginRequest`, as decoded. -/
structure LoginBody where
  username : String
  password : String

/-- How a login is answered otherwise: 400 "invalid request body", 400 "username and password
are required", 401 "invalid username or password". -/
inductive LoginFailure where
  | invalidBody
  | missingFields
  | invalidCredentials
  deriving DecidableEq

/-- `LoginResponse`. -/
structure LoginResponse where
  token : Text
  expiresAt : Int
  user : Identity

/-- `Login`; `none` is a body that does not decode. -/
def login [PasswordLib] [TokenLib] (svc : Service) (now : Int) (body : Option LoginBody) :
    Except LoginFailure LoginResponse :=
  match body with
  | none => .error .invalidBody
  | some body =>
    if body.username = "" ∨ body.password = "" then .error .missingFields
    else
      match svc.authenticate body.username body.password with
      | .error _ => .error .invalidCredentials
      | .ok id => .ok ⟨(svc.issueToken now id).1, (svc.issueToken now id).2, id⟩

end ForgeQueue
