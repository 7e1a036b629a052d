import ForgeQueue.Model.Token
import Mathlib.Data.List.DropRight

/-!
# Single sign-on

`internal/auth/oidc.go`: the callback half of the login. What the identity provider
and the state store answer is a parameter of the call (`Answers`); the code's own
decisions, from the checks on those answers to the session, are modelled. Unicode
lower-casing is a parameter too, any map on characters.
-/

namespace ForgeQueue

/-- `unicode.ToLower`. -/
class CaseTable where
  toLower : Char → Char

/-- What Unicode promises of it: letters of ASCII stay in ASCII, and what is small stays. -/
class LawfulCaseTable extends CaseTable where
  toLower_ascii : ∀ c : Char, c.toNat < 128 → toLower c = c.toLower
  toLower_toLower : ∀ c, toLower (toLower c) = toLower c

/-- `unicode.IsSpace`. -/
def isSpace (c : Char) : Bool :=
  let n := c.toNat
  (9 ≤ n && n ≤ 13) || n == 0x20 || n == 0x85 || n == 0xA0 || n == 0x1680 ||
    (0x2000 ≤ n && n ≤ 0x200A) || n == 0x2028 || n == 0x2029 || n == 0x202F ||
    n == 0x205F || n == 0x3000

/-- `strings.TrimSpace`. -/
def trimSpace (s : String) : String :=
  .ofList ((s.toList.dropWhile isSpace).reverse.dropWhile isSpace).reverse

/-- What is trimmed has no blank at either end. -/
theorem trimSpace_trimSpace (s : String) : trimSpace (trimSpace s) = trimSpace s := by
  have htrim : ∀ t : String, trimSpace t =
      .ofList (List.rdropWhile isSpace (t.toList.dropWhile isSpace)) := fun _ => rfl
  rw [htrim (trimSpace s), htrim s, String.toList_ofList]
  congr 1
  have hleft : (List.rdropWhile isSpace (s.toList.dropWhile isSpace)).dropWhile isSpace =
      List.rdropWhile isSpace (s.toList.dropWhile isSpace) := by
    have hprefix := List.rdropWhile_prefix isSpace (s.toList.dropWhile isSpace)
    have hhead := List.head?_dropWhile_not isSpace s.toList
    cases hmid : List.rdropWhile isSpace (s.toList.dropWhile isSpace) with
    | nil => rfl
    | cons c cs =>
      -- the first character is the one the left trim stopped at
      obtain ⟨rest, hrest⟩ := hprefix
      rw [hmid] at hrest
      rw [← hrest] at hhead
      exact List.dropWhile_cons_of_neg (by simpa using hhead)
  rw [hleft, List.rdropWhile_idempotent]

/-- `strings.ToLower`. -/
def toLowerText [CaseTable] (s : String) : String := .ofList (s.toList.map CaseTable.toLower)

/-- The provider configuration, as far as the callback reads it. An empty
`defaultRole` denies everybody who is not listed. -/
structure OIDCConfig where
  defaultRole : Role
  adminEmails : List String
  operatorEmails : List String

/-- The userinfo document. -/
structure UserInfo where
  subject : String
  email : String
  name : String
  preferredUsername : String

/-- The stored login attempt. -/
structure AuthState where
  verifier : String
  webReturn : String

structure ProviderMeta where
  issuer : String
  authorizationEndpoint : String
  tokenEndpoint : String
  userinfoEndpoint : String

structure SSOSession where
  token : Text
  expiresAt : Int
  identity : Identity
  webReturn : String

/-- An HTTP response; `none` as its body is one that does not parse. -/
structure Reply (α : Type) where
  status : ℕ
  body : Option α

/-- Why a login failed. -/
inductive SsoError where
  | loadState
  | unknownState
  | corruptState
  | discovery
  | discoveryStatus (status : ℕ)
  | malformedDiscovery
  | missingEndpoints
  | tokenRequest
  | tokenStatus (status : ℕ)
  | malformedToken
  | userinfoRequest
  | userinfoStatus (status : ℕ)
  | malformedUserinfo
  | notAuthorized (email : String)
  | random
  | storeCode
  deriving DecidableEq

/-- Everything outside the process that one `Complete` call consults. `none` is a
transport error. -/
structure Answers where
  /-- `store.Load`. -/
  load : String → Option (Option Bytes)
  /-- `json.Unmarshal` into `authState`. -/
  authState : Bytes → Option AuthState
  /-- Metadata of an earlier login. -/
  cached : Option ProviderMeta
  wellKnown : Option (Reply ProviderMeta)
  /-- The token endpoint, given code and verifier: the access token. -/
  tokenEndpoint : ProviderMeta → String → String → Option (Reply String)
  userinfoEndpoint : ProviderMeta → String → Option (Reply UserInfo)
  /-- `randomToken(24)`. -/
  random : Option String
  /-- `store.Save` of the session under the one-time code. -/
  save : String → SSOSession → Option Unit

/-- The response of a request that must answer 200 with a body that parses. -/
def okBody {α : Type} (reply : Option (Reply α)) (request : SsoError) (status : ℕ → SsoError)
    (malformed : SsoError) : Except SsoError α :=
  match reply with
  | none => .error request
  | some r =>
    if r.status ≠ 200 then .error (status r.status)
    else
      match r.body with
      | none => .error malformed
      | some v => .ok v

/-- `strings.TrimRight(s, "/")`. -/
def trimRightSlash (s : String) : String :=
  .ofList (s.toList.reverse.dropWhile (· == '/')).reverse

/-- `discover`. -/
def discover (env : Answers) : Except SsoError ProviderMeta :=
  match env.cached with
  | some known => .ok known
  | none =>
    match okBody env.wellKnown .discovery .discoveryStatus .malformedDiscovery with
    | .error e => .error e
    | .ok doc =>
      if doc.authorizationEndpoint = "" ∨ doc.tokenEndpoint = "" then .error .missingEndpoints
      else if doc.userinfoEndpoint = "" then
        .ok { doc with userinfoEndpoint := trimRightSlash doc.issuer ++ "/userinfo" }
      else .ok doc

/-- `exchange`: code for access token, access token for userinfo. A userinfo document
without a subject is rejected. -/
def exchange (env : Answers) (provider : ProviderMeta) (code verifier : String) :
    Except SsoError UserInfo :=
  match okBody (env.tokenEndpoint provider code verifier) .tokenRequest .tokenStatus
      .malformedToken with
  | .error e => .error e
  | .ok accessToken =>
    if accessToken = "" then .error .malformedToken
    else
      match okBody (env.userinfoEndpoint provider accessToken) .userinfoRequest
          .userinfoStatus .malformedUserinfo with
      | .error e => .error e
      | .ok info => if info.subject = "" then .error .malformedUserinfo else .ok info

/-- The first part of `Complete`: consume the state and fetch the user. -/
def fetchUser (env : Answers) (state code : String) :
    Except SsoError (AuthState × UserInfo) :=
  match env.load ("oidc:state:" ++ state) with
  | none => .error .loadState
  | some none => .error .unknownState
  | some (some raw) =>
    match env.authState raw with
    | none => .error .corruptState
    | some st =>
      match discover env with
      | .error e => .error e
      | .ok provider =>
        match exchange env provider code st.verifier with
        | .error e => .error e
        | .ok info => .ok (st, info)

/-- The address a login is authorized by: email, else preferred username, else
subject. -/
def loginEmail (info : UserInfo) : String :=
  let email := trimSpace info.email
  let email := if email = "" then info.preferredUsername else email
  if email = "" then info.subject else email

/-- The name the session runs under: the display name, else the address. -/
def loginName (info : UserInfo) : String :=
  if info.name = "" then loginEmail info else info.name

section

variable [CaseTable]

/-- `emailSet`: trimmed, lower-cased, without empty entries. -/
def emailSet (emails : List String) : List String :=
  (emails.map fun e => toLowerText (trimSpace e)).filter (· ≠ "")

/-- `rolesFor`. -/
def OIDCConfig.rolesFor (cfg : OIDCConfig) (email : String) : Except SsoError (List Role) :=
  let e := toLowerText (trimSpace email)
  if e ∈ emailSet cfg.adminEmails then .ok [roleAdmin]
  else if e ∈ emailSet cfg.operatorEmails then .ok [roleOperator]
  else if cfg.defaultRole ≠ "" then .ok [cfg.defaultRole]
  else .error (.notAuthorized email)

/-- `Complete`: the one-time code and the session. -/
def complete [TokenLib] (cfg : OIDCConfig) (svc : Service) (env : Answers) (now : Int)
    (state code : String) : Except SsoError (String × SSOSession) :=
  match fetchUser env state code with
  | .error e => .error e
  | .ok (st, info) =>
    match cfg.rolesFor (loginEmail info) with
    | .error e => .error e
    | .ok roles =>
      let identity := identityFor (loginName info) roles
      let issued := svc.issueToken now identity
      match env.random with
      | none => .error .random
      | some otc =>
        let sess := SSOSession.mk issued.1 issued.2 identity st.webReturn
        match env.save ("oidc:code:" ++ otc) sess with
        | none => .error .storeCode
        | some _ => .ok (otc, sess)

end

theorem exchange_subject {env : Answers} {provider : ProviderMeta} {code verifier : String}
    {info : UserInfo} (h : exchange env provider code verifier = .ok info) :
    info.subject ≠ "" := by
  unfold exchange at h
  split at h
  · cases h
  · split at h
    · cases h
    · split at h
      · cases h
      · split at h
        · cases h
        · obtain rfl := Except.ok.inj h
          assumption

/-- The user a login fetched has a subject. -/
theorem fetchUser_subject {env : Answers} {state code : String} {st : AuthState}
    {info : UserInfo} (h : fetchUser env state code = .ok (st, info)) : info.subject ≠ "" := by
  unfold fetchUser at h
  split at h
  · cases h
  · cases h
  · split at h
    · cases h
    · split at h
      · cases h
      · split at h
        · cases h
        · obtain ⟨rfl, rfl⟩ := Prod.mk.inj (Except.ok.inj h)
          exact exchange_subject ‹_›

/-- A login with a subject has a name. -/
theorem loginName_ne_empty {info : UserInfo} (h : info.subject ≠ "") : loginName info ≠ "" := by
  have hemail : loginEmail info ≠ "" := by
    unfold loginEmail
    dsimp only
    by_cases he : (if trimSpace info.email = "" then info.preferredUsername
        else trimSpace info.email) = ""
    · rw [if_pos he]
      exact h
    · rw [if_neg he]
      exact he
  unfold loginName
  split
  · exact hemail
  · assumption

/-- What a successful `Complete` returns. -/
theorem complete_ok [CaseTable] [TokenLib] {cfg : OIDCConfig} {svc : Service} {env : Answers}
    {now : Int} {state code otc : String} {st : AuthState} {info : UserInfo} {s : SSOSession}
    (hf : fetchUser env state code = .ok (st, info))
    (h : complete cfg svc env now state code = .ok (otc, s)) :
    ∃ roles, cfg.rolesFor (loginEmail info) = .ok roles ∧
      s.identity = identityFor (loginName info) roles ∧
      (s.token, s.expiresAt) = svc.tokens.issue now (loginName info) roles := by
  unfold complete at h
  rw [hf] at h
  dsimp only at h
  split at h
  · cases h
  · rename_i roles hroles
    split at h
    · cases h
    · split at h
      · cases h
      · obtain ⟨-, rfl⟩ := Prod.mk.inj (Except.ok.inj h)
        exact ⟨roles, hroles, rfl, rfl⟩

end ForgeQueue
