import ForgeQueue.Model.Access
import ForgeQueue.Model.Begin

/-!
# Single sign-on from the environment

`NewOIDCFromEnv` of `internal/auth/config.go`: the provider, the client, the two lists of
addresses, the role of everybody else and the extra return origins, each a text of one
environment variable.
-/

namespace ForgeQueue

open Base

/-- `splitList`: the entries of a comma-separated value, trimmed, without the empty ones. -/
def splitList (raw : String) : List String :=
  ((splitOn ',' raw.toList).map fun part => trimSpace (.ofList part)).filter (· ≠ "")

/-- The variables that are read, empty when unset. -/
structure SsoEnvironment where
  /-- `FORGEQUEUE_OIDC_ISSUER`. -/
  issuer : String
  /-- `FORGEQUEUE_OIDC_CLIENT_ID`. -/
  clientID : String
  /-- `FORGEQUEUE_OIDC_REDIRECT_URL`. -/
  redirectURL : String
  /-- `FORGEQUEUE_WEB_URL`. -/
  webURL : String
  /-- `FORGEQUEUE_OIDC_SCOPES`. -/
  scopes : String
  /-- `FORGEQUEUE_OIDC_ADMIN_EMAILS`. -/
  adminEmails : String
  /-- `FORGEQUEUE_OIDC_OPERATOR_EMAILS`. -/
  operatorEmails : String
  /-- `FORGEQUEUE_OIDC_DEFAULT_ROLE`. -/
  defaultRole : String
  /-- `FORGEQUEUE_OIDC_ALLOWED_ORIGINS`. -/
  allowedOrigins : String

inductive SsoConfigError where
  /-- "auth: invalid FORGEQUEUE_OIDC_DEFAULT_ROLE". -/
  | invalidDefaultRole (raw : String)
  /-- "auth: FORGEQUEUE_OIDC_CLIENT_ID and FORGEQUEUE_OIDC_REDIRECT_URL are required when
  FORGEQUEUE_OIDC_ISSUER is set". -/
  | missingClient
  | newOIDC (message : String)
  deriving DecidableEq

/-- The provider as it is set up: how roles are given, where a login may return to, and what
goes into the authorization request. -/
structure SsoStart where
  config : OIDCConfig
  returns : OIDC
  client : ClientConfig

/-- The default role; empty denies. -/
def resolveDefaultRole (env : SsoEnvironment) : Except SsoConfigError Role :=
  let raw := trimSpace env.defaultRole
  if raw ≠ "" then
    if equalFold raw.toList "none".toList then .ok ""
    else if validRole raw then .ok raw
    else .error (.invalidDefaultRole raw)
  else .ok roleViewer

/-- The scopes, joined by spaces as `NewOIDC` does. -/
def resolveScopes (env : SsoEnvironment) : String :=
  let raw := trimSpace env.scopes
  let scopes :=
    if raw ≠ "" then (fields isSpace raw.toList).map String.ofList
    else ["openid", "email", "profile"]
  " ".intercalate scopes

/-- `NewOIDCFromEnv`; `none` when single sign-on is not configured. -/
def newOIDCFromEnv [CaseTable] [UrlLib] (env : SsoEnvironment) :
    Except SsoConfigError (Option SsoStart) :=
  if trimSpace env.issuer = "" then .ok none
  else
    match resolveDefaultRole env with
    | .error e => .error e
    | .ok role =>
      let clientID := trimSpace env.clientID
      let redirectURL := trimSpace env.redirectURL
      if clientID = "" ∨ redirectURL = "" then .error .missingClient
      else
        match newOIDC ⟨trimSpace env.issuer, clientID, redirectURL, trimSpace env.webURL⟩ with
        | .error message => .error (.newOIDC message)
        | .ok oidc => .ok (some
          { config := ⟨role, splitList env.adminEmails, splitList env.operatorEmails⟩
            returns := oidc.setAllowedOrigins (splitList env.allowedOrigins)
            client := ⟨clientID, redirectURL, resolveScopes env⟩ })

end ForgeQueue
