import ForgeQueue.Model.Returns
import ForgeQueue.Model.StateStore

/-!
# The start of a login

`Begin` of `internal/auth/oidc.go`: the requested return target is resolved against the
allowlist, a fresh state and a fresh PKCE verifier are stored together with it, and the
browser is sent to the provider with the state and the verifier's challenge.
-/

namespace ForgeQueue

/-- What `Begin` takes from the standard library: `encoding/json` on `authState`, and the
base64url form of a SHA-256 digest. -/
class BeginLib where
  marshalState : AuthState → Bytes
  unmarshalState : Bytes → Option AuthState
  pkceChallenge : String → String

export BeginLib (marshalState unmarshalState pkceChallenge)

/-- A document that decodes is decoded to what was encoded. -/
class LawfulBegin extends BeginLib where
  unmarshal_marshal : ∀ st st', unmarshalState (marshalState st) = some st' → st' = st

/-- The fields of `OIDCConfig` and `OIDC` that go into the authorization request. -/
structure ClientConfig where
  clientID : String
  redirectURL : String
  scopes : String

/-- The redirect to the provider: the endpoint and the query parameters. -/
structure AuthRequest where
  endpoint : String
  params : List (String × String)

/-- A login attempt: the entry it leaves in the store and the redirect. -/
structure Attempt where
  state : String
  value : Bytes
  request : AuthRequest

variable [BeginLib]

/-- The query parameters. -/
def authParams (client : ClientConfig) (state verifier : String) : List (String × String) :=
  [("response_type", "code"), ("client_id", client.clientID),
    ("redirect_uri", client.redirectURL), ("scope", client.scopes), ("state", state),
    ("code_challenge", pkceChallenge verifier), ("code_challenge_method", "S256")]

/-- `Begin`, up to its `Save`. `state` and `verifier` are the two random tokens; `none` is a
failed read of the random source. -/
def beginLogin [CaseTable] [UrlLib] (o : OIDC) (client : ClientConfig) (env : Answers)
    (state verifier : Option String) (webReturn : String) : Except SsoError Attempt :=
  match discover env with
  | .error e => .error e
  | .ok provider =>
    match state, verifier with
    | some state, some verifier => .ok
      { state := state
        value := marshalState ⟨verifier, o.resolveReturn webReturn⟩
        request := ⟨provider.authorizationEndpoint, authParams client state verifier⟩ }
    | _, _ => .error .random

end ForgeQueue
