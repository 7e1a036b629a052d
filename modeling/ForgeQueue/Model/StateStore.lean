import ForgeQueue.Base.Run
import ForgeQueue.Model.Oidc

/-!
# The one-time keys of a login

`StateStore` keeps the state of a login attempt under `oidc:state:<state>` and the
finished session under `oidc:code:<code>`. `Complete` and `Exchange` consume their key
with a `Load` and a separate `Delete` whose error is ignored. Any number of requests run
at once, on any number of API instances that share the store; a step is one call to the
store by one request.
-/

namespace ForgeQueue

open Base

/-- `encoding/json` on sessions. -/
class SessionCodec where
  marshalSession : SSOSession → Bytes
  unmarshalSession : Bytes → Option SSOSession

export SessionCodec (marshalSession unmarshalSession)

def codeKey (code : String) : String := "oidc:code:" ++ code

def stateKey (state : String) : String := "oidc:state:" ++ state

/-- Why `Exchange` failed. -/
inductive ExchangeError where
  /-- `Load` returned an error. -/
  | store
  /-- `invalid or expired code`. -/
  | unknownCode
  /-- `invalid code payload`. -/
  | corruptPayload
  deriving DecidableEq

/-- Where an `Exchange` request stands; each constructor names its next call to the
store. -/
inductive ExchangePc where
  | load
  | delete (raw : Bytes)
  | done (result : Except ExchangeError SSOSession)

/-- Where a `Complete` request stands. From `delete` on it is past the state check. -/
inductive CompletePc where
  | load
  | delete (raw : Bytes)
  /-- The provider is asked, then the session is saved under its one-time code. -/
  | save (raw : Bytes)
  | done (result : Except SsoError (String × SSOSession))

inductive LoginRequest where
  | exchange (code : String) (pc : ExchangePc)
  | complete (state code : String) (pc : CompletePc)

/-- The key a request consumes. -/
def LoginRequest.key : LoginRequest → String
  | .exchange code _ => codeKey code
  | .complete state _ _ => stateKey state

/-- The request has loaded its key and not called `Delete` yet. -/
def LoginRequest.holds : LoginRequest → Bool
  | .exchange _ (.delete _) | .complete _ _ (.delete _) => true
  | _ => false

/-- The request calls `Load` next. -/
def LoginRequest.loads : LoginRequest → Bool
  | .exchange _ .load | .complete _ _ .load => true
  | _ => false

/-- The live entries of the store and the requests received so far. -/
structure Login where
  store : String → Option Bytes
  requests : ℕ → Option LoginRequest

/-- One step. `fails` says that the call to the store returned an error. -/
inductive LoginAct where
  /-- `Begin` saves the state of a new attempt. -/
  | begin (state : String) (value : Bytes)
  | exchange (k : ℕ) (code : String)
  | complete (k : ℕ) (state code : String)
  | load (k : ℕ) (fails : Bool)
  | delete (k : ℕ) (fails : Bool)
  /-- The rest of `Complete`, up to its `Save`. -/
  | save (k : ℕ) (env : Answers) (now : Int)
  /-- The lifetime of an entry ends. -/
  | expire (key : String)

def Login.init : Login := ⟨nothing, nothing⟩

/-- Move one request. -/
def Login.setRequest (s : Login) (k : ℕ) (q : LoginRequest) : Login :=
  { s with requests := put s.requests k q }

@[simp] theorem Login.setRequest_store (s : Login) (k : ℕ) (q : LoginRequest) :
    (s.setRequest k q).store = s.store := rfl

@[simp] theorem Login.setRequest_requests (s : Login) (k : ℕ) (q : LoginRequest) :
    (s.setRequest k q).requests = put s.requests k q := rfl

/-- What `Exchange` does with the answer of `Load`. -/
def exchangeLoaded (fails : Bool) (found : Option Bytes) : ExchangePc :=
  if fails then .done (.error .store)
  else
    match found with
    | none => .done (.error .unknownCode)
    | some raw => .delete raw

/-- What `Complete` does with the answer of `Load`. -/
def completeLoaded (fails : Bool) (found : Option Bytes) : CompletePc :=
  if fails then .done (.error .loadState)
  else
    match found with
    | none => .done (.error .unknownState)
    | some raw => .delete raw

/-- `Delete`; an error leaves the entry. -/
def deleteKey (fails : Bool) (store : String → Option Bytes) (key : String) :
    String → Option Bytes :=
  if fails then store else del store key

section

variable [SessionCodec]

/-- The result of `Exchange`, once the key is consumed. -/
def exchangeResult (raw : Bytes) : Except ExchangeError SSOSession :=
  match unmarshalSession raw with
  | none => .error .corruptPayload
  | some sess => .ok sess

variable [CaseTable] [TokenLib]

/-- The rest of `Complete` on the state it loaded. -/
def completeResult (cfg : OIDCConfig) (svc : Service) (env : Answers) (now : Int) (raw : Bytes)
    (state code : String) : Except SsoError (String × SSOSession) :=
  ForgeQueue.complete cfg svc { env with load := fun _ => some (some raw) } now state code

/-- The store after the rest of `Complete`. -/
def savedStore (store : String → Option Bytes) :
    Except SsoError (String × SSOSession) → String → Option Bytes
  | .ok (otc, sess) => put store (codeKey otc) (marshalSession sess)
  | .error _ => store

/-- One step of the login. -/
def Login.step (cfg : OIDCConfig) (svc : Service) (s : Login) : LoginAct → Option Login
  | .begin state value => some { s with store := put s.store (stateKey state) value }
  | .exchange k code =>
    if (s.requests k).isSome then none
    else some (s.setRequest k (.exchange code .load))
  | .complete k state code =>
    if (s.requests k).isSome then none
    else some (s.setRequest k (.complete state code .load))
  | .load k fails =>
    match s.requests k with
    | some (.exchange code .load) =>
      some (s.setRequest k (.exchange code (exchangeLoaded fails (s.store (codeKey code)))))
    | some (.complete state code .load) =>
      some (s.setRequest k
        (.complete state code (completeLoaded fails (s.store (stateKey state)))))
    | _ => none
  | .delete k fails =>
    match s.requests k with
    | some (.exchange code (.delete raw)) =>
      some ({ s with store := deleteKey fails s.store (codeKey code) }.setRequest k
        (.exchange code (.done (exchangeResult raw))))
    | some (.complete state code (.delete raw)) =>
      some ({ s with store := deleteKey fails s.store (stateKey state) }.setRequest k
        (.complete state code (.save raw)))
    | _ => none
  | .save k env now =>
    match s.requests k with
    | some (.complete state code (.save raw)) =>
      let result := completeResult cfg svc env now raw state code
      some ({ s with store := savedStore s.store result }.setRequest k
        (.complete state code (.done result)))
    | _ => none
  | .expire key => some { s with store := del s.store key }

/-- Runs of the login. -/
abbrev LoginRun (cfg : OIDCConfig) (svc : Service) (ok : Login → LoginAct → Prop) :
    Login → List LoginAct → Login → Prop :=
  Run (Login.step cfg svc) ok

end

end ForgeQueue
