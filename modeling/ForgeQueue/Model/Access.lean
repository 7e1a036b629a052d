import ForgeQueue.Model.Desk
import ForgeQueue.Model.Oidc

/-!
# Who may change the queue

The two doors of the system. `internal/httpapi/server.go` routes a request, takes the bearer
token from its `Authorization` header and checks the permission of the route;
`internal/gateway/auth.go` does the same for an RPC, with a reading of the header of its own.

`Front` is the API with the gateway: requests and calls come in with any header, are refused
or admitted, and those that were admitted send their commands one at a time, among the
commands of workers and reconcilers.
-/

namespace ForgeQueue

open Base

/-! ## The HTTP API -/

/-- A request: its method, the segments of its path, and its `Authorization` header, empty if
there is none. -/
structure ApiRequest where
  method : String
  path : List String
  authorization : String

/-- The routes of `NewServer`. -/
inductive Endpoint where
  | healthz
  | readyz
  | login
  | authConfig
  | oidcLogin
  | oidcCallback
  | oidcExchange
  | me
  | version
  | stats
  | queues
  | queue (name : String)
  | queueJobs (name : String)
  | pauseQueue (name : String)
  | resumeQueue (name : String)
  | purgeQueue (name : String)
  | job (id : String)
  | retryJob (id : String)
  | requeueJob (id : String)
  | deleteJob (id : String)
  | workers
  | worker (id : String)
  | dlq
  | purgeDLQ
  | retryDLQ (id : String)
  | deleteDLQ (id : String)
  | delayed
  | promoteDelayed (id : String)
  | cancelDelayed (id : String)
  | throughput
  deriving DecidableEq

/-- The patterns for `GET`. -/
def routeGet : List String → Option Endpoint
  | ["healthz"] => some .healthz
  | ["readyz"] => some .readyz
  | ["api", "auth", "config"] => some .authConfig
  | ["api", "auth", "oidc", "login"] => some .oidcLogin
  | ["api", "auth", "oidc", "callback"] => some .oidcCallback
  | ["api", "auth", "me"] => some .me
  | ["api", "system", "version"] => some .version
  | ["api", "system", "stats"] => some .stats
  | ["api", "queues"] => some .queues
  | ["api", "queues", name] => some (.queue name)
  | ["api", "queues", name, "jobs"] => some (.queueJobs name)
  | ["api", "jobs", id] => some (.job id)
  | ["api", "workers"] => some .workers
  | ["api", "workers", id] => some (.worker id)
  | ["api", "dlq"] => some .dlq
  | ["api", "delayed"] => some .delayed
  | ["api", "metrics", "throughput"] => some .throughput
  | _ => none

/-- The patterns for `POST`. -/
def routePost : List String → Option Endpoint
  | ["api", "auth", "login"] => some .login
  | ["api", "auth", "oidc", "exchange"] => some .oidcExchange
  | ["api", "queues", name, "pause"] => some (.pauseQueue name)
  | ["api", "queues", name, "resume"] => some (.resumeQueue name)
  | ["api", "queues", name, "purge"] => some (.purgeQueue name)
  | ["api", "jobs", id, "retry"] => some (.retryJob id)
  | ["api", "jobs", id, "requeue"] => some (.requeueJob id)
  | ["api", "dlq", "purge"] => some .purgeDLQ
  | ["api", "dlq", id, "retry"] => some (.retryDLQ id)
  | ["api", "delayed", id, "promote"] => some (.promoteDelayed id)
  | _ => none

/-- The patterns for `DELETE`. -/
def routeDelete : List String → Option Endpoint
  | ["api", "jobs", id] => some (.deleteJob id)
  | ["api", "dlq", id] => some (.deleteDLQ id)
  | ["api", "delayed", id] => some (.cancelDelayed id)
  | _ => none

/-- The router. A pattern for `GET` matches `HEAD` too. No segment of a pattern matches an
empty one, a wildcard neither. -/
def route (r : ApiRequest) : Option Endpoint :=
  if "" ∈ r.path then none
  else if r.method = "GET" ∨ r.method = "HEAD" then routeGet r.path
  else if r.method = "POST" then routePost r.path
  else if r.method = "DELETE" then routeDelete r.path
  else none

/-- How a route is protected. -/
inductive Gate where
  | unprotected
  /-- `require("", …)`. -/
  | signedIn
  | permission (perm : Permission)
  deriving DecidableEq

/-- The protection each route is registered with. -/
def Endpoint.gate : Endpoint → Gate
  | .healthz | .readyz | .login | .authConfig | .oidcLogin | .oidcCallback | .oidcExchange =>
    .unprotected
  | .me => .signedIn
  | .version | .stats => .permission .systemRead
  | .queues | .queue _ => .permission .queuesRead
  | .pauseQueue _ | .resumeQueue _ | .purgeQueue _ => .permission .queuesWrite
  | .queueJobs _ | .job _ => .permission .jobsRead
  | .retryJob _ | .requeueJob _ | .deleteJob _ => .permission .jobsWrite
  | .workers | .worker _ => .permission .workersRead
  | .dlq => .permission .dlqRead
  | .purgeDLQ | .retryDLQ _ | .deleteDLQ _ => .permission .dlqWrite
  | .delayed => .permission .delayedRead
  | .promoteDelayed _ | .cancelDelayed _ => .permission .delayedWrite
  | .throughput => .permission .metricsRead

/-- What a handler does to the queue. -/
inductive Order where
  /-- It reads, if anything. -/
  | nothing
  /-- `SET` or `DEL` of `queue:paused`. -/
  | setPaused (on : Bool)
  | demand (d : Demand)

def Endpoint.order : Endpoint → Order
  | .pauseQueue _ => .setPaused true
  | .resumeQueue _ => .setPaused false
  | .purgeQueue _ => .demand (.action .purgeQueue)
  | .retryJob id => .demand (.action (.retryJob id))
  | .requeueJob id => .demand (.action (.requeueJob id))
  | .deleteJob id => .demand (.action (.deleteJob id))
  | .purgeDLQ => .demand (.action .purgeDLQ)
  | .retryDLQ id => .demand (.action (.retryDLQ id))
  | .deleteDLQ id => .demand (.action (.deleteDLQ id))
  | .promoteDelayed id => .demand (.promoteDelayed id)
  | .cancelDelayed id => .demand (.action (.cancelDelayed id))
  | _ => .nothing

/-- `strings.EqualFold` with a text of letters that only their two cases fold to. -/
def equalFold (s t : Text) : Bool := s.map Char.toLower == t

/-- The token of an `Authorization` header, as `authenticate` cuts it out. -/
def bearerHeader (header : String) : Option Text :=
  let text := header.toList
  if text.length ≤ 7 ∨ equalFold (text.take 7) "bearer ".toList = false then none
  else
    let token := (trimSpace (.ofList (text.drop 7))).toList
    if token = [] then none else some token

/-- `Can`. -/
def Identity.can (id : Identity) (perm : Permission) : Bool := id.permissions.contains perm

/-- How a request is turned away: 404, 401 "authentication required" and 403 "insufficient
permissions". -/
inductive Refusal where
  | notFound
  | unauthorized
  | forbidden
  deriving DecidableEq

section

variable [TokenLib]

/-- `authenticate`. -/
def authenticate (svc : Service) (now : Int) (header : String) : Option Identity :=
  match bearerHeader header with
  | none => none
  | some token =>
    match svc.verifyToken now token with
    | .error _ => none
    | .ok id => some id

/-- `require`: whether the handler runs. -/
def Gate.require (svc : Service) (now : Int) (header : String) : Gate → Except Refusal Unit
  | .unprotected => .ok ()
  | .signedIn =>
    match authenticate svc now header with
    | none => .error .unauthorized
    | some _ => .ok ()
  | .permission perm =>
    match authenticate svc now header with
    | none => .error .unauthorized
    | some id => if id.can perm then .ok () else .error .forbidden

/-- What a request is allowed to do to the queue. -/
def allow (svc : Service) (now : Int) (r : ApiRequest) : Except Refusal Order :=
  match route r with
  | none => .error .notFound
  | some e =>
    match e.gate.require svc now r.authorization with
    | .error refusal => .error refusal
    | .ok () => .ok e.order

end

/-! ## The gateway -/

/-- Why an RPC was turned away. -/
inductive RpcRefusal where
  /-- `Unauthenticated`: "missing request metadata". -/
  | noMetadata
  /-- "missing authorization metadata". -/
  | noAuthorization
  /-- "malformed authorization metadata". -/
  | malformed
  /-- "invalid or missing credentials". -/
  | invalidCredentials
  /-- `PermissionDenied`: "no policy for method". -/
  | noPolicy
  | missingPermission (perm : Permission)
  /-- `InvalidArgument`: "task type cannot be empty". -/
  | emptyTaskType
  deriving DecidableEq

/-- `methodPermissions`. -/
def methodPermissions (method : String) : Option Permission :=
  if method = "/queue.v1.QueueService/EnqueueTask" then some .queuesWrite else none

/-- The token of an `authorization` value, as `bearerToken` cuts it out. -/
def bearerValue (value : String) : Option Text :=
  match fields isSpace value.toList with
  | [scheme, token] => if equalFold scheme "bearer".toList then some token else none
  | _ => none

/-- `bearerToken`, of the metadata of a call; only the first value counts. -/
def bearerToken (metadata : Option (List String)) : Except RpcRefusal Text :=
  match metadata with
  | none => .error .noMetadata
  | some [] => .error .noAuthorization
  | some (value :: _) =>
    match bearerValue value with
    | none => .error .malformed
    | some token => .ok token

/-- `newAuthInterceptor`: the identity the handler runs under. -/
def intercept [TokenLib] (svc : Service) (now : Int) (metadata : Option (List String))
    (method : String) : Except RpcRefusal Identity :=
  match bearerToken metadata with
  | .error refusal => .error refusal
  | .ok token =>
    match svc.verifyToken now token with
    | .error _ => .error .invalidCredentials
    | .ok id =>
      match methodPermissions method with
      | none => .error .noPolicy
      | some perm => if id.can perm then .ok id else .error (.missingPermission perm)

/-- A call: its metadata, its method and its request, under the id it is given. -/
structure Rpc where
  metadata : Option (List String)
  method : String
  args : RouteArgs

/-- The interceptor and the guard of `EnqueueTask`. -/
def allowRpc [TokenLib] (svc : Service) (now : Int) (c : Rpc) : Except RpcRefusal Unit :=
  match intercept svc now c.metadata c.method with
  | .error refusal => .error refusal
  | .ok _ => if c.args.taskType = "" then .error .emptyTaskType else .ok ()

/-! ## Both doors -/

/-- Where an admitted `EnqueueTask` is. -/
inductive EnqueuePc where
  /-- Before `SET task:<id>`. -/
  | set
  /-- Before `LPUSH` or `ZADD`. -/
  | push
  | done
  deriving DecidableEq

/-- The queue with the requests and the calls that were admitted. -/
structure Front (Body : Type) where
  desk : Desk Body
  calls : ℕ → Option (RouteArgs × EnqueuePc)

def Front.init {Body : Type} : Front Body := ⟨.init, Base.nothing⟩

inductive FrontAct (Body : Type) where
  /-- A command or script of a worker or a reconciler. -/
  | engine (c : Call Body)
  /-- An HTTP request comes in. -/
  | http (k : ℕ) (now : Int) (r : ApiRequest)
  /-- An admitted request sends its next command. -/
  | next (k : ℕ)
  /-- An RPC comes in. -/
  | rpc (k : ℕ) (now : Int) (c : Rpc)
  /-- An admitted call sends its next command, at Redis's time and the gateway's. -/
  | write (k : ℕ) (now clock : ℚ)

section

variable {Body : Type} [BodyCodec Body] [DecidableEq Body]

/-- An order is taken: one command, or a request with its commands to come. -/
def Order.take (k : ℕ) (d : Desk Body) : Order → Option (Desk Body)
  | .nothing => some d
  | .setPaused on => some { d with redis := { d.redis with paused := on } }
  | .demand wanted => d.step (.receive k wanted)

/-- One step. Who is turned away leaves no trace. -/
def Front.step [TokenLib] (svc : Service) (f : Front Body) : FrontAct Body → Option (Front Body)
  | .engine c => (f.desk.step (.engine c)).map fun d => { f with desk := d }
  | .http k now r =>
    match allow svc now r with
    | .error _ => some f
    | .ok order => (order.take k f.desk).map fun d => { f with desk := d }
  | .next k => (f.desk.step (.next k)).map fun d => { f with desk := d }
  | .rpc k now c =>
    match allowRpc svc now c with
    | .error _ => some f
    | .ok () =>
      if (f.calls k).isSome then none
      else some { f with calls := put f.calls k (c.args, .set) }
  | .write k now clock =>
    match f.calls k with
    | some (a, .set) => some
      ⟨{ f.desk with redis := f.desk.redis.after now (.routeBody a) }, put f.calls k (a, .push)⟩
    | some (a, .push) => some
      ⟨{ f.desk with redis := f.desk.redis.after now (.routePush a clock) },
        put f.calls k (a, .done)⟩
    | _ => none

/-- Runs of both doors. -/
abbrev FrontRun [TokenLib] (svc : Service) (ok : Front Body → FrontAct Body → Prop) :
    Front Body → List (FrontAct Body) → Front Body → Prop :=
  Run (Front.step svc) ok

end

end ForgeQueue
