import ForgeQueue.Base.Expiry
import ForgeQueue.Model.StateStore

/-!
# The login with a clock

The two implementations of `StateStore`: `MemoryStore` of `internal/auth/state.go`, which
drops an expired entry when it is asked for it, and `RedisStore` of
`internal/auth/redis_state.go`, where the server does the expiring. The requests of a login
run over either one, with the lifetimes of `OIDCConfig`; time passes between the calls.
Instants and lifetimes are in milliseconds, the unit of the server.
-/

namespace ForgeQueue

open Base

/-- `StateStore`. `Load` may change the store; a call reads the clock. -/
structure StateStore (σ : Type) where
  save : σ → (now : Int) → (key : String) → (value : Bytes) → (ttl : Int) → σ
  load : σ → (now : Int) → (key : String) → σ × Option Bytes
  delete : σ → (key : String) → σ

/-! ## `MemoryStore` -/

/-- `memEntry`. -/
structure MemEntry where
  value : Bytes
  expires : Int

/-- The `items` of a `MemoryStore`. -/
abbrev MemoryStore := String → Option MemEntry

def memoryStore : StateStore MemoryStore where
  save items now key value ttl := put items key ⟨value, now + ttl⟩
  load items now key :=
    match items key with
    | none => (items, none)
    | some e => if now > e.expires then (del items key, none) else (items, some e.value)
  delete items key := del items key

/-! ## `RedisStore` -/

/-- The keys of the server. -/
abbrev RedisKeys := String → Option (Lasting Bytes)

/-- `SET` with an expiry, or without one when the lifetime is not positive; `GET`; `DEL`. The
server does not answer with a key that has expired. -/
def redisStore : StateStore RedisKeys where
  save keys now key value ttl := put keys key ⟨value, if 0 < ttl then some (now + ttl) else none⟩
  load keys now key := (keys, (visible now keys key).map (·.value))
  delete keys key := del keys key

/-! ## The login -/

/-- `StateTTL` and `CodeTTL`. -/
structure Lifetimes where
  state : Int
  code : Int

/-- As `NewOIDC` fills them in. -/
def Lifetimes.resolve (t : Lifetimes) : Lifetimes where
  state := if t.state ≤ 0 then 10 * 60 * 1000 else t.state
  code := if t.code ≤ 0 then 60 * 1000 else t.code

/-- The store, the clock, and the requests received so far. -/
structure TimedLogin (σ : Type) where
  store : σ
  clock : Int
  requests : ℕ → Option LoginRequest

/-- One step, at the time of the clock. -/
inductive TimedAct where
  | wait (d : ℕ)
  /-- `Begin` saves the state of a new attempt. -/
  | begin (state : String) (value : Bytes)
  | exchange (k : ℕ) (code : String)
  | complete (k : ℕ) (state code : String)
  | load (k : ℕ)
  | delete (k : ℕ)
  /-- The rest of `Complete`, up to its `Save`. -/
  | save (k : ℕ) (env : Answers)

variable {σ : Type}

/-- Move one request, with the store as it is then. -/
def TimedLogin.move (s : TimedLogin σ) (store : σ) (k : ℕ) (q : LoginRequest) : TimedLogin σ :=
  { s with store := store, requests := put s.requests k q }

variable [SessionCodec]

/-- The store after the rest of `Complete`. -/
def StateStore.saved (st : StateStore σ) (store : σ) (now : Int) (ttl : Lifetimes) :
    Except SsoError (String × SSOSession) → σ
  | .ok (otc, sess) => st.save store now (codeKey otc) (marshalSession sess) ttl.code
  | .error _ => store

variable [CaseTable] [TokenLib]

/-- The rest of `Complete` at the time of the clock. -/
def TimedLogin.result (cfg : OIDCConfig) (svc : Service) (s : TimedLogin σ) (env : Answers)
    (raw : Bytes) (state code : String) : Except SsoError (String × SSOSession) :=
  completeResult cfg svc env (s.clock * 1000000) raw state code

/-- One step of the login. -/
def TimedLogin.step (st : StateStore σ) (ttl : Lifetimes) (cfg : OIDCConfig) (svc : Service)
    (s : TimedLogin σ) : TimedAct → Option (TimedLogin σ)
  | .wait d => some { s with clock := s.clock + d }
  | .begin state value =>
    some { s with store := st.save s.store s.clock (stateKey state) value ttl.state }
  | .exchange k code =>
    if (s.requests k).isSome then none else some (s.move s.store k (.exchange code .load))
  | .complete k state code =>
    if (s.requests k).isSome then none else some (s.move s.store k (.complete state code .load))
  | .load k =>
    match s.requests k with
    | some (.exchange code .load) =>
      let loaded := st.load s.store s.clock (codeKey code)
      some (s.move loaded.1 k (.exchange code (exchangeLoaded false loaded.2)))
    | some (.complete state code .load) =>
      let loaded := st.load s.store s.clock (stateKey state)
      some (s.move loaded.1 k (.complete state code (completeLoaded false loaded.2)))
    | _ => none
  | .delete k =>
    match s.requests k with
    | some (.exchange code (.delete raw)) =>
      some (s.move (st.delete s.store (codeKey code)) k
        (.exchange code (.done (exchangeResult raw))))
    | some (.complete state code (.delete raw)) =>
      some (s.move (st.delete s.store (stateKey state)) k (.complete state code (.save raw)))
    | _ => none
  | .save k env =>
    match s.requests k with
    | some (.complete state code (.save raw)) =>
      let result := s.result cfg svc env raw state code
      some (s.move (st.saved s.store s.clock ttl result) k (.complete state code (.done result)))
    | _ => none

/-- Nothing stored, nobody there. -/
def TimedLogin.init (empty : σ) : TimedLogin σ := ⟨empty, 0, nothing⟩

/-- Runs of the login over a store. -/
abbrev TimedRun (st : StateStore σ) (ttl : Lifetimes) (cfg : OIDCConfig) (svc : Service) :
    TimedLogin σ → List TimedAct → TimedLogin σ → Prop :=
  Run (TimedLogin.step st ttl cfg svc) fun _ _ => True

end ForgeQueue
