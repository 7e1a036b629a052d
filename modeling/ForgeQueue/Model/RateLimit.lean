import ForgeQueue.Model.Oidc
import Mathlib.Data.List.Nodup
import Mathlib.Data.Rat.Defs
import Mathlib.Algebra.Order.Ring.Rat

/-!
# The rate limiter of the login endpoint

`internal/httpapi/ratelimit.go`: a token bucket for each key, in a map that is swept when it
has grown. Tokens, rates and times are exact here: rationals, times in seconds. The login
endpoint (`server.go`, `middleware.go`) asks two of them, one over all logins and one for
each client.
-/

namespace ForgeQueue

/-- `bucket`. -/
structure Bucket where
  tokens : ℚ
  last : ℚ
  deriving DecidableEq

/-- `rateLimiter`. The map is a list of pairs with distinct keys. -/
structure RateLimiter where
  buckets : List (String × Bucket)
  distinct : (buckets.map Prod.fst).Nodup
  rate : ℚ
  burst : ℚ

/-- `newRateLimiter`, with its defaults for values that are not positive. -/
def newRateLimiter (ratePerSecond burst : ℚ) : RateLimiter where
  buckets := []
  distinct := List.nodup_nil
  rate := if ratePerSecond ≤ 0 then 1 / 5 else ratePerSecond
  burst := if burst ≤ 0 then 10 else burst

/-- `l.buckets[key]`. -/
def RateLimiter.get (l : RateLimiter) (key : String) : Option Bucket := l.buckets.lookup key

/-- Write the bucket of a key. -/
def RateLimiter.set (l : RateLimiter) (key : String) (b : Bucket) : RateLimiter where
  buckets := (key, b) :: l.buckets.filter fun p => p.1 ≠ key
  distinct := by
    rw [List.map_cons, List.nodup_cons]
    refine ⟨?_, l.distinct.sublist (List.filter_sublist.map _)⟩
    simp
  rate := l.rate
  burst := l.burst

/-- `sweepLocked`: buckets that were not used for ten minutes go. -/
def RateLimiter.sweepLocked (l : RateLimiter) (now : ℚ) : RateLimiter where
  buckets := l.buckets.filter fun p => ¬ 600 < now - p.2.last
  distinct := l.distinct.sublist (List.filter_sublist.map _)
  rate := l.rate
  burst := l.burst

/-- The bucket after the refill for elapsed time, capped at the burst. -/
def RateLimiter.refill (l : RateLimiter) (now : ℚ) (b : Bucket) : Bucket :=
  let elapsed := now - b.last
  if 0 < elapsed then
    let tokens := b.tokens + elapsed * l.rate
    ⟨if l.burst < tokens then l.burst else tokens, now⟩
  else b

/-- `allow`: the limiter afterwards and the answer. A new key gets a full bucket. The map is
swept after a call that was allowed. -/
def RateLimiter.allow (l : RateLimiter) (now : ℚ) (key : String) : RateLimiter × Bool :=
  let b := l.refill now ((l.get key).getD ⟨l.burst, now⟩)
  if b.tokens < 1 then (l.set key b, false)
  else
    let l := l.set key { b with tokens := b.tokens - 1 }
    (if 4096 < l.buckets.length then l.sweepLocked now else l, true)

/-- A sequence of calls, each with its time and key, and the answers in order. -/
def RateLimiter.allowAll : RateLimiter → List (ℚ × String) → RateLimiter × List Bool
  | l, [] => (l, [])
  | l, (now, key) :: calls =>
    let one := l.allow now key
    let next := one.1.allowAll calls
    (next.1, one.2 :: next.2)

/-- The limiters of the server: one over all logins, one for each client. -/
def loginGlobal : RateLimiter := newRateLimiter 20 40

@[inherit_doc loginGlobal]
def loginIP : RateLimiter := newRateLimiter (1 / 5) 10

/-! ## The login endpoint -/

/-- Of a request: its `X-Forwarded-For` header, empty if there is none, and the address of
the connection. -/
structure HttpRequest where
  forwardedFor : String
  remoteAddr : String
  deriving DecidableEq

/-- An address without what follows its last colon. -/
def peerHost (address : String) : String :=
  match address.toList.reverse.dropWhile (· ≠ ':') with
  | [] => address
  | _ :: host => .ofList host.reverse

/-- `clientIP`: the leftmost entry of the header, or the peer. -/
def clientIP (r : HttpRequest) : String :=
  if r.forwardedFor ≠ "" then
    let first := trimSpace (.ofList ((Base.splitOn ',' r.forwardedFor.toList).headD []))
    if first ≠ "" then first else peerHost r.remoteAddr
  else peerHost r.remoteAddr

/-- The limiters of a `Server`. -/
structure LoginLimiters where
  loginGlobal : RateLimiter
  loginIP : RateLimiter

/-- `NewServer`. -/
def newLoginLimiters : LoginLimiters := ⟨loginGlobal, loginIP⟩

/-- What becomes of a login attempt. Both refusals are answered alike, with status 429. -/
inductive LoginVerdict where
  | pass
  | overGlobal
  | overIP
  deriving DecidableEq

/-- `loginLimiter`: the second limiter is asked if the first allows the attempt. -/
def LoginLimiters.loginLimiter (s : LoginLimiters) (now : ℚ) (r : HttpRequest) :
    LoginLimiters × LoginVerdict :=
  let global := s.loginGlobal.allow now "global"
  if !global.2 then ({ s with loginGlobal := global.1 }, .overGlobal)
  else
    let ip := s.loginIP.allow now (clientIP r)
    (⟨global.1, ip.1⟩, if !ip.2 then .overIP else .pass)

/-- A sequence of attempts, each with its time, and the verdicts in order. -/
def LoginLimiters.loginAll :
    LoginLimiters → List (ℚ × HttpRequest) → LoginLimiters × List LoginVerdict
  | s, [] => (s, [])
  | s, (now, r) :: attempts =>
    let one := s.loginLimiter now r
    let next := one.1.loginAll attempts
    (next.1, one.2 :: next.2)

/-! ## Reading after writing -/

@[simp] theorem set_rate (l : RateLimiter) (key : String) (b : Bucket) :
    (l.set key b).rate = l.rate := rfl
@[simp] theorem set_burst (l : RateLimiter) (key : String) (b : Bucket) :
    (l.set key b).burst = l.burst := rfl
@[simp] theorem sweepLocked_rate (l : RateLimiter) (now : ℚ) :
    (l.sweepLocked now).rate = l.rate := rfl
@[simp] theorem sweepLocked_burst (l : RateLimiter) (now : ℚ) :
    (l.sweepLocked now).burst = l.burst := rfl

/-- With distinct keys a lookup finds the pair there is. -/
theorem lookup_eq_some_iff {buckets : List (String × Bucket)} {key : String} {b : Bucket}
    (hdistinct : (buckets.map Prod.fst).Nodup) :
    buckets.lookup key = some b ↔ (key, b) ∈ buckets := by
  induction buckets with
  | nil => simp
  | cons p buckets ih =>
    obtain ⟨k, c⟩ := p
    rw [List.map_cons, List.nodup_cons] at hdistinct
    rw [List.lookup_cons, List.mem_cons, Prod.mk.injEq]
    by_cases hk : key = k
    · subst hk
      have hno : (key, b) ∉ buckets := fun hmem => hdistinct.1 (List.mem_map.mpr ⟨_, hmem, rfl⟩)
      simp [hno, eq_comm]
    · have hbeq : (key == k) = false := by simpa using hk
      simp only [hbeq, hk, false_and, false_or]
      exact ih hdistinct.2

theorem RateLimiter.get_eq_some {l : RateLimiter} {key : String} {b : Bucket} :
    l.get key = some b ↔ (key, b) ∈ l.buckets :=
  lookup_eq_some_iff l.distinct

theorem RateLimiter.get_set_self (l : RateLimiter) (key : String) (b : Bucket) :
    (l.set key b).get key = some b :=
  RateLimiter.get_eq_some.mpr List.mem_cons_self

theorem RateLimiter.get_set_of_ne (l : RateLimiter) {key other : String} (b : Bucket)
    (h : other ≠ key) : (l.set key b).get other = l.get other := by
  refine Option.ext fun c => ?_
  rw [RateLimiter.get_eq_some, RateLimiter.get_eq_some]
  show (other, c) ∈ (key, b) :: l.buckets.filter _ ↔ _
  simp [h]

/-- A sweep drops a bucket or leaves it as it is. -/
theorem RateLimiter.get_sweepLocked (l : RateLimiter) (now : ℚ) (key : String) :
    (l.sweepLocked now).get key = (l.get key).filter fun b => ¬ 600 < now - b.last := by
  refine Option.ext fun c => ?_
  rw [RateLimiter.get_eq_some, Option.filter_eq_some_iff, RateLimiter.get_eq_some]
  exact List.mem_filter

end ForgeQueue
