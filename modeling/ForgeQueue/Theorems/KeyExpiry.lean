import ForgeQueue.Model.TimedLogin
import ForgeQueue.Theorems.SsoProvenance

/-!
# The lifetimes of a login

Whether an entry past its lifetime is dropped when somebody asks for it or by the server
makes no difference to any request. And no request gets past its `Load` with an entry past
its lifetime: a callback is for an attempt that began no longer than `StateTTL` ago, and a
code buys a session that was stored no longer than `CodeTTL` ago.
-/

namespace ForgeQueue

open Base

theorem Lifetimes.resolve_pos (t : Lifetimes) : 0 < t.resolve.state ∧ 0 < t.resolve.code := by
  unfold Lifetimes.resolve
  constructor <;> dsimp only <;> split <;> omega

/-! ## Lazy and prompt expiry -/

/-- The entries with their deadlines. -/
def MemoryStore.timed (items : MemoryStore) : RedisKeys :=
  fun key => (items key).map fun e => ⟨e.value, some e.expires⟩

theorem MemoryStore.timed_put (items : MemoryStore) (key : String) (e : MemEntry) :
    MemoryStore.timed (put items key e) =
      put (MemoryStore.timed items) key ⟨e.value, some e.expires⟩ := by
  funext x
  by_cases hx : x = key
  · simp [MemoryStore.timed, hx]
  · simp [MemoryStore.timed, hx]

theorem MemoryStore.timed_del (items : MemoryStore) (key : String) :
    MemoryStore.timed (del items key) = del (MemoryStore.timed items) key := by
  funext x
  by_cases hx : x = key
  · simp [MemoryStore.timed, hx]
  · simp [MemoryStore.timed, hx]

/-- The two stores look alike. -/
def LookAlike (now : Int) (items : MemoryStore) (keys : RedisKeys) : Prop :=
  visible now (MemoryStore.timed items) = visible now keys

theorem LookAlike.save {now : Int} {items : MemoryStore} {keys : RedisKeys}
    (h : LookAlike now items keys) (key : String) (value : Bytes) {ttl : Int} (httl : 0 < ttl) :
    LookAlike now (memoryStore.save items now key value ttl)
      (redisStore.save keys now key value ttl) := by
  have halive : (⟨value, some (now + ttl)⟩ : Lasting Bytes).alive now = true := by
    simp only [Lasting.alive, Option.all_some, decide_eq_true_eq]
    omega
  unfold LookAlike memoryStore redisStore
  dsimp only
  rw [if_pos httl, MemoryStore.timed_put, visible_put _ _ halive, visible_put _ _ halive, h]

theorem LookAlike.delete {now : Int} {items : MemoryStore} {keys : RedisKeys}
    (h : LookAlike now items keys) (key : String) :
    LookAlike now (memoryStore.delete items key) (redisStore.delete keys key) := by
  unfold LookAlike memoryStore redisStore
  dsimp only
  rw [MemoryStore.timed_del, visible_del, visible_del, h]

/-- `Load` answers with what is visible, and what it drops is not. -/
theorem memoryStore_load (items : MemoryStore) (now : Int) (key : String) :
    (memoryStore.load items now key).2 =
        (visible now (MemoryStore.timed items) key).map (·.value) ∧
      visible now (MemoryStore.timed (memoryStore.load items now key).1) =
        visible now (MemoryStore.timed items) := by
  unfold memoryStore
  dsimp only
  cases hkey : items key with
  | none => simp [visible, MemoryStore.timed, hkey]
  | some e =>
    have htimed : MemoryStore.timed items key = some ⟨e.value, some e.expires⟩ := by
      simp [MemoryStore.timed, hkey]
    dsimp only
    split
    · next hlate =>
      have hdead : (⟨e.value, some e.expires⟩ : Lasting Bytes).alive now = false := by
        simp only [Lasting.alive, Option.all_some, decide_eq_false_iff_not]
        omega
      refine ⟨?_, ?_⟩
      · simp [visible, htimed, hdead]
      · rw [MemoryStore.timed_del, visible_del_expired htimed hdead]
    · next hlate =>
      have halive : (⟨e.value, some e.expires⟩ : Lasting Bytes).alive now = true := by
        simp only [Lasting.alive, Option.all_some, decide_eq_true_eq]
        omega
      exact ⟨by simp [visible, htimed, halive], rfl⟩

theorem LookAlike.load {now : Int} {items : MemoryStore} {keys : RedisKeys}
    (h : LookAlike now items keys) (key : String) :
    (memoryStore.load items now key).2 = (redisStore.load keys now key).2 ∧
      LookAlike now (memoryStore.load items now key).1 (redisStore.load keys now key).1 := by
  obtain ⟨hanswer, hrest⟩ := memoryStore_load items now key
  refine ⟨?_, hrest.trans h⟩
  rw [hanswer, h]
  rfl

/-- The two logins cannot be told apart. -/
structure SameLogin (s : TimedLogin MemoryStore) (t : TimedLogin RedisKeys) : Prop where
  clock : s.clock = t.clock
  requests : s.requests = t.requests
  store : LookAlike s.clock s.store t.store

theorem SameLogin.move {s : TimedLogin MemoryStore} {t : TimedLogin RedisKeys}
    (h : SameLogin s t) {items : MemoryStore} {keys : RedisKeys}
    (hstore : LookAlike s.clock items keys) (k : ℕ) (q : LoginRequest) :
    SameLogin (s.move items k q) (t.move keys k q) :=
  ⟨h.clock, congrArg (put · k q) h.requests, hstore⟩

section

variable [SessionCodec] [CaseTable] [TokenLib] {ttl : Lifetimes} {cfg : OIDCConfig}
  {svc : Service}

/-- **One step over either store.** -/
theorem SameLogin.step {s : TimedLogin MemoryStore} {t : TimedLogin RedisKeys}
    (h : SameLogin s t) (hs : 0 < ttl.state) (hc : 0 < ttl.code) (act : TimedAct) :
    Option.Rel SameLogin (s.step memoryStore ttl cfg svc act)
      (t.step redisStore ttl cfg svc act) := by
  obtain ⟨items, clock, requests⟩ := s
  obtain ⟨keys, clock', requests'⟩ := t
  obtain ⟨rfl, rfl, hstore⟩ := h
  have hsame : SameLogin ⟨items, clock, requests⟩ ⟨keys, clock, requests⟩ := ⟨rfl, rfl, hstore⟩
  cases act with
  | wait d =>
    have hlater : clock ≤ clock + d := by omega
    exact .some ⟨rfl, rfl, visible_congr_of_le hlater hstore⟩
  | begin state value => exact .some ⟨rfl, rfl, hstore.save _ _ hs⟩
  | exchange k code =>
    unfold TimedLogin.step
    dsimp only
    split
    · exact .none
    · exact .some (hsame.move hstore k _)
  | complete k state code =>
    unfold TimedLogin.step
    dsimp only
    split
    · exact .none
    · exact .some (hsame.move hstore k _)
  | load k =>
    unfold TimedLogin.step
    dsimp only
    split
    · next code _ =>
      obtain ⟨hanswer, hrest⟩ := hstore.load (codeKey code)
      rw [hanswer]
      exact .some (hsame.move hrest k _)
    · next state code _ =>
      obtain ⟨hanswer, hrest⟩ := hstore.load (stateKey state)
      rw [hanswer]
      exact .some (hsame.move hrest k _)
    · exact .none
  | delete k =>
    unfold TimedLogin.step
    dsimp only
    split
    · exact .some (hsame.move (hstore.delete _) k _)
    · exact .some (hsame.move (hstore.delete _) k _)
    · exact .none
  | save k env =>
    unfold TimedLogin.step
    dsimp only
    split
    · next state code raw _ =>
      refine .some (hsame.move ?_ k _)
      unfold TimedLogin.result
      cases completeResult cfg svc env (clock * 1000000) raw state code with
      | error e => exact hstore
      | ok p => exact hstore.save _ _ hc
    · exact .none

/-- **The stores are interchangeable.** Whatever requests come in, in whatever order they make
their calls and however long they wait in between, over the store in memory they take the
same steps with the same outcomes as over Redis. -/
theorem state_stores_agree (lifetimes : Lifetimes) (cfg : OIDCConfig) (svc : Service)
    (acts : List TimedAct) :
    (runList (TimedLogin.step memoryStore lifetimes.resolve cfg svc) (.init nothing) acts).map
        (·.requests) =
      (runList (TimedLogin.step redisStore lifetimes.resolve cfg svc) (.init nothing) acts).map
        (·.requests) := by
  obtain ⟨hs, hc⟩ := lifetimes.resolve_pos
  have hinit : SameLogin (.init nothing) (.init nothing) := ⟨rfl, rfl, rfl⟩
  have hstep : ∀ s t act, SameLogin s t →
      Option.Rel SameLogin (s.step memoryStore lifetimes.resolve cfg svc act)
        (t.step redisStore lifetimes.resolve cfg svc act) :=
    fun _ _ act h => h.step hs hc act
  have hrel := runList_rel hstep acts hinit
  revert hrel
  generalize runList _ _ acts = x
  generalize runList _ _ acts = y
  intro hrel
  cases hrel with
  | none => rfl
  | some h => exact congrArg some h.requests

end

/-! ## Nothing outlives its lifetime -/

/-- How long a step takes. -/
def TimedAct.duration : TimedAct → Int
  | .wait d => d
  | _ => 0

def elapsed (acts : List TimedAct) : Int := (acts.map TimedAct.duration).sum

theorem elapsed_append (acts acts' : List TimedAct) :
    elapsed (acts ++ acts') = elapsed acts + elapsed acts' := by
  simp [elapsed]

/-- The step `w` was taken, after so much time. -/
def TakenAt (acts : List TimedAct) (w : TimedAct) (t : Int) : Prop :=
  ∃ before after, acts = before ++ w :: after ∧ elapsed before = t

theorem TakenAt.append {acts : List TimedAct} {w : TimedAct} {t : Int} (h : TakenAt acts w t)
    (acts' : List TimedAct) : TakenAt (acts ++ acts') w t := by
  obtain ⟨before, after, rfl, ht⟩ := h
  exact ⟨before, after ++ acts', by simp, ht⟩

theorem TakenAt.last (acts : List TimedAct) (w : TimedAct) :
    TakenAt (acts ++ [w]) w (elapsed acts) :=
  ⟨acts, [], rfl, rfl⟩

/-- The step `w` was taken, and request `k` called `Load` no more than `ttl` later. -/
def LoadedWithin (ttl : Int) (acts : List TimedAct) (w : TimedAct) (k : ℕ) : Prop :=
  ∃ before between after, acts = before ++ w :: (between ++ .load k :: after) ∧
    elapsed between ≤ ttl

theorem LoadedWithin.append {ttl : Int} {acts : List TimedAct} {w : TimedAct} {k : ℕ}
    (h : LoadedWithin ttl acts w k) (acts' : List TimedAct) :
    LoadedWithin ttl (acts ++ acts') w k := by
  obtain ⟨before, between, after, rfl, hle⟩ := h
  exact ⟨before, between, after ++ acts', by simp, hle⟩

/-- A `Load` before the deadline of what `w` saved. -/
theorem TakenAt.loaded {acts : List TimedAct} {w : TimedAct} {t ttl : Int} (h : TakenAt acts w t)
    (hw : w.duration = 0) (hlive : elapsed acts ≤ t + ttl) (k : ℕ) :
    LoadedWithin ttl (acts ++ [.load k]) w k := by
  obtain ⟨before, after, rfl, rfl⟩ := h
  refine ⟨before, after, [], by simp, ?_⟩
  have hsplit : elapsed (before ++ w :: after) = elapsed before + elapsed after := by
    simp [elapsed, hw]
  omega

section

variable [SessionCodec]

/-- Callback `j` has answered with the code, and this is the session it stored. -/
def IssuedBy (requests : ℕ → Option LoginRequest) (j : ℕ) (otc : String) (raw : Bytes) : Prop :=
  ∃ state code sess, requests j = some (.complete state code (.done (.ok (otc, sess)))) ∧
    raw = marshalSession sess

/-- The request has not answered. -/
def Open (requests : ℕ → Option LoginRequest) (k : ℕ) : Prop :=
  ∀ state code result, requests k ≠ some (.complete state code (.done result))

def LoginRequest.answered : LoginRequest → Bool
  | .complete _ _ (.done _) => true
  | _ => false

omit [SessionCodec] in
theorem open_of {requests : ℕ → Option LoginRequest} {k : ℕ} {q : LoginRequest}
    (h : requests k = some q) (hq : q.answered = false) : Open requests k := by
  intro state code result hk
  rw [h] at hk
  cases hk
  cases hq

/-- An answer is final. -/
theorem IssuedBy.put {requests : ℕ → Option LoginRequest} {j k : ℕ} {otc : String} {raw : Bytes}
    (h : IssuedBy requests j otc raw) (hk : Open requests k) (q : LoginRequest) :
    IssuedBy (put requests k q) j otc raw := by
  obtain ⟨state, code, sess, hj, hraw⟩ := h
  have hne : j ≠ k := by
    rintro rfl
    exact hk _ _ _ hj
  exact ⟨state, code, sess, (put_of_ne _ _ hne).trans hj, hraw⟩

/-- What a request has loaded was not past its lifetime. -/
def LoadedFresh (ttl : Lifetimes) (acts : List TimedAct) (requests : ℕ → Option LoginRequest)
    (k : ℕ) : LoginRequest → Prop
  | .exchange otc (.delete raw) =>
    ∃ j env, IssuedBy requests j otc raw ∧ LoadedWithin ttl.code acts (.save j env) k
  | .exchange otc (.done (.ok sess)) =>
    ∃ j env raw, IssuedBy requests j otc raw ∧ unmarshalSession raw = some sess ∧
      LoadedWithin ttl.code acts (.save j env) k
  | .complete state _ (.delete _) | .complete state _ (.save _)
  | .complete state _ (.done (.ok _)) =>
    ∃ value, LoadedWithin ttl.state acts (.begin state value) k
  | _ => True

theorem LoadedFresh.mono {ttl : Lifetimes} {acts : List TimedAct}
    {requests requests' : ℕ → Option LoginRequest} {k : ℕ} {q : LoginRequest}
    (h : LoadedFresh ttl acts requests k q) (act : TimedAct)
    (hrequests : ∀ j otc raw, IssuedBy requests j otc raw → IssuedBy requests' j otc raw) :
    LoadedFresh ttl (acts ++ [act]) requests' k q := by
  rcases q with ⟨otc, _ | raw | _ | sess⟩ | ⟨state, code, _ | raw | raw | _ | p⟩
  · trivial
  · obtain ⟨j, env, hissued, hwithin⟩ := h
    exact ⟨j, env, hrequests _ _ _ hissued, hwithin.append _⟩
  · trivial
  · obtain ⟨j, env, raw, hissued, hsess, hwithin⟩ := h
    exact ⟨j, env, raw, hrequests _ _ _ hissued, hsess, hwithin.append _⟩
  · trivial
  · obtain ⟨value, hwithin⟩ := h
    exact ⟨value, hwithin.append _⟩
  · obtain ⟨value, hwithin⟩ := h
    exact ⟨value, hwithin.append _⟩
  · trivial
  · obtain ⟨value, hwithin⟩ := h
    exact ⟨value, hwithin.append _⟩

/-- Every entry is good for its lifetime from the step that stored it. -/
structure Dated (ttl : Lifetimes) (acts : List TimedAct)
    (requests : ℕ → Option LoginRequest) (items : MemoryStore) : Prop where
  states : ∀ state e, items (stateKey state) = some e →
    ∃ t, TakenAt acts (.begin state e.value) t ∧ e.expires = t + ttl.state
  codes : ∀ otc e, items (codeKey otc) = some e →
    ∃ j env t, IssuedBy requests j otc e.value ∧ TakenAt acts (.save j env) t ∧
      e.expires = t + ttl.code

theorem Dated.mono {ttl : Lifetimes} {acts : List TimedAct}
    {requests requests' : ℕ → Option LoginRequest} {items items' : MemoryStore}
    (h : Dated ttl acts requests items) (act : TimedAct)
    (hrequests : ∀ j otc raw, IssuedBy requests j otc raw → IssuedBy requests' j otc raw)
    (hitems : ∀ key e, items' key = some e → items key = some e) :
    Dated ttl (acts ++ [act]) requests' items' where
  states state e he := by
    obtain ⟨t, htaken, hexpires⟩ := h.states state e (hitems _ e he)
    exact ⟨t, htaken.append _, hexpires⟩
  codes otc e he := by
    obtain ⟨j, env, t, hissued, htaken, hexpires⟩ := h.codes otc e (hitems _ e he)
    exact ⟨j, env, t, hrequests _ _ _ hissued, htaken.append _, hexpires⟩

/-- The state of a login, with what led to it. -/
structure OnTime (ttl : Lifetimes) (acts : List TimedAct) (s : TimedLogin MemoryStore) : Prop where
  clock : s.clock = elapsed acts
  dated : Dated ttl acts s.requests s.store
  loaded : ∀ k q, s.requests k = some q → LoadedFresh ttl acts s.requests k q

/-- One request moves. -/
theorem OnTime.move {ttl : Lifetimes} {acts : List TimedAct} {s : TimedLogin MemoryStore}
    (h : OnTime ttl acts s) {act : TimedAct} (hact : act.duration = 0) {k : ℕ}
    (hk : Open s.requests k) {q : LoginRequest} {items : MemoryStore}
    (hdated : Dated ttl (acts ++ [act]) (put s.requests k q) items)
    (hq : LoadedFresh ttl (acts ++ [act]) (put s.requests k q) k q) :
    OnTime ttl (acts ++ [act]) (s.move items k q) where
  clock := by
    show s.clock = _
    rw [h.clock, elapsed_append]
    simp [elapsed, hact]
  dated := hdated
  loaded j q' hq' := by
    obtain ⟨rfl, rfl⟩ | ⟨-, hold⟩ := put_eq_some.mp hq'
    · exact hq
    · exact (h.loaded j q' hold).mono act fun _ _ _ hissued => hissued.put hk q

/-- One request moves, and the store only loses entries. -/
theorem OnTime.shrink {ttl : Lifetimes} {acts : List TimedAct} {s : TimedLogin MemoryStore}
    (h : OnTime ttl acts s) {act : TimedAct} (hact : act.duration = 0) {k : ℕ}
    (hk : Open s.requests k) {q : LoginRequest} {items : MemoryStore}
    (hitems : ∀ key e, items key = some e → s.store key = some e)
    (hq : LoadedFresh ttl (acts ++ [act]) (put s.requests k q) k q) :
    OnTime ttl (acts ++ [act]) (s.move items k q) :=
  h.move hact hk (h.dated.mono act (fun _ _ _ hissued => hissued.put hk q) hitems) hq

omit [SessionCodec] in
/-- An entry after a `Save` is the saved one or an older one. -/
theorem memoryStore_save_some {items : MemoryStore} {now ttl : Int} {key x : String}
    {value : Bytes} {e : MemEntry} (h : memoryStore.save items now key value ttl x = some e) :
    x = key ∧ e = ⟨value, now + ttl⟩ ∨ items x = some e := by
  have hput : put items key ⟨value, now + ttl⟩ x = some e := h
  obtain ⟨hx, rfl⟩ | ⟨-, hold⟩ := put_eq_some.mp hput
  · exact .inl ⟨hx, rfl⟩
  · exact .inr hold

omit [SessionCodec] in
/-- `Load` finds an entry before its deadline, and adds nothing. -/
theorem memoryStore_load_some {items : MemoryStore} {now : Int} {key : String} {value : Bytes}
    (h : (memoryStore.load items now key).2 = some value) :
    ∃ e, items key = some e ∧ e.value = value ∧ now ≤ e.expires := by
  unfold memoryStore at h
  dsimp only at h
  split at h
  · cases h
  · next e he =>
    split at h
    · cases h
    · next hlate => exact ⟨e, he, Option.some.inj h, not_lt.mp hlate⟩

omit [SessionCodec] in
theorem memoryStore_load_sub {items : MemoryStore} {now : Int} {key x : String} {e : MemEntry}
    (h : (memoryStore.load items now key).1 x = some e) : items x = some e := by
  unfold memoryStore at h
  dsimp only at h
  split at h
  · exact h
  · split at h
    · exact (del_eq_some.mp h).2
    · exact h

/-- The `Load` of an exchange. -/
theorem OnTime.load_code {ttl : Lifetimes} {acts : List TimedAct} {s : TimedLogin MemoryStore}
    (h : OnTime ttl acts s) {k : ℕ} (hk : Open s.requests k) (otc : String) (q : LoginRequest) :
    LoadedFresh ttl (acts ++ [.load k]) (put s.requests k q) k
      (.exchange otc (exchangeLoaded false (memoryStore.load s.store s.clock (codeKey otc)).2)) := by
  cases hfound : (memoryStore.load s.store s.clock (codeKey otc)).2 with
  | none => trivial
  | some raw =>
    obtain ⟨e, he, rfl, hlive⟩ := memoryStore_load_some hfound
    obtain ⟨j, env, t, hissued, htaken, hexpires⟩ := h.dated.codes otc e he
    rw [h.clock, hexpires] at hlive
    exact ⟨j, env, hissued.put hk q, htaken.loaded rfl hlive k⟩

/-- The `Load` of a callback. -/
theorem OnTime.load_state {ttl : Lifetimes} {acts : List TimedAct} {s : TimedLogin MemoryStore}
    (h : OnTime ttl acts s) (k : ℕ) (requests : ℕ → Option LoginRequest) (state code : String) :
    LoadedFresh ttl (acts ++ [.load k]) requests k (.complete state code
      (completeLoaded false (memoryStore.load s.store s.clock (stateKey state)).2)) := by
  cases hfound : (memoryStore.load s.store s.clock (stateKey state)).2 with
  | none => trivial
  | some raw =>
    obtain ⟨e, he, rfl, hlive⟩ := memoryStore_load_some hfound
    obtain ⟨t, htaken, hexpires⟩ := h.dated.states state e he
    rw [h.clock, hexpires] at hlive
    exact ⟨e.value, htaken.loaded rfl hlive k⟩

/-- The `Save` of `Begin`. -/
theorem OnTime.begin {ttl : Lifetimes} {acts : List TimedAct} {s : TimedLogin MemoryStore}
    (h : OnTime ttl acts s) (state : String) (value : Bytes) :
    OnTime ttl (acts ++ [.begin state value])
      { s with store := memoryStore.save s.store s.clock (stateKey state) value ttl.state } where
  clock := by
    rw [elapsed_append, ← h.clock]
    simp [elapsed, TimedAct.duration]
  dated := by
    have hold := h.dated.mono (.begin state value) (fun _ _ _ hissued => hissued) fun _ _ he => he
    show Dated ttl _ s.requests (memoryStore.save s.store s.clock (stateKey state) value ttl.state)
    refine ⟨fun state' e he => ?_, fun otc e he => ?_⟩
    · obtain ⟨hkey, rfl⟩ | he' := memoryStore_save_some he
      · obtain rfl := stateKey_injective hkey
        exact ⟨_, .last acts _, congrArg (· + ttl.state) h.clock⟩
      · exact hold.states state' e he'
    · obtain ⟨hkey, -⟩ | he' := memoryStore_save_some he
      · exact absurd hkey.symm (stateKey_ne_codeKey _ _)
      · exact hold.codes otc e he'
  loaded k q hq := (h.loaded k q hq).mono _ fun _ _ _ hissued => hissued

/-- The `Save` of a callback. -/
theorem OnTime.saved {ttl : Lifetimes} {acts : List TimedAct} {s : TimedLogin MemoryStore}
    (h : OnTime ttl acts s) {k : ℕ} (hk : Open s.requests k) (env : Answers)
    (state code : String) (result : Except SsoError (String × SSOSession)) :
    Dated ttl (acts ++ [.save k env])
      (put s.requests k (.complete state code (.done result)))
      (memoryStore.saved s.store s.clock ttl result) := by
  have hold := h.dated.mono (.save k env)
    (fun _ _ _ hissued => hissued.put hk (.complete state code (.done result))) fun _ _ he => he
  cases result with
  | error e => exact hold
  | ok p =>
    obtain ⟨otc, sess⟩ := p
    refine ⟨fun state' e he => ?_, fun otc' e he => ?_⟩
    · obtain ⟨hkey, -⟩ | he' := memoryStore_save_some he
      · exact absurd hkey (stateKey_ne_codeKey _ _)
      · exact hold.states state' e he'
    · obtain ⟨hkey, rfl⟩ | he' := memoryStore_save_some he
      · obtain rfl := codeKey_injective hkey
        exact ⟨k, env, _, ⟨state, code, sess, put_self _ _ _, rfl⟩, .last acts _,
          congrArg (· + ttl.code) h.clock⟩
      · exact hold.codes otc' e he'

variable [CaseTable] [TokenLib] {ttl : Lifetimes} {cfg : OIDCConfig} {svc : Service}

/-- **One step.** -/
theorem OnTime.step {acts : List TimedAct} {s s' : TimedLogin MemoryStore} {act : TimedAct}
    (h : OnTime ttl acts s) (hst : s.step memoryStore ttl cfg svc act = some s') :
    OnTime ttl (acts ++ [act]) s' := by
  cases act with
  | wait d =>
    obtain rfl := Option.some.inj hst
    refine ⟨?_, h.dated.mono _ (fun _ _ _ hissued => hissued) fun _ _ he => he, fun k q hq =>
      (h.loaded k q hq).mono _ fun _ _ _ hissued => hissued⟩
    rw [elapsed_append, ← h.clock]
    simp [elapsed, TimedAct.duration]
  | begin state value =>
    obtain rfl := Option.some.inj hst
    exact h.begin state value
  | exchange k code =>
    unfold TimedLogin.step at hst
    dsimp only at hst
    split at hst
    · cases hst
    · next hnone =>
      obtain rfl := Option.some.inj hst
      refine h.shrink rfl (fun _ _ _ hk => ?_) (fun _ _ he => he) trivial
      simp [hk] at hnone
  | complete k state code =>
    unfold TimedLogin.step at hst
    dsimp only at hst
    split at hst
    · cases hst
    · next hnone =>
      obtain rfl := Option.some.inj hst
      refine h.shrink rfl (fun _ _ _ hk => ?_) (fun _ _ he => he) trivial
      simp [hk] at hnone
  | load k =>
    unfold TimedLogin.step at hst
    dsimp only at hst
    split at hst
    · next code hcode =>
      obtain rfl := Option.some.inj hst
      have hk : Open s.requests k := open_of hcode rfl
      exact h.shrink rfl hk (fun _ _ => memoryStore_load_sub) (h.load_code hk code _)
    · next state code hcode =>
      obtain rfl := Option.some.inj hst
      have hk : Open s.requests k := open_of hcode rfl
      exact h.shrink rfl hk (fun _ _ => memoryStore_load_sub) (h.load_state k _ state code)
    · cases hst
  | delete k =>
    unfold TimedLogin.step at hst
    dsimp only at hst
    split at hst
    · next code raw hcode =>
      obtain rfl := Option.some.inj hst
      have hk : Open s.requests k := open_of hcode rfl
      refine h.shrink rfl hk (fun _ _ he => (del_eq_some.mp he).2) ?_
      obtain ⟨j, env, hissued, hwithin⟩ := h.loaded k _ hcode
      unfold exchangeResult
      split
      · trivial
      · next sess hsess => exact ⟨j, env, raw, hissued.put hk _, hsess, hwithin.append _⟩
    · next state code raw hcode =>
      obtain rfl := Option.some.inj hst
      have hk : Open s.requests k := open_of hcode rfl
      obtain ⟨value, hwithin⟩ := h.loaded k _ hcode
      exact h.shrink rfl hk (fun _ _ he => (del_eq_some.mp he).2) ⟨value, hwithin.append _⟩
    · cases hst
  | save k env =>
    unfold TimedLogin.step at hst
    dsimp only at hst
    split at hst
    · next state code raw hcode =>
      obtain rfl := Option.some.inj hst
      have hk : Open s.requests k := open_of hcode rfl
      obtain ⟨value, hwithin⟩ := h.loaded k _ hcode
      refine h.move rfl hk (h.saved hk env state code _) ?_
      cases s.result cfg svc env raw state code with
      | error e => trivial
      | ok p => exact ⟨value, hwithin.append _⟩
    · cases hst

/-- **Nothing outlives its lifetime.** In every run over the store in memory, a session was
bought with a code that a callback of the run had stored no longer than `CodeTTL` before the
exchange asked for it; and a callback that answered with a code was for an attempt that had
begun no longer than `StateTTL` before the callback asked for it. -/
theorem one_time_keys_expire {acts : List TimedAct} {s : TimedLogin MemoryStore}
    (hrun : TimedRun memoryStore ttl cfg svc (.init nothing) acts s) :
    (∀ k otc sess, s.requests k = some (.exchange otc (.done (.ok sess))) →
      ∃ j env raw, IssuedBy s.requests j otc raw ∧ unmarshalSession raw = some sess ∧
        LoadedWithin ttl.code acts (.save j env) k) ∧
    (∀ j state code otc sess,
      s.requests j = some (.complete state code (.done (.ok (otc, sess)))) →
        ∃ value, LoadedWithin ttl.state acts (.begin state value) j) := by
  have h : OnTime ttl acts s := by
    refine hrun.trace_invariant (OnTime ttl) ?_ ⟨rfl, ⟨nofun, nofun⟩, nofun⟩
    intro before s₁ act s₂ _ hst h₁
    exact h₁.step hst
  exact ⟨fun k otc sess hk => h.loaded k _ hk, fun j state code otc sess hj => h.loaded j _ hj⟩

end

/-! ## Refinement -/

/-- The login without its clock: an entry stays until somebody drops it. -/
def TimedLogin.untimed (s : TimedLogin MemoryStore) : Login :=
  ⟨fun key => (s.store key).map (·.value), s.requests⟩

/-- A step as one of the login without a clock. -/
def TimedAct.untimed (clock : Int) : TimedAct → List LoginAct
  | .wait _ => []
  | .begin state value => [.begin state value]
  | .exchange k code => [.exchange k code]
  | .complete k state code => [.complete k state code]
  | .load k => [.load k false]
  | .delete k => [.delete k false]
  | .save k env => [.save k env (clock * 1000000)]

/-- The steps of a run, each with the clock it was taken at. -/
def untimedActs : Int → List TimedAct → List LoginAct
  | _, [] => []
  | clock, act :: acts => act.untimed clock ++ untimedActs (clock + act.duration) acts

/-- The lifetime of an entry ends. -/
def LoginAct.expires : LoginAct → Bool
  | .expire _ => true
  | _ => false

theorem untimed_save (items : MemoryStore) (now : Int) (key : String) (value : Bytes)
    (ttl : Int) :
    (fun x => (memoryStore.save items now key value ttl x).map (·.value)) =
      put (fun x => (items x).map (·.value)) key value := by
  funext x
  show (put items key ⟨value, now + ttl⟩ x).map (·.value) = _
  by_cases hx : x = key
  · simp [hx]
  · simp [hx]

theorem untimed_del (items : MemoryStore) (key : String) :
    (fun x => (del items key x).map (·.value)) = del (fun x => (items x).map (·.value)) key := by
  funext x
  by_cases hx : x = key
  · simp [hx]
  · simp [hx]

section

variable [SessionCodec] [CaseTable] [TokenLib] {ttl : Lifetimes} {cfg : OIDCConfig}
  {svc : Service}

/-- A step is a run of the login without a clock. -/
def Untimes (cfg : OIDCConfig) (svc : Service) (s s' : TimedLogin MemoryStore)
    (labels : List LoginAct) : Prop :=
  ∃ acts, LoginRun cfg svc (fun _ _ => True) s.untimed acts s'.untimed ∧
    acts.filter (!·.expires) = labels

theorem Untimes.single {s s' : TimedLogin MemoryStore} {act : LoginAct}
    (hact : act.expires = false) (hst : s.untimed.step cfg svc act = some s'.untimed) :
    Untimes cfg svc s s' [act] :=
  ⟨[act], .cons trivial hst .nil, by simp [hact]⟩

/-- `Load` in memory is `Load` of an entry that has expired first, if it is late. -/
theorem Untimes.load {s : TimedLogin MemoryStore} {k : ℕ} {key : String}
    (next : Option Bytes → LoginRequest)
    (hst : ∀ store, Login.step cfg svc ⟨store, s.requests⟩ (.load k false) =
      some ⟨store, put s.requests k (next (store key))⟩) :
    Untimes cfg svc s (s.move (memoryStore.load s.store s.clock key).1 k
      (next (memoryStore.load s.store s.clock key).2)) [.load k false] := by
  unfold memoryStore
  dsimp only
  cases hkey : s.store key with
  | none =>
    refine .single rfl ((hst _).trans ?_)
    simp [TimedLogin.untimed, TimedLogin.move, hkey]
  | some e =>
    dsimp only
    split
    · refine ⟨[.expire key, .load k false], .cons trivial rfl (.cons trivial (hst _) ?_), rfl⟩
      rw [del_self]
      unfold TimedLogin.untimed TimedLogin.move
      dsimp only
      rw [untimed_del]
      exact .nil
    · refine .single rfl ((hst _).trans ?_)
      simp [TimedLogin.untimed, TimedLogin.move, hkey]

/-- **One step.** -/
theorem untimes_step {s s' : TimedLogin MemoryStore} {act : TimedAct}
    (hst : s.step memoryStore ttl cfg svc act = some s') :
    s'.clock = s.clock + act.duration ∧ Untimes cfg svc s s' (act.untimed s.clock) := by
  have hsame : s.clock = s.clock + 0 := (Int.add_zero _).symm
  unfold TimedLogin.step at hst
  cases act with
  | wait d =>
    obtain rfl := Option.some.inj hst
    exact ⟨rfl, [], .nil, rfl⟩
  | begin state value =>
    obtain rfl := Option.some.inj hst
    refine ⟨hsame, .single rfl ?_⟩
    exact congrArg some (congrArg (Login.mk · s.requests)
      (untimed_save s.store s.clock (stateKey state) value ttl.state).symm)
  | exchange k code =>
    dsimp only at hst
    split at hst
    · cases hst
    · next hnone =>
      obtain rfl := Option.some.inj hst
      exact ⟨hsame, .single rfl (if_neg hnone)⟩
  | complete k state code =>
    dsimp only at hst
    split at hst
    · cases hst
    · next hnone =>
      obtain rfl := Option.some.inj hst
      exact ⟨hsame, .single rfl (if_neg hnone)⟩
  | load k =>
    dsimp only at hst
    split at hst
    · next code hk =>
      obtain rfl := Option.some.inj hst
      refine ⟨hsame, .load (fun found => .exchange code (exchangeLoaded false found)) ?_⟩
      intro store
      unfold Login.step
      dsimp only
      rw [hk]
      rfl
    · next state code hk =>
      obtain rfl := Option.some.inj hst
      refine ⟨hsame, .load (fun found => .complete state code (completeLoaded false found)) ?_⟩
      intro store
      unfold Login.step
      dsimp only
      rw [hk]
      rfl
    · cases hst
  | delete k =>
    dsimp only at hst
    split at hst
    · next code raw hk =>
      obtain rfl := Option.some.inj hst
      refine ⟨hsame, .single rfl ?_⟩
      unfold Login.step TimedLogin.untimed
      dsimp only
      rw [hk]
      exact congrArg some (congrArg (Login.mk · _) (untimed_del _ _).symm)
    · next state code raw hk =>
      obtain rfl := Option.some.inj hst
      refine ⟨hsame, .single rfl ?_⟩
      unfold Login.step TimedLogin.untimed
      dsimp only
      rw [hk]
      exact congrArg some (congrArg (Login.mk · _) (untimed_del _ _).symm)
    · cases hst
  | save k env =>
    dsimp only at hst
    split at hst
    · next state code raw hk =>
      obtain rfl := Option.some.inj hst
      refine ⟨hsame, .single rfl ?_⟩
      unfold Login.step TimedLogin.untimed
      dsimp only
      rw [hk]
      refine congrArg some (congrArg (Login.mk · _) ?_)
      unfold TimedLogin.result
      cases completeResult cfg svc env (s.clock * 1000000) raw state code with
      | error e => rfl
      | ok p =>
        exact (untimed_save s.store s.clock (codeKey p.1) (marshalSession p.2) ttl.code).symm
    · cases hst

/-- **The login in memory is a login.** Every run over the store in memory is a run of the
login as `StateStore` describes it, with the same requests in the same states, if now and
then an entry expires. -/
theorem memory_login_refines {acts : List TimedAct} {s s' : TimedLogin MemoryStore}
    (hrun : TimedRun memoryStore ttl cfg svc s acts s') :
    ∃ labels, LoginRun cfg svc (fun _ _ => True) s.untimed labels s'.untimed ∧
      labels.filter (!·.expires) = untimedActs s.clock acts := by
  induction hrun with
  | nil => exact ⟨[], .nil, rfl⟩
  | cons _ hst _ ih =>
    obtain ⟨hclock, first, hfirst, hlabels⟩ := untimes_step hst
    obtain ⟨rest, hrest, hlabels'⟩ := ih
    refine ⟨first ++ rest, hfirst.append hrest, ?_⟩
    rw [List.filter_append, hlabels, hlabels', hclock]
    rfl

end

/-- A login whose code is exchanged in the last millisecond of its lifetime. -/
def lastMoment : List TimedAct :=
  [.begin "state" attemptDoc, .complete 0 "state" "code", .load 0, .delete 0,
    .save 0 strangerAnswers, .wait 60000, .exchange 1 "otc", .load 1, .delete 1]

theorem lastMoment_run :
    ∃ s, TimedRun memoryStore (Lifetimes.resolve ⟨0, 0⟩) viewerConfig rootService (.init nothing)
        lastMoment s ∧
      s.requests 1 = some (.exchange "otc" (.done (.ok (viewerSession stranger)))) := by
  have hrun : ∃ s, runList (TimedLogin.step memoryStore (Lifetimes.resolve ⟨0, 0⟩) viewerConfig
      rootService) (.init nothing) lastMoment = some s ∧
      s.requests 1 = some (.exchange "otc" (.done (.ok (viewerSession stranger)))) := by
    simp [runList, lastMoment, TimedLogin.step, TimedLogin.init, TimedLogin.move,
      TimedLogin.result, memoryStore, StateStore.saved, Lifetimes.resolve, completeLoaded,
      exchangeLoaded, completeResult_strangerAnswers, exchangeResult, unmarshalSession_stranger,
      nothing]
  obtain ⟨s, hs, hreq⟩ := hrun
  exact ⟨s, .of_runList (fun _ _ _ => trivial) hs, hreq⟩

/-- The code had been stored a minute before. -/
theorem one_time_keys_expire_last_moment :
    ∃ s, TimedRun memoryStore (Lifetimes.resolve ⟨0, 0⟩) viewerConfig rootService (.init nothing)
        lastMoment s ∧
      ∃ j env raw, IssuedBy s.requests j "otc" raw ∧
        unmarshalSession raw = some (viewerSession stranger) ∧
        LoadedWithin 60000 lastMoment (.save j env) 1 := by
  obtain ⟨s, hrun, hreq⟩ := lastMoment_run
  exact ⟨s, hrun, (one_time_keys_expire hrun).1 1 "otc" _ hreq⟩

/-- A login whose code is exchanged a millisecond too late. -/
def tooLate : List TimedAct :=
  [.begin "state" attemptDoc, .complete 0 "state" "code", .load 0, .delete 0,
    .save 0 strangerAnswers, .wait 60001, .exchange 1 "otc", .load 1]

theorem tooLate_run :
    ∃ s, TimedRun memoryStore (Lifetimes.resolve ⟨0, 0⟩) viewerConfig rootService (.init nothing)
        tooLate s ∧ s.requests 1 = some (.exchange "otc" (.done (.error .unknownCode))) := by
  have hrun : ∃ s, runList (TimedLogin.step memoryStore (Lifetimes.resolve ⟨0, 0⟩) viewerConfig
      rootService) (.init nothing) tooLate = some s ∧
      s.requests 1 = some (.exchange "otc" (.done (.error .unknownCode))) := by
    simp [runList, tooLate, TimedLogin.step, TimedLogin.init, TimedLogin.move,
      TimedLogin.result, memoryStore, StateStore.saved, Lifetimes.resolve, completeLoaded,
      exchangeLoaded, completeResult_strangerAnswers, nothing]
  obtain ⟨s, hs, hreq⟩ := hrun
  exact ⟨s, .of_runList (fun _ _ _ => trivial) hs, hreq⟩

/-- The same login without the clock: the exchange fails because the entry expired before. -/
theorem memory_login_refines_too_late :
    ∃ s labels, TimedRun memoryStore (Lifetimes.resolve ⟨0, 0⟩) viewerConfig rootService
        (.init nothing) tooLate s ∧
      LoginRun viewerConfig rootService (fun _ _ => True) .init labels s.untimed ∧
      labels.filter (!·.expires) = untimedActs 0 tooLate ∧
      (∃ label ∈ labels, label.expires = true) ∧
      s.requests 1 = some (.exchange "otc" (.done (.error .unknownCode))) := by
  obtain ⟨s, hrun, hreq⟩ := tooLate_run
  obtain ⟨labels, hlabels, hfilter⟩ := memory_login_refines hrun
  refine ⟨s, labels, hrun, hlabels, hfilter, ?_, hreq⟩
  -- without an expiration the load would have found the entry
  by_contra hno
  have hall : labels.filter (!·.expires) = labels := by
    refine List.filter_eq_self.mpr fun label hmem => ?_
    cases hexp : label.expires with
    | false => rfl
    | true => exact absurd ⟨label, hmem, hexp⟩ hno
  have hend := hlabels.runList_eq
  rw [← hall, hfilter] at hend
  have hfound : ∃ s', runList (Login.step viewerConfig rootService) Login.init
      (untimedActs 0 tooLate) = some s' ∧ s'.requests 1 = some (.exchange "otc"
        (.delete (marshalSession (viewerSession stranger)))) := by
    simp [runList, untimedActs, TimedAct.untimed, TimedAct.duration, tooLate, Login.step,
      Login.init, completeLoaded, exchangeLoaded, completeResult_strangerAnswers, savedStore,
      nothing]
  obtain ⟨s', hs', hreq'⟩ := hfound
  obtain rfl := Option.some.inj (hend.symm.trans hs')
  have hboth : s.requests 1 = some (.exchange "otc"
      (.delete (marshalSession (viewerSession stranger)))) := hreq'
  rw [hreq] at hboth
  cases hboth

end ForgeQueue
