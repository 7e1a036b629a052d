import ForgeQueue.Model.Begin
import ForgeQueue.Theorems.OneTimeKeys
import ForgeQueue.Theorems.OpenRedirect

/-!
# Where a session comes from

A browser that redeems a one-time code is signed in as whoever the session names. Behind
every such session is one attempt that `Begin` opened here, one callback for its state, and
a provider that took the verifier of that same attempt; the session returns to the target
`Begin` resolved.
-/

namespace ForgeQueue

open Base

section

variable [CaseTable] [UrlLib] [LawfulBegin]

/-- `Begin`, called for `webReturn`, stored `value` under `state` and sent the browser to the
provider with the challenge of `verifier`. -/
def Opened (o : OIDC) (client : ClientConfig) (state : String) (value : Bytes)
    (verifier webReturn : String) : Prop :=
  ∃ env endpoint, beginLogin o client env (some state) (some verifier) webReturn =
    .ok ⟨state, value, endpoint, authParams client state verifier⟩

/-- What a run takes from the code around it: states are stored by `Begin`, and the callback
decodes them as `Begin` encodes them. -/
def OwnStates (o : OIDC) (client : ClientConfig) (_ : Login) : LoginAct → Prop
  | .begin state value => ∃ env verifier webReturn attempt,
      beginLogin o client env (some state) (some verifier) webReturn = .ok attempt ∧
        attempt.value = value
  | .save _ env _ => env.authState = unmarshalState
  | _ => True

theorem beginLogin_ok {o : OIDC} {client : ClientConfig} {env : Answers}
    {state verifier webReturn : String} {attempt : Attempt}
    (h : beginLogin o client env (some state) (some verifier) webReturn = .ok attempt) :
    Opened o client state attempt.value verifier webReturn ∧
      attempt.value = marshalState ⟨verifier, o.resolveReturn webReturn⟩ := by
  have hopened := h
  unfold beginLogin at h
  split at h
  · cases h
  · obtain rfl := Except.ok.inj h
    exact ⟨⟨env, _, hopened⟩, rfl⟩

/-- What the entry of an attempt decodes to is what `Begin` put into it. -/
theorem Opened.decodes {o : OIDC} {client : ClientConfig} {state verifier webReturn : String}
    {value : Bytes} {st : AuthState} (h : Opened o client state value verifier webReturn)
    (hst : unmarshalState value = some st) : st = ⟨verifier, o.resolveReturn webReturn⟩ := by
  obtain ⟨env, endpoint, hb⟩ := h
  have hvalue : value = _ := (beginLogin_ok hb).2
  rw [hvalue] at hst
  exact LawfulBegin.unmarshal_marshal _ _ hst

end

section

variable [CaseTable] [TokenLib]

/-- The callback of an attempt was accepted: the provider took the code together with the
verifier and named a user, whose address earns the roles of the session. -/
structure CallbackAccepted (cfg : OIDCConfig) (svc : Service) (env : Answers) (now : Int)
    (code : String) (st : AuthState) (otc : String) (sess : SSOSession) : Prop where
  user : ∃ provider info roles, discover env = .ok provider ∧
    exchange env provider code st.verifier = .ok info ∧
    cfg.rolesFor (loginEmail info) = .ok roles ∧
    sess.identity = identityFor (loginName info) roles
  token : (sess.token, sess.expiresAt) = svc.issueToken now sess.identity
  target : sess.webReturn = st.webReturn
  code : env.random = some otc

omit [CaseTable] [TokenLib] in
theorem fetchUser_ok {env : Answers} {state code : String} {raw : Bytes} {st : AuthState}
    {info : UserInfo}
    (h : fetchUser { env with load := fun _ => some (some raw) } state code =
      .ok (st, info)) :
    env.authState raw = some st ∧ ∃ provider, discover env = .ok provider ∧
      exchange env provider code st.verifier = .ok info := by
  unfold fetchUser at h
  dsimp only at h
  split at h
  · cases h
  · next st' hst =>
    split at h
    · cases h
    · next provider hprovider =>
      split at h
      · cases h
      · next info' hinfo =>
        obtain ⟨rfl, rfl⟩ := Prod.mk.inj (Except.ok.inj h)
        exact ⟨hst, provider, hprovider, hinfo⟩

/-- A finished callback was accepted for the attempt it loaded. -/
theorem completeResult_ok {cfg : OIDCConfig} {svc : Service} {env : Answers}
    {now : Int} {raw : Bytes} {state code otc : String} {sess : SSOSession}
    (h : completeResult cfg svc env now raw state code = .ok (otc, sess)) :
    ∃ st, env.authState raw = some st ∧ CallbackAccepted cfg svc env now code st otc sess := by
  unfold completeResult complete at h
  split at h
  · cases h
  · next st info hf =>
    obtain ⟨hst, provider, hprovider, hinfo⟩ := fetchUser_ok hf
    split at h
    · cases h
    · next roles hroles =>
      dsimp only at h
      split at h
      · cases h
      · next otc' hotc =>
        split at h
        · cases h
        · obtain ⟨rfl, rfl⟩ := Prod.mk.inj (Except.ok.inj h)
          exact ⟨st, hst, ⟨provider, info, roles, hprovider, hinfo, hroles, rfl⟩, rfl, rfl,
            hotc⟩

end

section

variable [CaseTable] [UrlLib] [LawfulBegin]

/-- The attempt behind a stored state, and what happened to it afterwards. -/
def Begun (o : OIDC) (client : ClientConfig) (acts later : List LoginAct) (state : String)
    (value : Bytes) : Prop :=
  (∃ verifier webReturn, Opened o client state value verifier webReturn) ∧
    (LoginAct.begin state value :: later).Sublist acts

theorem Begun.mono {o : OIDC} {client : ClientConfig} {acts acts' later : List LoginAct}
    {state : String} {value : Bytes} (h : Begun o client acts later state value)
    (hacts : acts.Sublist acts') : Begun o client acts' later state value :=
  ⟨h.1, h.2.trans hacts⟩

variable [TokenLib] [SessionCodec]

/-- The login behind a stored session, from `Begin` to `Save`, and what happened to it
afterwards. -/
def Signed (o : OIDC) (client : ClientConfig) (cfg : OIDCConfig) (svc : Service)
    (acts later : List LoginAct) (otc : String) (doc : Bytes) : Prop :=
  ∃ state value verifier webReturn j code env now sess,
    (LoginAct.begin state value :: .load j false :: .save j env now :: later).Sublist acts ∧
    .complete j state code ∈ acts ∧
    Opened o client state value verifier webReturn ∧
    CallbackAccepted cfg svc env now code ⟨verifier, o.resolveReturn webReturn⟩ otc sess ∧
    doc = marshalSession sess

theorem Signed.mono {o : OIDC} {client : ClientConfig} {cfg : OIDCConfig} {svc : Service}
    {acts acts' later : List LoginAct} {otc : String} {doc : Bytes}
    (h : Signed o client cfg svc acts later otc doc) (hacts : acts.Sublist acts') :
    Signed o client cfg svc acts' later otc doc := by
  obtain ⟨state, value, verifier, webReturn, j, code, env, now, sess, hsub, hmem, hrest⟩ := h
  exact ⟨state, value, verifier, webReturn, j, code, env, now, sess, hsub.trans hacts,
    hacts.subset hmem, hrest⟩

/-- What a request has in hand was stored by a login of this run. -/
def InHand (o : OIDC) (client : ClientConfig) (cfg : OIDCConfig) (svc : Service)
    (acts : List LoginAct) (k : ℕ) : LoginRequest → Prop
  | .exchange otc (.delete doc) => Signed o client cfg svc acts [.load k false] otc doc
  | .exchange otc (.done (.ok sess)) =>
    ∃ doc, Signed o client cfg svc acts [.load k false] otc doc ∧ unmarshalSession doc = some sess
  | .complete state code (.delete value) | .complete state code (.save value) =>
    Begun o client acts [.load k false] state value ∧ .complete k state code ∈ acts
  | .complete state code .load => .complete k state code ∈ acts
  | _ => True

theorem InHand.mono {o : OIDC} {client : ClientConfig} {cfg : OIDCConfig} {svc : Service}
    {acts acts' : List LoginAct} {k : ℕ} {q : LoginRequest}
    (h : InHand o client cfg svc acts k q) (hacts : acts.Sublist acts') :
    InHand o client cfg svc acts' k q := by
  rcases q with ⟨otc, _ | doc | _ | sess⟩ | ⟨state, code, _ | value | value | _⟩
  · trivial
  · exact Signed.mono h hacts
  · trivial
  · obtain ⟨doc, hdoc, hsess⟩ := h
    exact ⟨doc, hdoc.mono hacts, hsess⟩
  · exact hacts.subset h
  · exact ⟨h.1.mono hacts, hacts.subset h.2⟩
  · exact ⟨h.1.mono hacts, hacts.subset h.2⟩
  · trivial

/-- Everything in the store and in the hands of a request was put there by a login of the
run. -/
structure FromLogins (o : OIDC) (client : ClientConfig) (cfg : OIDCConfig) (svc : Service)
    (acts : List LoginAct) (s : Login) : Prop where
  states : ∀ state value, s.store (stateKey state) = some value →
    Begun o client acts [] state value
  codes : ∀ otc doc, s.store (codeKey otc) = some doc → Signed o client cfg svc acts [] otc doc
  hands : ∀ k q, s.requests k = some q → InHand o client cfg svc acts k q

/-- What a request holds moves on with the run. -/
theorem FromLogins.setRequest {o : OIDC} {client : ClientConfig} {cfg : OIDCConfig}
    {svc : Service} {acts acts' : List LoginAct} {s : Login} {store : String → Option Bytes}
    {k : ℕ} {q : LoginRequest} (h : FromLogins o client cfg svc acts s)
    (hacts : acts.Sublist acts')
    (hstates : ∀ state value, store (stateKey state) = some value →
      Begun o client acts' [] state value)
    (hcodes : ∀ otc doc, store (codeKey otc) = some doc →
      Signed o client cfg svc acts' [] otc doc)
    (hq : InHand o client cfg svc acts' k q) :
    FromLogins o client cfg svc acts' ({ s with store := store }.setRequest k q) where
  states := hstates
  codes := hcodes
  hands j q' hq' := by
    rw [Login.setRequest_requests] at hq'
    obtain ⟨rfl, rfl⟩ | ⟨-, hold⟩ := put_eq_some.mp hq'
    · exact hq
    · exact (h.hands j q' hold).mono hacts

/-- A request moves and the store stays. -/
theorem FromLogins.move {o : OIDC} {client : ClientConfig} {cfg : OIDCConfig}
    {svc : Service} {acts acts' : List LoginAct} {s : Login}
    {k : ℕ} {q : LoginRequest} (h : FromLogins o client cfg svc acts s)
    (hacts : acts.Sublist acts') (hq : InHand o client cfg svc acts' k q) :
    FromLogins o client cfg svc acts' (s.setRequest k q) :=
  h.setRequest hacts (fun _ _ hs => (h.states _ _ hs).mono hacts)
    (fun _ _ hs => (h.codes _ _ hs).mono hacts) hq

theorem FromLogins.load_exchange {o : OIDC} {client : ClientConfig} {cfg : OIDCConfig}
    {svc : Service} {acts : List LoginAct} {s : Login} (h : FromLogins o client cfg svc acts s)
    (k : ℕ) (otc : String) (fails : Bool) :
    InHand o client cfg svc (acts ++ [.load k fails]) k
      (.exchange otc (exchangeLoaded fails (s.store (codeKey otc)))) := by
  unfold exchangeLoaded
  split
  · trivial
  · next hfails =>
    obtain rfl := Bool.eq_false_of_not_eq_true hfails
    cases hdoc : s.store (codeKey otc) with
    | none => trivial
    | some doc =>
      obtain ⟨state, value, verifier, webReturn, j, code, env, now, sess, hsub, hmem, hrest⟩ :=
        h.codes otc doc hdoc
      exact ⟨state, value, verifier, webReturn, j, code, env, now, sess,
        hsub.append (.refl [LoginAct.load k false]), List.mem_append_left _ hmem, hrest⟩

theorem FromLogins.load_complete {o : OIDC} {client : ClientConfig} {cfg : OIDCConfig}
    {svc : Service} {acts : List LoginAct} {s : Login} (h : FromLogins o client cfg svc acts s)
    {k : ℕ} {state code : String} (hk : .complete k state code ∈ acts) (fails : Bool) :
    InHand o client cfg svc (acts ++ [.load k fails]) k
      (.complete state code (completeLoaded fails (s.store (stateKey state)))) := by
  unfold completeLoaded
  split
  · trivial
  · next hfails =>
    obtain rfl := Bool.eq_false_of_not_eq_true hfails
    cases hvalue : s.store (stateKey state) with
    | none => trivial
    | some value =>
      obtain ⟨hopened, hsub⟩ := h.states state value hvalue
      exact ⟨⟨hopened, hsub.append (.refl [LoginAct.load k false])⟩, List.mem_append_left _ hk⟩

/-- The `Save` of a callback stores the session of the attempt it loaded. -/
theorem Begun.signed {o : OIDC} {client : ClientConfig} {cfg : OIDCConfig} {svc : Service}
    {acts : List LoginAct} {k : ℕ} {state code otc : String} {value : Bytes} {env : Answers}
    {now : Int} {sess : SSOSession} (h : Begun o client acts [.load k false] state value)
    (hk : .complete k state code ∈ acts) (henv : env.authState = unmarshalState)
    (hres : completeResult cfg svc env now value state code = .ok (otc, sess)) :
    Signed o client cfg svc (acts ++ [.save k env now]) [] otc (marshalSession sess) := by
  obtain ⟨⟨verifier, webReturn, hopened⟩, hsub⟩ := h
  obtain ⟨st, hst, haccepted⟩ := completeResult_ok hres
  rw [henv] at hst
  obtain rfl := hopened.decodes hst
  exact ⟨state, value, verifier, webReturn, k, code, env, now, sess,
    hsub.append (.refl [LoginAct.save k env now]), List.mem_append_left _ hk, hopened, haccepted, rfl⟩

end

theorem stateKey_injective : Function.Injective stateKey := by
  intro a b h
  exact String.append_right_inj _ |>.mp h

theorem codeKey_injective : Function.Injective codeKey := by
  intro a b h
  exact String.append_right_inj _ |>.mp h

/-- What is left after a `Delete` was there before. -/
theorem eq_some_of_deleteKey {fails : Bool} {m : String → Option Bytes} {x key : String}
    {v : Bytes} (h : deleteKey fails m x key = some v) : m key = some v := by
  unfold deleteKey at h
  split at h
  · exact h
  · exact (del_eq_some.mp h).2

/-- What is there after a `Save` was there before, or is the session just stored. -/
theorem eq_some_of_savedStore [SessionCodec] {store : String → Option Bytes}
    {res : Except SsoError (String × SSOSession)} {key : String} {v : Bytes}
    (h : savedStore store res key = some v) :
    (∃ otc sess, res = .ok (otc, sess) ∧ key = codeKey otc ∧ v = marshalSession sess) ∨
      store key = some v := by
  cases res with
  | error e => exact .inr h
  | ok r =>
    obtain ⟨rfl, rfl⟩ | ⟨-, hold⟩ := put_eq_some.mp h
    · exact .inl ⟨r.1, r.2, rfl, rfl, rfl⟩
    · exact .inr hold

section

variable [CaseTable] [UrlLib] [LawfulBegin] [TokenLib] [SessionCodec]

/-- One step. Only `Begin` and the `Save` of a callback write to the store, and both store
what a login of the run brought about. -/
theorem FromLogins.step {o : OIDC} {client : ClientConfig} {cfg : OIDCConfig} {svc : Service}
    {acts : List LoginAct} {s s' : Login} {act : LoginAct} (hok : OwnStates o client s act)
    (hst : s.step cfg svc act = some s') (h : FromLogins o client cfg svc acts s) :
    FromLogins o client cfg svc (acts ++ [act]) s' := by
  have hacts : acts.Sublist (acts ++ [act]) := List.sublist_append_left acts [act]
  cases act with
  | begin state value =>
    obtain rfl := Option.some.inj hst
    obtain ⟨env, verifier, webReturn, attempt, hbegin, rfl⟩ := hok
    refine ⟨fun state' value' hs => ?_, fun otc doc hs => ?_, fun k q hq =>
      (h.hands k q hq).mono hacts⟩
    · obtain ⟨hkey, rfl⟩ | ⟨-, hold⟩ := put_eq_some.mp hs
      · obtain rfl := stateKey_injective hkey
        exact ⟨⟨verifier, webReturn, (beginLogin_ok hbegin).1⟩,
          List.sublist_append_right acts [_]⟩
      · exact (h.states state' value' hold).mono hacts
    · dsimp only at hs
      obtain ⟨hkey, -⟩ | ⟨-, hold⟩ := put_eq_some.mp hs
      · exact absurd hkey.symm (stateKey_ne_codeKey _ _)
      · exact (h.codes otc doc hold).mono hacts
  | exchange k otc =>
    simp only [Login.step] at hst
    split at hst
    · cases hst
    · obtain rfl := Option.some.inj hst
      exact h.move hacts trivial
  | complete k state code =>
    simp only [Login.step] at hst
    split at hst
    · cases hst
    · obtain rfl := Option.some.inj hst
      exact h.move hacts (List.mem_append_right acts (List.mem_singleton_self _))
  | load k fails =>
    simp only [Login.step] at hst
    split at hst
    · next otc hq =>
      obtain rfl := Option.some.inj hst
      exact h.move hacts (h.load_exchange k otc fails)
    · next state code hq =>
      obtain rfl := Option.some.inj hst
      exact h.move hacts (h.load_complete (h.hands k _ hq) fails)
    · cases hst
  | delete k fails =>
    simp only [Login.step] at hst
    split at hst
    · next otc doc hq =>
      obtain rfl := Option.some.inj hst
      have hdoc := (h.hands k _ hq).mono hacts
      refine h.setRequest hacts
        (fun _ _ hs => (h.states _ _ (eq_some_of_deleteKey hs)).mono hacts)
        (fun _ _ hs => (h.codes _ _ (eq_some_of_deleteKey hs)).mono hacts) ?_
      unfold exchangeResult
      cases hsess : unmarshalSession doc with
      | none => trivial
      | some sess => exact ⟨doc, hdoc, hsess⟩
    · next state code value hq =>
      obtain rfl := Option.some.inj hst
      exact h.setRequest hacts
        (fun _ _ hs => (h.states _ _ (eq_some_of_deleteKey hs)).mono hacts)
        (fun _ _ hs => (h.codes _ _ (eq_some_of_deleteKey hs)).mono hacts)
        ((h.hands k _ hq).mono hacts)
    · cases hst
  | save k env now =>
    simp only [Login.step] at hst
    split at hst
    · next state code value hq =>
      obtain rfl := Option.some.inj hst
      obtain ⟨hbegun, hk⟩ := h.hands k _ hq
      refine h.setRequest hacts (fun state' value' hs => ?_) (fun otc doc hs => ?_) trivial
      · obtain ⟨otc, sess, -, hkey, -⟩ | hold := eq_some_of_savedStore hs
        · exact absurd hkey (stateKey_ne_codeKey _ _)
        · exact (h.states _ _ hold).mono hacts
      · obtain ⟨otc', sess, hres, hkey, rfl⟩ | hold := eq_some_of_savedStore hs
        · obtain rfl := codeKey_injective hkey
          exact hbegun.signed hk hok hres
        · exact (h.codes _ _ hold).mono hacts
    · cases hst
  | expire key =>
    obtain rfl := Option.some.inj hst
    exact ⟨fun _ _ hs => (h.states _ _ (del_eq_some.mp hs).2).mono hacts,
      fun _ _ hs => (h.codes _ _ (del_eq_some.mp hs).2).mono hacts,
      fun k q hq => (h.hands k q hq).mono hacts⟩

theorem fromLogins_init (o : OIDC) (client : ClientConfig) (cfg : OIDCConfig) (svc : Service) :
    FromLogins o client cfg svc [] Login.init :=
  ⟨fun _ _ => nofun, fun _ _ => nofun, fun _ _ => nofun⟩

/-- **Every session was signed in here.** Whatever the order in which requests reach the
store, and whichever of its calls fail: a request that exchanged its one-time code for a
session loaded it after the callback of one attempt had saved it, and that attempt was opened
by `Begin`, which had published the challenge of the very verifier that the provider took. The
session carries the roles of the address the provider named and returns to the target `Begin`
resolved. -/
theorem session_was_signed_in (o : OIDC) (client : ClientConfig) (cfg : OIDCConfig)
    (svc : Service) {acts : List LoginAct} {s : Login}
    (hrun : LoginRun cfg svc (OwnStates o client) Login.init acts s) {k : ℕ} {otc : String}
    {sess : SSOSession} (hk : s.requests k = some (.exchange otc (.done (.ok sess)))) :
    ∃ state value verifier webReturn j code env now saved,
      [.begin state value, .load j false, .save j env now, .load k false].Sublist acts ∧
      .complete j state code ∈ acts ∧
      Opened o client state value verifier webReturn ∧
      CallbackAccepted cfg svc env now code ⟨verifier, o.resolveReturn webReturn⟩ otc saved ∧
      unmarshalSession (marshalSession saved) = some sess := by
  have hfrom := hrun.trace_invariant (FromLogins o client cfg svc)
    (fun _ _ _ _ => FromLogins.step) (fromLogins_init o client cfg svc)
  obtain ⟨doc, hsigned, hsess⟩ := hfrom.hands k _ hk
  obtain ⟨state, value, verifier, webReturn, j, code, env, now, saved, hsub, hmem, hopened,
    haccepted, rfl⟩ := hsigned
  exact ⟨state, value, verifier, webReturn, j, code, env, now, saved, hsub, hmem, hopened,
    haccepted, hsess⟩

end

/-! ## One login -/

/-- `encoding/json` on the attempt of the login, and the digest of its verifier. -/
instance strangerBegin : LawfulBegin where
  marshalState st := if st.verifier = "verifier" ∧ st.webReturn = "/" then attemptDoc else []
  unmarshalState raw := if raw = attemptDoc then some ⟨"verifier", "/"⟩ else none
  pkceChallenge verifier :=
    if verifier = "verifier" then "iMnq5o6zALKXGivsnlom_0F5_WYda32GHkxlV7mq7hQ" else ""
  unmarshal_marshal := by
    rintro ⟨verifier, webReturn⟩ st' h
    dsimp only at h
    split at h
    · next hst =>
      obtain ⟨rfl, rfl⟩ := hst
      exact (Option.some.inj h).symm
    · rw [if_neg (by decide)] at h
      cases h

/-- Only relative targets. -/
def relativeOnly : OIDC := ⟨[], "/", by simp⟩

def strangerClient : ClientConfig := ⟨"client", "https://console.example.com/callback", "openid"⟩

/-- The provider of `answersFor`, with the decoder of the state. -/
def strangerAnswers : Answers := { answersFor stranger with authState := unmarshalState }

/-- A login and the exchange of its code. -/
def strangerLogin : List LoginAct :=
  strangerCallback ++ [.save 0 strangerAnswers 0] ++ oneExchange "otc"

theorem completeResult_strangerAnswers :
    completeResult viewerConfig rootService strangerAnswers 0 attemptDoc "state" "code" =
      .ok ("otc", viewerSession stranger) := by
  have hfetch : fetchUser { strangerAnswers with load := fun _ => some (some attemptDoc) }
      "state" "code" = .ok (⟨"verifier", "/"⟩, stranger) := by
    rfl
  unfold completeResult complete
  rw [hfetch]
  rfl

theorem beginLogin_stranger :
    letI := acceptAll
    beginLogin relativeOnly strangerClient (answersFor stranger) (some "state")
      (some "verifier") "/" =
      .ok ⟨"state", attemptDoc, "authorize", authParams strangerClient "state" "verifier"⟩ := by
  let _ := acceptAll
  have htarget : relativeOnly.resolveReturn "/" = "/" := by decide +kernel
  unfold beginLogin
  rw [htarget]
  rfl

theorem strangerLogin_run :
    letI := acceptAll
    ∃ s, LoginRun viewerConfig rootService (OwnStates relativeOnly strangerClient) Login.init
        strangerLogin s ∧
      s.requests 1 = some (.exchange "otc" (.done (.ok (viewerSession stranger)))) := by
  let _ := acceptAll
  have hok : ∀ act ∈ strangerLogin, ∀ s, OwnStates relativeOnly strangerClient s act := by
    intro act hact s
    simp only [strangerLogin, strangerCallback, oneExchange, List.cons_append, List.nil_append,
      List.mem_cons, List.not_mem_nil, or_false] at hact
    rcases hact with rfl | rfl | rfl | rfl | rfl | rfl | rfl | rfl
    · exact ⟨_, _, _, _, beginLogin_stranger, rfl⟩
    all_goals trivial
  have hrun : ∃ s, runList (Login.step viewerConfig rootService) Login.init strangerLogin =
      some s ∧ s.requests 1 = some (.exchange "otc" (.done (.ok (viewerSession stranger)))) := by
    simp [runList, strangerLogin, strangerCallback, oneExchange, Login.step, Login.init,
      completeLoaded, exchangeLoaded, completeResult_strangerAnswers, savedStore,
      exchangeResult, unmarshalSession_stranger, nothing]
  obtain ⟨s, hs, hreq⟩ := hrun
  exact ⟨s, .of_runList hok hs, hreq⟩

/-- The login of `stranger`, from the code back to its start. -/
theorem session_was_signed_in_stranger :
    letI := acceptAll
    ∃ s, LoginRun viewerConfig rootService (OwnStates relativeOnly strangerClient) Login.init
        strangerLogin s ∧
      ∃ state value verifier webReturn j code env now saved,
        [.begin state value, .load j false, .save j env now, .load 1 false].Sublist
          strangerLogin ∧
        .complete j state code ∈ strangerLogin ∧
        Opened relativeOnly strangerClient state value verifier webReturn ∧
        CallbackAccepted viewerConfig rootService env now code
          ⟨verifier, relativeOnly.resolveReturn webReturn⟩ "otc" saved ∧
        unmarshalSession (marshalSession saved) = some (viewerSession stranger) := by
  let _ := acceptAll
  obtain ⟨s, hrun, hreq⟩ := strangerLogin_run
  exact ⟨s, hrun, session_was_signed_in relativeOnly strangerClient viewerConfig rootService
    hrun hreq⟩

end ForgeQueue
