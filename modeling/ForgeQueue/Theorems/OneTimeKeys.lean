import ForgeQueue.Base.Ledger
import ForgeQueue.Model.StateStore
import ForgeQueue.Theorems.SsoPrivileges

/-!
# One-time codes and states

A key of the login is consumed by a `Load` and a later `Delete`. Between the two calls
the key is still there, and a second request that loads it then is served as well. So is
one that comes after a `Delete` that failed, since its error is ignored.
-/

namespace ForgeQueue

open Base

section

/-- Request `k` has loaded the key and not called `Delete` yet. -/
def Login.Holds (s : Login) (k : ℕ) (key : String) : Prop :=
  ∃ q, s.requests k = some q ∧ q.holds = true ∧ q.key = key

/-- Request `k` is about to load the key. -/
def Login.Loads (s : Login) (k : ℕ) (key : String) : Prop :=
  ∃ q, s.requests k = some q ∧ q.loads = true ∧ q.key = key

/-- The condition on a run: no `Load` finds the key while a request holds it, and the
`Delete` of a request that holds it succeeds. -/
def Exclusive (key : String) (s : Login) : LoginAct → Prop
  | .load k fails =>
    s.Loads k key → fails = false → (s.store key).isSome → ∀ k', ¬ s.Holds k' key
  | .delete k fails => s.Holds k key → fails = false
  | _ => True

/-- Who holds what after one request has moved. -/
theorem Login.holds_setRequest {s : Login} {k j : ℕ} {q : LoginRequest} {key : String} :
    (s.setRequest k q).Holds j key ↔
      (j = k ∧ q.holds = true ∧ q.key = key) ∨ (j ≠ k ∧ s.Holds j key) := by
  unfold Login.Holds Login.setRequest
  by_cases hj : j = k
  · subst hj
    simp
  · simp [hj]

/-- An entry that is there after a write or a removal of another one was there before. -/
theorem isSome_of_put {m : String → Option Bytes} {key x : String} {v : Bytes} (h : key ≠ x)
    (hs : (put m x v key).isSome) : (m key).isSome := by
  rwa [put_of_ne _ _ h] at hs

theorem isSome_of_deleteKey {m : String → Option Bytes} {key x : String} {fails : Bool}
    (hs : (deleteKey fails m x key).isSome) : (m key).isSome := by
  unfold deleteKey at hs
  split at hs
  · exact hs
  · by_cases h : key = x
    · rw [h, del_self] at hs
      cases hs
    · rwa [del_of_ne _ h] at hs

/-- At most one request holds the key. -/
def Login.OneHolder (key : String) (s : Login) : Prop :=
  ∀ k k', s.Holds k key → s.Holds k' key → k = k'

theorem Login.oneHolder_init (key : String) : Login.init.OneHolder key := by
  rintro k k' ⟨q, hq, -⟩
  cases hq

/-- Nobody holds a key: any `Load` may come. -/
theorem exclusive_load {s : Login} {key : String} {k : ℕ} {fails : Bool}
    (h : ∀ j q, s.requests j = some q → q.holds = false) : Exclusive key s (.load k fails) := by
  rintro - - - j ⟨q, hq, hh, -⟩
  rw [h j q hq] at hh
  cases hh

/-- A session may still come of the key: it is stored, or someone holds it. -/
def Login.Redeemable (key : String) (s : Login) : Prop :=
  (s.store key).isSome ∨ ∃ k, s.Holds k key

/-- A request may still get past the key: it is stored, and nobody holds it. -/
def Login.Fresh (key : String) (s : Login) : Prop :=
  (s.store key).isSome ∧ ∀ k, ¬ s.Holds k key

theorem exchangeLoaded_holds (code : String) (fails : Bool) (found : Option Bytes) :
    (LoginRequest.exchange code (exchangeLoaded fails found)).holds = true ↔
      fails = false ∧ found.isSome := by
  cases fails <;> cases found <;> simp [exchangeLoaded, LoginRequest.holds]

theorem completeLoaded_holds (state code : String) (fails : Bool) (found : Option Bytes) :
    (LoginRequest.complete state code (completeLoaded fails found)).holds = true ↔
      fails = false ∧ found.isSome := by
  cases fails <;> cases found <;> simp [completeLoaded, LoginRequest.holds]

variable [CaseTable] [TokenLib]

/-- The key a step saves. -/
def Login.saves (cfg : OIDCConfig) (svc : Service) (s : Login) : LoginAct → Option String
  | .begin state _ => some (stateKey state)
  | .save k env now =>
    match s.requests k with
    | some (.complete state code (.save raw)) =>
      match completeResult cfg svc env now raw state code with
      | .ok (otc, _) => some (codeKey otc)
      | .error _ => none
    | _ => none
  | _ => none

/-- The moves of a one-time code: it is supplied by a `Save` and used by an `Exchange` that
returns a session. -/
def Login.codeMove [SessionCodec] (cfg : OIDCConfig) (svc : Service) (code : String)
    (s : Login) (act : LoginAct) : Option Move :=
  if s.saves cfg svc act = some (codeKey code) then some .supplied
  else
    match act with
    | .delete k _ =>
      match s.requests k with
      | some (.exchange c (.delete raw)) =>
        if c = code ∧ (unmarshalSession raw).isSome then some .used else none
      | _ => none
    | _ => none

/-- The moves of a state: it is supplied by a `Save` and used by a `Complete` that gets
past the state check. -/
def Login.stateMove (cfg : OIDCConfig) (svc : Service) (state : String) (s : Login)
    (act : LoginAct) : Option Move :=
  if s.saves cfg svc act = some (stateKey state) then some .supplied
  else
    match act with
    | .load k false =>
      match s.requests k with
      | some (.complete st _ .load) =>
        if st = state ∧ (s.store (stateKey state)).isSome then some .used else none
      | _ => none
    | _ => none

/-! ## What a step does to a key -/

/-- What a step can do to the entry of `key` and to the requests that hold it. -/
structure KeyStep (cfg : OIDCConfig) (svc : Service) (key : String) (s : Login)
    (act : LoginAct) (s' : Login) : Prop where
  store : s.saves cfg svc act ≠ some key → (s'.store key).isSome → (s.store key).isSome
  gains : ∀ k, s'.Holds k key →
    s.Holds k key ∨ (act = .load k false ∧ s.Loads k key ∧ (s.store key).isSome)
  keeps : ∀ k, s.Holds k key → (∀ fails, act ≠ .delete k fails) → s'.Holds k key
  drops : ∀ k fails, act = .delete k fails → s.Holds k key →
    ¬ s'.Holds k key ∧ (fails = false → s'.store key = none)
  loads : ∀ k, act = .load k false → s.Loads k key → (s.store key).isSome → s'.Holds k key

/-- A step that moves one request, which neither holds a key before nor after it. -/
theorem KeyStep.of_idle {cfg : OIDCConfig} {svc : Service} {key : String} {s : Login}
    {act : LoginAct} {store : String → Option Bytes} {k : ℕ} {q : LoginRequest}
    (hstore : s.saves cfg svc act ≠ some key → (store key).isSome → (s.store key).isSome)
    (hbefore : ∀ q₀, s.requests k = some q₀ → q₀.holds = false) (hafter : q.holds = false)
    (hload : ∀ j, act ≠ .load j false) (hdelete : ∀ j fails, act ≠ .delete j fails) :
    KeyStep cfg svc key s act ({ s with store := store }.setRequest k q) where
  store := hstore
  gains j hj := by
    rcases Login.holds_setRequest.mp hj with ⟨-, hq, -⟩ | ⟨-, hold⟩
    · rw [hafter] at hq
      cases hq
    · exact .inl hold
  keeps j hj _ := by
    refine Login.holds_setRequest.mpr (.inr ⟨?_, hj⟩)
    rintro rfl
    obtain ⟨q₀, hq₀, hh, -⟩ := hj
    rw [hbefore q₀ hq₀] at hh
    cases hh
  drops j fails ha := absurd ha (hdelete j fails)
  loads j ha := absurd ha (hload j)

/-- A step that touches no request. -/
theorem KeyStep.of_store {cfg : OIDCConfig} {svc : Service} {key : String} {s : Login}
    {act : LoginAct} {store : String → Option Bytes}
    (hstore : s.saves cfg svc act ≠ some key → (store key).isSome → (s.store key).isSome)
    (hload : ∀ j, act ≠ .load j false) (hdelete : ∀ j fails, act ≠ .delete j fails) :
    KeyStep cfg svc key s act { s with store := store } where
  store := hstore
  gains _ hj := .inl hj
  keeps _ hj _ := hj
  drops j fails ha := absurd ha (hdelete j fails)
  loads j ha := absurd ha (hload j)

/-- The step of a `Load`: the request holds its key now, if `Load` found it. -/
theorem KeyStep.of_load {cfg : OIDCConfig} {svc : Service} {key : String} {s : Login}
    {k : ℕ} {fails : Bool} {q q' : LoginRequest} (hq : s.requests k = some q)
    (hl : q.loads = true) (hh : q.holds = false) (hkey : q'.key = q.key)
    (hholds : q'.holds = true ↔ fails = false ∧ (s.store q.key).isSome) :
    KeyStep cfg svc key s (.load k fails) (s.setRequest k q') where
  store _ hs := hs
  gains j hj := by
    rcases Login.holds_setRequest.mp hj with ⟨rfl, hq', hk⟩ | ⟨-, hold⟩
    · obtain ⟨rfl, hsome⟩ := hholds.mp hq'
      rw [hkey] at hk
      rw [hk] at hsome
      exact .inr ⟨rfl, ⟨q, hq, hl, hk⟩, hsome⟩
    · exact .inl hold
  keeps j hj _ := by
    refine Login.holds_setRequest.mpr (.inr ⟨?_, hj⟩)
    rintro rfl
    obtain ⟨q₀, hq₀, hh₀, -⟩ := hj
    obtain rfl := Option.some.inj (hq.symm.trans hq₀)
    rw [hh] at hh₀
    cases hh₀
  drops j _ ha := nomatch ha
  loads j ha hj hsome := by
    obtain ⟨rfl, rfl⟩ := LoginAct.load.inj ha
    obtain ⟨q₀, hq₀, -, hk⟩ := hj
    obtain rfl := Option.some.inj (hq.symm.trans hq₀)
    refine Login.holds_setRequest.mpr (.inl ⟨rfl, ?_, hkey.trans hk⟩)
    exact hholds.mpr ⟨rfl, hk ▸ hsome⟩

/-- The step of a `Delete`: the request holds nothing any more. -/
theorem KeyStep.of_delete {cfg : OIDCConfig} {svc : Service} {key : String} {s : Login}
    {k : ℕ} {fails : Bool} {q q' : LoginRequest} (hq : s.requests k = some q)
    (hh : q'.holds = false) :
    KeyStep cfg svc key s (.delete k fails)
      ({ s with store := deleteKey fails s.store q.key }.setRequest k q') where
  store _ hs := isSome_of_deleteKey hs
  gains j hj := by
    rcases Login.holds_setRequest.mp hj with ⟨-, hq', -⟩ | ⟨-, hold⟩
    · rw [hh] at hq'
      cases hq'
    · exact .inl hold
  keeps j hj hne := by
    refine Login.holds_setRequest.mpr (.inr ⟨?_, hj⟩)
    rintro rfl
    exact hne fails rfl
  drops j fails' ha hj := by
    obtain ⟨rfl, rfl⟩ := LoginAct.delete.inj ha
    obtain ⟨q₀, hq₀, -, hk⟩ := hj
    obtain rfl := Option.some.inj (hq.symm.trans hq₀)
    refine ⟨?_, ?_⟩
    · intro hj
      rcases Login.holds_setRequest.mp hj with ⟨-, hq', -⟩ | ⟨hne, -⟩
      · rw [hh] at hq'
        cases hq'
      · exact hne rfl
    · rintro rfl
      show deleteKey false s.store q.key key = none
      rw [hk]
      exact del_self _ _
  loads j ha := nomatch ha

/-- Unless it is saved, a key is redeemable after a step only if it was before. -/
theorem Login.Redeemable.before {cfg : OIDCConfig} {svc : Service} {key : String}
    {s s' : Login} {act : LoginAct} (hks : KeyStep cfg svc key s act s')
    (hsave : s.saves cfg svc act ≠ some key) (h : s'.Redeemable key) : s.Redeemable key := by
  rcases h with hsome | ⟨k, hk⟩
  · exact .inl (hks.store hsave hsome)
  · rcases hks.gains k hk with hold | ⟨-, -, hsome⟩
    · exact .inr ⟨k, hold⟩
    · exact .inl hsome

/-- What the moves of a state say: it is saved, or a `Load` finds it. -/
theorem Login.stateMove_cases (cfg : OIDCConfig) (svc : Service) (state : String) (s : Login)
    (act : LoginAct) :
    s.stateMove cfg svc state act = some .supplied ∨
      (s.saves cfg svc act ≠ some (stateKey state) ∧
        (s.stateMove cfg svc state act = none ∨
          (s.stateMove cfg svc state act = some .used ∧
            ∃ k, act = .load k false ∧ s.Loads k (stateKey state) ∧
              (s.store (stateKey state)).isSome))) := by
  unfold Login.stateMove
  split
  · exact .inl rfl
  · next hsave =>
    refine .inr ⟨hsave, ?_⟩
    split
    · next k =>
      split
      · next st code hq =>
        split
        · next hc =>
          exact .inr ⟨rfl, k, rfl, ⟨_, hq, rfl, congrArg stateKey hc.1⟩, hc.2⟩
        · exact .inl rfl
      · exact .inl rfl
    · exact .inl rfl

/-- Unless it is saved, a key is fresh after a step of an exclusive run only if it was
before: a holder that lets go takes the entry with it. -/
theorem Login.Fresh.before {cfg : OIDCConfig} {svc : Service} {key : String} {s s' : Login}
    {act : LoginAct} (hok : Exclusive key s act) (hks : KeyStep cfg svc key s act s')
    (hsave : s.saves cfg svc act ≠ some key) (h : s'.Fresh key) : s.Fresh key := by
  refine ⟨hks.store hsave h.1, fun k hk => ?_⟩
  by_cases hdel : ∃ fails, act = .delete k fails
  · obtain ⟨fails, rfl⟩ := hdel
    obtain ⟨-, hgone⟩ := hks.drops k fails rfl hk
    have hsome := h.1
    rw [hgone (hok hk)] at hsome
    cases hsome
  · exact h.2 k (hks.keeps k hk fun fails heq => hdel ⟨fails, heq⟩)

variable [SessionCodec]

theorem KeyStep.of_step {cfg : OIDCConfig} {svc : Service} {s s' : Login} {act : LoginAct}
    (key : String) (h : s.step cfg svc act = some s') : KeyStep cfg svc key s act s' := by
  cases act with
  | begin state value =>
    obtain rfl := Option.some.inj h
    refine .of_store (fun hs => isSome_of_put ?_) (fun _ => nofun) (fun _ _ => nofun)
    rintro rfl
    exact hs rfl
  | expire key' =>
    obtain rfl := Option.some.inj h
    refine .of_store (fun _ hs => ?_) (fun _ => nofun) (fun _ _ => nofun)
    change (deleteKey false s.store key' key).isSome at hs
    exact isSome_of_deleteKey hs
  | exchange k code =>
    simp only [Login.step] at h
    split at h
    · cases h
    · next hfree =>
      obtain rfl := Option.some.inj h
      refine .of_idle (fun _ hs => hs) (fun q hq => ?_) rfl (fun _ => nofun) (fun _ _ => nofun)
      rw [hq] at hfree
      exact absurd rfl hfree
  | complete k state code =>
    simp only [Login.step] at h
    split at h
    · cases h
    · next hfree =>
      obtain rfl := Option.some.inj h
      refine .of_idle (fun _ hs => hs) (fun q hq => ?_) rfl (fun _ => nofun) (fun _ _ => nofun)
      rw [hq] at hfree
      exact absurd rfl hfree
  | load k fails =>
    simp only [Login.step] at h
    split at h
    · next code hq =>
      obtain rfl := Option.some.inj h
      exact .of_load hq rfl rfl rfl (exchangeLoaded_holds code fails _)
    · next state code hq =>
      obtain rfl := Option.some.inj h
      exact .of_load hq rfl rfl rfl (completeLoaded_holds state code fails _)
    · cases h
  | delete k fails =>
    simp only [Login.step] at h
    split at h
    · next code raw hq =>
      obtain rfl := Option.some.inj h
      exact .of_delete hq rfl
    · next state code raw hq =>
      obtain rfl := Option.some.inj h
      exact .of_delete hq rfl
    · cases h
  | save k env now =>
    simp only [Login.step] at h
    split at h
    · next state code raw hq =>
      obtain rfl := Option.some.inj h
      refine .of_idle (fun hs hsome => ?_) (fun q hq' => ?_) rfl (fun _ => nofun)
        (fun _ _ => nofun)
      · simp only [Login.saves, hq] at hs
        cases hres : completeResult cfg svc env now raw state code with
        | error e =>
          rw [hres] at hsome
          exact hsome
        | ok r =>
          rw [hres] at hs hsome
          refine isSome_of_put ?_ hsome
          rintro rfl
          exact hs rfl
      · obtain rfl := Option.some.inj (hq.symm.trans hq')
        rfl
    · cases h

/-! ## At most one holder -/

/-- A step of an exclusive run keeps it so: whoever loads the key finds it unheld. -/
theorem Login.OneHolder.step {cfg : OIDCConfig} {svc : Service} {key : String} {s s' : Login}
    {act : LoginAct} (hok : Exclusive key s act) (h : s.step cfg svc act = some s')
    (hone : s.OneHolder key) : s'.OneHolder key := by
  have hks := KeyStep.of_step key h
  intro k k' hk hk'
  rcases hks.gains k hk with hold | ⟨rfl, hl, hsome⟩
  · rcases hks.gains k' hk' with hold' | ⟨rfl, hl', hsome'⟩
    · exact hone k k' hold hold'
    · exact absurd hold (hok hl' rfl hsome' k)
  · rcases hks.gains k' hk' with hold' | ⟨heq, -, -⟩
    · exact absurd hold' (hok hl rfl hsome k')
    · exact (LoginAct.load.inj heq).1

/-! ## Codes -/

/-- What the moves of a code say: it is saved, or a request that holds it deletes it. -/
theorem Login.codeMove_cases (cfg : OIDCConfig) (svc : Service) (code : String) (s : Login)
    (act : LoginAct) :
    s.codeMove cfg svc code act = some .supplied ∨
      (s.saves cfg svc act ≠ some (codeKey code) ∧
        (s.codeMove cfg svc code act = none ∨
          (s.codeMove cfg svc code act = some .used ∧
            ∃ k fails, act = .delete k fails ∧ s.Holds k (codeKey code)))) := by
  unfold Login.codeMove
  split
  · exact .inl rfl
  · next hsave =>
    refine .inr ⟨hsave, ?_⟩
    split
    · next k fails =>
      split
      · next c raw hq =>
        split
        · next hc => exact .inr ⟨rfl, k, fails, rfl, _, hq, rfl, congrArg codeKey hc.1⟩
        · exact .inl rfl
      · exact .inl rfl
    · exact .inl rfl

/-- In an exclusive run every session stems from a `Save` of its code. -/
theorem codes_stem {cfg : OIDCConfig} {svc : Service} {code : String} {acts : List LoginAct}
    {s : Login} (hrun : LoginRun cfg svc (Exclusive (codeKey code)) Login.init acts s) :
    EachUseStems (history (Login.step cfg svc) (Login.codeMove cfg svc code) Login.init acts) := by
  have hrun' := hrun.and_invariant (Login.OneHolder (codeKey code))
    (fun _ _ _ hok hst => Login.OneHolder.step hok hst) (Login.oneHolder_init _)
  have htracks : ∀ s act s', Exclusive (codeKey code) s act ∧ s.OneHolder (codeKey code) →
      s.step cfg svc act = some s' → s'.Redeemable (codeKey code) →
      stockAfter (s.Redeemable (codeKey code)) (s.codeMove cfg svc code act) := by
    rintro s act s' ⟨hok, hone⟩ hst hred
    have hks := KeyStep.of_step (codeKey code) hst
    rcases Login.codeMove_cases cfg svc code s act with hm | ⟨hsave, hm | ⟨hm, k, fails, rfl, hk⟩⟩
    · rw [hm]
      trivial
    · rw [hm]
      exact hred.before hks hsave
    · rw [hm]
      -- the holder was the only one, and its `Delete` took the entry away
      obtain ⟨hdrop, hgone⟩ := hks.drops k fails rfl hk
      rcases hred with hsome | ⟨j, hj⟩
      · rw [hgone (hok hk)] at hsome
        cases hsome
      · rcases hks.gains j hj with hold | ⟨hact, -, -⟩
        · exact hdrop (hone j k hold hk ▸ hj)
        · cases hact
  refine eachUseStems_of_stock htracks ?_ hrun' eachUseStems_nil ?_
  · rintro s act - hm
    rcases Login.codeMove_cases cfg svc code s act with hm' | ⟨-, hm' | ⟨-, k, -, -, hk⟩⟩
    · rw [hm'] at hm
      cases hm
    · rw [hm'] at hm
      cases hm
    · exact .inr ⟨k, hk⟩
  · rintro (hsome | ⟨k, q, hq, -⟩)
    · cases hsome
    · cases hq

/-! ## States -/

/-- In an exclusive run every passed state check stems from a `Save` of its state. -/
theorem states_stem {cfg : OIDCConfig} {svc : Service} {state : String} {acts : List LoginAct}
    {s : Login} (hrun : LoginRun cfg svc (Exclusive (stateKey state)) Login.init acts s) :
    EachUseStems
      (history (Login.step cfg svc) (Login.stateMove cfg svc state) Login.init acts) := by
  have htracks : ∀ s act s', Exclusive (stateKey state) s act →
      s.step cfg svc act = some s' → s'.Fresh (stateKey state) →
      stockAfter (s.Fresh (stateKey state)) (s.stateMove cfg svc state act) := by
    intro s act s' hok hst hfresh
    have hks := KeyStep.of_step (stateKey state) hst
    rcases Login.stateMove_cases cfg svc state s act with
      hm | ⟨hsave, hm | ⟨hm, k, rfl, hl, hsome⟩⟩
    · rw [hm]
      trivial
    · rw [hm]
      exact hfresh.before hok hks hsave
    · rw [hm]
      exact hfresh.2 k (hks.loads k rfl hl hsome)
  refine eachUseStems_of_stock htracks ?_ hrun eachUseStems_nil ?_
  · intro s act hok hm
    rcases Login.stateMove_cases cfg svc state s act with hm' | ⟨-, hm' | ⟨-, k, rfl, hl, hsome⟩⟩
    · rw [hm'] at hm
      cases hm
    · rw [hm'] at hm
      cases hm
    · exact ⟨hsome, hok hl rfl hsome⟩
  · rintro ⟨hsome, -⟩
    cases hsome

/-- **One-time means once**, for codes and for states, as long as no `Load` finds the key
while another request that loaded it has not deleted it, and no such `Delete` fails: every
session of an `Exchange`, and every `Complete` past the state check, stems from a `Save` of
its key, with no other use of that key since. -/
theorem one_time_keys_used_once (cfg : OIDCConfig) (svc : Service) (acts : List LoginAct)
    (s : Login) :
    (∀ code, LoginRun cfg svc (Exclusive (codeKey code)) Login.init acts s →
      EachUseStems
        (history (Login.step cfg svc) (Login.codeMove cfg svc code) Login.init acts)) ∧
    (∀ state, LoginRun cfg svc (Exclusive (stateKey state)) Login.init acts s →
      EachUseStems
        (history (Login.step cfg svc) (Login.stateMove cfg svc state) Login.init acts)) :=
  ⟨fun _ => codes_stem, fun _ => states_stem⟩

/-! ## Two requests at once -/

/-- Two requests for one code: both load it before either deletes it. -/
def twoExchanges (code : String) : List LoginAct :=
  [.exchange 1 code, .exchange 2 code, .load 1 false, .load 2 false, .delete 1 false,
    .delete 2 false]

/-- Both get a session. -/
theorem twoExchanges_run (cfg : OIDCConfig) (svc : Service) {s : Login} {code : String}
    {raw : Bytes} {sess : SSOSession} (h1 : s.requests 1 = none) (h2 : s.requests 2 = none)
    (hcode : s.store (codeKey code) = some raw) (hraw : unmarshalSession raw = some sess) :
    (∃ s', LoginRun cfg svc (fun _ _ => True) s (twoExchanges code) s') ∧
      history (Login.step cfg svc) (Login.codeMove cfg svc code) s (twoExchanges code) =
        [.used, .used] := by
  constructor
  · have hsome : (runList (Login.step cfg svc) s (twoExchanges code)).isSome := by
      simp [runList, twoExchanges, Login.step, h1, h2, hcode, exchangeLoaded, deleteKey]
    obtain ⟨s', hs'⟩ := Option.isSome_iff_exists.mp hsome
    exact ⟨s', .of_runList (fun _ _ _ => trivial) hs'⟩
  · simp [history, twoExchanges, Login.step, Login.codeMove, Login.saves, h1, h2, hcode, hraw,
      exchangeLoaded, deleteKey]

/-- A single request for a code. -/
def oneExchange (code : String) : List LoginAct :=
  [.exchange 1 code, .load 1 false, .delete 1 false]

theorem oneExchange_run (cfg : OIDCConfig) (svc : Service) {s : Login} {code : String}
    {raw : Bytes} {sess : SSOSession} (h1 : s.requests 1 = none)
    (hcode : s.store (codeKey code) = some raw) (hraw : unmarshalSession raw = some sess)
    (hidle : ∀ j q, s.requests j = some q → q.holds = false) :
    (∃ s', LoginRun cfg svc (Exclusive (codeKey code)) s (oneExchange code) s') ∧
      history (Login.step cfg svc) (Login.codeMove cfg svc code) s (oneExchange code) =
        [.used] := by
  constructor
  · have hreceive : s.step cfg svc (.exchange 1 code) =
        some (s.setRequest 1 (.exchange code .load)) := by
      simp [Login.step, h1]
    have hload : (s.setRequest 1 (.exchange code .load)).step cfg svc (.load 1 false) =
        some ((s.setRequest 1 (.exchange code .load)).setRequest 1
          (.exchange code (.delete raw))) := by
      simp [Login.step, hcode, exchangeLoaded]
    have hfree : Exclusive (codeKey code) (s.setRequest 1 (.exchange code .load))
        (.load 1 false) := by
      refine exclusive_load fun j q hq => ?_
      rw [Login.setRequest_requests] at hq
      by_cases h : j = 1
      · rw [h, put_self] at hq
        obtain rfl := Option.some.inj hq
        rfl
      · rw [put_of_ne _ _ h] at hq
        exact hidle j q hq
    exact ⟨_, .cons trivial hreceive <| .cons hfree hload <| .cons (fun _ => rfl) rfl .nil⟩
  · simp [history, oneExchange, Login.step, Login.codeMove, Login.saves, h1, hcode, hraw,
      exchangeLoaded, deleteKey]

end

/-- The stored document of the viewer session of `stranger`. -/
def strangerDoc (sess : SSOSession) : Bytes :=
  utf8 ("\x7b\"Token\":\"".toList ++ sess.token ++
    ("\",\"ExpiresAt\":\"1970-01-01T12:00:00Z\",\"Identity\":\x7b\"username\":\"Ann\"," ++
      "\"roles\":[\"viewer\"],\"permissions\":[\"delayed:read\",\"dlq:read\",\"jobs:read\"," ++
      "\"metrics:read\",\"queues:read\",\"system:read\",\"workers:read\"]\x7d," ++
      "\"WebReturn\":\"/\"\x7d").toList)

/-- `encoding/json` on that session. -/
instance strangerCodec : SessionCodec where
  marshalSession := strangerDoc
  unmarshalSession raw :=
    if raw = strangerDoc (viewerSession stranger) then some (viewerSession stranger) else none

/-- The stored document of a login attempt. -/
def attemptDoc : Bytes :=
  utf8 "\x7b\"verifier\":\"verifier\",\"web_return\":\"/\"\x7d".toList

/-- A login up to the point where its state is consumed. -/
def strangerCallback : List LoginAct :=
  [.begin "state" attemptDoc, .complete 0 "state" "code", .load 0 false, .delete 0 false]

/-- The rest of it, up to its one-time code. -/
def strangerSave : LoginAct := .save 0 (answersFor stranger) 0

theorem completeResult_stranger (raw : Bytes) :
    completeResult viewerConfig rootService (answersFor stranger) 0 raw "state" "code" =
      .ok ("otc", viewerSession stranger) := by
  have hsub : stranger.subject ≠ "" := by decide
  have hfetch : fetchUser { answersFor stranger with load := fun _ => some (some raw) } "state"
      "code" = .ok (⟨"verifier", "/"⟩, stranger) := fetchUser_answersFor hsub "state" "code"
  unfold completeResult complete
  rw [hfetch]
  rfl

theorem unmarshalSession_stranger :
    unmarshalSession (marshalSession (viewerSession stranger)) =
      some (viewerSession stranger) := by
  unfold unmarshalSession marshalSession strangerCodec
  exact if_pos rfl

theorem stateKey_ne_codeKey (state code : String) : stateKey state ≠ codeKey code := by
  intro h
  have hhead := congrArg (fun s : String => s.toList.take 6) h
  simp [codeKey, stateKey, String.toList_append] at hhead

/-- The callback, without a `Save` of the code. -/
theorem strangerCallback_run (key : String) :
    ∃ s, LoginRun viewerConfig rootService (Exclusive key) Login.init strangerCallback s ∧
      s.requests 0 = some (.complete "state" "code" (.save attemptDoc)) ∧
      (∀ j, j ≠ 0 → s.requests j = none) ∧
      history (Login.step viewerConfig rootService)
        (Login.codeMove viewerConfig rootService "otc") Login.init strangerCallback = [] := by
  refine ⟨_, .cons trivial rfl <| .cons trivial rfl <| .cons (exclusive_load ?_) rfl <|
    .cons (fun _ => rfl) rfl .nil, rfl, ?_, ?_⟩
  · rintro (_ | j) q ⟨⟩
    rfl
  · rintro (_ | j) h
    · exact absurd rfl h
    · rfl
  · simp [history, strangerCallback, Login.step, Login.codeMove, Login.saves,
      stateKey_ne_codeKey, Login.init, Login.setRequest, completeLoaded, put, nothing]

/-- The login supplies the code, and its request is over. -/
theorem strangerLogin_supplies (key : String) :
    ∃ s, LoginRun viewerConfig rootService (Exclusive key) Login.init
        (strangerCallback ++ [strangerSave]) s ∧
      s.store (codeKey "otc") = some (marshalSession (viewerSession stranger)) ∧
      (∀ j, j ≠ 0 → s.requests j = none) ∧
      (∀ j q, s.requests j = some q → q.holds = false) ∧
      history (Login.step viewerConfig rootService)
        (Login.codeMove viewerConfig rootService "otc") Login.init
        (strangerCallback ++ [strangerSave]) = [.supplied] := by
  obtain ⟨s, hrun, hq, hfree, hhist⟩ := strangerCallback_run key
  have hsave : s.codeMove viewerConfig rootService "otc" strangerSave = some .supplied := by
    simp [Login.codeMove, Login.saves, strangerSave, hq, completeResult_stranger]
  have hstep : s.step viewerConfig rootService strangerSave = some (Login.setRequest
      ⟨put s.store (codeKey "otc") (marshalSession (viewerSession stranger)), s.requests⟩ 0
      (.complete "state" "code" (.done (.ok ("otc", viewerSession stranger))))) := by
    simp only [Login.step, strangerSave, hq, completeResult_stranger, savedStore]
  refine ⟨_, hrun.snoc trivial hstep, ?_, ?_, ?_, ?_⟩
  · simp
  · intro j hj
    simp [hj, hfree j hj]
  · intro j q hj
    rw [Login.setRequest_requests] at hj
    by_cases h0 : j = 0
    · rw [h0, put_self] at hj
      obtain rfl := Option.some.inj hj
      rfl
    · rw [put_of_ne _ _ h0, hfree j h0] at hj
      cases hj
  · rw [history_append hrun, hhist, history_cons _ hstep, hsave]
    rfl

/-- Two callbacks with one state, in the same order. -/
def twoCallbacks : List LoginAct :=
  [.begin "state" attemptDoc, .complete 0 "state" "code", .complete 1 "state" "code",
    .load 0 false, .load 1 false]

/-- A supply does not cover two uses. -/
theorem not_eachUseStems_twice : ¬ EachUseStems [.supplied, .used, .used] := by
  intro h
  obtain ⟨-, harmed⟩ := eachUseStems_snoc (h := [.supplied, .used]) |>.mp h
  rcases armed_snoc (h := [.supplied]) |>.mp (harmed rfl) with hm | ⟨hm, -⟩
  · cases hm
  · exact hm rfl

/-- **One code, two sessions; one state, two logins.** -/
theorem one_time_keys_used_twice :
    (∃ s, LoginRun viewerConfig rootService (fun _ _ => True) Login.init
        (strangerCallback ++ [strangerSave] ++ twoExchanges "otc") s ∧
      ¬ EachUseStems (history (Login.step viewerConfig rootService)
        (Login.codeMove viewerConfig rootService "otc") Login.init
        (strangerCallback ++ [strangerSave] ++ twoExchanges "otc"))) ∧
    (∃ s, LoginRun viewerConfig rootService (fun _ _ => True) Login.init twoCallbacks s ∧
      ¬ EachUseStems (history (Login.step viewerConfig rootService)
        (Login.stateMove viewerConfig rootService "state") Login.init twoCallbacks)) := by
  obtain ⟨s, hrun, hcode, hfree, -, hhist⟩ := strangerLogin_supplies (codeKey "otc")
  obtain ⟨⟨s', hrun'⟩, hhist'⟩ := twoExchanges_run viewerConfig rootService
    (hfree 1 (by decide)) (hfree 2 (by decide)) hcode unmarshalSession_stranger
  have hstate : history (Login.step viewerConfig rootService)
      (Login.stateMove viewerConfig rootService "state") Login.init twoCallbacks =
        [.supplied, .used, .used] := by
    simp [history, twoCallbacks, Login.step, Login.stateMove, Login.saves, Login.init,
      completeLoaded, nothing]
  refine ⟨⟨s', (hrun.mono fun _ _ _ _ _ => trivial).append hrun', ?_⟩, ⟨_, .cons trivial rfl <|
    .cons trivial rfl <| .cons trivial rfl <| .cons trivial rfl <| .cons trivial rfl .nil, ?_⟩⟩
  · rw [history_append hrun, hhist, hhist']
    exact not_eachUseStems_twice
  · rw [hstate]
    exact not_eachUseStems_twice

/-- A login whose code is exchanged in peace. -/
theorem one_time_keys_used_once_stranger :
    (history (Login.step viewerConfig rootService)
        (Login.codeMove viewerConfig rootService "otc") Login.init
        (strangerCallback ++ [strangerSave] ++ oneExchange "otc") = [.supplied, .used] ∧
      EachUseStems (history (Login.step viewerConfig rootService)
        (Login.codeMove viewerConfig rootService "otc") Login.init
        (strangerCallback ++ [strangerSave] ++ oneExchange "otc"))) ∧
    EachUseStems (history (Login.step viewerConfig rootService)
      (Login.stateMove viewerConfig rootService "state") Login.init
      (strangerCallback ++ [strangerSave])) := by
  obtain ⟨s, hrun, hcode, hfree, hidle, hhist⟩ := strangerLogin_supplies (codeKey "otc")
  obtain ⟨⟨s', hrun'⟩, hhist'⟩ := oneExchange_run viewerConfig rootService
    (hfree 1 (by decide)) hcode unmarshalSession_stranger hidle
  obtain ⟨s₀, hrun₀, -⟩ := strangerLogin_supplies (stateKey "state")
  refine ⟨⟨?_, (one_time_keys_used_once _ _ _ s').1 "otc" (hrun.append hrun')⟩,
    (one_time_keys_used_once _ _ _ s₀).2 "state" hrun₀⟩
  rw [history_append hrun, hhist, hhist']
  rfl

end ForgeQueue
