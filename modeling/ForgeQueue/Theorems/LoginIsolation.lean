import ForgeQueue.Base.Purge
import ForgeQueue.Logic.Levels
import Mathlib.Data.List.Infix
import Mathlib.Data.Rat.Floor

/-!
# Clients and the shared login budget

`loginLimiter` asks the global limiter first. An attempt that is then refused for its IP has
taken a token of the global bucket all the same, and the token is missing for everybody until
the bucket has been full again. As long as nobody is refused by a bucket that was drained in
this way, attempts refused for their IP leave no trace in what becomes of the others
(`Sync`); and any run that has drained the bucket can be continued, by clients within their
budget, to one in which they do.
-/

namespace ForgeQueue

open Base

/-! ## The two runs -/

/-- An attempt passes, or is answered with status 429. -/
def LoginVerdict.accepted : LoginVerdict → Bool
  | .pass => true
  | .overGlobal => false
  | .overIP => false

/-- The attempts the limiter per client does not refuse, with their verdicts. -/
def LoginLimiters.unrefused (s : LoginLimiters) (attempts : List (ℚ × HttpRequest)) :
    List ((ℚ × HttpRequest) × LoginVerdict) :=
  (attempts.zip (s.loginAll attempts).2).filter fun e => e.2 ≠ .overIP

/-- Without the attempts that were refused for their IP, all others are decided as with
them. -/
def Unaffected (attempts : List (ℚ × HttpRequest)) : Prop :=
  (newLoginLimiters.loginAll ((newLoginLimiters.unrefused attempts).map Prod.fst)).2.map
      LoginVerdict.accepted =
    (newLoginLimiters.unrefused attempts).map fun e => e.2.accepted

/-- The attempt finds a token in the global bucket and none in the bucket of its client. -/
def LoginLimiters.overdraws (s : LoginLimiters) (attempt : ℚ × HttpRequest) : Bool :=
  (s.loginGlobal.allow attempt.1 "global").2 &&
    !(s.loginIP.allow attempt.1 (clientIP attempt.2)).2

/-- The limiters after another attempt, and whether the global bucket is drained: an attempt
was over the budget of its client alone, and none since has found the bucket full. -/
def LoginLimiters.watch (s : LoginLimiters × Bool) (attempt : ℚ × HttpRequest) :
    LoginLimiters × Bool :=
  ((s.1.loginLimiter attempt.1 attempt.2).1, s.1.overdraws attempt ||
    (s.2 && decide (s.1.loginGlobal.levelAt "global" attempt.1 < s.1.loginGlobal.burst)))

/-- The attempts have drained the global bucket. -/
def Drained (attempts : List (ℚ × HttpRequest)) : Prop :=
  (attempts.foldl LoginLimiters.watch (newLoginLimiters, false)).2 = true

/-- Nobody is refused by a drained bucket. -/
def NoneStarved (attempts : List (ℚ × HttpRequest)) : Prop :=
  ∀ before now r, before ++ [(now, r)] <+: attempts →
    ((newLoginLimiters.loginAll before).1.loginGlobal.allow now "global").2 = false →
      ¬ Drained before

/-- `loginLimiter` as a machine. -/
def loginStep (s : LoginLimiters) (attempt : ℚ × HttpRequest) : LoginLimiters × LoginVerdict :=
  s.loginLimiter attempt.1 attempt.2

theorem loginAll_eq (s : LoginLimiters) (attempts : List (ℚ × HttpRequest)) :
    s.loginAll attempts = runAll loginStep s attempts := by
  induction attempts generalizing s with
  | nil => rfl
  | cons c attempts ih => simp [LoginLimiters.loginAll, runAll, loginStep, ih]

theorem unrefused_eq (s : LoginLimiters) (attempts : List (ℚ × HttpRequest)) :
    s.unrefused attempts =
      kept loginStep (fun v => decide (v = .overIP)) s attempts := by
  unfold LoginLimiters.unrefused kept
  rw [loginAll_eq]
  refine List.filter_congr fun e _ => ?_
  simp

theorem watch_fst (attempts : List (ℚ × HttpRequest)) :
    (attempts.foldl LoginLimiters.watch (newLoginLimiters, false)).1 =
      (runAll loginStep newLoginLimiters attempts).1 := by
  induction attempts using List.reverseRecOn with
  | nil => rfl
  | append_singleton attempts c ih =>
    rw [List.foldl_append, runAll_append, runAll_singleton, ← ih]
    rfl

/-- These are the attempts that are refused for their IP. -/
theorem overdraws_iff (s : LoginLimiters) (c : ℚ × HttpRequest) :
    s.overdraws c = true ↔ (loginStep s c).2 = .overIP := by
  unfold LoginLimiters.overdraws loginStep LoginLimiters.loginLimiter
  cases hglobal : (s.loginGlobal.allow c.1 "global").2 with
  | false => simp [hglobal]
  | true =>
    cases hip : (s.loginIP.allow c.1 (clientIP c.2)).2 with
    | false => simp [hglobal, hip]
    | true => simp [hglobal, hip]

/-- Another attempt. -/
theorem drained_snoc (before : List (ℚ × HttpRequest)) (c : ℚ × HttpRequest) :
    Drained (before ++ [c]) ↔
      (loginStep (runAll loginStep newLoginLimiters before).1 c).2 = .overIP ∨
        (Drained before ∧
          (runAll loginStep newLoginLimiters before).1.loginGlobal.levelAt "global" c.1 <
            (runAll loginStep newLoginLimiters before).1.loginGlobal.burst) := by
  unfold Drained
  rw [List.foldl_append, ← watch_fst]
  simp [LoginLimiters.watch, overdraws_iff]

/-! ## One attempt -/

variable {s s' s₁ s₁' : LoginLimiters} {now t : ℚ} {r : HttpRequest}

/-- The level of the global bucket. -/
def LoginLimiters.budget (s : LoginLimiters) (t : ℚ) : ℚ := s.loginGlobal.levelAt "global" t

/-- Both limiters are rated and in bounds. -/
structure LoginLimiters.Ready (s : LoginLimiters) (t : ℚ) : Prop where
  global : s.loginGlobal.Rated
  ip : s.loginIP.Rated
  globalBounds : s.loginGlobal.InBounds t
  ipBounds : s.loginIP.InBounds t

/-- What an attempt can do. -/
inductive LoginCase (s : LoginLimiters) (now : ℚ) (r : HttpRequest) :
    LoginLimiters → LoginVerdict → Prop
  | overGlobal {g : RateLimiter} (hlow : s.budget now < 1)
      (hg : CallSpec s.loginGlobal now "global" g false) :
      LoginCase s now r ⟨g, s.loginIP⟩ .overGlobal
  | overIP {g p : RateLimiter} (hone : 1 ≤ s.budget now)
      (hlow : s.loginIP.levelAt (clientIP r) now < 1)
      (hg : CallSpec s.loginGlobal now "global" g true)
      (hp : CallSpec s.loginIP now (clientIP r) p false) : LoginCase s now r ⟨g, p⟩ .overIP
  | pass {g p : RateLimiter} (hone : 1 ≤ s.budget now)
      (hip : 1 ≤ s.loginIP.levelAt (clientIP r) now)
      (hg : CallSpec s.loginGlobal now "global" g true)
      (hp : CallSpec s.loginIP now (clientIP r) p true) : LoginCase s now r ⟨g, p⟩ .pass

theorem LoginLimiters.Ready.mono (h : s.Ready t) (ht : t ≤ now) : s.Ready now :=
  ⟨h.global, h.ip, h.globalBounds.mono ht, h.ipBounds.mono ht⟩

/-- **Step.** -/
theorem LoginLimiters.Ready.loginCase (h : s.Ready now) (r : HttpRequest) :
    LoginCase s now r (loginStep s (now, r)).1 (loginStep s (now, r)).2 := by
  have hg := allow_spec h.global.positive h.global.fills h.globalBounds "global"
  have hp := allow_spec h.ip.positive h.ip.fills h.ipBounds (clientIP r)
  have hganswer := hg.answer
  have hpanswer := hp.answer
  unfold loginStep LoginLimiters.loginLimiter
  dsimp only
  cases hgok : (s.loginGlobal.allow now "global").2 with
  | false =>
    rw [hgok] at hg hganswer
    have hlow : s.loginGlobal.levelAt "global" now < 1 := by simpa using hganswer
    exact .overGlobal hlow hg
  | true =>
    rw [hgok] at hg hganswer
    have hone : 1 ≤ s.budget now := hganswer.mp rfl
    cases hpok : (s.loginIP.allow now (clientIP r)).2 with
    | false =>
      rw [hpok] at hp hpanswer
      refine .overIP hone ?_ hg hp
      simpa using hpanswer
    | true =>
      rw [hpok] at hp hpanswer
      exact .pass hone (hpanswer.mp rfl) hg hp

theorem LoginCase.ready {v : LoginVerdict} (hc : LoginCase s now r s₁ v) (h : s.Ready now) :
    s₁.Ready now := by
  cases hc with
  | overGlobal _ hg => exact ⟨h.global.congr hg.rate hg.burst, h.ip, hg.bounds, h.ipBounds⟩
  | overIP _ _ hg hp =>
    exact ⟨h.global.congr hg.rate hg.burst, h.ip.congr hp.rate hp.burst, hg.bounds, hp.bounds⟩
  | pass _ _ hg hp =>
    exact ⟨h.global.congr hg.rate hg.burst, h.ip.congr hp.rate hp.burst, hg.bounds, hp.bounds⟩

/-- An attempt does nothing to the levels of other clients. -/
theorem LoginCase.other_ip {v : LoginVerdict} {ip : String} (hc : LoginCase s now r s₁ v)
    (hip : ip ≠ clientIP r) : s₁.loginIP.levelAt ip now = s.loginIP.levelAt ip now := by
  cases hc with
  | overGlobal => rfl
  | overIP _ _ _ hp => exact hp.other hip
  | pass _ _ _ hp => exact hp.other hip

theorem LoginCase.ip_burst {v : LoginVerdict} (hc : LoginCase s now r s₁ v) :
    s₁.loginIP.burst = s.loginIP.burst := by
  cases hc with
  | overGlobal => rfl
  | overIP _ _ _ hp => exact hp.burst
  | pass _ _ _ hp => exact hp.burst

/-- A call of the global limiter takes one from the budget or nothing. -/
theorem CallSpec.budget {l l' : RateLimiter} {ok : Bool} (h : CallSpec l now "global" l' ok) :
    l'.levelAt "global" now = l.levelAt "global" now - if ok = true then 1 else 0 := by
  have hspent := h.spent "global"
  simp only [true_and] at hspent
  linarith

/-! ## Two runs side by side -/

/-- The second run has the same levels for every client, and the same global budget unless
the first has drained its own. -/
structure Sync (drained : Prop) (s s' : LoginLimiters) (t : ℚ) : Prop where
  ready : s.Ready t
  ip : Alike s.loginIP s'.loginIP t
  rate : s'.loginGlobal.rate = s.loginGlobal.rate
  burst : s'.loginGlobal.burst = s.loginGlobal.burst
  bounds' : s'.loginGlobal.InBounds t
  poorer : drained → s.budget t < s'.budget t
  same : ¬ drained → s.budget t = s'.budget t

variable {drained : Prop}

theorem Sync.le (h : Sync drained s s' t) : s.budget t ≤ s'.budget t := by
  by_cases hd : drained
  · exact (h.poorer hd).le
  · exact (h.same hd).le

theorem Sync.ready' (h : Sync drained s s' t) : s'.Ready t :=
  ⟨h.ready.global.congr h.rate h.burst, h.ready.ip.congr h.ip.rate h.ip.burst, h.bounds',
    h.ip.bounds'⟩

/-- Time makes up for the difference when the bucket is full. -/
theorem Sync.later (h : Sync drained s s' t) (ht : t ≤ now) :
    Sync (drained ∧ s.budget now < s.loginGlobal.burst) s s' now := by
  have hlater := h.ready.global.positive.levelAt_later "global" ht
  have hlater' := h.ready'.global.positive.levelAt_later "global" ht
  rw [h.rate, h.burst] at hlater'
  refine ⟨h.ready.mono ht, h.ip.mono h.ready.ip.positive ht, h.rate, h.burst, h.bounds'.mono ht,
    ?_, ?_⟩
  · rintro ⟨hd, hpart⟩
    unfold LoginLimiters.budget at hpart ⊢
    rw [hlater] at hpart ⊢
    rw [hlater']
    exact level_lt_level (h.poorer hd) hpart
  · intro hno
    unfold LoginLimiters.budget at hno ⊢
    by_cases hd : drained
    · -- a full bucket cannot hold less than another
      have hfull : s.loginGlobal.burst ≤ s.loginGlobal.levelAt "global" now :=
        not_lt.mp fun hpart => hno ⟨hd, hpart⟩
      have hle : s.loginGlobal.levelAt "global" now ≤ s'.loginGlobal.levelAt "global" now := by
        rw [hlater, hlater']
        exact level_le_level h.le
      have hmax := levelAt_le_burst s'.loginGlobal "global" now
      rw [h.burst] at hmax
      exact le_antisymm hle (hmax.trans hfull)
    · have hsame : s.loginGlobal.levelAt "global" t = s'.loginGlobal.levelAt "global" t :=
        h.same hd
      rw [hlater, hlater', hsame]

/-- An attempt that is refused for its IP is not there in the second run. -/
theorem Sync.removed (h : Sync drained s s' now) (hc : LoginCase s now r s₁ .overIP) :
    Sync True s₁ s' now := by
  have hready := hc.ready h.ready
  cases hc with
  | overIP hone hlow hg hp =>
    have hle := h.le
    have hbudget := hg.budget
    refine ⟨hready, ⟨h.ip.rate.trans hp.rate.symm, h.ip.burst.trans hp.burst.symm, hp.bounds,
      h.ip.bounds', fun k => ?_⟩, h.rate.trans hg.rate.symm, h.burst.trans hg.burst.symm,
      h.bounds', fun _ => ?_, fun hno => absurd trivial hno⟩
    · have hspent := hp.spent k
      simp only [Bool.false_eq_true, and_false, if_false, add_zero] at hspent
      rw [h.ip.levels k, ← hspent]
    · unfold LoginLimiters.budget at hle ⊢
      rw [if_pos rfl] at hbudget
      linarith

/-- Any other attempt has the same verdict in both runs, if it is not the drained bucket that
refuses it. -/
theorem Sync.kept (h : Sync drained s s' now) {v v' : LoginVerdict}
    (hc : LoginCase s now r s₁ v) (hc' : LoginCase s' now r s₁' v') (hv : v ≠ .overIP)
    (hfair : s.budget now < 1 → ¬ drained) : v' = v ∧ Sync drained s₁ s₁' now := by
  have hready := hc.ready h.ready
  have hle := h.le
  have hlevel := h.ip.levels (clientIP r)
  cases hc with
  | overIP => exact absurd rfl hv
  | overGlobal hlow hg =>
    -- the second bucket is as empty as the first
    have hsame := h.same (hfair hlow)
    cases hc' with
    | overGlobal hlow' hg' =>
      refine ⟨rfl, hready, h.ip, ?_, ?_, hg'.bounds, fun hd => absurd hd (hfair hlow), fun _ => ?_⟩
      · exact hg'.rate.trans (h.rate.trans hg.rate.symm)
      · exact hg'.burst.trans (h.burst.trans hg.burst.symm)
      · exact hg.budget.trans ((congrArg (· - _) hsame).trans hg'.budget.symm)
    | overIP hone' => exact absurd hlow (not_lt.mpr (hsame ▸ hone'))
    | pass hone' => exact absurd hlow (not_lt.mpr (hsame ▸ hone'))
  | pass hone hip hg hp =>
    cases hc' with
    | overGlobal hlow' => exact absurd hlow' (not_lt.mpr (hone.trans hle))
    | overIP _ hlow' => exact absurd hlow' (not_lt.mpr (hlevel ▸ hip))
    | pass hone' hip' hg' hp' =>
      obtain ⟨-, halike⟩ := h.ip.call hp hp'
      have hbudget := hg.budget
      have hbudget' := hg'.budget
      refine ⟨rfl, hready, halike, ?_, ?_, hg'.bounds, fun hd => ?_, fun hd => ?_⟩
      · exact hg'.rate.trans (h.rate.trans hg.rate.symm)
      · exact hg'.burst.trans (h.burst.trans hg.burst.symm)
      · have hpoorer := h.poorer hd
        unfold LoginLimiters.budget at hpoorer ⊢
        linarith
      · have hsame := h.same hd
        unfold LoginLimiters.budget at hsame ⊢
        linarith

/-! ## Whole runs -/

theorem Sync.congr {drained' : Prop} (h : Sync drained s s' t) (hd : drained ↔ drained') :
    Sync drained' s s' t :=
  ⟨h.ready, h.ip, h.rate, h.burst, h.bounds', fun h' => h.poorer (hd.mpr h'),
    fun h' => h.same fun h'' => h' (hd.mp h'')⟩

/-- The run on `before`, which goes on with `attempts`, and a second one. -/
structure Lockstep (attempts before : List (ℚ × HttpRequest)) (s s' : LoginLimiters) (t : ℚ) :
    Prop where
  state : s = (runAll loginStep newLoginLimiters before).1
  past : ∀ c ∈ before, c.1 ≤ t
  next : ∀ c, before ++ [c] <+: attempts → t ≤ c.1
  sync : Sync (Drained before) s s' t

variable {attempts before : List (ℚ × HttpRequest)}

theorem newLoginLimiters_ready (t : ℚ) : newLoginLimiters.Ready t where
  global := login_limiters_rated.1
  ip := login_limiters_rated.2
  globalBounds := newRateLimiter_inBounds 20 40 t
  ipBounds := newRateLimiter_inBounds (1 / 5) 10 t

theorem not_drained_nil : ¬ Drained [] := Bool.false_ne_true

theorem Lockstep.init (attempts : List (ℚ × HttpRequest)) :
    ∃ t, Lockstep attempts [] newLoginLimiters newLoginLimiters t := by
  have hsync : ∀ t, Sync (Drained []) newLoginLimiters newLoginLimiters t := fun t =>
    ⟨newLoginLimiters_ready t, .refl (newLoginLimiters_ready t).ipBounds, rfl, rfl,
      (newLoginLimiters_ready t).globalBounds, fun hd => absurd hd not_drained_nil, fun _ => rfl⟩
  cases attempts with
  | nil => exact ⟨0, rfl, by simp, by simp, hsync 0⟩
  | cons c attempts =>
    refine ⟨c.1, rfl, by simp, fun d hd => ?_, hsync c.1⟩
    rw [List.nil_append, List.cons_prefix_cons] at hd
    rw [hd.1]

/-- After another attempt, at the time of that attempt. -/
theorem Lockstep.snoc {c : ℚ × HttpRequest}
    (hsorted : attempts.Pairwise fun c d => c.1 ≤ d.1) (hpre : before ++ [c] <+: attempts)
    (h : Lockstep attempts before s s' t)
    (hsync : Sync (Drained (before ++ [c])) (loginStep s c).1 s₁' c.1) :
    Lockstep attempts (before ++ [c]) (loginStep s c).1 s₁' c.1 where
  state := by rw [h.state, runAll_append, runAll_singleton]
  past := by
    intro d hd
    rcases List.mem_append.mp hd with hd | hd
    · exact (h.past d hd).trans (h.next c hpre)
    · rw [List.mem_singleton.mp hd]
  next := by
    intro d hd
    have hpairs := hsorted.sublist hd.sublist
    exact (List.pairwise_append.mp hpairs).2.2 c (by simp) d (by simp)
  sync := hsync

/-- **Run.** Where nobody is refused by a drained bucket, the run without the attempts
refused for their IP stays in step. -/
theorem lockstep_run (hsorted : attempts.Pairwise fun c d => c.1 ≤ d.1)
    (hfair : NoneStarved attempts) :
    Unaffected attempts ∧ ∃ t, Lockstep attempts attempts
      (runAll loginStep newLoginLimiters attempts).1
      (runAll loginStep newLoginLimiters
        ((newLoginLimiters.unrefused attempts).map Prod.fst)).1 t := by
  have hrun := purge_run loginStep (fun v => decide (v = .overIP)) LoginVerdict.accepted
    (fun before s s' => ∃ t, Lockstep attempts before s s' t) newLoginLimiters attempts
    (Lockstep.init attempts) ?_ ?_
  · unfold Unaffected
    rw [loginAll_eq, unrefused_eq]
    exact hrun
  · rintro before ⟨now, r⟩ s s' hpre ⟨t, h⟩ hv
    have hover : (loginStep s (now, r)).2 = .overIP := of_decide_eq_true hv
    have hsync := h.sync.later (h.next _ hpre)
    have hc := hsync.ready.loginCase r
    rw [hover] at hc
    refine ⟨now, h.snoc hsorted hpre ((hsync.removed hc).congr ?_)⟩
    rw [drained_snoc, ← h.state]
    exact iff_of_true trivial (.inl hover)
  · rintro before ⟨now, r⟩ s s' hpre ⟨t, h⟩ hv
    have hover : (loginStep s (now, r)).2 ≠ .overIP := of_decide_eq_false hv
    have hsync := h.sync.later (h.next _ hpre)
    obtain ⟨hsame, hnext⟩ := hsync.kept (hsync.ready.loginCase r) (hsync.ready'.loginCase r)
      hover (by
        intro hlow hd
        refine hfair before now r hpre ?_ hd.1
        rw [loginAll_eq, ← h.state]
        have hanswer := (allow_spec hsync.ready.global.positive hsync.ready.global.fills
          hsync.ready.globalBounds "global").answer
        rw [← Bool.not_eq_true, hanswer]
        exact not_le.mpr hlow)
    refine ⟨congrArg LoginVerdict.accepted hsame, now, h.snoc hsorted hpre (hnext.congr ?_)⟩
    rw [drained_snoc, ← h.state]
    exact (or_iff_right hover).symm

/-! ## Clients within their budget -/

/-- A client that has not tried yet has its whole budget. -/
theorem untouched (hsorted : before.Pairwise fun c d => c.1 ≤ d.1) :
    ∀ t, (∀ c ∈ before, c.1 ≤ t) →
      (runAll loginStep newLoginLimiters before).1.Ready t ∧
        ∀ ip, (∀ c ∈ before, clientIP c.2 ≠ ip) →
          (runAll loginStep newLoginLimiters before).1.loginIP.levelAt ip t =
            (runAll loginStep newLoginLimiters before).1.loginIP.burst := by
  induction before using List.reverseRecOn with
  | nil => exact fun t _ => ⟨newLoginLimiters_ready t, fun ip _ => rfl⟩
  | append_singleton before c ih =>
    intro t hto
    obtain ⟨now, r⟩ := c
    rw [List.pairwise_append] at hsorted
    obtain ⟨hready, hfull⟩ := ih hsorted.1 now fun c hc => hsorted.2.2 c hc (now, r) (by simp)
    rw [runAll_append, runAll_singleton]
    have hnow : now ≤ t := hto (now, r) (by simp)
    have hc := hready.loginCase r
    have hready₁ := hc.ready hready
    refine ⟨hready₁.mono hnow, fun ip hno => ?_⟩
    have hother : ip ≠ clientIP r := fun heq => hno (now, r) (by simp) heq.symm
    have hip := hfull ip fun c hc => hno c (List.mem_append_left _ hc)
    have hstep := (hc.other_ip hother).trans (hip.trans hc.ip_burst.symm)
    rw [hready₁.ip.positive.levelAt_later ip hnow, hstep]
    exact level_cap hready₁.ip.rate_pos.le hnow

/-- Attempts at one time by different clients that have a token each: nobody is refused for
its IP, and all pass exactly if the global budget lasts for all. -/
theorem fresh_run {rs : List HttpRequest} (hready : s.Ready now) (hnd : (rs.map clientIP).Nodup)
    (hip : ∀ r ∈ rs, 1 ≤ s.loginIP.levelAt (clientIP r) now) :
    (∀ v ∈ (runAll loginStep s (rs.map fun r => (now, r))).2, v ≠ .overIP) ∧
      ((∀ v ∈ (runAll loginStep s (rs.map fun r => (now, r))).2, v = .pass) ↔
        (rs.length : ℚ) ≤ s.budget now) := by
  induction rs generalizing s with
  | nil =>
    have hmin := hready.globalBounds.levelAt_nonneg hready.global.positive "global"
    simpa [runAll, LoginLimiters.budget] using hmin
  | cons r rs ih =>
    rw [List.map_cons, List.nodup_cons] at hnd
    have hc := hready.loginCase r
    have hready₁ := hc.ready hready
    rw [List.map_cons, runAll]
    generalize loginStep s (now, r) = one at hc hready₁
    obtain ⟨s₁, v⟩ := one
    -- the other clients keep their tokens
    have hrest : ∀ u ∈ rs, 1 ≤ s₁.loginIP.levelAt (clientIP u) now := by
      intro u hu
      have hne : clientIP u ≠ clientIP r := fun heq => hnd.1 (heq ▸ List.mem_map_of_mem hu)
      exact (hc.other_ip hne).symm ▸ hip u (List.mem_cons_of_mem _ hu)
    obtain ⟨hnone, hall⟩ := ih hready₁ hnd.2 hrest
    simp only [List.mem_cons, forall_eq_or_imp, List.length_cons, Nat.cast_add, Nat.cast_one]
    cases hc with
    | overGlobal hlow hg =>
      refine ⟨⟨by simp, hnone⟩, iff_of_false (by simp) ?_⟩
      have hlen : (0 : ℚ) ≤ rs.length := Nat.cast_nonneg _
      intro hle
      linarith
    | overIP _ hlow => exact absurd hlow (not_lt.mpr (hip r List.mem_cons_self))
    | pass hone _ hg hp =>
      have hbudget := hg.budget
      rw [if_pos rfl] at hbudget
      refine ⟨⟨by simp, hnone⟩, ?_⟩
      rw [hall]
      unfold LoginLimiters.budget
      rw [hbudget, le_sub_iff_add_le]
      exact and_iff_right rfl

/-! ## Requests of new clients -/

/-- A text without blanks is not trimmed. -/
theorem trimSpace_plain {text : Text} (h : ∀ c ∈ text, isSpace c = false) :
    trimSpace (.ofList text) = .ofList text := by
  have hdrop : ∀ {cs : Text}, (∀ c ∈ cs, isSpace c = false) → cs.dropWhile isSpace = cs := by
    intro cs hcs
    cases cs with
    | nil => rfl
    | cons c cs => exact List.dropWhile_cons_of_neg (by simp [hcs c List.mem_cons_self])
  have hback : ∀ c ∈ text.reverse, isSpace c = false := fun c hc => h c (List.mem_reverse.mp hc)
  rw [trimSpace, String.toList_ofList, hdrop h, hdrop hback, List.reverse_reverse]

/-- The header decides: whoever sets it to a plain text is that client. -/
theorem clientIP_forwarded {text : Text} (hne : text ≠ [])
    (hplain : ∀ c ∈ text, c ≠ ',' ∧ isSpace c = false) (peer : String) :
    clientIP ⟨.ofList text, peer⟩ = .ofList text := by
  have htext : String.ofList text ≠ "" := by
    intro heq
    have htoList := congrArg String.toList heq
    rw [String.toList_ofList] at htoList
    exact hne htoList
  have hcomma : ',' ∉ text := fun hmem => (hplain _ hmem).1 rfl
  have hfirst : trimSpace (.ofList ((splitOn ',' (String.ofList text).toList).headD [])) =
      .ofList text := by
    rw [String.toList_ofList, splitOn_of_not_mem hcomma]
    exact trimSpace_plain fun c hc => (hplain c hc).2
  unfold clientIP
  rw [if_pos htext]
  dsimp only
  rw [hfirst, if_pos htext]

/-- The request of a client of its own, by number. -/
def freshRequest (i : ℕ) : HttpRequest := ⟨.ofList (List.replicate (i + 1) 'a'), "peer:1"⟩

theorem clientIP_freshRequest (i : ℕ) :
    clientIP (freshRequest i) = .ofList (List.replicate (i + 1) 'a') := by
  refine clientIP_forwarded (by simp) (fun c hc => ?_) _
  rw [List.eq_of_mem_replicate hc]
  decide

theorem clientIP_freshRequest_length (i : ℕ) :
    (clientIP (freshRequest i)).toList.length = i + 1 := by
  rw [clientIP_freshRequest, String.toList_ofList, List.length_replicate]

theorem clientIP_freshRequest_injective :
    Function.Injective fun i => clientIP (freshRequest i) := by
  intro i j h
  have hlen := congrArg (fun ip => ip.toList.length) h
  simp only [clientIP_freshRequest_length] at hlen
  omega

/-- From some number on the clients are new. -/
theorem exists_fresh (before : List (ℚ × HttpRequest)) :
    ∃ N, ∀ c ∈ before, ∀ i, N ≤ i → clientIP c.2 ≠ clientIP (freshRequest i) := by
  induction before with
  | nil => exact ⟨0, by simp⟩
  | cons c before ih =>
    obtain ⟨N, hN⟩ := ih
    refine ⟨max N (clientIP c.2).toList.length, fun d hd i hi => ?_⟩
    rcases List.mem_cons.mp hd with rfl | hd
    · intro heq
      have hlen := clientIP_freshRequest_length i
      rw [← heq] at hlen
      have hle := (le_max_right N _).trans hi
      omega
    · exact hN d hd i ((le_max_left _ _).trans hi)

/-! ## A drained bucket shows -/

/-- None of `more`, after `attempts`, is refused for its IP. -/
def WithinBudget (attempts more : List (ℚ × HttpRequest)) : Prop :=
  ∀ v ∈ ((newLoginLimiters.loginAll attempts).1.loginAll more).2, v ≠ .overIP

theorem allow_burst (l : RateLimiter) (now : ℚ) (key : String) :
    (l.allow now key).1.burst = l.burst := by
  unfold RateLimiter.allow
  dsimp only
  split
  · rfl
  · dsimp only
    split <;> rfl

theorem runAll_burst (s : LoginLimiters) (attempts : List (ℚ × HttpRequest)) :
    (runAll loginStep s attempts).1.loginGlobal.burst = s.loginGlobal.burst := by
  induction attempts generalizing s with
  | nil => rfl
  | cons c attempts ih =>
    refine (ih (loginStep s c).1).trans ?_
    have hburst := allow_burst s.loginGlobal c.1 "global"
    unfold loginStep LoginLimiters.loginLimiter
    dsimp only
    split <;> exact hburst

/-- What follows attempts that nobody is refused in for its IP is decided alike in both
runs. -/
theorem Unaffected.rest {more : List (ℚ × HttpRequest)} (h : Unaffected (attempts ++ more))
    (hmore : WithinBudget attempts more) :
    (runAll loginStep (runAll loginStep newLoginLimiters
        ((newLoginLimiters.unrefused attempts).map Prod.fst)).1 more).2.map
          LoginVerdict.accepted =
      (runAll loginStep (runAll loginStep newLoginLimiters attempts).1 more).2.map
        LoginVerdict.accepted := by
  unfold Unaffected at h
  unfold WithinBudget at hmore
  rw [loginAll_eq, loginAll_eq] at hmore
  have hnone : ∀ v ∈ (runAll loginStep (runAll loginStep newLoginLimiters attempts).1 more).2,
      decide (v = .overIP) = false := fun v hv => decide_eq_false (hmore v hv)
  have hlen := (runAll_length loginStep
    (runAll loginStep newLoginLimiters attempts).1 more).symm
  rw [loginAll_eq, unrefused_eq, kept_append, kept_of_none hnone, List.map_append,
    List.map_fst_zip hlen.le, runAll_append, List.map_append, List.map_append] at h
  have hsplit := List.append_inj h (by rw [List.length_map, runAll_length]; simp)
  have hverdicts := congrArg (List.map LoginVerdict.accepted) (List.map_snd_zip hlen.ge)
  rw [List.map_map] at hverdicts
  rw [unrefused_eq, hsplit.2]
  exact hverdicts

/-- There is a time at which the richer bucket, and only that, has enough for some number of
attempts. -/
theorem Sync.exposed (h : Sync drained s s' t) (hd : drained) {size : ℕ}
    (hburst : s.loginGlobal.burst = size) :
    ∃ T, t ≤ T ∧ ∃ n : ℕ, s.budget T < n ∧ (n : ℚ) ≤ s'.budget T := by
  have hrate := h.ready.global.rate_pos
  have hpoorer := h.poorer hd
  have hmax : s'.budget t ≤ size := by
    have hle := levelAt_le_burst s'.loginGlobal "global" t
    rwa [h.burst, hburst] at hle
  -- wait until the richer bucket holds a whole number
  let n := ⌈s'.budget t⌉₊
  have hceil : s'.budget t ≤ n := Nat.le_ceil _
  have hsize : (n : ℚ) ≤ size := Nat.cast_le.mpr (Nat.ceil_le.mpr hmax)
  let T := t + (n - s'.budget t) / s.loginGlobal.rate
  have hflow : (T - t) * s.loginGlobal.rate = n - s'.budget t := by
    rw [add_sub_cancel_left, div_mul_cancel₀ _ hrate.ne']
  have hT : t ≤ T := le_add_of_nonneg_right (div_nonneg (sub_nonneg.mpr hceil) hrate.le)
  refine ⟨T, hT, n, ?_, ?_⟩
  · have hle : s.budget T ≤ s.budget t + (T - t) * s.loginGlobal.rate :=
      h.ready.global.positive.levelAt_le_add "global" hT
    rw [hflow] at hle
    linarith
  · have hlater := h.ready'.global.positive.levelAt_later "global" hT
    unfold LoginLimiters.budget at hflow ⊢
    rw [hlater, h.rate, h.burst, hburst, level, hflow]
    exact le_min hsize (by linarith)

/-- **Tightness.** After a run that has drained the bucket, attempts of new clients show
it. -/
theorem drained_shows (hsorted : attempts.Pairwise fun c d => c.1 ≤ d.1)
    (hfair : NoneStarved attempts) (hd : Drained attempts) :
    ∃ more, (attempts ++ more).Pairwise (fun c d => c.1 ≤ d.1) ∧ WithinBudget attempts more ∧
      ¬ Unaffected (attempts ++ more) := by
  obtain ⟨-, t, hlock⟩ := lockstep_run hsorted hfair
  have hburst : (runAll loginStep newLoginLimiters attempts).1.loginGlobal.burst = (40 : ℕ) :=
    (runAll_burst newLoginLimiters attempts).trans (by decide +kernel)
  obtain ⟨T, hT, n, hpoor, hrich⟩ := hlock.sync.exposed hd hburst
  obtain ⟨N, hN⟩ := exists_fresh attempts
  let rs := (List.range n).map fun i => freshRequest (N + i)
  have hlen : rs.length = n := by simp [rs]
  have hnd : (rs.map clientIP).Nodup := by
    rw [List.map_map]
    refine List.Nodup.map (fun i j h => ?_) List.nodup_range
    exact Nat.add_left_cancel (clientIP_freshRequest_injective h)
  have hpast : ∀ c ∈ attempts, c.1 ≤ T := fun c hc => (hlock.past c hc).trans hT
  -- the new clients have their tokens in both runs
  obtain ⟨hready, hfull⟩ := untouched hsorted T hpast
  have hip : ∀ r ∈ rs,
      1 ≤ (runAll loginStep newLoginLimiters attempts).1.loginIP.levelAt (clientIP r) T := by
    intro r hr
    obtain ⟨i, -, rfl⟩ := List.mem_map.mp hr
    rw [hfull _ fun c hc => hN c hc (N + i) (Nat.le_add_right N i)]
    exact hready.ip.burst_ge
  have hsync := hlock.sync.later hT
  obtain ⟨hnone, hall⟩ := fresh_run hready hnd hip
  obtain ⟨-, hall'⟩ := fresh_run hsync.ready' hnd
    fun r hr => (hsync.ip.levels (clientIP r)).symm ▸ hip r hr
  rw [hlen] at hall hall'
  have hmore : WithinBudget attempts (rs.map fun r => (T, r)) := by
    unfold WithinBudget
    rwa [loginAll_eq, loginAll_eq]
  refine ⟨rs.map fun r => (T, r), ?_, hmore, fun hun => ?_⟩
  · rw [List.pairwise_append]
    refine ⟨hsorted, ?_, fun c hc d hd => ?_⟩
    · rw [List.pairwise_map]
      exact List.pairwise_of_forall fun _ _ => le_refl _
    · obtain ⟨r, -, rfl⟩ := List.mem_map.mp hd
      exact hpast c hc
  · -- all of them pass in the second run, so all would have to pass in the first
    have hsame := hun.rest hmore
    refine absurd (hall.mp fun v hv => ?_) (not_le.mpr hpoor)
    have hmem : v.accepted ∈ (runAll loginStep (runAll loginStep newLoginLimiters
        ((newLoginLimiters.unrefused attempts).map Prod.fst)).1
          (rs.map fun r => (T, r))).2.map LoginVerdict.accepted :=
      hsame ▸ List.mem_map_of_mem hv
    obtain ⟨v', hv', heq⟩ := List.mem_map.mp hmem
    rw [hall'.mpr hrich v' hv'] at heq
    cases v with
    | pass => rfl
    | overGlobal => exact absurd heq (by decide)
    | overIP => exact absurd heq (by decide)

/-- Attempts that nobody is refused in for its IP do not drain the bucket. -/
theorem undrained_stays {more : List (ℚ × HttpRequest)} (hd : ¬ Drained attempts)
    (hmore : WithinBudget attempts more) : ∀ m, m <+: more → ¬ Drained (attempts ++ m) := by
  unfold WithinBudget at hmore
  rw [loginAll_eq, loginAll_eq] at hmore
  intro m
  induction m using List.reverseRecOn with
  | nil =>
    intro _
    rwa [List.append_nil]
  | append_singleton m c ih =>
    intro hpre hdrained
    have hbefore := ih ((List.prefix_append m [c]).trans hpre)
    rw [← List.append_assoc, drained_snoc] at hdrained
    rcases hdrained with hover | hold
    · -- the verdict is one of those of `more`
      obtain ⟨rest, rfl⟩ := hpre
      refine hmore .overIP ?_ rfl
      rw [runAll_append] at hover
      rw [runAll_append, runAll_append, runAll_singleton]
      dsimp only at hover ⊢
      rw [hover]
      simp
    · exact hbefore hold.1

/-- A prefix of two parts ends in the first or in the second. -/
theorem prefix_append_cases {more : List (ℚ × HttpRequest)} {c : ℚ × HttpRequest}
    (h : before ++ [c] <+: attempts ++ more) :
    before ++ [c] <+: attempts ∨ ∃ m, before = attempts ++ m ∧ m <+: more := by
  rcases lt_or_ge before.length attempts.length with hlt | hge
  · left
    refine List.prefix_of_prefix_length_le h (List.prefix_append _ _) ?_
    rw [List.length_append, List.length_singleton]
    omega
  · right
    have hbefore := (List.prefix_append before [c]).trans h
    obtain ⟨m, rfl⟩ := List.prefix_of_prefix_length_le (List.prefix_append attempts more) hbefore hge
    exact ⟨m, rfl, (List.prefix_append_right_inj attempts).mp hbefore⟩

theorem NoneStarved.append {more : List (ℚ × HttpRequest)} (hfair : NoneStarved attempts)
    (hd : ¬ Drained attempts) (hmore : WithinBudget attempts more) :
    NoneStarved (attempts ++ more) := by
  intro before now r hpre hrefused
  rcases prefix_append_cases hpre with hfirst | ⟨m, rfl, hm⟩
  · exact hfair before now r hfirst hrefused
  · exact undrained_stays hd hmore m hm

/-! ## The result -/

/-- **Attempts refused for their IP consume nothing, as long as nobody is refused by a bucket
they have drained.** In every run of login attempts at non-decreasing times in which the
global limiter refuses nobody after an attempt was refused for its IP and before the global
bucket was full again: without the attempts refused for their IP, every other attempt is
decided as with them. And the condition is tight: after such a run, this stays so for
whatever attempts within their budget follow if and only if the bucket is not drained. -/
theorem login_unaffected_unless_drained (attempts : List (ℚ × HttpRequest))
    (hsorted : attempts.Pairwise fun c d => c.1 ≤ d.1) (hfair : NoneStarved attempts) :
    Unaffected attempts ∧
      ((∀ more, (attempts ++ more).Pairwise (fun c d => c.1 ≤ d.1) →
        WithinBudget attempts more → Unaffected (attempts ++ more)) ↔ ¬ Drained attempts) := by
  refine ⟨(lockstep_run hsorted hfair).1, ?_, ?_⟩
  · intro hall hd
    obtain ⟨more, hmore, hwithin, hno⟩ := drained_shows hsorted hfair hd
    exact hno (hall more hmore hwithin)
  · intro hd more hmore hwithin
    exact (lockstep_run hmore (hfair.append hd hwithin)).1

/-- A client and its attempts. -/
def attemptsOf (peer : String) (n : ℕ) : List (ℚ × HttpRequest) := List.replicate n (0, ⟨"", peer⟩)

/-- A client over its budget, and another one behind it. -/
def retypingAttempts : List (ℚ × HttpRequest) := attemptsOf "a:1" 12 ++ attemptsOf "b:1" 1

theorem login_unaffected_unless_drained_retyping :
    (newLoginLimiters.loginAll retypingAttempts).2 =
        List.replicate 10 .pass ++ [.overIP, .overIP, .pass] ∧
      Unaffected retypingAttempts := by
  have hsorted : retypingAttempts.Pairwise fun c d => c.1 ≤ d.1 := by decide +kernel
  have htimes : ∀ c ∈ retypingAttempts, c.1 = 0 := by decide +kernel
  have hopen : ∀ before ∈ retypingAttempts.inits,
      ((newLoginLimiters.loginAll before).1.loginGlobal.allow 0 "global").2 = true := by
    decide +kernel
  have hfair : NoneStarved retypingAttempts := by
    intro before now r hpre hrefused
    have hbefore := (List.prefix_append before [(now, r)]).trans hpre
    have hnow : now = 0 := htimes (now, r) (hpre.subset (by simp))
    rw [hnow, hopen before ((List.mem_inits _ _).mpr hbefore)] at hrefused
    cases hrefused
  exact ⟨by decide +kernel, (login_unaffected_unless_drained retypingAttempts hsorted hfair).1⟩

/-- A client that uses up the global bucket on its own, and another one behind it. -/
def floodingAttempts : List (ℚ × HttpRequest) := attemptsOf "a:1" 40 ++ attemptsOf "b:1" 1

/-- The client behind is refused, and would not be without the attempts that were refused
already. -/
theorem login_unaffected_flooded :
    ¬ ∀ attempts : List (ℚ × HttpRequest), (attempts.Pairwise fun c d => c.1 ≤ d.1) →
      Unaffected attempts := by
  intro hall
  have hflood := hall floodingAttempts (by decide +kernel)
  unfold Unaffected at hflood
  revert hflood
  decide +kernel

end ForgeQueue
