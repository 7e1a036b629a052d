import ForgeQueue.Model.ClaimsJson
import ForgeQueue.Model.Oidc

/-!
# What an SSO token is worth

`Complete` decides the roles of a session from the address and embeds them in the
token, under the provider's display name as subject. `VerifyToken` gives a subject that
is the name of a local account the roles of that account instead. So the token is worth
the session exactly when the display name does not run into an account with other
roles, and the embedded role is one the server knows.
-/

namespace ForgeQueue

open Base

section

variable [CaseTable] [LawfulTokenLib]

/-- The condition on account table, configuration and userinfo: the account with the
login name, if there is one, has exactly the roles of the login; if there is none, the
roles of the login are known to the server. -/
def LoginKeepsRoles (cfg : OIDCConfig) (users : String → Option User) (info : UserInfo) : Prop :=
  ∀ roles, cfg.rolesFor (loginEmail info) = .ok roles →
    match users (loginName info) with
    | some u => u.roles = roles
    | none => ∀ r ∈ roles, validRole r = true

omit [LawfulTokenLib] in
/-- A login gets exactly one role. -/
theorem rolesFor_single {cfg : OIDCConfig} {email : String} {roles : List Role}
    (h : cfg.rolesFor email = .ok roles) : ∃ r, roles = [r] := by
  unfold OIDCConfig.rolesFor at h
  dsimp only at h
  split at h
  · exact ⟨_, (Except.ok.inj h).symm⟩
  · split at h
    · exact ⟨_, (Except.ok.inj h).symm⟩
    · split at h
      · exact ⟨_, (Except.ok.inj h).symm⟩
      · cases h

/-- What `VerifyToken` makes of a session's token before it expires. -/
theorem verifyToken_session {cfg : OIDCConfig} {svc : Service} {env : Answers} {now now' : Int}
    {state code otc : String} {st : AuthState} {info : UserInfo} {s : SSOSession}
    (hf : fetchUser env state code = .ok (st, info))
    (hc : complete cfg svc env now state code = .ok (otc, s))
    (hexp : unix now' < unix s.expiresAt) {roles : List Role}
    (hroles : cfg.rolesFor (loginEmail info) = .ok roles) :
    s.identity = identityFor (loginName info) roles ∧
      svc.verifyToken now' s.token =
        match svc.users (loginName info) with
        | some u => .ok (identityFor u.username u.roles)
        | none =>
          if roles.filter validRole = [] then .error .invalid
          else .ok (identityFor (loginName info) (roles.filter validRole)) := by
  obtain ⟨roles', hroles', hid, hissue⟩ := complete_ok hf hc
  obtain rfl : roles' = roles := Except.ok.inj (hroles'.symm.trans hroles)
  have htok : s.token = (svc.tokens.issue now (loginName info) roles').1 :=
    congrArg Prod.fst hissue
  have hexpires : s.expiresAt = now + svc.tokens.ttl := congrArg Prod.snd hissue
  have hname : loginName info ≠ "" := loginName_ne_empty (fetchUser_subject hf)
  have hlive : ¬ unix (now + svc.tokens.ttl) ≤ unix now' := by
    rw [hexpires] at hexp
    exact Int64.not_le.mpr hexp
  have hverify : svc.tokens.verify now' s.token =
      .ok ⟨loginName info, roles', unix now, unix (now + svc.tokens.ttl)⟩ := by
    rw [htok, TokenManager.verify_issue, if_neg hname, if_neg hlive]
  exact ⟨hid, Service.verifyToken_of_ok hverify⟩

/-- **SSO tokens carry the privileges decided at login, exactly when the login name
keeps the roles.** -/
theorem sso_token_keeps_privileges_iff {users : List User} {secret : Bytes} {ttl : Int}
    {cfg : OIDCConfig} {svc : Service} {env : Answers} {now now' : Int}
    {state code otc : String} {st : AuthState} {info : UserInfo} {s : SSOSession}
    (hsvc : newService users secret ttl = .ok svc)
    (hf : fetchUser env state code = .ok (st, info))
    (hc : complete cfg svc env now state code = .ok (otc, s))
    (hexp : unix now' < unix s.expiresAt) :
    svc.verifyToken now' s.token = .ok s.identity ↔ LoginKeepsRoles cfg svc.users info := by
  obtain ⟨roles, hroles, -, -⟩ := complete_ok hf hc
  obtain ⟨r, rfl⟩ := rolesFor_single hroles
  obtain ⟨hid, hver⟩ := verifyToken_session hf hc hexp hroles
  have hcond : LoginKeepsRoles cfg svc.users info ↔
      match svc.users (loginName info) with
      | some u => u.roles = [r]
      | none => ∀ x ∈ [r], validRole x = true := by
    refine ⟨fun h => h [r] hroles, ?_⟩
    intro h roles' hroles'
    obtain rfl : roles' = [r] := Except.ok.inj (hroles'.symm.trans hroles)
    exact h
  rw [hcond, hver, hid]
  cases hu : svc.users (loginName info) with
  | some u =>
    have hkey : u.username = loginName info := (newService_filed hsvc _ _ hu).key
    dsimp only
    rw [hkey]
    constructor
    · intro h
      exact congrArg Identity.roles (Except.ok.inj h)
    · intro h
      rw [h]
  | none =>
    dsimp only
    by_cases hv : validRole r = true
    · simp [hv]
    · simp [hv]

end

/-! ## Two logins -/

/-- Lower-casing of ASCII letters. -/
instance : CaseTable := ⟨Char.toLower⟩

/-- A provider that authenticates everybody as `info`. -/
def answersFor (info : UserInfo) : Answers where
  load _ := some (some [])
  authState _ := some ⟨"verifier", "/"⟩
  cached := some ⟨"issuer", "authorize", "token", "userinfo"⟩
  wellKnown := none
  tokenEndpoint _ _ _ := some ⟨200, some "access"⟩
  userinfoEndpoint _ _ := some ⟨200, some info⟩
  random := some "otc"
  save _ _ := some ()

theorem fetchUser_answersFor {info : UserInfo} (h : info.subject ≠ "") (state code : String) :
    fetchUser (answersFor info) state code = .ok (⟨"verifier", "/"⟩, info) := by
  simp [fetchUser, discover, exchange, okBody, answersFor, h]

/-- Everybody is a viewer. -/
def viewerConfig : OIDCConfig := ⟨roleViewer, [], []⟩

/-- One local account: an administrator. -/
def rootUser : User := ⟨"root", "hash", [roleAdmin]⟩

/-- The service with that account, twelve hours per token. -/
def rootService : Service := ⟨put nothing "root" rootUser, ⟨[1], defaultTTL⟩⟩

theorem rootService_new : newService [rootUser] [1] 0 = .ok rootService := by
  rfl

/-- The session of a viewer login. -/
def viewerSession (info : UserInfo) : SSOSession :=
  let issued := rootService.tokens.issue 0 (loginName info) [roleViewer]
  ⟨issued.1, issued.2, identityFor (loginName info) [roleViewer], "/"⟩

theorem complete_viewer {info : UserInfo} (h : info.subject ≠ "") :
    complete viewerConfig rootService (answersFor info) 0 "state" "code" =
      .ok ("otc", viewerSession info) := by
  unfold complete
  rw [fetchUser_answersFor h]
  rfl

/-- A provider account whose display name is the name of the local administrator. -/
def namesake : UserInfo := ⟨"42", "mallory@example.org", "root", ""⟩

/-- **The display name changes the roles.** The login is decided as a viewer, and its
token verifies as the administrator. -/
theorem sso_display_name_takes_over_account :
    newService [rootUser] [1] 0 = .ok rootService ∧
      complete viewerConfig rootService (answersFor namesake) 0 "state" "code" =
        .ok ("otc", viewerSession namesake) ∧
      unix 0 < unix (viewerSession namesake).expiresAt ∧
      (viewerSession namesake).identity.roles = [roleViewer] ∧
      rootService.verifyToken 0 (viewerSession namesake).token =
        .ok (identityFor "root" [roleAdmin]) ∧
      rootService.verifyToken 0 (viewerSession namesake).token ≠
        .ok (viewerSession namesake).identity := by
  have hsub : namesake.subject ≠ "" := by decide
  have hexp : unix 0 < unix (viewerSession namesake).expiresAt := by decide +kernel
  have hroles : viewerConfig.rolesFor (loginEmail namesake) = .ok [roleViewer] := rfl
  have hver := (verifyToken_session (fetchUser_answersFor hsub _ _) (complete_viewer hsub) hexp
    hroles).2
  refine ⟨rootService_new, complete_viewer hsub, hexp, rfl, hver, ?_⟩
  rw [hver]
  intro h
  have heq : [roleAdmin] = [roleViewer] := congrArg Identity.roles (Except.ok.inj h)
  exact absurd heq (by decide)

/-- A provider account without a namesake. -/
def stranger : UserInfo := ⟨"43", "ann@example.org", "Ann", ""⟩

/-- Without a namesake the token is worth the session. -/
theorem sso_token_keeps_privileges_stranger :
    rootService.verifyToken 0 (viewerSession stranger).token =
      .ok (viewerSession stranger).identity := by
  have hsub : stranger.subject ≠ "" := by decide
  refine (sso_token_keeps_privileges_iff rootService_new (fetchUser_answersFor hsub _ _)
    (complete_viewer hsub) (by decide +kernel)).mpr ?_
  intro roles hroles
  obtain rfl : [roleViewer] = roles := Except.ok.inj hroles
  exact fun r hr => by
    obtain rfl := List.mem_singleton.mp hr
    decide

end ForgeQueue
