import ForgeQueue.Model.SsoConfig
import ForgeQueue.Theorems.AccessControl
import ForgeQueue.Theorems.OpenRedirect
import ForgeQueue.Theorems.SsoRoles

/-!
# Roles from the environment

From the texts of the environment to a request with the token of a login: which address
gets which role, whom the start refuses, and what the API makes of the session.
-/

namespace ForgeQueue

open Base

section

variable [CaseTable]

/-- The address is an entry of the comma-separated text, up to blanks and case. -/
def Listed (raw address : String) : Prop :=
  ∃ part ∈ splitOn ',' raw.toList, trimSpace (.ofList part) ≠ "" ∧
    normalized (.ofList part) = normalized address

instance (raw address : String) : Decidable (Listed raw address) :=
  inferInstanceAs (Decidable (∃ part ∈ splitOn ',' raw.toList, _ ∧ _))

theorem toLowerText_eq_empty {s : String} : toLowerText s = "" ↔ s = "" := by
  unfold toLowerText
  rw [← String.toList_inj, ← String.toList_inj, String.toList_ofList]
  simp

/-- What `emailSet` makes of a list is what the text lists. -/
theorem mem_emailSet_splitList {raw address : String} :
    normalized address ∈ emailSet (splitList raw) ↔ Listed raw address := by
  unfold emailSet splitList
  constructor
  · intro h
    obtain ⟨hmem, -⟩ := List.mem_filter.mp h
    obtain ⟨entry, hentry, heq⟩ := List.mem_map.mp hmem
    obtain ⟨hpart, hne⟩ := List.mem_filter.mp hentry
    obtain ⟨part, hsplit, rfl⟩ := List.mem_map.mp hpart
    refine ⟨part, hsplit, of_decide_eq_true hne, ?_⟩
    rwa [trimSpace_trimSpace] at heq
  · rintro ⟨part, hsplit, hne, heq⟩
    refine List.mem_filter.mpr ⟨List.mem_map.mpr ⟨trimSpace (.ofList part), ?_, ?_⟩, ?_⟩
    · exact List.mem_filter.mpr ⟨List.mem_map.mpr ⟨part, hsplit, rfl⟩, decide_eq_true hne⟩
    · rw [trimSpace_trimSpace]
      exact heq
    · rw [← heq, decide_eq_true_eq]
      exact mt toLowerText_eq_empty.mp hne

/-- The role the environment gives to an address: by the list of administrators, else by the
list of operators, else the default, which is a viewer's when none is set. -/
inductive Grants (env : SsoEnvironment) (address : String) : Role → Prop
  | admin : Listed env.adminEmails address → Grants env address roleAdmin
  | operator : ¬ Listed env.adminEmails address → Listed env.operatorEmails address →
      Grants env address roleOperator
  | viewer : ¬ Listed env.adminEmails address → ¬ Listed env.operatorEmails address →
      trimSpace env.defaultRole = "" → Grants env address roleViewer
  | configured : ¬ Listed env.adminEmails address → ¬ Listed env.operatorEmails address →
      trimSpace env.defaultRole ≠ "" →
      equalFold (trimSpace env.defaultRole).toList "none".toList = false →
      Grants env address (trimSpace env.defaultRole)

variable [UrlLib]

/-- What a start reads of the roles. -/
theorem newOIDCFromEnv_config {env : SsoEnvironment} {start : SsoStart}
    (h : newOIDCFromEnv env = .ok (some start)) :
    ∃ role, resolveDefaultRole env = .ok role ∧
      start.config = ⟨role, splitList env.adminEmails, splitList env.operatorEmails⟩ := by
  unfold newOIDCFromEnv at h
  split at h
  · cases h
  · split at h
    · cases h
    · next role hrole =>
      dsimp only at h
      split at h
      · cases h
      · split at h
        · cases h
        · obtain rfl := Option.some.inj (Except.ok.inj h)
          exact ⟨role, hrole, rfl⟩

omit [CaseTable] [UrlLib] in
/-- The default is a role of the server or denies. -/
theorem resolveDefaultRole_ok {env : SsoEnvironment} {role : Role}
    (h : resolveDefaultRole env = .ok role) :
    (trimSpace env.defaultRole = "" ∧ role = roleViewer) ∨
      trimSpace env.defaultRole ≠ "" ∧
        (equalFold (trimSpace env.defaultRole).toList "none".toList = true ∧ role = "" ∨
          equalFold (trimSpace env.defaultRole).toList "none".toList = false ∧
            role = trimSpace env.defaultRole ∧ validRole role = true) := by
  unfold resolveDefaultRole at h
  dsimp only at h
  split at h
  · next hset =>
    refine .inr ⟨hset, ?_⟩
    split at h
    · next hnone => exact .inl ⟨hnone, (Except.ok.inj h).symm⟩
    · next hnone =>
      split at h
      · next hvalid =>
        obtain rfl := Except.ok.inj h
        exact .inr ⟨Bool.eq_false_of_not_eq_true hnone, rfl, hvalid⟩
      · cases h
  · next hset => exact .inl ⟨not_not.mp hset, (Except.ok.inj h).symm⟩

/-- `rolesFor` by the texts of the environment. -/
theorem rolesFor_start {env : SsoEnvironment} {start : SsoStart}
    (h : newOIDCFromEnv env = .ok (some start)) (address : String) (roles : List Role) :
    start.config.rolesFor address = .ok roles ↔
      ∃ role, roles = [role] ∧ Grants env address role := by
  obtain ⟨default, hdefault, hconfig⟩ := newOIDCFromEnv_config h
  have hmem : ∀ raw, toLowerText (trimSpace address) ∈ emailSet (splitList raw) ↔
      Listed raw address := fun _ => mem_emailSet_splitList
  rw [hconfig]
  unfold OIDCConfig.rolesFor
  dsimp only
  rw [if_congr (hmem _) rfl rfl, if_congr (hmem env.operatorEmails) rfl rfl]
  constructor
  · intro hok
    split at hok
    · next hadmin => exact ⟨_, (Except.ok.inj hok).symm, .admin hadmin⟩
    · next hadmin =>
      split at hok
      · next hop => exact ⟨_, (Except.ok.inj hok).symm, .operator hadmin hop⟩
      · next hop =>
        split at hok
        · next hne =>
          refine ⟨_, (Except.ok.inj hok).symm, ?_⟩
          rcases resolveDefaultRole_ok hdefault with
            ⟨hempty, rfl⟩ | ⟨hset, ⟨-, rfl⟩ | ⟨hnone, rfl, -⟩⟩
          · exact .viewer hadmin hop hempty
          · exact absurd rfl hne
          · exact .configured hadmin hop hset hnone
        · cases hok
  · rintro ⟨role, rfl, hgrants⟩
    cases hgrants with
    | admin hadmin => rw [if_pos hadmin]
    | operator hadmin hop => rw [if_neg hadmin, if_pos hop]
    | viewer hadmin hop hempty =>
      rcases resolveDefaultRole_ok hdefault with ⟨-, rfl⟩ | ⟨hset, -⟩
      · rw [if_neg hadmin, if_neg hop, if_pos (by decide)]
      · exact absurd hempty hset
    | configured hadmin hop hset hnone =>
      rcases resolveDefaultRole_ok hdefault with
        ⟨hempty, -⟩ | ⟨-, ⟨hnone', -⟩ | ⟨-, rfl, -⟩⟩
      · exact absurd hempty hset
      · exact absurd (hnone'.symm.trans hnone) nofun
      · rw [if_neg hadmin, if_neg hop, if_pos hset]

omit [UrlLib] in
/-- Who gets no role is told so. -/
theorem rolesFor_denied {cfg : OIDCConfig} {address : String}
    (h : ∀ roles, cfg.rolesFor address ≠ .ok roles) :
    cfg.rolesFor address = .error (.notAuthorized address) := by
  unfold OIDCConfig.rolesFor at h ⊢
  dsimp only at h ⊢
  split at h
  · exact absurd rfl (h _)
  · split at h
    · exact absurd rfl (h _)
    · split at h
      · exact absurd rfl (h _)
      · next hadmin hop hdefault => rw [if_neg hadmin, if_neg hop, if_neg hdefault]

/-- A start that succeeds gives known roles only. -/
theorem Grants.valid {env : SsoEnvironment} {start : SsoStart}
    (h : newOIDCFromEnv env = .ok (some start)) {address : String} {role : Role}
    (hgrants : Grants env address role) : validRole role = true := by
  obtain ⟨default, hdefault, -⟩ := newOIDCFromEnv_config h
  cases hgrants with
  | admin => decide
  | operator => decide
  | viewer => decide
  | configured _ _ hset hnone =>
    rcases resolveDefaultRole_ok hdefault with
      ⟨hempty, -⟩ | ⟨-, ⟨hnone', -⟩ | ⟨-, rfl, hvalid⟩⟩
    · exact absurd hempty hset
    · exact absurd (hnone'.symm.trans hnone) nofun
    · exact hvalid

/-- The session of a login with one role. -/
def roleSession [TokenLib] (svc : Service) (now : Int) (st : AuthState) (info : UserInfo)
    (role : Role) : SSOSession :=
  let identity := identityFor (loginName info) [role]
  let issued := svc.issueToken now identity
  ⟨issued.1, issued.2, identity, st.webReturn⟩

/-- **Who is given a role is let in**, unless there is no one-time code to be had or the
session cannot be saved under it. -/
theorem complete_granted [TokenLib] {env : SsoEnvironment} {start : SsoStart}
    (h : newOIDCFromEnv env = .ok (some start)) {svc : Service} {ans : Answers} {now : Int}
    {state code : String} {st : AuthState} {info : UserInfo}
    (hfetch : fetchUser ans state code = .ok (st, info)) {role : Role}
    (hgrants : Grants env (loginEmail info) role) {otc : String} (hrandom : ans.random = some otc)
    (hsave : (ans.save ("oidc:code:" ++ otc) (roleSession svc now st info role)).isSome) :
    complete start.config svc ans now state code = .ok (otc, roleSession svc now st info role) := by
  have hroles := (rolesFor_start h (loginEmail info) [role]).mpr ⟨role, rfl, hgrants⟩
  obtain ⟨done, hdone⟩ := Option.isSome_iff_exists.mp hsave
  unfold roleSession at hdone ⊢
  unfold complete
  rw [hfetch]
  dsimp only at hdone ⊢
  rw [hroles]
  dsimp only
  rw [hrandom]
  dsimp only
  rw [hdone]

/-- Whom the texts give no role is told so. -/
theorem complete_denied [TokenLib] {env : SsoEnvironment} {start : SsoStart}
    (h : newOIDCFromEnv env = .ok (some start)) {svc : Service} {ans : Answers} {now : Int}
    {state code : String} {st : AuthState} {info : UserInfo}
    (hfetch : fetchUser ans state code = .ok (st, info))
    (hnone : ∀ role, ¬ Grants env (loginEmail info) role) :
    complete start.config svc ans now state code = .error (.notAuthorized (loginEmail info)) := by
  have hdenied : ∀ roles, start.config.rolesFor (loginEmail info) ≠ .ok roles := by
    intro roles hroles
    obtain ⟨role, -, hgrants⟩ := (rolesFor_start h _ _).mp hroles
    exact hnone role hgrants
  unfold complete
  rw [hfetch]
  dsimp only
  rw [rolesFor_denied hdenied]

variable [LawfulTokenLib]

/-- **Single sign-on is what the environment says.** A provider that was started from the
environment lets a user in exactly with the role its texts give to the address of the user:
whoever gets in has that role, whoever is given one gets in with it once a one-time code is
drawn and the session saved, and whom they give none is denied. The role is one the server
knows. The API takes the token of the login, until it expires, for the user with that role,
unless there is a local account of that name, which is then who it is taken for. -/
theorem sso_roles_exact {env : SsoEnvironment} {start : SsoStart}
    (h : newOIDCFromEnv env = .ok (some start)) {svc : Service} {ans : Answers} {now now' : Int}
    {state code : String} {st : AuthState} {info : UserInfo}
    (hfetch : fetchUser ans state code = .ok (st, info)) :
    (∀ otc s, complete start.config svc ans now state code = .ok (otc, s) →
      ∃ role, Grants env (loginEmail info) role ∧ validRole role = true ∧
        s.identity = identityFor (loginName info) [role] ∧
        (unix now' < unix s.expiresAt →
          authenticate svc now' (.ofList ("Bearer ".toList ++ s.token)) =
            some (match svc.users (loginName info) with
              | some u => identityFor u.username u.roles
              | none => s.identity))) ∧
    (∀ role otc, Grants env (loginEmail info) role → ans.random = some otc →
      (ans.save ("oidc:code:" ++ otc) (roleSession svc now st info role)).isSome →
      complete start.config svc ans now state code =
        .ok (otc, roleSession svc now st info role)) ∧
    ((∀ role, ¬ Grants env (loginEmail info) role) →
      complete start.config svc ans now state code = .error (.notAuthorized (loginEmail info))) := by
  refine ⟨?_, ?_, complete_denied h hfetch⟩
  · intro otc s hcomplete
    obtain ⟨roles, hroles, hid, hissue⟩ := complete_ok hfetch hcomplete
    obtain ⟨role, rfl, hgrants⟩ := (rolesFor_start h _ _).mp hroles
    have hvalid := hgrants.valid h
    refine ⟨role, hgrants, hvalid, hid, fun hlive => ?_⟩
    have hverify := (verifyToken_session hfetch hcomplete hlive hroles).2
    have htoken : s.token = (svc.tokens.issue now (loginName info) [role]).1 :=
      congrArg Prod.fst hissue
    have hheader : bearerHeader (.ofList ("Bearer ".toList ++ s.token)) = some s.token := by
      rw [htoken]
      exact bearerHeader_issue _ _ _ _
    refine authenticate_eq_some hheader (hverify.trans ?_)
    have hknown : [role].filter validRole = [role] := List.filter_cons_of_pos hvalid
    cases svc.users (loginName info) with
    | some u => rfl
    | none =>
      dsimp only
      rw [hknown, if_neg (List.cons_ne_nil _ _), hid]
  · intro role otc hgrants hrandom hsave
    exact complete_granted h hfetch hgrants hrandom hsave

end

/-- Two administrators, and nobody else gets in. -/
def annEnvironment : SsoEnvironment where
  issuer := "https://id.example.org"
  clientID := "client"
  redirectURL := "https://console.example.org/callback"
  webURL := ""
  scopes := ""
  adminEmails := "bob@example.org, Ann@Example.org"
  operatorEmails := ""
  defaultRole := "None"
  allowedOrigins := ""

/-- An administrator by the list, whatever the case of its entry. -/
theorem sso_roles_exact_ann :
    letI := acceptAll
    ∃ start otc s, newOIDCFromEnv annEnvironment = .ok (some start) ∧
      complete start.config rootService (answersFor stranger) 0 "state" "code" = .ok (otc, s) ∧
      authenticate rootService 0 (.ofList ("Bearer ".toList ++ s.token)) =
        some (identityFor "Ann" [roleAdmin]) := by
  let _ := acceptAll
  obtain ⟨start, h⟩ : ∃ start, newOIDCFromEnv annEnvironment = .ok (some start) := ⟨_, rfl⟩
  have hsub : stranger.subject ≠ "" := by decide
  have hgrants : Grants annEnvironment (loginEmail stranger) roleAdmin :=
    .admin (by decide +kernel)
  have hfetch := fetchUser_answersFor hsub "state" "code"
  obtain ⟨hin, hgiven, -⟩ := @sso_roles_exact _ _ _ _ _ h rootService _ 0 0 _ _ _ _ hfetch
  have hcomplete := hgiven roleAdmin _ hgrants rfl rfl
  obtain ⟨role, -, -, -, hauth⟩ := hin _ _ hcomplete
  have hlive : unix 0 < unix (0 + defaultTTL) := by decide +kernel
  exact ⟨start, _, _, h, hcomplete, hauth hlive⟩

end ForgeQueue
