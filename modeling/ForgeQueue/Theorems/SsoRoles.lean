import ForgeQueue.Theorems.SsoPrivileges

/-!
# Where the roles of an SSO login come from

Roles are looked up in the allowlists by address. The address is the email claim, and where
that is blank, the preferred username or the subject: values the provider does not vouch for
as addresses. The lookup is by the email claim alone exactly as long as the fallback is on
neither list.
-/

namespace ForgeQueue

/-! ## Addresses -/

/-- The address used when the email claim is blank. -/
def fallbackAddress (info : UserInfo) : String :=
  if info.preferredUsername = "" then info.subject else info.preferredUsername

theorem loginEmail_of_blank {info : UserInfo} (h : trimSpace info.email = "") :
    loginEmail info = fallbackAddress info := by
  unfold loginEmail fallbackAddress
  simp only [h, if_true]

theorem loginEmail_of_email {info : UserInfo} (h : trimSpace info.email ≠ "") :
    loginEmail info = trimSpace info.email := by
  unfold loginEmail
  simp only [h, if_false]

section

variable [CaseTable]

/-- An address as the allowlists hold it: trimmed and lower-cased. -/
def normalized (address : String) : String := toLowerText (trimSpace address)

/-- A blank address is on no list. -/
theorem normalized_blank {address : String} (h : trimSpace address = "") (emails : List String) :
    normalized address ∉ emailSet emails := by
  have hempty : normalized address = "" := by
    rw [normalized, h]
    rfl
  rw [hempty, emailSet, List.mem_filter]
  simp

/-- `rolesFor` gives a privileged role to the listed addresses only. -/
theorem rolesFor_privileged {cfg : OIDCConfig} (hadmin : cfg.defaultRole ≠ roleAdmin)
    (hop : cfg.defaultRole ≠ roleOperator) {email : String} {roles : List Role}
    (h : cfg.rolesFor email = .ok roles) :
    (roleAdmin ∈ roles → normalized email ∈ emailSet cfg.adminEmails) ∧
      (roleOperator ∈ roles → normalized email ∈ emailSet cfg.operatorEmails) := by
  have hne : roleOperator ≠ roleAdmin := by decide
  unfold OIDCConfig.rolesFor at h
  dsimp only at h
  split at h
  · next hmem =>
    obtain rfl := Except.ok.inj h
    exact ⟨fun _ => hmem, fun hr => absurd (List.mem_singleton.mp hr) hne⟩
  · split at h
    · next hmem =>
      obtain rfl := Except.ok.inj h
      exact ⟨fun hr => absurd (List.mem_singleton.mp hr).symm hne, fun _ => hmem⟩
    · split at h
      · obtain rfl := Except.ok.inj h
        exact ⟨fun hr => absurd (List.mem_singleton.mp hr).symm hadmin,
          fun hr => absurd (List.mem_singleton.mp hr).symm hop⟩
      · cases h

theorem rolesFor_admin {cfg : OIDCConfig} {email : String}
    (h : normalized email ∈ emailSet cfg.adminEmails) : cfg.rolesFor email = .ok [roleAdmin] := by
  unfold OIDCConfig.rolesFor
  exact if_pos h

/-- A listed address gets a privileged role. -/
theorem rolesFor_listed {cfg : OIDCConfig} {email : String}
    (h : normalized email ∈ emailSet cfg.adminEmails ∨
      normalized email ∈ emailSet cfg.operatorEmails) :
    ∃ role, cfg.rolesFor email = .ok [role] ∧ (role = roleAdmin ∨ role = roleOperator) := by
  by_cases hadmin : normalized email ∈ emailSet cfg.adminEmails
  · exact ⟨roleAdmin, rolesFor_admin hadmin, .inl rfl⟩
  · refine ⟨roleOperator, ?_, .inr rfl⟩
    unfold OIDCConfig.rolesFor
    exact (if_neg hadmin).trans (if_pos (h.resolve_left hadmin))

variable [TokenLib]

/-- Whoever logs in with this document: a session with a privileged role has the document's
own email claim on the list of that role. -/
def RolesFromEmail (cfg : OIDCConfig) (info : UserInfo) : Prop :=
  ∀ (svc : Service) (env : Answers) (now : Int) (state code otc : String) (st : AuthState)
    (s : SSOSession), fetchUser env state code = .ok (st, info) →
    complete cfg svc env now state code = .ok (otc, s) →
    (roleAdmin ∈ s.identity.roles → normalized info.email ∈ emailSet cfg.adminEmails) ∧
      (roleOperator ∈ s.identity.roles → normalized info.email ∈ emailSet cfg.operatorEmails)

/-- A login with a listed address succeeds, with a privileged role. -/
theorem complete_listed {cfg : OIDCConfig} {info : UserInfo} (hsub : info.subject ≠ "")
    {role : Role} (hroles : cfg.rolesFor (loginEmail info) = .ok [role]) (svc : Service) :
    ∃ otc s, complete cfg svc (answersFor info) 0 "state" "code" = .ok (otc, s) ∧
      s.identity.roles = [role] := by
  unfold complete
  rw [fetchUser_answersFor hsub]
  dsimp only
  rw [hroles]
  exact ⟨_, _, rfl, rfl⟩

/-- **Privileged roles come from the email claim alone, exactly when no blank claim falls
back to a listed address.** For every configuration whose default role is neither admin nor
operator and every userinfo document: the roles of every login with it come from its email
claim if and only if that claim is not blank, or the address used instead is on neither
list, or there is no subject and every login fails. -/
theorem sso_roles_from_email_iff (cfg : OIDCConfig) (hadmin : cfg.defaultRole ≠ roleAdmin)
    (hop : cfg.defaultRole ≠ roleOperator) (info : UserInfo) :
    RolesFromEmail cfg info ↔
      trimSpace info.email ≠ "" ∨
      (normalized (fallbackAddress info) ∉ emailSet cfg.adminEmails ∧
        normalized (fallbackAddress info) ∉ emailSet cfg.operatorEmails) ∨
      info.subject = "" := by
  constructor
  · intro hemail
    by_contra hno
    rw [not_or, not_or, not_not, not_and_or, not_not, not_not] at hno
    obtain ⟨hblank, hlisted, hsub⟩ := hno
    rw [← loginEmail_of_blank hblank] at hlisted
    obtain ⟨role, hroles, hrole⟩ := rolesFor_listed hlisted
    let svc : Service := ⟨fun _ => none, ⟨[], 0⟩⟩
    obtain ⟨otc, s, hcomplete, hsession⟩ := complete_listed hsub hroles svc
    obtain ⟨hadm, hopr⟩ :=
      hemail svc _ 0 _ _ otc _ s (fetchUser_answersFor hsub "state" "code") hcomplete
    rw [hsession] at hadm hopr
    rcases hrole with rfl | rfl
    · exact normalized_blank hblank _ (hadm List.mem_cons_self)
    · exact normalized_blank hblank _ (hopr List.mem_cons_self)
  · intro hcond svc env now state code otc st s hfetch hcomplete
    obtain ⟨roles, hroles, hid, -⟩ := complete_ok hfetch hcomplete
    have hpriv := rolesFor_privileged hadmin hop hroles
    have hsame : s.identity.roles = roles := by
      rw [hid]
      rfl
    rw [hsame]
    rcases hcond with hemail | ⟨hno, hno'⟩ | hsub
    · rwa [loginEmail_of_email hemail, normalized, trimSpace_trimSpace] at hpriv
    · by_cases hblank : trimSpace info.email = ""
      · rw [loginEmail_of_blank hblank] at hpriv
        exact ⟨fun hr => absurd (hpriv.1 hr) hno, fun hr => absurd (hpriv.2 hr) hno'⟩
      · rwa [loginEmail_of_email hblank, normalized, trimSpace_trimSpace] at hpriv
    · exact absurd hsub (fetchUser_subject hfetch)

end

/-- One administrator, everybody else a viewer. -/
def adminConfig : OIDCConfig := ⟨roleViewer, ["Admin@example.com"], []⟩

theorem sso_roles_from_email_iff_email :
    RolesFromEmail adminConfig ⟨"42", " admin@Example.com", "Ann", "ann"⟩ :=
  (sso_roles_from_email_iff adminConfig (by decide) (by decide) _).mpr (.inl (by decide +kernel))

/-- A document without an email claim. -/
def impostor : UserInfo := ⟨"42", "", "Mallory", "admin@example.com"⟩

/-- Without an email claim, whoever may choose the preferred username is an
administrator. -/
theorem sso_roles_from_username :
    ¬ ∀ (cfg : OIDCConfig) (info : UserInfo), cfg.defaultRole ≠ roleAdmin →
      cfg.defaultRole ≠ roleOperator → RolesFromEmail cfg info := by
  intro hall
  have hemail := hall adminConfig impostor (by decide) (by decide)
  have hsub : impostor.subject ≠ "" := by decide
  have hlisted : normalized (loginEmail impostor) ∈ emailSet adminConfig.adminEmails := by
    decide +kernel
  have hroles := rolesFor_admin hlisted
  obtain ⟨otc, s, hcomplete, hsession⟩ := complete_listed hsub hroles rootService
  have hadmin := (hemail rootService _ 0 _ _ otc _ s (fetchUser_answersFor hsub "state" "code")
    hcomplete).1
  rw [hsession] at hadmin
  have hblank : trimSpace impostor.email = "" := by decide +kernel
  exact normalized_blank hblank _ (hadmin List.mem_cons_self)

end ForgeQueue
