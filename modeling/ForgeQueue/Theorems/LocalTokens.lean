import ForgeQueue.Model.ClaimsJson
import ForgeQueue.Model.Password

/-!
# Tokens of local accounts

`VerifyToken` looks the subject of a token up in the account table of the service that
verifies it. An account that is there gets the roles it has there, whatever the token
says. A subject that is not there is taken for a single sign-on subject and keeps the
roles of the token, and so does an account that was removed since the token was issued.
-/

namespace ForgeQueue

open Base

section

variable [LawfulTokenLib]

/-- What the token of the local account `username` is to be answered with by a service:
the roles and permissions the account has there, or an error if it is not there. -/
def FollowsAccount (s : Service) (username : String) (answer : Except TokenError Identity) :
    Prop :=
  match s.users username with
  | some u => answer = .ok ⟨username, u.roles, permissionsForRoles u.roles⟩
  | none => ∃ e, answer = .error e

/-- A token that one service issued for an account, verified by another service with the
same secret before it expires. -/
theorem verifyToken_across {users₁ users₂ : List User} {secret : Bytes} {ttl₁ ttl₂ : Int}
    {s₁ s₂ : Service} {username : String} {u : User} {now now' : Int}
    (h₁ : newService users₁ secret ttl₁ = .ok s₁) (h₂ : newService users₂ secret ttl₂ = .ok s₂)
    (hu : s₁.users username = some u)
    (hexp : unix now' < unix (s₁.issueToken now (identityFor u.username u.roles)).2) :
    s₂.verifyToken now' (s₁.issueToken now (identityFor u.username u.roles)).1 =
      match s₂.users username with
      | some v => .ok (identityFor v.username v.roles)
      | none => if u.roles = [] then .error .invalid else .ok (identityFor username u.roles) := by
  obtain ⟨rfl, hname, hvalid⟩ := newService_filed h₁ username u hu
  have hsecret : s₂.tokens.secret = s₁.tokens.secret :=
    (newService_secret h₂).trans (newService_secret h₁).symm
  have hlive : ¬ unix (now + s₁.tokens.ttl) ≤ unix now' := Int64.not_le.mpr hexp
  have hverify : s₂.tokens.verify now'
      (s₁.issueToken now (identityFor u.username u.roles)).1 =
        .ok ⟨u.username, u.roles, unix now, unix (now + s₁.tokens.ttl)⟩ := by
    rw [TokenManager.verify_congr hsecret, Service.issueToken, TokenManager.verify_issue]
    show (if u.username = "" then _ else _) = _
    rw [if_neg hname, if_neg hlive]
    rfl
  have hroles : u.roles.filter validRole = u.roles := List.filter_eq_self.mpr hvalid
  rw [Service.verifyToken_of_ok hverify]
  cases s₂.users u.username with
  | some v => rfl
  | none =>
    dsimp only
    rw [hroles]

variable [PasswordLib]

/-- **Local tokens follow the account table, exactly when the account is still there or
had no roles.** -/
theorem local_token_follows_accounts_iff {users₁ users₂ : List User} {secret : Bytes}
    {ttl₁ ttl₂ : Int} {s₁ s₂ : Service} {username password : String} {id : Identity}
    {now now' : Int} (h₁ : newService users₁ secret ttl₁ = .ok s₁)
    (h₂ : newService users₂ secret ttl₂ = .ok s₂)
    (hauth : s₁.authenticate username password = .ok id)
    (hexp : unix now' < unix (s₁.issueToken now id).2) :
    FollowsAccount s₂ username (s₂.verifyToken now' (s₁.issueToken now id).1) ↔
      (s₂.users username).isSome ∨ ∀ u, s₁.users username = some u → u.roles = [] := by
  obtain ⟨u, hu, rfl⟩ := Service.authenticate_ok hauth
  rw [verifyToken_across h₁ h₂ hu hexp, FollowsAccount]
  cases hv : s₂.users username with
  | some v =>
    obtain rfl := (newService_filed h₂ username v hv).key
    simp [identityFor]
  | none =>
    by_cases hroles : u.roles = []
    · simp [hroles, hu]
    · simp [hroles, hu]

end

/-! ## One account, two tables -/

/-- The key derivation at one point: the password, salt and parameters of `alice`. -/
instance : PasswordLib where
  pbkdf2Key password salt iterations length :=
    if password = "hunter2" ∧ salt = [115, 97, 108, 116] ∧ iterations = 2 ∧ length = 6 then
      some [104, 84, 222, 135, 179, 165]
    else none

/-- A local account with the given roles. -/
def alice (roles : List Role) : User := ⟨"alice", "pbkdf2$sha256$2$c2FsdA$aFTeh7Ol", roles⟩

/-- The service with that account only. -/
def aliceService (roles : List Role) : Service :=
  ⟨put nothing "alice" (alice roles), ⟨[1], defaultTTL⟩⟩

/-- The service without any account. -/
def emptyService : Service := ⟨nothing, ⟨[1], defaultTTL⟩⟩

theorem aliceService_new : newService [alice [roleAdmin]] [1] 0 = .ok (aliceService [roleAdmin]) := by
  rfl

theorem alice_authenticates :
    (aliceService [roleAdmin]).authenticate "alice" "hunter2" =
      .ok (identityFor "alice" [roleAdmin]) := by
  decide +kernel

/-- The token outlives its first second. -/
theorem alice_token_live :
    unix 0 < unix ((aliceService [roleAdmin]).issueToken 0
      (identityFor "alice" [roleAdmin])).2 := by
  decide +kernel

/-- An administrator who was made a viewer is one at once. -/
theorem local_token_follows_accounts_iff_demoted :
    (aliceService [roleViewer]).verifyToken 0
        ((aliceService [roleAdmin]).issueToken 0 (identityFor "alice" [roleAdmin])).1 =
      .ok (identityFor "alice" [roleViewer]) := by
  have hnew : newService [alice [roleViewer]] [1] 0 = .ok (aliceService [roleViewer]) := rfl
  exact (local_token_follows_accounts_iff aliceService_new hnew alice_authenticates
    alice_token_live).mpr (.inl rfl)

/-- **A removed account keeps its roles.** The account is gone, and the token still
verifies as an administrator's. -/
theorem removed_account_keeps_roles :
    newService [alice [roleAdmin]] [1] 0 = .ok (aliceService [roleAdmin]) ∧
      newService [] [1] 0 = .ok emptyService ∧
      (aliceService [roleAdmin]).authenticate "alice" "hunter2" =
        .ok (identityFor "alice" [roleAdmin]) ∧
      unix 0 < unix ((aliceService [roleAdmin]).issueToken 0
        (identityFor "alice" [roleAdmin])).2 ∧
      emptyService.verifyToken 0
        ((aliceService [roleAdmin]).issueToken 0 (identityFor "alice" [roleAdmin])).1 =
          .ok (identityFor "alice" [roleAdmin]) ∧
      ¬ FollowsAccount emptyService "alice" (emptyService.verifyToken 0
        ((aliceService [roleAdmin]).issueToken 0 (identityFor "alice" [roleAdmin])).1) := by
  have hnew : newService [] [1] 0 = .ok emptyService := rfl
  have hfiled : (aliceService [roleAdmin]).users "alice" = some (alice [roleAdmin]) := rfl
  have hver := verifyToken_across aliceService_new hnew hfiled alice_token_live
  refine ⟨aliceService_new, hnew, alice_authenticates, alice_token_live, hver, ?_⟩
  rintro ⟨e, he⟩
  exact nomatch hver.symm.trans he

end ForgeQueue
