import ForgeQueue.Model.Accounts
import ForgeQueue.Theorems.AccessControl
import ForgeQueue.Theorems.LocalTokens

/-!
# Signing in with a password

From the environment to a request. The configuration names accounts with their passwords in
the clear; the service keeps hashes of them, under salts of its own; a login is checked
against the hash and answered with a token; a later request shows the token. The theorems
say which logins succeed, in terms of the configuration alone, and what the token is worth
until it expires, also at a service that was started anew.
-/

namespace ForgeQueue

open Base

/-- The derived key has the length that is asked for. -/
class LawfulPasswordLib extends PasswordLib where
  key_length : ∀ {password : String} {salt : Bytes} {iterations : Int} {length : ℕ} {key : Bytes},
    pbkdf2Key password salt iterations length = some key → key.length = length

/-! ## A hash verifies what it was made from -/

theorem dollar_not_mem_encodeStd64 (bytes : Bytes) : '$' ∉ encodeStd64 bytes :=
  fun h => (not_mem_encodeStd64 bytes _ h).1 rfl

/-- Two passwords with one key under a salt. -/
def SameKey [PasswordLib] (salt : Option Bytes) (password other : String) : Prop :=
  ∃ s key, salt = some s ∧
    pbkdf2Key password s pbkdf2Iterations pbkdf2KeyLength = some key ∧
    pbkdf2Key other s pbkdf2Iterations pbkdf2KeyLength = some key

/-- **Hash and check.** A hash accepts the passwords with the key it was made from. -/
theorem verifyPassword_hashPassword [LawfulPasswordLib] {salt : Option Bytes}
    {configured hash : String} (h : hashPassword salt configured = some hash)
    (password : String) :
    verifyPassword password hash = true ↔ SameKey salt password configured := by
  unfold hashPassword at h
  split at h
  · cases h
  · next s =>
    split at h
    · cases h
    · next key hkey =>
      obtain rfl := Option.some.inj h
      have hlength : key.length = pbkdf2KeyLength := LawfulPasswordLib.key_length hkey
      have hne : key ≠ [] := by
        rintro rfl
        cases hlength
      have hiterations : atoi "210000".toList = some pbkdf2Iterations := by decide +kernel
      have hpositive : ¬ pbkdf2Iterations ≤ 0 := by decide
      -- the five parts, none with a separator in it
      have hsplit : splitOn '$' ("pbkdf2".toList ++ '$' :: ("sha256".toList ++ '$' ::
          ("210000".toList ++ '$' :: (encodeStd64 s ++ '$' :: encodeStd64 key)))) =
            ["pbkdf2".toList, "sha256".toList, "210000".toList, encodeStd64 s,
              encodeStd64 key] := by
        rw [splitOn_append (by decide), splitOn_append (by decide), splitOn_append (by decide),
          splitOn_append (dollar_not_mem_encodeStd64 _),
          splitOn_of_not_mem (dollar_not_mem_encodeStd64 _)]
      have hverify : verifyPassword password (.ofList ("pbkdf2".toList ++ '$' ::
          ("sha256".toList ++ '$' :: ("210000".toList ++ '$' ::
            (encodeStd64 s ++ '$' :: encodeStd64 key))))) = true ↔
          pbkdf2Key password s pbkdf2Iterations pbkdf2KeyLength = some key := by
        unfold verifyPassword
        rw [String.toList_ofList, hsplit]
        dsimp only
        rw [if_neg (by simp), hiterations]
        dsimp only
        rw [if_neg hpositive, decodeStd64_encodeStd64, decodeStd64_encodeStd64]
        dsimp only
        rw [if_neg hne, hlength]
        cases pbkdf2Key password s pbkdf2Iterations pbkdf2KeyLength with
        | none => simp
        | some got => simp
      rw [hverify]
      constructor
      · intro hgot
        exact ⟨s, key, rfl, hgot, hkey⟩
      · rintro ⟨s', key', hs, hgot, hother⟩
        obtain rfl := Option.some.inj hs
        rw [hkey] at hother
        obtain rfl := Option.some.inj hother
        exact hgot

/-! ## The table -/

/-- The table has the accounts it had and those that were registered. -/
theorem registerUsers_lookup {users : List User} {byName table : String → Option User}
    (h : registerUsers byName users = .ok table) (name : String) (u : User) :
    table name = some u ↔ byName name = some u ∨ u ∈ users ∧ u.username = name := by
  induction users generalizing byName with
  | nil =>
    obtain rfl := Except.ok.inj h
    simp
  | cons v rest ih =>
    unfold registerUsers at h
    split at h
    · cases h
    · split at h
      · cases h
      · next hfree =>
        split at h
        · cases h
        · rw [ih h, put_eq_some, List.mem_cons]
          constructor
          · rintro ((⟨rfl, rfl⟩ | ⟨-, hold⟩) | ⟨hmem, hname⟩)
            · exact .inr ⟨.inl rfl, rfl⟩
            · exact .inl hold
            · exact .inr ⟨.inr hmem, hname⟩
          · rintro (hold | ⟨rfl | hmem, hname⟩)
            · refine .inl (.inr ⟨?_, hold⟩)
              rintro rfl
              rw [hold] at hfree
              exact hfree rfl
            · exact .inl (.inl ⟨hname.symm, rfl⟩)
            · exact .inr ⟨hmem, hname⟩

theorem newService_lookup {users : List User} {secret : Bytes} {ttl : Int} {svc : Service}
    (h : newService users secret ttl = .ok svc) (name : String) (u : User) :
    svc.users name = some u ↔ u ∈ users ∧ u.username = name := by
  unfold newService at h
  split at h
  · cases h
  · split at h
    · cases h
    · next htable =>
      obtain rfl := Except.ok.inj h
      rw [registerUsers_lookup htable]
      simp [nothing]

/-! ## What the configuration asks for -/

section

variable [PasswordLib]

/-- The account of an entry: its name and roles, and a hash of its password. -/
def UserConfig.Files (salt : Option Bytes) (c : UserConfig) (u : User) : Prop :=
  u.username = c.username ∧ u.roles = c.roles ∧
    hashPassword salt c.password = some u.passwordHash

/-- Entry by entry. -/
theorem parseEntries_files {salt : ℕ → Option Bytes} {configs : List UserConfig} {i : ℕ}
    {users : List User} (h : parseEntries salt i configs = .ok users) (j : ℕ) :
    Option.Rel (UserConfig.Files (salt (i + j))) configs[j]? users[j]? := by
  induction configs generalizing i j users with
  | nil =>
    obtain rfl := Except.ok.inj h
    exact .none
  | cons c rest ih =>
    unfold parseEntries at h
    split at h
    · cases h
    · split at h
      · cases h
      · split at h
        · cases h
        · next hash hhash =>
          split at h
          · cases h
          · next tail htail =>
            obtain rfl := Except.ok.inj h
            cases j with
            | zero => exact .some ⟨rfl, rfl, hhash⟩
            | succ j =>
              have hrest := ih htail j
              rwa [Nat.add_right_comm] at hrest

/-- The one account of a start without configured users. -/
theorem bootstrapAdmin_files {env : Environment} {rnd : Randomness} {users : List User}
    (h : bootstrapAdmin env rnd = .ok users) :
    ∃ u, users = [u] ∧ UserConfig.Files (rnd.salt 0)
      ⟨if trimSpace env.adminUser = "" then "admin" else trimSpace env.adminUser,
        if env.adminPassword = "" then .ofList (encode64 (rnd.password.getD []))
        else env.adminPassword, [roleAdmin]⟩ u := by
  unfold bootstrapAdmin at h
  dsimp only at h
  split at h
  · cases h
  · next password hpassword =>
    split at h
    · cases h
    · next hash hhash =>
      have hchosen : password = if env.adminPassword = "" then
          .ofList (encode64 (rnd.password.getD [])) else env.adminPassword := by
        by_cases hempty : env.adminPassword = ""
        · rw [if_pos hempty] at hpassword ⊢
          unfold randomToken at hpassword
          cases hread : rnd.password with
          | none =>
            rw [hread] at hpassword
            cases hpassword
          | some bytes =>
            rw [hread] at hpassword
            exact (Except.ok.inj hpassword).symm
        · rw [if_neg hempty] at hpassword ⊢
          exact (Except.ok.inj hpassword).symm
      obtain rfl := Except.ok.inj h
      rw [← hchosen]
      exact ⟨_, rfl, rfl, rfl, hhash⟩

variable [ConfigLib]

/-- The accounts the environment asks for, with their passwords. -/
def Environment.accounts (env : Environment) (rnd : Randomness) : List UserConfig :=
  if trimSpace env.users ≠ "" then (unmarshalUsers env.users).getD []
  else if oidcConfigured env = true ∧ trimSpace env.adminPassword = "" then []
  else
    [⟨if trimSpace env.adminUser = "" then "admin" else trimSpace env.adminUser,
      if env.adminPassword = "" then .ofList (encode64 (rnd.password.getD []))
      else env.adminPassword, [roleAdmin]⟩]

theorem resolveUsers_files {env : Environment} {rnd : Randomness} {users : List User}
    (h : resolveUsers env rnd = .ok users) (i : ℕ) :
    Option.Rel (UserConfig.Files (rnd.salt i)) (env.accounts rnd)[i]? users[i]? := by
  unfold resolveUsers at h
  unfold Environment.accounts
  split at h
  · next hset =>
    rw [if_pos hset]
    unfold parseUsers at h
    split at h
    · cases h
    · cases h
    · next c rest hdecoded =>
      rw [hdecoded]
      have hentries := parseEntries_files h i
      rwa [Nat.zero_add] at hentries
  · next hset =>
    rw [if_neg hset]
    split at h
    · next hsso =>
      obtain rfl := Except.ok.inj h
      rw [if_pos hsso]
      exact .none
    · next hsso =>
      obtain ⟨u, rfl, hfiles⟩ := bootstrapAdmin_files h
      rw [if_neg hsso]
      cases i with
      | zero => exact .some hfiles
      | succ i => exact .none

/-- The parts of a start. -/
theorem newFromEnv_parts {env : Environment} {rnd : Randomness} {svc : Service}
    (h : newFromEnv env rnd = .ok svc) :
    ∃ secret ttl users, resolveSecret env rnd = .ok secret ∧ resolveUsers env rnd = .ok users ∧
      newService users secret ttl = .ok svc := by
  unfold newFromEnv at h
  split at h
  · cases h
  · split at h
    · cases h
    · split at h
      · cases h
      · split at h
        · cases h
        · obtain rfl := Except.ok.inj h
          exact ⟨_, _, _, ‹_›, ‹_›, ‹_›⟩

/-- Every account of the environment is in the table. -/
theorem newFromEnv_filed {env : Environment} {rnd : Randomness} {svc : Service}
    (h : newFromEnv env rnd = .ok svc) {i : ℕ} {c : UserConfig}
    (hc : (env.accounts rnd)[i]? = some c) :
    ∃ u, svc.users c.username = some u ∧ c.Files (rnd.salt i) u := by
  obtain ⟨secret, ttl, users, -, husers, hservice⟩ := newFromEnv_parts h
  have hrel := resolveUsers_files husers i
  rw [hc] at hrel
  cases hu : users[i]? with
  | none =>
    rw [hu] at hrel
    cases hrel
  | some u =>
    rw [hu] at hrel
    cases hrel with
    | some hfiles =>
      exact ⟨u, (newService_lookup hservice _ u).mpr ⟨List.mem_of_getElem? hu, hfiles.1⟩, hfiles⟩

/-- And no other. -/
theorem newFromEnv_configured {env : Environment} {rnd : Randomness} {svc : Service}
    (h : newFromEnv env rnd = .ok svc) {name : String} {u : User}
    (hu : svc.users name = some u) :
    ∃ (i : ℕ) (c : UserConfig), (env.accounts rnd)[i]? = some c ∧ c.username = name ∧
      c.Files (rnd.salt i) u := by
  obtain ⟨secret, ttl, users, -, husers, hservice⟩ := newFromEnv_parts h
  obtain ⟨hmem, hname⟩ := (newService_lookup hservice name u).mp hu
  obtain ⟨i, hi⟩ := List.getElem?_of_mem hmem
  have hrel := resolveUsers_files husers i
  rw [hi] at hrel
  cases hc : (env.accounts rnd)[i]? with
  | none =>
    rw [hc] at hrel
    cases hrel
  | some c =>
    rw [hc] at hrel
    cases hrel with
    | some hfiles => exact ⟨i, c, hc, hfiles.1.symm.trans hname, hfiles⟩

end

/-- The names and roles do not depend on what was read from `crypto/rand`. -/
theorem accounts_stable [ConfigLib] (env : Environment) (rnd rnd' : Randomness) :
    (env.accounts rnd).map (fun c => (c.username, c.roles)) =
      (env.accounts rnd').map (fun c => (c.username, c.roles)) := by
  unfold Environment.accounts
  split
  · rfl
  · split <;> rfl

/-! ## Logins -/

/-- The answer of a login that succeeds. -/
def loginAnswer [TokenLib] (svc : Service) (now : Int) (id : Identity) : LoginResponse :=
  ⟨(svc.issueToken now id).1, (svc.issueToken now id).2, id⟩

theorem login_eq_ok [PasswordLib] [TokenLib] {svc : Service} {now : Int}
    {username password : String} {r : LoginResponse} :
    login svc now (some ⟨username, password⟩) = .ok r ↔
      username ≠ "" ∧ password ≠ "" ∧ ∃ u, svc.users username = some u ∧
        verifyPassword password u.passwordHash = true ∧
        r = loginAnswer svc now (identityFor u.username u.roles) := by
  unfold login Service.authenticate
  dsimp only
  by_cases hempty : username = "" ∨ password = ""
  · rw [if_pos hempty]
    constructor
    · intro h
      cases h
    · rintro ⟨hname, hpassword, -⟩
      exact absurd hempty (not_or.mpr ⟨hname, hpassword⟩)
  · rw [if_neg hempty]
    obtain ⟨hname, hpassword⟩ := not_or.mp hempty
    cases hu : svc.users username with
    | none => simp
    | some u =>
      dsimp only
      cases hverify : verifyPassword password u.passwordHash with
      | false => simp [hverify]
      | true =>
        rw [if_pos rfl]
        constructor
        · intro h
          exact ⟨hname, hpassword, u, rfl, hverify, (Except.ok.inj h).symm⟩
        · rintro ⟨-, -, v, hv, -, rfl⟩
          obtain rfl := Option.some.inj hv
          rfl

/-- A start with the same secret. -/
theorem resolveSecret_same {env : Environment} {rnd rnd' : Randomness}
    (h : trimSpace env.authSecret ≠ "" ∨ rnd'.secret = rnd.secret) :
    resolveSecret env rnd' = resolveSecret env rnd := by
  unfold resolveSecret
  rcases h with h | h
  · rw [if_pos h, if_pos h]
  · rw [h]

section

variable [LawfulPasswordLib] [ConfigLib]

/-- A password with the key of the configured one lets its user in. -/
theorem login_configured [TokenLib] {env : Environment} {rnd : Randomness} {svc : Service}
    (h : newFromEnv env rnd = .ok svc) (now : Int) {password : String} (hpassword : password ≠ "")
    {i : ℕ} {c : UserConfig} (hc : (env.accounts rnd)[i]? = some c)
    (hkey : SameKey (rnd.salt i) password c.password) :
    login svc now (some ⟨c.username, password⟩) =
      .ok (loginAnswer svc now (identityFor c.username c.roles)) := by
  obtain ⟨u, hu, hname, hroles, hhash⟩ := newFromEnv_filed h hc
  obtain ⟨secret, ttl, users, -, -, hservice⟩ := newFromEnv_parts h
  have hnamed := (newService_filed hservice _ u hu).named
  refine login_eq_ok.mpr ⟨hnamed, hpassword, u, hu,
    (verifyPassword_hashPassword hhash _).mpr hkey, ?_⟩
  rw [hname, hroles]

/-- **Logins are those of the configuration.** A service that was started from an environment
lets a user in exactly with a non-empty password that has the key of the configured one, and
as the configured user with the configured roles. -/
theorem login_exact [TokenLib] {env : Environment} {rnd : Randomness} {svc : Service}
    (h : newFromEnv env rnd = .ok svc) (now : Int) (username password : String)
    (r : LoginResponse) :
    login svc now (some ⟨username, password⟩) = .ok r ↔
      password ≠ "" ∧ ∃ (i : ℕ) (c : UserConfig), (env.accounts rnd)[i]? = some c ∧
        c.username = username ∧ SameKey (rnd.salt i) password c.password ∧
        r = loginAnswer svc now (identityFor username c.roles) := by
  constructor
  · intro hlogin
    obtain ⟨-, hpassword, u, hu, hverify, rfl⟩ := login_eq_ok.mp hlogin
    obtain ⟨i, c, hc, rfl, hname, hroles, hhash⟩ := newFromEnv_configured h hu
    refine ⟨hpassword, i, c, hc, rfl, (verifyPassword_hashPassword hhash _).mp hverify, ?_⟩
    rw [hname, hroles]
  · rintro ⟨hpassword, i, c, hc, rfl, hkey, rfl⟩
    exact login_configured h now hpassword hc hkey

/-- **A login outlives a restart.** If the secret is configured, or was not read anew, the
token of a login authenticates its user at every service started from the same environment,
with the same roles, until it expires; whatever salts and passwords that start drew. -/
theorem login_survives_restart [LawfulTokenLib] {env : Environment} {rnd rnd' : Randomness}
    {svc svc' : Service} (h : newFromEnv env rnd = .ok svc) (h' : newFromEnv env rnd' = .ok svc')
    (hsecret : trimSpace env.authSecret ≠ "" ∨ rnd'.secret = rnd.secret) {now now' : Int}
    {body : LoginBody} {r : LoginResponse} (hlogin : login svc now (some body) = .ok r)
    (hlive : unix now' < unix r.expiresAt) :
    authenticate svc' now' (.ofList ("Bearer ".toList ++ r.token)) = some r.user := by
  obtain ⟨username, password⟩ := body
  obtain ⟨-, -, u, hu, -, rfl⟩ := login_eq_ok.mp hlogin
  obtain ⟨i, c, hc, rfl, hname, hroles, hhash⟩ := newFromEnv_configured h hu
  -- the same entry, as the other start read it
  have hsame := congrArg (·[i]?) (accounts_stable env rnd rnd')
  simp only [List.getElem?_map, hc, Option.map_some] at hsame
  obtain ⟨c', hc', heq⟩ := Option.map_eq_some_iff.mp hsame.symm
  obtain ⟨hcname, hcroles⟩ := Prod.mk.inj heq
  obtain ⟨v, hv, hvname, hvroles, -⟩ := newFromEnv_filed h' hc'
  obtain ⟨secret, ttl, users, hs, -, hservice⟩ := newFromEnv_parts h
  obtain ⟨secret', ttl', users', hs', -, hservice'⟩ := newFromEnv_parts h'
  rw [resolveSecret_same hsecret, hs] at hs'
  obtain rfl := Except.ok.inj hs'
  have hverify := verifyToken_across hservice hservice' hu hlive
  rw [← hcname, hv] at hverify
  refine authenticate_eq_some (bearerHeader_issue _ _ _ _) (hverify.trans ?_)
  dsimp only [loginAnswer]
  rw [hvname, hvroles, hcname, hcroles, hname, hroles]

end

/-! ## One operator -/

def firstSalt : Bytes := [1, 2, 3, 4, 5, 6, 7, 8, 9, 10, 11, 12, 13, 14, 15, 16]

def secondSalt : Bytes := [17, 18, 19, 20, 21, 22, 23, 24, 25, 26, 27, 28, 29, 30, 31, 32]

/-- The key derivation at two points: a password under either salt. -/
@[reducible] def operatorPasswords : LawfulPasswordLib where
  pbkdf2Key password salt iterations length :=
    if password = "hunter2" ∧ iterations = 210000 ∧ length = 32 then
      if salt = firstSalt then
        some [77, 129, 151, 197, 142, 156, 249, 208, 240, 190, 60, 218, 138, 174, 184, 152,
          224, 178, 125, 91, 231, 40, 112, 82, 27, 101, 230, 127, 142, 218, 78, 203]
      else if salt = secondSalt then
        some [134, 28, 166, 71, 192, 153, 58, 136, 138, 195, 205, 42, 61, 70, 130, 243,
          251, 232, 163, 253, 191, 190, 241, 237, 105, 175, 115, 112, 35, 52, 73, 129]
      else none
    else none
  key_length := by
    intro password salt iterations length key h
    split at h
    · next hpoint =>
      obtain ⟨-, -, rfl⟩ := hpoint
      split at h
      · obtain rfl := Option.some.inj h
        rfl
      · split at h
        · obtain rfl := Option.some.inj h
          rfl
        · cases h
    · cases h

/-- A document with one operator. -/
def operatorDocument : String :=
  "[\x7b\"username\":\"ops\",\"password\":\"hunter2\",\"roles\":[\"operator\"]\x7d]"

/-- The decoder at that document. -/
@[reducible] def operatorConfigs : ConfigLib where
  unmarshalUsers raw :=
    if raw = operatorDocument then some [⟨"ops", "hunter2", [roleOperator]⟩] else none
  parseDuration _ := none

def operatorEnvironment : Environment := ⟨"s3cret", "", operatorDocument, "", "", ""⟩

/-- The secret is configured, so that only the salt is read. -/
def operatorRandomness (salt : Bytes) : Randomness := ⟨none, none, fun _ => some salt⟩

/-- A start of that service. -/
def OperatorStarts (salt : Bytes) (svc : Service) : Prop :=
  @newFromEnv operatorPasswords.toPasswordLib operatorConfigs operatorEnvironment
    (operatorRandomness salt) = .ok svc

/-- The login of the operator. -/
def OperatorLogin (svc : Service) (r : LoginResponse) : Prop :=
  @login operatorPasswords.toPasswordLib _ svc 0 (some ⟨"ops", "hunter2"⟩) = .ok r

theorem operator_sameKey :
    @SameKey operatorPasswords.toPasswordLib (some firstSalt) "hunter2" "hunter2" :=
  ⟨firstSalt, _, rfl, rfl, rfl⟩

/-- The operator gets in. -/
theorem login_exact_operator :
    ∃ svc, OperatorStarts firstSalt svc ∧
      OperatorLogin svc (loginAnswer svc 0 (identityFor "ops" [roleOperator])) := by
  obtain ⟨svc, h⟩ : ∃ svc, OperatorStarts firstSalt svc := ⟨_, rfl⟩
  have hexact := @login_exact operatorPasswords operatorConfigs _ _ _ _ h 0 "ops" "hunter2"
    (loginAnswer svc 0 (identityFor "ops" [roleOperator]))
  exact ⟨svc, h, hexact.mpr ⟨by decide, 0, _, rfl, rfl, operator_sameKey, rfl⟩⟩

/-- And is still in after a restart, which hashes the password anew. -/
theorem login_survives_restart_operator :
    ∃ svc svc' r, OperatorStarts firstSalt svc ∧ OperatorStarts secondSalt svc' ∧
      OperatorLogin svc r ∧
      authenticate svc' 0 (.ofList ("Bearer ".toList ++ r.token)) =
        some (identityFor "ops" [roleOperator]) := by
  obtain ⟨svc, h, hlive⟩ : ∃ svc, OperatorStarts firstSalt svc ∧
      unix 0 < unix (svc.issueToken 0 (identityFor "ops" [roleOperator])).2 :=
    ⟨_, rfl, by decide⟩
  obtain ⟨svc', h'⟩ : ∃ svc', OperatorStarts secondSalt svc' := ⟨_, rfl⟩
  have hlogin := @login_configured operatorPasswords operatorConfigs _ _ _ _ h 0 "hunter2"
    (by decide) 0 _ rfl operator_sameKey
  exact ⟨svc, svc', _, h, h', hlogin,
    @login_survives_restart operatorPasswords operatorConfigs _ _ _ _ _ _ h h'
      (.inl (by decide)) 0 0 _ _ hlogin hlive⟩

end ForgeQueue
