import ForgeQueue.Model.Token
import Mathlib.Algebra.Ring.Int.Defs

/-!
# Passwords

`internal/auth/password.go` and `Authenticate`. A stored hash is the text
`pbkdf2$sha256$<iterations>$<salt>$<key>`, both byte strings in standard base64 without
padding. The key derivation is library code and a parameter.
-/

namespace ForgeQueue

open Base

/-- The library call of `password.go`. -/
class PasswordLib where
  /-- `pbkdf2.Key(sha256.New, password, salt, iterations, length)`. -/
  pbkdf2Key : String → Bytes → Int → ℕ → Option Bytes

export PasswordLib (pbkdf2Key)

/-- `strconv.Atoi`: an optional sign and decimal digits, within 64 bits. -/
def atoi (text : Text) : Option Int :=
  let digits (negative : Bool) (ds : Text) : Option Int :=
    if ds = [] ∨ ds.any (fun c => !c.isDigit) then none
    else
      let n : Int := ds.foldl (fun n c => n * 10 + (c.toNat - '0'.toNat : ℕ)) 0
      let n := if negative then -n else n
      if -2 ^ 63 ≤ n ∧ n < 2 ^ 63 then some n else none
  match text with
  | '-' :: ds => digits true ds
  | '+' :: ds => digits false ds
  | ds => digits false ds

section

variable [PasswordLib]

/-- `verifyPassword`, with its checks in order. -/
def verifyPassword (password encoded : String) : Bool :=
  match splitOn '$' encoded.toList with
  | [scheme, hash, iterations, salt, key] =>
    if scheme ≠ "pbkdf2".toList ∨ hash ≠ "sha256".toList then false
    else
      match atoi iterations with
      | none => false
      | some iter =>
        if iter ≤ 0 then false
        else
          match decodeStd64 salt, decodeStd64 key with
          | some salt, some want =>
            if want = [] then false
            else
              match pbkdf2Key password salt iter want.length with
              | none => false
              | some got => decide (got = want)
          | _, _ => false
  | _ => false

/-- `ErrInvalidCredentials`, for an unknown username and for a bad password. -/
inductive LoginError where
  | invalidCredentials
  deriving DecidableEq

/-- `Authenticate`. -/
def Service.authenticate (s : Service) (username password : String) :
    Except LoginError Identity :=
  match s.users username with
  | none => .error .invalidCredentials
  | some u =>
    if verifyPassword password u.passwordHash then .ok (identityFor u.username u.roles)
    else .error .invalidCredentials

/-- Whoever is authenticated has an account, and the identity is that of the account. -/
theorem Service.authenticate_ok {s : Service} {username password : String} {id : Identity}
    (h : s.authenticate username password = .ok id) :
    ∃ u, s.users username = some u ∧ id = identityFor u.username u.roles := by
  unfold Service.authenticate at h
  split at h
  · cases h
  · next u hu =>
    split at h
    · exact ⟨u, hu, (Except.ok.inj h).symm⟩
    · cases h

end

end ForgeQueue
