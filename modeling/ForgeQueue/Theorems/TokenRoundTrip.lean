import ForgeQueue.Model.ClaimsJson

/-!
# Tokens: the round trip and what is rejected

`issue` and `verify` are separate code. A token comes back as what it was issued for until
the second it expires in; and of all texts, `verify` accepts exactly those that consist of
two parts and the signature of these two, with a payload that decodes to claims that name
a subject and have not expired.
-/

namespace ForgeQueue

open Base

/-- A text in three parts. -/
theorem splitOn_three_iff {token header payload signature : Text} :
    splitOn '.' token = [header, payload, signature] ↔
      '.' ∉ header ∧ '.' ∉ payload ∧ '.' ∉ signature ∧
        token = header ++ '.' :: payload ++ '.' :: signature := by
  constructor
  · intro h
    have hparts : ∀ part ∈ splitOn '.' token, '.' ∉ part := not_mem_of_mem_splitOn token
    have htoken := intercalate_splitOn '.' token
    rw [h] at hparts htoken
    refine ⟨hparts header (by simp), hparts payload (by simp), hparts signature (by simp), ?_⟩
    rw [← htoken]
    simp [List.intercalate]
  · rintro ⟨hheader, hpayload, hsignature, rfl⟩
    rw [List.append_assoc, List.cons_append, splitOn_append hheader, splitOn_append hpayload,
      splitOn_of_not_mem hsignature]

section

variable [TokenLib]

/-- What `verify` accepts. -/
structure Accepted (m : TokenManager) (now : Int) (token : Text) (c : Claims) : Prop where
  /-- Three parts, the third of them the signature of the first two, and a payload that
  decodes to the claims. -/
  parts : ∃ header payload signature bytes,
    '.' ∉ header ∧ '.' ∉ payload ∧ '.' ∉ signature ∧
      token = header ++ '.' :: payload ++ '.' :: signature ∧
      signature = m.sign (header ++ '.' :: payload) ∧
      decode64 payload = some bytes ∧ unmarshalClaims bytes = some c
  subject : c.subject ≠ ""
  unexpired : unix now < c.expires

/-- A text `verify` accepts passed every check. -/
theorem Accepted.of_verify {m : TokenManager} {now : Int} {token : Text} {c : Claims}
    (h : m.verify now token = .ok c) : Accepted m now token c := by
  unfold TokenManager.verify at h
  split at h
  · next header payload signature hsplit =>
    obtain ⟨hheader, hpayload, hsignature, htoken⟩ := splitOn_three_iff.mp hsplit
    split at h
    · cases h
    · next hsign =>
      split at h
      · cases h
      · next bytes hbytes =>
        split at h
        · cases h
        · next c' hclaims =>
          split at h
          · cases h
          · next hsubject =>
            split at h
            · cases h
            · next hexpires =>
              obtain rfl := Except.ok.inj h
              refine ⟨⟨header, payload, signature, bytes, hheader, hpayload, hsignature, htoken,
                (not_not.mp hsign).symm, hbytes, hclaims⟩, hsubject, ?_⟩
              exact Int64.not_le.mp hexpires
  · cases h

/-- And a text that passes every check is accepted. -/
theorem Accepted.verify {m : TokenManager} {now : Int} {token : Text} {c : Claims}
    (h : Accepted m now token c) : m.verify now token = .ok c := by
  obtain ⟨⟨header, payload, signature, bytes, hheader, hpayload, hsignature, htoken, hsign,
    hbytes, hclaims⟩, hsubject, hexpires⟩ := h
  have hsplit := splitOn_three_iff.mpr ⟨hheader, hpayload, hsignature, htoken⟩
  unfold TokenManager.verify
  rw [hsplit]
  simp only [hsign, ne_eq, not_true_eq_false, if_false, hbytes, hclaims, hsubject,
    if_neg (Int64.not_le.mpr hexpires)]

end

/-- **Round trip and rejection.** For every secret and lifetime: a token issued to a
non-empty username verifies to exactly the subject, the roles and the times it was issued
with if the verification second is before the second of the expiry, and to an error
otherwise; and any text whatsoever verifies to claims exactly if it is accepted in the
sense of `Accepted`. -/
theorem token_round_trip [LawfulTokenLib] (m : TokenManager) :
    (∀ (now now' : Int) (username : String) (roles : List Role), username ≠ "" →
      (unix now' < unix (m.issue now username roles).2 →
        m.verify now' (m.issue now username roles).1 =
          .ok ⟨username, roles, unix now, unix (m.issue now username roles).2⟩) ∧
      (¬ unix now' < unix (m.issue now username roles).2 →
        ∃ e, m.verify now' (m.issue now username roles).1 = .error e)) ∧
    ∀ (now : Int) (token : Text) (c : Claims),
      m.verify now token = .ok c ↔ Accepted m now token c := by
  refine ⟨?_, fun now token c => ⟨Accepted.of_verify, Accepted.verify⟩⟩
  intro now now' username roles hname
  have hexpires : (m.issue now username roles).2 = now + m.ttl := rfl
  rw [TokenManager.verify_issue, if_neg hname, hexpires]
  constructor
  · intro hlt
    rw [if_neg (Int64.not_le.mpr hlt)]
  · intro hge
    rw [if_pos (Int64.not_lt.mp hge)]
    exact ⟨_, rfl⟩

/-- A manager with an hour for each token. -/
def hourManager : TokenManager := ⟨[1], 3600 * 1000000000⟩

theorem token_round_trip_dotted :
    hourManager.verify 0 (hourManager.issue 0 "a.b" [roleViewer]).1 =
      .ok ⟨"a.b", [roleViewer], 0, 3600⟩ := by
  obtain ⟨hround, -⟩ := token_round_trip hourManager
  have htrip := (hround 0 0 "a.b" [roleViewer] (by decide)).1 (by decide +kernel)
  rw [htrip]
  decide +kernel

end ForgeQueue
