import ForgeQueue.Base.Utf8
import ForgeQueue.Model.Token

/-!
# The claims object as JSON text

The codec every concrete token in the development uses: the object `json.Marshal`
writes for `claims`, members in struct order, no spaces, quotes and backslashes
escaped, as UTF-8. The reader accepts what the writer writes, so the round trip is a
theorem. The signature is a stand-in: secret followed by input.
-/

namespace ForgeQueue

open Base

/-! ## Strings -/

/-- Quotes and backslashes are escaped. -/
def escape : List Char → List Char
  | [] => []
  | c :: cs => if c = '"' ∨ c = '\\' then '\\' :: c :: escape cs else c :: escape cs

/-- Read up to the closing quote; `escaped` says that the last character was a
backslash. -/
def readString : Bool → List Char → Option (List Char × List Char)
  | _, [] => none
  | true, c :: rest => (readString false rest).map fun r => (c :: r.1, r.2)
  | false, c :: rest =>
    if c = '"' then some ([], rest)
    else if c = '\\' then readString true rest
    else (readString false rest).map fun r => (c :: r.1, r.2)

theorem readString_escape (cs rest : List Char) :
    readString false (escape cs ++ '"' :: rest) = some (cs, rest) := by
  induction cs with
  | nil => rfl
  | cons c cs ih =>
    unfold escape
    by_cases h : c = '"' ∨ c = '\\'
    · rw [if_pos h, List.cons_append, List.cons_append, readString, if_neg (by decide),
        if_pos rfl, readString, ih]
      rfl
    · rw [if_neg h]
      rw [not_or] at h
      rw [List.cons_append, readString, if_neg h.1, if_neg h.2, ih]
      rfl

/-- The items of an array of strings, each followed by a comma or the bracket. -/
def writeItems : List String → List Char
  | [] => [']']
  | [s] => '"' :: escape s.toList ++ ['"', ']']
  | s :: s' :: rest => '"' :: escape s.toList ++ '"' :: ',' :: writeItems (s' :: rest)

/-- Read at most `fuel` items up to the bracket. -/
def readItems : ℕ → List Char → Option (List String × List Char)
  | 0, _ => none
  | _ + 1, ']' :: rest => some ([], rest)
  | fuel + 1, '"' :: cs => do
    let (s, rest) ← readString false cs
    match rest with
    | ']' :: rest => some ([.ofList s], rest)
    | ',' :: rest => (readItems fuel rest).map fun r => (.ofList s :: r.1, r.2)
    | _ => none
  | _, _ => none

theorem readItems_writeItems (items : List String) (rest : List Char) :
    ∀ fuel, items.length < fuel → readItems fuel (writeItems items ++ rest) = some (items, rest) := by
  induction items using writeItems.induct with
  | case1 =>
    intro fuel hf
    obtain ⟨n, rfl⟩ := Nat.exists_eq_succ_of_ne_zero (by omega : fuel ≠ 0)
    rfl
  | case2 s =>
    intro fuel hf
    obtain ⟨n, rfl⟩ := Nat.exists_eq_succ_of_ne_zero (by omega : fuel ≠ 0)
    simp [writeItems, readItems, readString_escape]
  | case3 s s' rest' ih =>
    intro fuel hf
    obtain ⟨n, rfl⟩ := Nat.exists_eq_succ_of_ne_zero (by omega : fuel ≠ 0)
    have hlen : (s' :: rest').length < n := by simpa using hf
    simp [writeItems, readItems, readString_escape, ih n hlen]

theorem length_le_writeItems (items : List String) :
    items.length ≤ (writeItems items).length := by
  induction items using writeItems.induct with
  | case1 => exact Nat.zero_le _
  | case2 s => simp [writeItems]
  | case3 s s' rest ih => simp [writeItems] at ih ⊢; omega

/-! ## Numbers -/

def writeInt (n : Int) : List Char :=
  if n < 0 then '-' :: Nat.toDigits 10 n.natAbs else Nat.toDigits 10 n.natAbs

/-- The digits at the head. -/
def readNat (cs : List Char) : Option (ℕ × List Char) :=
  if (cs.takeWhile Char.isDigit) = [] then none
  else some (Nat.ofDigitChars 10 (cs.takeWhile Char.isDigit) 0, cs.dropWhile Char.isDigit)

def readInt : List Char → Option (Int × List Char)
  | '-' :: cs => (readNat cs).map fun r => (-(r.1 : Int), r.2)
  | cs => (readNat cs).map fun r => ((r.1 : Int), r.2)

theorem readNat_toDigits (n : ℕ) {c : Char} (hc : c.isDigit = false) (rest : List Char) :
    readNat (Nat.toDigits 10 n ++ c :: rest) = some (n, c :: rest) := by
  have hd : ∀ d ∈ Nat.toDigits 10 n, d.isDigit = true := fun d hd =>
    Nat.isDigit_of_mem_toDigits (by decide) (by decide) hd
  have htake : (Nat.toDigits 10 n ++ c :: rest).takeWhile Char.isDigit = Nat.toDigits 10 n := by
    rw [List.takeWhile_append_of_pos hd, List.takeWhile_cons_of_neg (by simp [hc]),
      List.append_nil]
  have hdrop : (Nat.toDigits 10 n ++ c :: rest).dropWhile Char.isDigit = c :: rest := by
    rw [List.dropWhile_append_of_pos hd, List.dropWhile_cons_of_neg (by simp [hc])]
  unfold readNat
  rw [htake, hdrop, if_neg Nat.toDigits_ne_nil, Nat.ofDigitChars_ten_toDigits]

theorem readInt_writeInt (n : Int) {c : Char} (hc : c.isDigit = false) (rest : List Char) :
    readInt (writeInt n ++ c :: rest) = some (n, c :: rest) := by
  unfold writeInt
  by_cases hn : n < 0
  · rw [if_pos hn, List.cons_append, readInt, readNat_toDigits _ hc]
    have habs : -((n.natAbs : ℕ) : Int) = n := by omega
    show some (-((n.natAbs : ℕ) : Int), c :: rest) = some (n, c :: rest)
    rw [habs]
  · rw [if_neg hn]
    have hread := readNat_toDigits n.natAbs hc rest
    have : ((n.natAbs : ℕ) : Int) = n := by omega
    unfold readInt
    split
    · -- a minus sign is no digit
      rename_i cs heq
      have hne := Nat.toDigits_ne_nil (n := n.natAbs) (b := 10)
      cases hdig : Nat.toDigits 10 n.natAbs with
      | nil => exact absurd hdig hne
      | cons d ds =>
        rw [hdig, List.cons_append, List.cons.injEq] at heq
        have hd : d.isDigit = true :=
          Nat.isDigit_of_mem_toDigits (by decide) (by decide) (hdig ▸ List.mem_cons_self)
        rw [heq.1] at hd
        exact absurd hd (by decide)
    · rw [hread]
      simp [this]

/-! ## The object -/

/-- Skip a fixed text. -/
def expect (lit : String) (cs : List Char) : Option (List Char) :=
  if lit.toList.isPrefixOf cs then some (cs.drop lit.toList.length) else none

theorem expect_append (lit : String) (rest : List Char) :
    expect lit (lit.toList ++ rest) = some rest := by
  unfold expect
  rw [if_pos (by simp), List.drop_left]

def writeClaims (c : Claims) : List Char :=
  "\x7b\"sub\":\"".toList ++ (escape c.subject.toList ++ '"' :: (",\"roles\":[".toList ++
    (writeItems c.roles ++ (",\"iat\":".toList ++ (writeInt c.issued.toInt ++
      (',' :: ("\"exp\":".toList ++ (writeInt c.expires.toInt ++ '}' :: []))))))))

def readClaims (cs : List Char) : Option Claims := do
  let cs ← expect "\x7b\"sub\":\"" cs
  let (subject, cs) ← readString false cs
  let cs ← expect ",\"roles\":[" cs
  let (roles, cs) ← readItems (cs.length + 1) cs
  let cs ← expect ",\"iat\":" cs
  let (issued, cs) ← readInt cs
  let cs ← expect ",\"exp\":" cs
  let (expires, _) ← readInt cs
  pure ⟨.ofList subject, roles, .ofInt issued, .ofInt expires⟩

theorem readClaims_writeClaims (c : Claims) : readClaims (writeClaims c) = some c := by
  unfold readClaims writeClaims
  have hitems : ∀ rest, readItems ((writeItems c.roles ++ rest).length + 1)
      (writeItems c.roles ++ rest) = some (c.roles, rest) := by
    intro rest
    refine readItems_writeItems c.roles rest _ ?_
    rw [List.length_append]
    have := length_le_writeItems c.roles
    omega
  have hexp : ∀ rest, expect ",\"exp\":" (',' :: ("\"exp\":".toList ++ rest)) = some rest :=
    expect_append ",\"exp\":"
  simp only [expect_append, readString_escape, hitems, hexp, Option.bind_eq_bind,
    Option.bind_some, readInt_writeInt _ (by decide : ','.isDigit = false),
    readInt_writeInt _ (by decide : '}'.isDigit = false), Option.pure_def, String.ofList_toList,
    Int64.ofInt_toInt]

instance : LawfulTokenLib where
  marshalClaims c := utf8 (writeClaims c)
  unmarshalClaims bytes := (ofUtf8 bytes).bind readClaims
  hmacSha256 secret input := secret ++ utf8 input
  unmarshal_marshal c := by
    rw [ofUtf8_utf8]
    exact readClaims_writeClaims c

end ForgeQueue
