import Mathlib.Tactic.Common

/-!
# UTF-8

Texts as bytes. `runes` reads bytes that need not be UTF-8, as a loop over a Go string does:
a byte that starts no character counts as U+FFFD and is passed over alone. `foldAscii` lowers
the ASCII letters and nothing else; what folds to a text is that text with the case of some
ASCII letters changed (`eq_utf8_of_foldAscii`).
-/

namespace Base

/-- UTF-8. -/
def utf8 (cs : List Char) : List UInt8 := (String.ofList cs).toByteArray.data.toList

/-- The text, if the bytes are UTF-8. -/
def ofUtf8 (bytes : List UInt8) : Option (List Char) :=
  (String.fromUTF8? ⟨bytes.toArray⟩).map String.toList

theorem ofUtf8_utf8 (cs : List Char) : ofUtf8 (utf8 cs) = some cs := by
  have hbytes : (⟨(utf8 cs).toArray⟩ : ByteArray) = (String.ofList cs).toByteArray := by
    rw [utf8, Array.toArray_toList]
  unfold ofUtf8 String.fromUTF8?
  rw [hbytes, dif_pos (String.ofList cs).isValidUTF8, Option.map_some]
  show some (String.ofList cs).toList = some cs
  rw [String.toList_ofList]

theorem utf8_eq_flatMap (cs : List Char) : utf8 cs = cs.flatMap String.utf8EncodeChar := by
  rw [utf8, String.toByteArray_ofList, List.utf8Encode, List.toList_data_toByteArray]

@[simp] theorem utf8_nil : utf8 [] = [] := utf8_eq_flatMap []

theorem utf8_cons (c : Char) (cs : List Char) :
    utf8 (c :: cs) = String.utf8EncodeChar c ++ utf8 cs := by
  rw [utf8_eq_flatMap, utf8_eq_flatMap, List.flatMap_cons]

theorem utf8_injective {cs ds : List Char} (h : utf8 cs = utf8 ds) : cs = ds := by
  have hread := ofUtf8_utf8 cs
  rw [h, ofUtf8_utf8] at hread
  exact (Option.some.inj hread).symm

/-! ## Reading -/

/-- The characters of at most `fuel` reads. -/
def runesFrom : ℕ → List UInt8 → List Char
  | 0, _ => []
  | _ + 1, [] => []
  | fuel + 1, b :: bytes =>
    match (List.toByteArray (b :: bytes)).utf8DecodeChar? 0 with
    | some c => c :: runesFrom fuel ((b :: bytes).drop c.utf8Size)
    | none => '\uFFFD' :: runesFrom fuel bytes

/-- The characters of any bytes. -/
def runes (bytes : List UInt8) : List Char := runesFrom bytes.length bytes

theorem runesFrom_utf8 (cs : List Char) :
    ∀ fuel, (utf8 cs).length ≤ fuel → runesFrom fuel (utf8 cs) = cs := by
  induction cs with
  | nil =>
    intro fuel _
    cases fuel <;> rfl
  | cons c cs ih =>
    intro fuel hfuel
    have hcons := utf8_cons c cs
    have hsize := String.length_utf8EncodeChar c
    have hpos := c.utf8Size_pos
    rw [hcons, List.length_append] at hfuel
    obtain ⟨fuel, rfl⟩ := Nat.exists_eq_succ_of_ne_zero (by omega : fuel ≠ 0)
    have hread : (List.toByteArray (utf8 (c :: cs))).utf8DecodeChar? 0 = some c := by
      rw [hcons, List.toByteArray_append, ByteArray.utf8DecodeChar?_utf8EncodeChar_append]
    have hdrop : (utf8 (c :: cs)).drop c.utf8Size = utf8 cs := by
      rw [hcons, ← hsize, List.drop_left]
    cases hbytes : utf8 (c :: cs) with
    | nil =>
      rw [hcons, List.append_eq_nil_iff] at hbytes
      exact absurd hbytes.1 String.utf8EncodeChar_ne_nil
    | cons b bytes =>
      rw [hbytes] at hread hdrop
      rw [runesFrom, hread]
      dsimp only
      rw [hdrop, ih fuel (by omega)]

/-- What is UTF-8 is read as it was written. -/
theorem runes_utf8 (cs : List Char) : runes (utf8 cs) = cs :=
  runesFrom_utf8 cs _ (Nat.le_refl _)

/-! ## The case of ASCII letters -/

/-- Capital ASCII letters become small ones. -/
def lowerByte (b : UInt8) : UInt8 := if 65 ≤ b ∧ b ≤ 90 then b + 32 else b

def foldAscii (bytes : List UInt8) : List UInt8 := bytes.map lowerByte

theorem lowerByte_high {b : UInt8} (h : 128 ≤ lowerByte b) : lowerByte b = b := by
  unfold lowerByte at h ⊢
  split
  · rename_i hcap
    rw [if_pos hcap, UInt8.le_iff_toNat_le, UInt8.toNat_add] at h
    rw [UInt8.le_iff_toNat_le, UInt8.le_iff_toNat_le] at hcap
    simp only [UInt8.reduceToNat] at h hcap
    omega
  · rfl

theorem utf8EncodeChar_ascii : ∀ n < 128,
    String.utf8EncodeChar (Char.ofNat n) = [UInt8.ofNat n] ∧
      String.utf8EncodeChar (Char.ofNat n).toLower = [lowerByte (UInt8.ofNat n)] := by
  decide +kernel

/-- A byte of a character beyond ASCII is no ASCII byte. -/
theorem high_of_mem_utf8EncodeChar {c : Char} (h : 0x7f < c.val.toNat) :
    ∀ b ∈ String.utf8EncodeChar c, 128 ≤ b := by
  have hbyte : ∀ n, 128 ≤ n → n < 256 → (128 : UInt8) ≤ UInt8.ofNat n := by
    intro n hlow hhigh
    rw [UInt8.le_iff_toNat_le, UInt8.toNat_ofNat_of_lt' hhigh]
    exact hlow
  intro b hb
  unfold String.utf8EncodeChar at hb
  dsimp only at hb
  rw [if_neg (by omega)] at hb
  split at hb
  · simp only [List.mem_cons, List.not_mem_nil, or_false] at hb
    rcases hb with rfl | rfl <;> exact hbyte _ (by omega) (by omega)
  split at hb
  · simp only [List.mem_cons, List.not_mem_nil, or_false] at hb
    rcases hb with rfl | rfl | rfl <;> exact hbyte _ (by omega) (by omega)
  · simp only [List.mem_cons, List.not_mem_nil, or_false] at hb
    rcases hb with rfl | rfl | rfl | rfl <;> exact hbyte _ (by omega) (by omega)

theorem eq_of_foldAscii_high {bytes high : List UInt8} (hhigh : ∀ b ∈ high, 128 ≤ b)
    (h : foldAscii bytes = high) : bytes = high := by
  induction bytes generalizing high with
  | nil => exact h
  | cons b bytes ih =>
    obtain rfl := h
    rw [foldAscii, List.map_cons, List.forall_mem_cons] at hhigh
    rw [foldAscii, List.map_cons, lowerByte_high hhigh.1]
    exact congrArg (b :: ·) (ih hhigh.2 rfl)

theorem toLower_of_not_ascii {c : Char} (h : 0x7f < c.val.toNat) : c.toLower = c := by
  have hnot : ¬ (c.val ≥ 'A'.val ∧ c.val ≤ 'Z'.val) := by
    rintro ⟨-, hle⟩
    rw [UInt32.le_iff_toNat_le] at hle
    have hz : ('Z' : Char).val.toNat = 90 := rfl
    omega
  unfold Char.toLower
  exact dif_neg hnot

/-- What folds to one character is that character or its capital. -/
theorem foldAscii_eq_utf8EncodeChar {bytes : List UInt8} {c : Char}
    (h : foldAscii bytes = String.utf8EncodeChar c) :
    ∃ d : Char, bytes = String.utf8EncodeChar d ∧ d.toLower = c := by
  by_cases hc : 0x7f < c.val.toNat
  · exact ⟨c, eq_of_foldAscii_high (high_of_mem_utf8EncodeChar hc) h, toLower_of_not_ascii hc⟩
  · have hone : String.utf8EncodeChar c = [UInt8.ofNat c.val.toNat] := by
      unfold String.utf8EncodeChar
      exact if_pos (by omega)
    rw [hone] at h
    obtain ⟨b, rfl, hb⟩ := List.map_eq_singleton_iff.mp h
    have hlow : b.toNat < 128 := by
      by_contra hnot
      have hcap : ¬ (65 ≤ b ∧ b ≤ 90) := by
        rw [UInt8.le_iff_toNat_le, UInt8.le_iff_toNat_le]
        simp only [UInt8.reduceToNat]
        omega
      rw [lowerByte, if_neg hcap] at hb
      rw [hb, UInt8.toNat_ofNat_of_lt' (by show _ < 256; omega)] at hnot
      exact hc (by omega)
    obtain ⟨hself, hlower⟩ := utf8EncodeChar_ascii b.toNat hlow
    rw [UInt8.ofNat_toNat] at hself hlower
    refine ⟨Char.ofNat b.toNat, hself.symm, ?_⟩
    have hsame : utf8 [(Char.ofNat b.toNat).toLower] = utf8 [c] := by
      rw [utf8_cons, utf8_cons, hlower, hone, hb]
    exact List.singleton_inj.mp (utf8_injective hsame)

/-- What folds to a text is that text, up to the case of its ASCII letters. -/
theorem eq_utf8_of_foldAscii {bytes : List UInt8} {cs : List Char}
    (h : foldAscii bytes = utf8 cs) : ∃ ds, bytes = utf8 ds ∧ ds.map Char.toLower = cs := by
  induction cs generalizing bytes with
  | nil =>
    rw [utf8_nil, foldAscii, List.map_eq_nil_iff] at h
    exact ⟨[], h, rfl⟩
  | cons c cs ih =>
    rw [utf8_cons, foldAscii, List.map_eq_append_iff] at h
    obtain ⟨first, rest, rfl, hfirst, hrest⟩ := h
    obtain ⟨d, rfl, hd⟩ := foldAscii_eq_utf8EncodeChar hfirst
    obtain ⟨ds, rfl, hds⟩ := ih hrest
    exact ⟨d :: ds, (utf8_cons d ds).symm, by rw [List.map_cons, hd, hds]⟩

end Base
