import Mathlib.Data.List.TakeWhile
import Mathlib.Tactic.Common

/-!
# Separated text and base64

Texts are lists of characters. `splitOn sep` cuts a text at every occurrence of the
separator, as `strings.Split` does. `encode64` and `decode64` are base64 with the URL
alphabet and without padding; decoding skips line breaks and ignores the unused low
bits of the last character, as the non-strict decoder does. `encodeStd64` and
`encodePad64` have the standard alphabet, the second also the padding.
-/

namespace Base

/-! ## Splitting at a separator -/

section Split

variable {α : Type*} [DecidableEq α]

/-- Cut at every `sep`; there is always at least one part. -/
def splitOn (sep : α) : List α → List (List α)
  | [] => [[]]
  | c :: cs =>
    if c = sep then [] :: splitOn sep cs
    else
      match splitOn sep cs with
      | [] => [[c]]
      | part :: parts => (c :: part) :: parts

/-- A text without the separator is one part. -/
theorem splitOn_of_not_mem {sep : α} {cs : List α} (h : sep ∉ cs) :
    splitOn sep cs = [cs] := by
  induction cs with
  | nil => rfl
  | cons c cs ih =>
    rw [List.mem_cons, not_or] at h
    rw [splitOn, if_neg (Ne.symm h.1), ih h.2]

/-- The first part ends at the first separator. -/
theorem splitOn_append {sep : α} {cs : List α} (h : sep ∉ cs) (rest : List α) :
    splitOn sep (cs ++ sep :: rest) = cs :: splitOn sep rest := by
  induction cs with
  | nil => rw [List.nil_append, splitOn, if_pos rfl]
  | cons c cs ih =>
    rw [List.mem_cons, not_or] at h
    rw [List.cons_append, splitOn, if_neg (Ne.symm h.1), ih h.2]

/-- No part has a separator. -/
theorem not_mem_of_mem_splitOn {sep : α} (cs : List α) :
    ∀ part ∈ splitOn sep cs, sep ∉ part := by
  induction cs with
  | nil =>
    intro part hpart
    rw [List.mem_singleton.mp hpart]
    exact List.not_mem_nil
  | cons c cs ih =>
    intro part hpart
    rw [splitOn] at hpart
    split at hpart
    · rcases List.mem_cons.mp hpart with rfl | hpart
      · exact List.not_mem_nil
      · exact ih part hpart
    · next hc =>
      cases hsplit : splitOn sep cs with
      | nil =>
        rw [hsplit] at hpart
        rw [List.mem_singleton.mp hpart]
        exact List.not_mem_cons_of_ne_of_not_mem (Ne.symm hc) List.not_mem_nil
      | cons first parts =>
        rw [hsplit] at hpart ih
        rcases List.mem_cons.mp hpart with rfl | hpart
        · exact List.not_mem_cons_of_ne_of_not_mem (Ne.symm hc) (ih first List.mem_cons_self)
        · exact ih part (List.mem_cons_of_mem _ hpart)

/-- It is the library's `List.splitOn`, written as one recursion. -/
theorem splitOn_eq (sep : α) (cs : List α) : splitOn sep cs = cs.splitOn sep := by
  induction cs with
  | nil => rfl
  | cons c cs ih =>
    rw [splitOn, List.splitOn_cons_eq_if_modifyHead, ih]
    by_cases hc : c = sep
    · rw [if_pos hc, if_pos (beq_iff_eq.mpr hc)]
    · rw [if_neg hc, if_neg (by simpa using hc)]
      cases hsplit : cs.splitOn sep with
      | nil => exact absurd hsplit (List.splitOn_ne_nil sep cs)
      | cons part parts => rfl

/-- The parts with separators between them are the text. -/
theorem intercalate_splitOn (sep : α) (cs : List α) :
    [sep].intercalate (splitOn sep cs) = cs := by
  rw [splitOn_eq, List.intercalate_splitOn]

end Split

/-! ## Splitting at blanks -/

section Fields

variable {α : Type*} {blank : α → Bool}

/-- The maximal parts without a blank, as `strings.Fields` cuts them out. -/
def fields (blank : α → Bool) : List α → List (List α)
  | [] => []
  | c :: cs =>
    if blank c then fields blank cs
    else
      match cs with
      | [] => [[c]]
      | d :: ds =>
        if blank d then [c] :: fields blank (d :: ds)
        else (fields blank (d :: ds)).modifyHead (c :: ·)

theorem fields_cons_blank {c : α} (h : blank c = true) (cs : List α) :
    fields blank (c :: cs) = fields blank cs := by
  cases cs <;> simp [fields, h]

/-- Leading blanks are skipped. -/
theorem fields_blanks_append {sp : List α} (h : ∀ c ∈ sp, blank c = true) (cs : List α) :
    fields blank (sp ++ cs) = fields blank cs := by
  induction sp with
  | nil => rfl
  | cons c sp ih =>
    rw [List.cons_append, fields_cons_blank (h c List.mem_cons_self)]
    exact ih fun x hx => h x (List.mem_cons_of_mem _ hx)

theorem fields_blanks {sp : List α} (h : ∀ c ∈ sp, blank c = true) : fields blank sp = [] := by
  have happend := fields_blanks_append h []
  rwa [List.append_nil] at happend

/-- A word without blanks is one part. -/
theorem fields_word {word : List α} (hne : word ≠ []) (h : ∀ c ∈ word, blank c = false) :
    fields blank word = [word] := by
  induction word with
  | nil => exact absurd rfl hne
  | cons c word ih =>
    have hc := h c List.mem_cons_self
    have hrest : ∀ x ∈ word, blank x = false := fun x hx => h x (List.mem_cons_of_mem _ hx)
    cases word with
    | nil => simp [fields, hc]
    | cons d word =>
      rw [fields, if_neg (by simp [hc]), if_neg (by simp [hrest d List.mem_cons_self]),
        ih (List.cons_ne_nil _ _) hrest]
      rfl

/-- A word ends at the first blank. -/
theorem fields_word_append {word : List α} (hne : word ≠ []) (h : ∀ c ∈ word, blank c = false)
    {b : α} (hb : blank b = true) (rest : List α) :
    fields blank (word ++ b :: rest) = word :: fields blank rest := by
  induction word with
  | nil => exact absurd rfl hne
  | cons c word ih =>
    have hc := h c List.mem_cons_self
    have hrest : ∀ x ∈ word, blank x = false := fun x hx => h x (List.mem_cons_of_mem _ hx)
    cases word with
    | nil =>
      rw [List.cons_append, List.nil_append, fields, if_neg (by simp [hc]), if_pos hb,
        fields_cons_blank hb]
    | cons d word =>
      rw [List.cons_append, List.cons_append, fields, if_neg (by simp [hc]),
        if_neg (by simp [hrest d List.mem_cons_self]), ← List.cons_append,
        ih (List.cons_ne_nil _ _) hrest]
      rfl

/-- A text that does not start with a blank starts with its first part. -/
theorem fields_cons_word {c : α} (hc : blank c = false) (cs : List α) :
    ∃ word rest, c :: cs = word ++ rest ∧ word ≠ [] ∧ (∀ x ∈ word, blank x = false) ∧
      fields blank (c :: cs) = word :: fields blank rest := by
  have hsplit := List.takeWhile_append_dropWhile (p := fun x => !blank x) (l := c :: cs)
  have hne : (c :: cs).takeWhile (fun x => !blank x) ≠ [] := by simp [hc]
  have hword : ∀ x ∈ (c :: cs).takeWhile (fun x => !blank x), blank x = false := by
    intro x hx
    simpa using List.mem_takeWhile_imp hx
  refine ⟨_, _, hsplit.symm, hne, hword, ?_⟩
  cases hdrop : (c :: cs).dropWhile (fun x => !blank x) with
  | nil =>
    rw [hdrop, List.append_nil] at hsplit
    rw [hsplit] at hne hword ⊢
    exact fields_word hne hword
  | cons b after =>
    have hb : blank b = true := by
      have hhead := List.head?_dropWhile_not (fun x => !blank x) (c :: cs)
      rw [hdrop] at hhead
      simpa using hhead
    rw [fields_cons_blank hb, ← fields_word_append hne hword hb, ← hdrop, hsplit]

/-- Only blanks have no parts. -/
theorem blank_of_fields_eq_nil {cs : List α} (h : fields blank cs = []) :
    ∀ c ∈ cs, blank c = true := by
  induction cs with
  | nil => exact fun _ hc => absurd hc List.not_mem_nil
  | cons c cs ih =>
    cases hc : blank c with
    | true =>
      rw [fields_cons_blank hc] at h
      exact List.forall_mem_cons.mpr ⟨hc, ih h⟩
    | false =>
      obtain ⟨word, rest, -, -, -, hfields⟩ := fields_cons_word hc cs
      rw [hfields] at h
      cases h

/-- A single part is a word between blanks. -/
theorem eq_of_fields_eq_singleton {cs word : List α} (h : fields blank cs = [word]) :
    word ≠ [] ∧ (∀ c ∈ word, blank c = false) ∧
      ∃ sp sp', (∀ c ∈ sp, blank c = true) ∧ (∀ c ∈ sp', blank c = true) ∧
        cs = sp ++ (word ++ sp') := by
  induction cs with
  | nil => cases h
  | cons c cs ih =>
    cases hc : blank c with
    | true =>
      rw [fields_cons_blank hc] at h
      obtain ⟨hne, hword, sp, sp', hsp, hsp', rfl⟩ := ih h
      exact ⟨hne, hword, c :: sp, sp', List.forall_mem_cons.mpr ⟨hc, hsp⟩, hsp', rfl⟩
    | false =>
      obtain ⟨word', rest, hcs, hne, hword, hfields⟩ := fields_cons_word hc cs
      rw [hfields] at h
      obtain ⟨rfl, hrest⟩ := List.cons.inj h
      exact ⟨hne, hword, [], rest, fun _ hx => absurd hx List.not_mem_nil,
        blank_of_fields_eq_nil hrest, hcs⟩

end Fields

/-! ## Raw URL base64 -/

/-- The URL alphabet. -/
def alphabet64 : List Char :=
  "ABCDEFGHIJKLMNOPQRSTUVWXYZabcdefghijklmnopqrstuvwxyz0123456789-_".toList

/-- The character of a sextet. -/
def char64 (n : ℕ) : Char := alphabet64.getD n 'A'

/-- The sextet of a character. -/
def value64 (c : Char) : Option ℕ := alphabet64.idxOf? c

/-- Three bytes become four characters; a remainder of one or two bytes becomes two or
three characters. -/
def encode64 : List UInt8 → List Char
  | [] => []
  | [a] => [char64 (a.toNat / 4), char64 (a.toNat % 4 * 16)]
  | [a, b] =>
    [char64 (a.toNat / 4), char64 (a.toNat % 4 * 16 + b.toNat / 16),
      char64 (b.toNat % 16 * 4)]
  | a :: b :: c :: rest =>
    char64 (a.toNat / 4) :: char64 (a.toNat % 4 * 16 + b.toNat / 16) ::
      char64 (b.toNat % 16 * 4 + c.toNat / 64) :: char64 (c.toNat % 64) :: encode64 rest

/-- Decode groups of four; a group of one character is corrupt. -/
def decodeGroups : List Char → Option (List UInt8)
  | [] => some []
  | [_] => none
  | [w, x] => do
    let w ← value64 w
    let x ← value64 x
    pure [.ofNat (w * 4 + x / 16)]
  | [w, x, y] => do
    let w ← value64 w
    let x ← value64 x
    let y ← value64 y
    pure [.ofNat (w * 4 + x / 16), .ofNat (x % 16 * 16 + y / 4)]
  | w :: x :: y :: z :: rest => do
    let w ← value64 w
    let x ← value64 x
    let y ← value64 y
    let z ← value64 z
    let bytes ← decodeGroups rest
    pure (.ofNat (w * 4 + x / 16) :: .ofNat (x % 16 * 16 + y / 4) ::
      .ofNat (y % 4 * 64 + z) :: bytes)

/-- Line breaks are skipped. -/
def decode64 (text : List Char) : Option (List UInt8) :=
  decodeGroups (text.filter fun c => c ≠ '\r' ∧ c ≠ '\n')

theorem value64_char64 : ∀ n < 64, value64 (char64 n) = some n := by decide +kernel

theorem char64_plain : ∀ n < 64, char64 n ≠ '.' ∧ char64 n ≠ '\r' ∧ char64 n ≠ '\n' := by
  decide +kernel

private theorem ofNat_byte {a : UInt8} {n : ℕ} (h : n = a.toNat) : UInt8.ofNat n = a := by
  rw [h, UInt8.ofNat_toNat]

theorem decodeGroups_encode64 (bytes : List UInt8) :
    decodeGroups (encode64 bytes) = some bytes := by
  induction bytes using encode64.induct with
  | case1 => rfl
  | case2 a =>
    have ha := a.toNat_lt
    simp only [encode64, decodeGroups, value64_char64 (a.toNat / 4) (by omega),
      value64_char64 (a.toNat % 4 * 16) (by omega), Option.bind_eq_bind, Option.bind_some,
      Option.pure_def, Option.some.injEq]
    rw [ofNat_byte (a := a) (by omega)]
  | case3 a b =>
    have ha := a.toNat_lt
    have hb := b.toNat_lt
    simp only [encode64, decodeGroups, value64_char64 (a.toNat / 4) (by omega),
      value64_char64 (a.toNat % 4 * 16 + b.toNat / 16) (by omega),
      value64_char64 (b.toNat % 16 * 4) (by omega), Option.bind_eq_bind, Option.bind_some,
      Option.pure_def, Option.some.injEq]
    rw [ofNat_byte (a := a) (by omega), ofNat_byte (a := b) (by omega)]
  | case4 a b c rest ih =>
    have ha := a.toNat_lt
    have hb := b.toNat_lt
    have hc := c.toNat_lt
    simp only [encode64, decodeGroups, value64_char64 (a.toNat / 4) (by omega),
      value64_char64 (a.toNat % 4 * 16 + b.toNat / 16) (by omega),
      value64_char64 (b.toNat % 16 * 4 + c.toNat / 64) (by omega),
      value64_char64 (c.toNat % 64) (by omega), ih, Option.bind_eq_bind, Option.bind_some,
      Option.pure_def, Option.some.injEq]
    rw [ofNat_byte (a := a) (by omega), ofNat_byte (a := b) (by omega),
      ofNat_byte (a := c) (by omega)]

/-- An encoded text consists of letters of the alphabet. -/
theorem mem_encode64 {ch : Char} (bytes : List UInt8) (h : ch ∈ encode64 bytes) :
    ∃ n < 64, ch = char64 n := by
  induction bytes using encode64.induct with
  | case1 => cases h
  | case2 a =>
    have ha := a.toNat_lt
    simp only [encode64, List.mem_cons, List.not_mem_nil, or_false] at h
    rcases h with rfl | rfl
    · exact ⟨_, by omega, rfl⟩
    · exact ⟨_, by omega, rfl⟩
  | case3 a b =>
    have ha := a.toNat_lt
    have hb := b.toNat_lt
    simp only [encode64, List.mem_cons, List.not_mem_nil, or_false] at h
    rcases h with rfl | rfl | rfl
    · exact ⟨_, by omega, rfl⟩
    · exact ⟨_, by omega, rfl⟩
    · exact ⟨_, by omega, rfl⟩
  | case4 a b c rest ih =>
    have ha := a.toNat_lt
    have hb := b.toNat_lt
    have hc := c.toNat_lt
    simp only [encode64, List.mem_cons] at h
    rcases h with rfl | rfl | rfl | rfl | h
    · exact ⟨_, by omega, rfl⟩
    · exact ⟨_, by omega, rfl⟩
    · exact ⟨_, by omega, rfl⟩
    · exact ⟨_, by omega, rfl⟩
    · exact ih h

theorem dot_not_mem_encode64 (bytes : List UInt8) : '.' ∉ encode64 bytes := by
  intro h
  obtain ⟨n, hn, heq⟩ := mem_encode64 bytes h
  exact (char64_plain n hn).1 heq.symm

/-- **Round trip.** -/
theorem decode64_encode64 (bytes : List UInt8) : decode64 (encode64 bytes) = some bytes := by
  unfold decode64
  rw [List.filter_eq_self.mpr, decodeGroups_encode64]
  intro ch hch
  obtain ⟨n, hn, rfl⟩ := mem_encode64 bytes hch
  exact decide_eq_true (char64_plain n hn).2

example : encode64 [77, 97, 110, 33] = "TWFuIQ".toList := by decide

/-! ## Standard base64 -/

/-- A character of the URL alphabet as one of the standard alphabet. -/
def stdChar (c : Char) : Char := if c = '-' then '+' else if c = '_' then '/' else c

/-- A character of the standard alphabet as one of the URL alphabet; the two characters
only the URL alphabet has become one that neither has. -/
def urlChar (c : Char) : Char :=
  if c = '+' then '-' else if c = '/' then '_' else if c = '-' ∨ c = '_' then '=' else c

def encodeStd64 (bytes : List UInt8) : List Char := (encode64 bytes).map stdChar

def decodeStd64 (text : List Char) : Option (List UInt8) := decode64 (text.map urlChar)

theorem urlChar_stdChar_char64 : ∀ n < 64, urlChar (stdChar (char64 n)) = char64 n := by
  decide +kernel

theorem map_urlChar_encodeStd64 (bytes : List UInt8) :
    (encodeStd64 bytes).map urlChar = encode64 bytes := by
  unfold encodeStd64
  rw [List.map_map, List.map_congr_left (g := id), List.map_id]
  intro c hc
  obtain ⟨n, hn, rfl⟩ := mem_encode64 bytes hc
  exact urlChar_stdChar_char64 n hn

theorem decodeStd64_encodeStd64 (bytes : List UInt8) :
    decodeStd64 (encodeStd64 bytes) = some bytes := by
  rw [decodeStd64, map_urlChar_encodeStd64, decode64_encode64]

/-- The letters of the standard alphabet are none of these. -/
theorem not_mem_encodeStd64 (bytes : List UInt8) :
    ∀ c ∈ encodeStd64 bytes, c ≠ '$' ∧ c ≠ '=' ∧ c ≠ '\r' ∧ c ≠ '\n' := by
  have hplain : ∀ n < 64, stdChar (char64 n) ≠ '$' ∧ stdChar (char64 n) ≠ '=' ∧
      stdChar (char64 n) ≠ '\r' ∧ stdChar (char64 n) ≠ '\n' := by decide +kernel
  intro c h
  obtain ⟨d, hd, rfl⟩ := List.mem_map.mp h
  obtain ⟨n, hn, rfl⟩ := mem_encode64 bytes hd
  exact hplain n hn

/-- The padding completes the last group of four. -/
def padding (bytes : List UInt8) : ℕ := (3 - bytes.length % 3) % 3

def encodePad64 (bytes : List UInt8) : List Char :=
  encodeStd64 bytes ++ List.replicate (padding bytes) '='

/-- Without an equals sign at the end. -/
def dropPad (text : List Char) : List Char :=
  if text.getLast? = some '=' then text.dropLast else text

def decodePad64 (text : List Char) : Option (List UInt8) :=
  let text := text.filter fun c => c ≠ '\r' ∧ c ≠ '\n'
  if text.length % 4 = 0 then decodeGroups ((dropPad (dropPad text)).map urlChar) else none

theorem length_encode64 (bytes : List UInt8) :
    ((encode64 bytes).length + padding bytes) % 4 = 0 := by
  induction bytes using encode64.induct with
  | case1 => rfl
  | case2 a => simp [encode64, padding]
  | case3 a b => simp [encode64, padding]
  | case4 a b c rest ih =>
    unfold padding at ih ⊢
    simp only [encode64, List.length_cons]
    omega

theorem dropPad_append (text : List Char) : dropPad (text ++ ['=']) = text := by
  rw [dropPad, if_pos List.getLast?_concat, List.dropLast_concat]

theorem dropPad_of_not_mem {text : List Char} (h : '=' ∉ text) : dropPad text = text := by
  refine if_neg fun hlast => h ?_
  exact List.mem_of_getLast? hlast

theorem dropPad_dropPad {text : List Char} (h : '=' ∉ text) {k : ℕ} (hk : k < 3) :
    dropPad (dropPad (text ++ List.replicate k '=')) = text := by
  match k, hk with
  | 0, _ => rw [List.replicate_zero, List.append_nil, dropPad_of_not_mem h, dropPad_of_not_mem h]
  | 1, _ => rw [List.replicate_one, dropPad_append, dropPad_of_not_mem h]
  | 2, _ =>
    have hsplit : text ++ List.replicate 2 '=' = text ++ ['='] ++ ['='] := by simp
    rw [hsplit, dropPad_append, dropPad_append]

/-- **Round trip, with padding.** -/
theorem decodePad64_encodePad64 (bytes : List UInt8) :
    decodePad64 (encodePad64 bytes) = some bytes := by
  have hpad : padding bytes < 3 := Nat.mod_lt _ (by decide)
  have hfilter : (encodePad64 bytes).filter (fun c => c ≠ '\r' ∧ c ≠ '\n') =
      encodePad64 bytes := by
    rw [List.filter_eq_self]
    intro c hc
    rcases List.mem_append.mp hc with hc | hc
    · obtain ⟨-, -, hbreaks⟩ := not_mem_encodeStd64 bytes c hc
      exact decide_eq_true hbreaks
    · obtain rfl := List.eq_of_mem_replicate hc
      rfl
  have hlength : (encodePad64 bytes).length % 4 = 0 := by
    rw [encodePad64, encodeStd64, List.length_append, List.length_map, List.length_replicate]
    exact length_encode64 bytes
  have hdrop : dropPad (dropPad (encodePad64 bytes)) = encodeStd64 bytes :=
    dropPad_dropPad (fun h => (not_mem_encodeStd64 bytes _ h).2.1 rfl) hpad
  unfold decodePad64
  rw [hfilter]
  dsimp only
  rw [if_pos hlength, hdrop, map_urlChar_encodeStd64, decodeGroups_encode64]

end Base
