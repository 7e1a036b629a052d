import ForgeQueue.Model.Task

/-!
# Bodies as parsed documents

The codec every concrete evaluation in the development uses: a stored body is
either a text that is no JSON at all, or a document, kept as its value. Encoders
and decoders differ only in how they read the members of an object, so this is
where the rules of `encoding/json` for a struct and those of `cjson` are written out.

A document is what all readers take for JSON, and a number is its value: an integer
written with a fraction, which `encoding/json` refuses, and the extra number formats of
`cjson` and of Lua (hexadecimal, infinities) have no place here.
-/

namespace ForgeQueue

open Base

mutual

/-- Structural equality test. -/
def Json.beq : Json → Json → Bool
  | .null, .null => true
  | .bool a, .bool b => a == b
  | .num a, .num b => a == b
  | .str a, .str b => a == b
  | .arr xs, .arr ys => Json.beqList xs ys
  | .obj xs, .obj ys => Json.beqFields xs ys
  | _, _ => false

/-- Equality test on array items. -/
def Json.beqList : List Json → List Json → Bool
  | [], [] => true
  | x :: xs, y :: ys => Json.beq x y && Json.beqList xs ys
  | _, _ => false

/-- Equality test on object members. -/
def Json.beqFields : List (String × Json) → List (String × Json) → Bool
  | [], [] => true
  | (k, x) :: xs, (l, y) :: ys => k == l && Json.beq x y && Json.beqFields xs ys
  | _, _ => false

end

mutual

theorem Json.beq_iff : ∀ a b : Json, Json.beq a b = true ↔ a = b
  | .null, b => by cases b <;> simp [Json.beq]
  | .bool _, b => by cases b <;> simp [Json.beq]
  | .num _, b => by cases b <;> simp [Json.beq]
  | .str _, b => by cases b <;> simp [Json.beq]
  | .arr xs, b => by
    cases b with
    | arr ys => simp [Json.beq, Json.beqList_iff xs ys]
    | _ => simp [Json.beq]
  | .obj xs, b => by
    cases b with
    | obj ys => simp [Json.beq, Json.beqFields_iff xs ys]
    | _ => simp [Json.beq]

theorem Json.beqList_iff : ∀ xs ys : List Json, Json.beqList xs ys = true ↔ xs = ys
  | [], ys => by cases ys <;> simp [Json.beqList]
  | x :: xs, ys => by
    cases ys with
    | nil => simp [Json.beqList]
    | cons y ys => simp [Json.beqList, Json.beq_iff x y, Json.beqList_iff xs ys]

theorem Json.beqFields_iff :
    ∀ xs ys : List (String × Json), Json.beqFields xs ys = true ↔ xs = ys
  | [], ys => by cases ys <;> simp [Json.beqFields]
  | (k, x) :: xs, ys => by
    cases ys with
    | nil => simp [Json.beqFields]
    | cons y ys =>
      simp [Json.beqFields, Json.beq_iff x y.2, Json.beqFields_iff xs ys, Prod.ext_iff]

end

instance : DecidableEq Json := fun a b => decidable_of_iff _ (Json.beq_iff a b)

/-- A stored body: a text that does not parse, or a parsed document. -/
inductive JsonBody where
  | text (s : String)
  | doc (v : Json)
  deriving DecidableEq

/-! ## `encoding/json` on a struct -/

/-- A `string` member; `null` leaves it as it is. -/
def goString (old : String) : Json → Option String
  | .null => some old
  | .str s => some s
  | _ => none

/-- An `int32` member. -/
def goInt32 (old : Int) : Json → Option Int
  | .null => some old
  | .num q => if q.den = 1 ∧ inInt32 q.num then some q.num else none
  | _ => none

/-- An item of a `[]byte`. -/
def goByte : Json → Option UInt8
  | .null => some 0
  | .num q => if q.den = 1 ∧ 0 ≤ q.num ∧ q.num < 256 then some (.ofNat q.num.toNat) else none
  | _ => none

/-- A `[]byte` member: base64, or an array of bytes. `none` is the nil slice. -/
def goBytes : Json → Option (Option (List UInt8))
  | .null => some none
  | .str s => (decodePad64 s.toList).map some
  | .arr items => (items.mapM goByte).map some
  | _ => none

/-- A `json.RawMessage` member; a nil message is encoded as `null`. -/
def goRaw (v : Json) : Option Json := some v

/-- `strings.EqualFold`: two letters have a third case. -/
def foldRune (c : Char) : Char :=
  if c = '\u017F' then 's' else if c = '\u212A' then 'k' else c.toLower

/-- The member that a key names: its own name, or one that differs in case. -/
def memberName (key : String) : String :=
  if key ∈ ["id", "task_type", "payload", "max_retries", "attempts"] then key
  else .ofList (key.toList.map foldRune)

/-- Read one member. A key that names none is skipped. -/
def goMember {P : Type} (payload : Json → Option P) (t : TaskMetaData P)
    (member : String × Json) : Option (TaskMetaData P) :=
  match memberName member.1 with
  | "id" => (goString t.id member.2).map fun id => { t with id }
  | "task_type" => (goString t.taskType member.2).map fun taskType => { t with taskType }
  | "payload" => (payload member.2).map fun payload => { t with payload }
  | "max_retries" => (goInt32 t.maxRetries member.2).map fun maxRetries => { t with maxRetries }
  | "attempts" => (goInt32 t.attempts member.2).map fun attempts => { t with attempts }
  | _ => some t

/-- `json.Unmarshal` of a document into a `TaskMetaData` whose payload member is
read by `payload` and is `zero` at first. -/
def goUnmarshal {P : Type} (payload : Json → Option P) (zero : P) (v : Json) :
    Option (TaskMetaData P) :=
  let t : TaskMetaData P :=
    { id := "", taskType := "", payload := zero, maxRetries := 0, attempts := 0 }
  match v with
  | .obj members => members.foldlM (goMember payload) t
  | .null => some t
  | _ => none

/-! ## `cjson` and Lua -/

mutual

/-- The Lua value of a document. Of two members with one key the later one stays, and an
empty array is the empty table, which is written as an object. -/
def Json.luaValue : Json → Json
  | .arr [] => .obj []
  | .arr (x :: xs) => .arr (x.luaValue :: Json.luaItems xs)
  | .obj members => .obj (Json.luaMembers [] members)
  | v => v

def Json.luaItems : List Json → List Json
  | [] => []
  | x :: xs => x.luaValue :: Json.luaItems xs

def Json.luaMembers (table : List (String × Json)) :
    List (String × Json) → List (String × Json)
  | [] => table
  | (key, v) :: members => Json.luaMembers (setKey key v.luaValue table) members

end

/-- A sign, and the rest. -/
def luaSign : List Char → Bool × List Char
  | '-' :: cs => (true, cs)
  | '+' :: cs => (false, cs)
  | cs => (false, cs)

/-- The exponent of a numeral, which ends there. -/
def luaExponent : List Char → Option Int
  | [] => some 0
  | c :: cs =>
    if c = 'e' ∨ c = 'E' then
      let (negative, digits) := luaSign cs
      if digits = [] ∨ digits.any (fun c => !c.isDigit) then none
      else
        let e : Int := Nat.ofDigitChars 10 digits 0
        some (if negative then -e else e)
    else none

/-- Lua's reading of a string operand: a decimal numeral between blanks. -/
def luaNumber (s : String) : Option ℚ :=
  let blank (c : Char) : Bool := c = ' ' || ('\t' ≤ c && c ≤ '\r')
  let text := ((s.toList.dropWhile blank).reverse.dropWhile blank).reverse
  let (negative, text) := luaSign text
  let (whole, rest) := text.span Char.isDigit
  let (fraction, rest) :=
    match rest with
    | '.' :: rest => rest.span Char.isDigit
    | _ => ([], rest)
  if whole = [] ∧ fraction = [] then none
  else
    (luaExponent rest).map fun e =>
      let value : ℚ := (Nat.ofDigitChars 10 (whole ++ fraction) 0 : ℕ)
      (if negative then -value else value) * 10 ^ (e - (fraction.length : Int))

/-- The table of an API record. -/
def apiTable (t : ApiTask) : Json :=
  .obj [("id", .str t.id), ("task_type", .str t.taskType), ("payload", t.payload),
    ("max_retries", .num t.maxRetries), ("attempts", .num t.attempts)]

instance : BodyCodec JsonBody where
  marshal t := .doc (taskTable t)
  unmarshal
    | .doc v => goUnmarshal goBytes none v
    | .text _ => none
  apiMarshal t := .doc (apiTable t)
  apiUnmarshal
    | .doc v => goUnmarshal goRaw .null v
    | .text _ => none
  cjsonDecode
    | .doc v => some v.luaValue
    | .text _ => none
  cjsonEncode v := some (.doc v)
  tonumber := luaNumber

theorem goInt32_num (old n : Int) :
    goInt32 old (.num n) = if inInt32 n then some n else none := by
  simp [goInt32]

/-- A document with the five members, each under its own name and in struct order. -/
private theorem goUnmarshal_members {P : Type} (payload : Json → Option P) (zero p : P) (v : Json)
    (id taskType : String) (maxRetries attempts : Int) (hp : payload v = some p) :
    goUnmarshal payload zero (.obj [("id", .str id), ("task_type", .str taskType),
        ("payload", v), ("max_retries", .num maxRetries), ("attempts", .num attempts)]) =
      if inInt32 maxRetries ∧ inInt32 attempts then
        some { id, taskType, payload := p, maxRetries, attempts }
      else none := by
  have hid : memberName "id" = "id" := by decide
  have htype : memberName "task_type" = "task_type" := by decide
  have hpayload : memberName "payload" = "payload" := by decide
  have hmax : memberName "max_retries" = "max_retries" := by decide
  have hattempts : memberName "attempts" = "attempts" := by decide
  by_cases hm : inInt32 maxRetries <;> by_cases ha : inInt32 attempts <;>
    simp [goUnmarshal, goMember, hid, htype, hpayload, hmax, hattempts, goString, hp,
      goInt32_num, hm, ha]

theorem goBytes_payloadJson (payload : Option (List UInt8)) :
    goBytes (payloadJson payload) = some payload := by
  cases payload with
  | none => rfl
  | some bytes =>
    rw [payloadJson, goBytes, String.toList_ofList, decodePad64_encodePad64]
    rfl

theorem luaValue_payloadJson (payload : Option (List UInt8)) :
    (payloadJson payload).luaValue = payloadJson payload := by
  cases payload <;> rfl

/-- The document of a task table is a document of the record. -/
theorem JsonBody.isDoc (t : ModelTask) : IsDoc (JsonBody.doc (taskTable t)) t where
  lua := by
    show some (taskTable t).luaValue = some (taskTable t)
    simp [taskTable, Json.luaValue, Json.luaMembers, setKey, luaValue_payloadJson]
  go := goUnmarshal_members goBytes none t.payload _ _ _ _ _ (goBytes_payloadJson t.payload)
  api := goUnmarshal_members goRaw .null _ _ _ _ _ _ rfl

theorem goInt32_fits {old : Int} {v : Json} {n : Int} (hold : inInt32 old)
    (h : goInt32 old v = some n) : inInt32 n := by
  unfold goInt32 at h
  split at h
  · obtain rfl := Option.some.inj h
    exact hold
  · split at h
    · next hq =>
      obtain rfl := Option.some.inj h
      exact hq.2
    · cases h
  · cases h

theorem goMember_fits {P : Type} {payload : Json → Option P} {t t' : TaskMetaData P}
    {member : String × Json} (ht : t.Fits) (h : goMember payload t member = some t') :
    t'.Fits := by
  unfold goMember at h
  split at h
  · obtain ⟨_, -, rfl⟩ := Option.map_eq_some_iff.mp h
    exact ht
  · obtain ⟨_, -, rfl⟩ := Option.map_eq_some_iff.mp h
    exact ht
  · obtain ⟨_, -, rfl⟩ := Option.map_eq_some_iff.mp h
    exact ht
  · obtain ⟨_, hm, rfl⟩ := Option.map_eq_some_iff.mp h
    exact ⟨goInt32_fits ht.1 hm, ht.2⟩
  · obtain ⟨_, ha, rfl⟩ := Option.map_eq_some_iff.mp h
    exact ⟨ht.1, goInt32_fits ht.2 ha⟩
  · obtain rfl := Option.some.inj h
    exact ht

/-- What `json.Unmarshal` returns has counters within `int32`. -/
theorem goUnmarshal_fits {P : Type} {payload : Json → Option P} {zero : P} {v : Json}
    {t : TaskMetaData P} (h : goUnmarshal payload zero v = some t) : t.Fits := by
  have hmembers : ∀ (members : List (String × Json)) (t₀ : TaskMetaData P), t₀.Fits →
      members.foldlM (goMember payload) t₀ = some t → t.Fits := by
    intro members
    induction members with
    | nil =>
      intro t₀ ht h
      obtain rfl := Option.some.inj h
      exact ht
    | cons member members ih =>
      intro t₀ ht h
      rw [List.foldlM_cons, Option.bind_eq_bind, Option.bind_eq_some_iff] at h
      obtain ⟨t₁, hone, hrest⟩ := h
      exact ih t₁ (goMember_fits ht hone) hrest
  have hzero : inInt32 0 := by decide
  cases v with
  | obj members => exact hmembers members _ ⟨hzero, hzero⟩ h
  | null =>
    obtain rfl := Option.some.inj h
    exact ⟨hzero, hzero⟩
  | bool b => cases h
  | num q => cases h
  | str s => cases h
  | arr items => cases h

instance : ApiCodec JsonBody where
  apiUnmarshal_fits b t h := by
    cases b with
    | text s => cases h
    | doc v => exact goUnmarshal_fits h
  apiUnmarshal_apiMarshal t ht :=
    (goUnmarshal_members goRaw .null t.payload _ _ _ _ _ rfl).trans (if_pos ht)

instance : TaskCodec JsonBody where
  marshal_isDoc t _ := JsonBody.isDoc t
  apiMarshal_isDoc t _ := JsonBody.isDoc t
  cjsonEncode_isDoc t := ⟨.doc (taskTable t), rfl, JsonBody.isDoc t⟩

example : luaNumber " -12.5e1 " = some (-125) := by decide +kernel

end ForgeQueue
