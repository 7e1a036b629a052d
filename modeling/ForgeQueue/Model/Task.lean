import ForgeQueue.Base.Text
import Mathlib.Data.Rat.Defs
import Mathlib.Algebra.Order.Ring.Rat

/-!
# Task records and their JSON bodies

`task:<id>` holds a JSON text. Three readers share it: the gateway and the
workers (`model.TaskMetaData`, Go's `encoding/json`), the HTTP API
(`httpapi.TaskMetaData`, the same package with a raw payload) and the Lua
scripts (`cjson`). The text format itself is not part of the repository, so it is
a parameter: `BodyCodec` names the six library calls and `TaskCodec` states what
the code relies on, that a task record survives every encoder/decoder pair. The
Lua side of the values (`nil`, truthiness, arithmetic on a decoded field) is
modelled here, since the scripts depend on it.

Lua numbers are exact rationals, except in `LuaNumbers`. `cjson` writes 14 digits, so its
part of `TaskCodec` holds of counters below 10^14; more failures than that no task sees.
-/

namespace ForgeQueue

open Base

/-- A decoded JSON value. `null` is `cjson.null`: a light userdata, neither `nil`
nor false. `arr` and `obj` are both Lua tables. -/
inductive Json where
  | null
  | bool (b : Bool)
  | num (q : ℚ)
  | str (s : String)
  | arr (items : List Json)
  | obj (fields : List (String × Json))

/-- `type(v) == "table"`. -/
def Json.isTable : Json → Bool
  | .arr _ | .obj _ => true
  | _ => false

/-- `v.key` on a table: `none` is Lua's `nil`. An array has no string keys. -/
def Json.field (t : Json) (key : String) : Option Json :=
  match t with
  | .obj fields => (fields.find? fun f => f.1 == key).map (·.2)
  | _ => none

/-- Replace the value at `key`, or append it. -/
def setKey (key : String) (v : Json) : List (String × Json) → List (String × Json)
  | [] => [(key, v)]
  | f :: rest => if f.1 = key then (key, v) :: rest else f :: setKey key v rest

/-- `t.key = v` on a table. An array with a string key is encoded as an object
whose other keys are the indices. -/
def Json.setField (t : Json) (key : String) (v : Json) : Json :=
  match t with
  | .obj fields => .obj (setKey key v fields)
  | .arr items => .obj (items.mapIdx (fun i x => (toString (i + 1), x)) ++ [(key, v)])
  | other => other

/-- `TaskMetaData` of `internal/model` and of `internal/httpapi`. The two differ
in the payload only: `[]byte` (JSON carries it as a base64 string, `null` when
nil) against `json.RawMessage`. -/
structure TaskMetaData (P : Type) where
  id : String
  taskType : String
  payload : P
  maxRetries : Int
  attempts : Int
  deriving DecidableEq

/-- `model.TaskMetaData`; `none` is the nil slice. -/
abbrev ModelTask := TaskMetaData (Option (List UInt8))

/-- `httpapi.TaskMetaData`. -/
abbrev ApiTask := TaskMetaData Json

/-- The range of Go's `int32`. -/
def inInt32 (n : Int) : Prop := -2 ^ 31 ≤ n ∧ n < 2 ^ 31

instance (n : Int) : Decidable (inInt32 n) := inferInstanceAs (Decidable (_ ∧ _))

/-- Both counters fit the `int32` fields of the Go struct. -/
def TaskMetaData.Fits {P : Type} (t : TaskMetaData P) : Prop :=
  inInt32 t.maxRetries ∧ inInt32 t.attempts

instance {P : Type} (t : TaskMetaData P) : Decidable t.Fits :=
  inferInstanceAs (Decidable (_ ∧ _))

/-- The JSON value of the payload member. -/
def payloadJson : Option (List UInt8) → Json
  | none => .null
  | some bytes => .str (.ofList (encodePad64 bytes))

/-- The record the HTTP API sees. -/
def TaskMetaData.toApi (t : ModelTask) : ApiTask :=
  { id := t.id, taskType := t.taskType, payload := payloadJson t.payload
    maxRetries := t.maxRetries, attempts := t.attempts }

/-- The Lua table of a task record. -/
def taskTable (t : ModelTask) : Json :=
  .obj [("id", .str t.id), ("task_type", .str t.taskType),
    ("payload", payloadJson t.payload), ("max_retries", .num t.maxRetries),
    ("attempts", .num t.attempts)]

/-- The library calls that read and write a stored body. `none` is an error
return in Go and a raised error in Lua. -/
class BodyCodec (Body : Type) where
  /-- `json.Marshal` of a `model.TaskMetaData`. -/
  marshal : ModelTask → Body
  /-- `json.Unmarshal` into a `model.TaskMetaData`. -/
  unmarshal : Body → Option ModelTask
  /-- `json.Marshal` of an `httpapi.TaskMetaData`. -/
  apiMarshal : ApiTask → Body
  /-- `json.Unmarshal` into an `httpapi.TaskMetaData`. -/
  apiUnmarshal : Body → Option ApiTask
  /-- `pcall(cjson.decode, body)`. -/
  cjsonDecode : Body → Option Json
  /-- `cjson.encode(value)`. -/
  cjsonEncode : Json → Option Body
  /-- Lua's conversion of a string operand to a number. -/
  tonumber : String → Option ℚ

export BodyCodec (marshal unmarshal apiMarshal apiUnmarshal cjsonDecode cjsonEncode tonumber)

variable {Body : Type} [BodyCodec Body]

/-- `b` is a JSON text of the task record `t`: every reader sees the same five
fields. The Go readers fail on a counter outside `int32`. -/
structure IsDoc (b : Body) (t : ModelTask) : Prop where
  lua : cjsonDecode b = some (taskTable t)
  go : unmarshal b = if t.Fits then some t else none
  api : apiUnmarshal b = if t.Fits then some t.toApi else none

/-- JSON round-trips task records: a record encoded by any of the three
encoders is a document of that record for all three decoders. -/
class TaskCodec (Body : Type) extends BodyCodec Body where
  marshal_isDoc : ∀ t : ModelTask, t.Fits → IsDoc (marshal t) t
  apiMarshal_isDoc : ∀ t : ModelTask, t.Fits → IsDoc (apiMarshal t.toApi) t
  cjsonEncode_isDoc : ∀ t : ModelTask, ∃ b, cjsonEncode (taskTable t) = some b ∧ IsDoc b t

/-- The API's own encoder and decoder round-trip whatever the decoder returns: its
counters are `int32`, and its payload is any JSON value. -/
class ApiCodec (Body : Type) extends BodyCodec Body where
  apiUnmarshal_fits : ∀ (b : Body) (t : ApiTask), apiUnmarshal b = some t → t.Fits
  apiUnmarshal_apiMarshal : ∀ t : ApiTask, t.Fits → apiUnmarshal (apiMarshal t) = some t

/-! ## Lua operators on a decoded field -/

/-- `(v or 0)` as an operand of `+`: `nil` and `false` fall through to `0`, a
string is converted, anything else raises. -/
def luaArith (Body : Type) [BodyCodec Body] : Option Json → Option ℚ
  | none | some (.bool false) => some 0
  | some (.num q) => some q
  | some (.str s) => tonumber Body s
  | _ => none

/-- `(v or 0)` compared with a number: only numbers compare, strings are not
converted. -/
def luaCompare : Option Json → Option ℚ
  | none | some (.bool false) => some 0
  | some (.num q) => some q
  | _ => none

/-! ## Reading a task table -/

@[simp] theorem taskTable_isTable (t : ModelTask) : (taskTable t).isTable = true := rfl

@[simp] theorem taskTable_attempts (t : ModelTask) :
    (taskTable t).field "attempts" = some (.num t.attempts) := by
  simp [taskTable, Json.field, List.find?]

@[simp] theorem taskTable_maxRetries (t : ModelTask) :
    (taskTable t).field "max_retries" = some (.num t.maxRetries) := by
  simp [taskTable, Json.field, List.find?]

/-- Writing the counter back gives the table of the record with that counter. -/
theorem taskTable_setAttempts (t : ModelTask) (n : Int) :
    (taskTable t).setField "attempts" (.num n) = taskTable { t with attempts := n } := by
  simp [taskTable, Json.setField, setKey]

end ForgeQueue
