import Mathlib.Algebra.Group.Nat.Defs
import Mathlib.Tactic.Common

/-!
# JSON documents

A text is known here by what serde_json makes of it: the value it spells, or nothing when it is
not JSON; a file's content may also not be text at all.  Members of an object keep their order and
their repeats, as the text has them.

`Json.index` and the `as…` readers are `serde_json::Value`'s.  `Json.field` and the `…Field`
readers are what a derived `Deserialize` does with the members of a struct: an unknown member is
ignored, a repeated one refused, and a struct may also be spelled as an array of its fields.
-/

namespace AccountLogUi

/-- A JSON value.  A number is kept apart only when it is a natural one. -/
inductive Json
  | null
  | bool (b : Bool)
  | num (n : ℕ)
  | otherNum (text : String)
  | str (s : String)
  | arr (items : List Json)
  | obj (members : List (String × Json))

/-- A text, as JSON or not. -/
inductive Text
  | json (value : Json)
  | other

/-- A file's content, as text or not. -/
inductive Content
  | text (text : Text)
  | binary

/-- `serde_json::from_str` into a value. -/
def Text.fromStr : Text → Except String Json
  | .json value => .ok value
  | .other => .error "expected value"

namespace Json

/-! ### Values -/

/-- The member of that name.  A value keeps the last of several. -/
def get? (name : String) : Json → Option Json
  | .obj members => (members.reverse.find? fun member => member.1 = name).map Prod.snd
  | _ => none

/-- `value[name]`: null where there is no such member. -/
def index (value : Json) (name : String) : Json := (value.get? name).getD .null

def asObject : Json → Option (List (String × Json))
  | .obj members => some members
  | _ => none

def asStr : Json → Option String
  | .str s => some s
  | _ => none

/-- A number that fits sixty-four bits. -/
def asU64 : Json → Option ℕ
  | .num n => if n < 2 ^ 64 then some n else none
  | _ => none

/-! ### Structs -/

/-- A number that fits thirty-two bits. -/
def deserializeU32 : Json → Except String ℕ
  | .num n => if n < 2 ^ 32 then .ok n else .error "invalid value, expected u32"
  | _ => .error "invalid type, expected u32"

def deserializeString : Json → Except String String
  | .str s => .ok s
  | _ => .error "invalid type, expected a string"

/-- `null` is `None`. -/
def deserializeOption {α : Type} (read : Json → Except String α) : Json → Except String (Option α)
  | .null => .ok none
  | value => (read value).map some

def deserializeVec {α : Type} (read : Json → Except String α) : Json → Except String (List α)
  | .arr items => items.mapM read
  | _ => .error "invalid type, expected a sequence"

/-- The member a struct field is read from: none, the one, or a repeat that is refused. -/
def field (members : List (String × Json)) (name : String) : Except String (Option Json) :=
  match members.filter fun member => member.1 = name with
  | [] => .ok none
  | [member] => .ok (some member.2)
  | _ => .error ("duplicate field " ++ name)

end Json

end AccountLogUi
