/-
CompileGate/Json/Value.lean

JSON values.  Whole numbers are kept apart from floating-point ones, since they
print differently, and an object keeps the order of its members.
-/
import CompileGate.Number.Binary64
import CompileGate.Table

namespace CompileGate

/-- A JSON value. -/
inductive Json
  | null
  | bool (b : Bool)
  | int (n : Int)
  | float (x : Binary64)
  | string (s : Text)
  | array (items : List Json)
  | object (members : List (Text × Json))

namespace Json

instance : Inhabited Json := ⟨.null⟩

/-- A text as a value. -/
instance : Coe Text Json := ⟨.string⟩

/-- The member of an object under a name; none when the value is no object. -/
def get? (name : Text) : Json → Option Json
  | .object members => Table.get? name members
  | _ => none

/-- The member under a name, where a missing one counts as null. -/
def getD (name : Text) (value : Json) : Json := (get? name value).getD .null

def isObject : Json → Bool
  | .object _ => true
  | _ => false

def isNull : Json → Bool
  | .null => true
  | _ => false

def text? : Json → Option Text
  | .string s => some s
  | _ => none

def items? : Json → Option (List Json)
  | .array items => some items
  | _ => none

def members? : Json → Option (Table Json)
  | .object members => some members
  | _ => none

def int? : Json → Option Int
  | .int n => some n
  | _ => none

/-- The number that a numeric value is, as a floating-point number. -/
def number? : Json → Option Binary64
  | .int n => some (Binary64.ofInt n)
  | .float x => some x
  | _ => none

/-- Null, false, zero and empty values count as absent. -/
def isEmpty : Json → Bool
  | .null => true
  | .bool b => !b
  | .int n => n = 0
  | .float x => x.isZero
  | .string s => List.isEmpty s
  | .array items => List.isEmpty items
  | .object members => List.isEmpty members

/-- A text, or null in place of a missing one. -/
def ofText? : Option Text → Json
  | none => .null
  | some s => .string s

/-- The name of a value's kind, as messages about misplaced values use it. -/
def kindName : Json → Text
  | .null => "NoneType"
  | .bool _ => "bool"
  | .int _ => "int"
  | .float _ => "float"
  | .string _ => "str"
  | .array _ => "list"
  | .object _ => "dict"

end Json

end CompileGate
