/-
CompileGate/Json/Display.lean

Values as messages show them.  A text by itself is shown as it is; inside a list
or an object, or where a quoted form is asked for, it stands between quotes.
-/
import CompileGate.Json.Value
import CompileGate.Number.Decimal
import CompileGate.Text.Quoted

namespace CompileGate
namespace Json

mutual

/-- A value with its texts between quotes. -/
def quoted : Json → Text
  | .null => "None"
  | .bool true => "True"
  | .bool false => "False"
  | .int n => Text.ofInt n
  | .float x => Decimal.shortest x
  | .string s => Text.quoted s
  | .array items => "[" ++ Text.join ", " (quotedItems items) ++ "]"
  | .object members => "\x7b" ++ Text.join ", " (quotedMembers members) ++ "\x7d"

def quotedItems : List Json → List Text
  | [] => []
  | item :: items => quoted item :: quotedItems items

def quotedMembers : List (Text × Json) → List Text
  | [] => []
  | (name, value) :: members =>
    (Text.quoted name ++ ": " ++ quoted value) :: quotedMembers members

end

/-- A value as a message shows it. -/
def display : Json → Text
  | .string s => s
  | value => quoted value

end Json

end CompileGate
