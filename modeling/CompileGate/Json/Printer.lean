/-
CompileGate/Json/Printer.lean

JSON values as text.  A style fixes the separators, whether code points beyond
ASCII are escaped, and whether members are sorted by name; four styles are in
use.  Floating-point numbers print in the fewest digits that read back, and the
three values that JSON has no numbers for print as words.
-/
import CompileGate.Json.Value
import CompileGate.Number.Decimal

namespace CompileGate
namespace Json

/-- How values are written. -/
structure Style where
  itemSeparator : Text
  nameSeparator : Text
  asciiOnly : Bool
  sorted : Bool

namespace Style

/-- Separators with a space, ASCII alone: documents for the compiler. -/
def spaced : Style := ⟨", ", ": ", true, false⟩

/-- Separators without a space, ASCII alone: replies. -/
def compact : Style := ⟨",", ":", true, false⟩

/-- Members sorted, no spaces, no escapes beyond the necessary: texts to be hashed. -/
def canonical : Style := ⟨",", ":", false, true⟩

/-- Separators with a space, no escapes beyond the necessary: log lines. -/
def logLine : Style := ⟨", ", ": ", false, false⟩

end Style

/-- A UTF-16 unit as an escape. -/
def unicodeEscape (n : Nat) : Text := "\\u" ++ Text.padZeros 4 (Text.hex n)

/-- A code point between the quotes of a string. -/
def escapePoint (asciiOnly : Bool) (c : CodePoint) : Text :=
  if c = '"' then "\\\""
  else if c = '\\' then "\\\\"
  else if c = '\n' then "\\n"
  else if c = '\r' then "\\r"
  else if c = '\t' then "\\t"
  else if c.toNat = 0x08 then "\\b"
  else if c.toNat = 0x0C then "\\f"
  else if c.toNat < 0x20 then unicodeEscape c.toNat
  else if !asciiOnly || c.toNat < 0x7F then [c]
  else if c.toNat < 0x10000 then unicodeEscape c.toNat
  else
    unicodeEscape (0xD800 + (c.toNat - 0x10000) / 0x400)
      ++ unicodeEscape (0xDC00 + (c.toNat - 0x10000) % 0x400)

/-- A string with its quotes. -/
def printString (asciiOnly : Bool) (s : Text) : Text :=
  ('"' : CodePoint) :: s.flatMap (escapePoint asciiOnly) ++ [('"' : CodePoint)]

/-- A floating-point number. -/
def printFloat (x : Binary64) : Text :=
  match x.unpack with
  | .nan => "NaN"
  | .infinite negative => if negative then "-Infinity" else "Infinity"
  | .finite _ _ _ => Decimal.shortest x

/-- The members of an object in the order in which a style writes them. -/
def arrange (style : Style) (members : List (Text × Text)) : List (Text × Text) :=
  if style.sorted then members.mergeSort fun a b => Text.le a.1 b.1 else members

mutual

/-- A value as text. -/
def print (style : Style) : Json → Text
  | .null => "null"
  | .bool true => "true"
  | .bool false => "false"
  | .int n => Text.ofInt n
  | .float x => printFloat x
  | .string s => printString style.asciiOnly s
  | .array items =>
    ('[' : CodePoint) :: Text.join style.itemSeparator (printItems style items)
      ++ [(']' : CodePoint)]
  | .object members =>
    ('{' : CodePoint) ::
      Text.join style.itemSeparator
        ((arrange style (printMembers style members)).map fun (name, value) =>
          printString style.asciiOnly name ++ style.nameSeparator ++ value)
      ++ [('}' : CodePoint)]

/-- The items of an array, each as text. -/
def printItems (style : Style) : List Json → List Text
  | [] => []
  | item :: rest => print style item :: printItems style rest

/-- The members of an object, each with its value as text. -/
def printMembers (style : Style) : List (Text × Json) → List (Text × Text)
  | [] => []
  | (name, value) :: rest => (name, print style value) :: printMembers style rest

end

theorem printItems_eq_map (style : Style) (items : List Json) :
    printItems style items = items.map (print style) := by
  induction items with
  | nil => simp [printItems]
  | cons item rest ih => simp [printItems, ih]

theorem printMembers_eq_map (style : Style) (members : List (Text × Json)) :
    printMembers style members = members.map fun m => (m.1, print style m.2) := by
  induction members with
  | nil => simp [printMembers]
  | cons m rest ih => simp [printMembers, ih]

end Json

end CompileGate
