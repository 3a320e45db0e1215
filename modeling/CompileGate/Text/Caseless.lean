/-
CompileGate/Text/Caseless.lean

Known beginnings read without regard to case.  Beyond the two ASCII forms of a
letter, the long `ſ` counts as an `s`, and the dotted and dotless forms of `i`
count as an `i`.
-/
import CompileGate.Text.Basic

namespace CompileGate
namespace Text

/-- Whether a code point is a form of a lower-case letter or mark. -/
def isFormOf (letter c : CodePoint) : Bool :=
  c.toAsciiLower = letter || (letter = 's' && c = 'ſ')
    || (letter = 'i' && (c = 'İ' || c = 'ı'))

/-- The text after a known beginning, in any case; the beginning is given in lower case. -/
def afterCaseless? : (letters : Text) → Text → Option Text
  | [], t => some t
  | _ :: _, [] => none
  | letter :: letters, c :: t => if isFormOf letter c then afterCaseless? letters t else none

end Text

end CompileGate
