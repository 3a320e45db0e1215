/-
CompileGate/Text/Integer.lean

Reading a whole number from a text that a person wrote: blanks around it, a
sign, and decimal digits of any script, between which single underscores may
stand.  More than 4300 digits are refused.
-/
import CompileGate.Text.Blank
import CompileGate.Text.Digit

namespace CompileGate
namespace Integer

/-- The greatest number of digits that a number may have. -/
def maxDigits : Nat := 4300

/-- The six blanks of ASCII that may surround a number. -/
def isOuterBlank (c : CodePoint) : Bool := c = ' ' || (0x09 ≤ c.toNat && c.toNat ≤ 0x0D)

/-- A digit of any script as the ASCII digit, a blank beyond ASCII as a space. -/
def plain (c : CodePoint) : CodePoint :=
  if c.toNat < 127 then c
  else if c.isBlank then ' '
  else match c.digitValue? with
    | some d => CodePoint.ofNat (0x30 + d)
    | none => '?'

/-- A text with plain digits, without the blanks around it. -/
def plainText (t : Text) : Text := Text.trimBoth isOuterBlank (t.map plain)

/-- Removes the underscores of a text in which each stands between two digits. -/
def dropUnderscores? : (afterDigit : Bool) → Text → Option Text
  | _, [] => some []
  | afterDigit, c :: rest =>
    if c = '_' then
      match rest with
      | d :: _ => if afterDigit && d.isAsciiDigit then dropUnderscores? false rest else none
      | [] => none
    else (dropUnderscores? c.isAsciiDigit rest).map (c :: ·)

/-- The sign of a number and what follows it. -/
def takeSign : Text → Bool × Text
  | [] => (false, [])
  | c :: rest =>
    if c = '-' then (true, rest) else if c = '+' then (false, rest) else (false, c :: rest)

/-- The whole number that a text writes. -/
def read? (t : Text) : Option Int := do
  let (negative, digits) := takeSign (plainText t)
  let digits ← dropUnderscores? false digits
  if digits.isEmpty || !digits.all CodePoint.isAsciiDigit || digits.length > maxDigits then none
  else
    let n := Text.digitsValue digits
    return if negative then -(n : Int) else n

end Integer

end CompileGate
