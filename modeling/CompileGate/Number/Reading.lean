/-
CompileGate/Number/Reading.lean

Reading a floating-point number from a text that a person wrote: blanks around
it, a sign, decimal digits of any script with single underscores between them, a
point, an exponent; or one of the words for infinity and for no number.
-/
import CompileGate.Number.Binary64
import CompileGate.Text.Integer

namespace CompileGate
namespace Decimal

/-- The exponent part of a number: nothing, or `e` with a signed run of digits. -/
def readExponent? : Text → Option Int
  | [] => some 0
  | e :: rest =>
    if e = 'e' || e = 'E' then
      let (negative, digits) := Integer.takeSign rest
      if digits.isEmpty || !digits.all CodePoint.isAsciiDigit then none
      else
        let n := Text.digitsValue digits
        some (if negative then -(n : Int) else n)
    else none

/-- The number that digits with a point and an exponent write, after its sign. -/
def readUnsigned? (negative : Bool) (t : Text) : Option Binary64 := do
  let whole := t.takeWhile CodePoint.isAsciiDigit
  let rest := t.drop whole.length
  let (fraction, rest) :=
    match rest with
    | c :: after =>
      if c = '.' then
        let digits := after.takeWhile CodePoint.isAsciiDigit
        (digits, after.drop digits.length)
      else ([], rest)
    | [] => ([], [])
  if whole.isEmpty && fraction.isEmpty then none
  else
    let exponent ← readExponent? rest
    return Binary64.ofDecimal negative (Text.digitsValue (whole ++ fraction))
      (exponent - fraction.length)

/-- The floating-point number that a text writes. -/
def read? (t : Text) : Option Binary64 := do
  let plain ← Integer.dropUnderscores? false (Integer.plainText t)
  let (negative, body) := Integer.takeSign plain
  let word := Text.toAsciiLower body
  if word = "inf" || word = "infinity" then some (Binary64.infinite negative)
  else if word = "nan" then some Binary64.nan
  else readUnsigned? negative body

end Decimal

end CompileGate
