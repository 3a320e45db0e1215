/-
CompileGate/Number/Places.lean

Decimal texts with a chosen number of places.

* `fixed` has so many digits after its point.
* `exponential` has one digit before its point, so many after it, and an
  exponent.
* `generalForm` has so many significant digits and is one of the two, whichever
  suits the size of the number; the zeros at its end are dropped unless they are
  asked for.

All are rounded from the exact value, ties to the even digit.
-/
import CompileGate.Number.Decimal

namespace CompileGate
namespace Decimal

/-- The text of a number that is not finite, and for one that is, its sign before the text of its
magnitude, which is given as a quotient. -/
def withSign (magnitude : Nat → Nat → Text) (x : Binary64) : Text :=
  match x.unpack with
  | .nan => "nan"
  | .infinite negative => if negative then "-inf" else "inf"
  | .finite negative significand exponent =>
    let (num, den) := Binary64.ratio significand exponent
    (if negative then ("-" : Text) else []) ++ magnitude num den

/-- Digits before and after a point; a point with nothing after it is written if `keepPoint`. -/
def pointed (whole fraction : Text) (keepPoint : Bool) : Text :=
  if fraction.isEmpty && !keepPoint then whole else whole ++ "." ++ fraction

/-- A number with `places` digits after its point. -/
def fixed (places : Nat) (keepPoint : Bool) : Binary64 → Text :=
  withSign fun num den =>
    let digits := Text.padZeros (places + 1)
      (Text.ofNat (Binary64.divNearest (num * tenTo places) den))
    let whole := digits.length - places
    pointed (digits.take whole) (digits.drop whole) keepPoint

/-- `num / den` in `count` digits, zero included. -/
def roundAny (num den count : Nat) : Scaled :=
  if num = 0 then ⟨0, count, 1⟩ else round num den count

/-- All digits of a scaled decimal. -/
def Scaled.all (s : Scaled) : Text := Text.padZeros s.count (Text.ofNat s.digits)

/-- A number with one digit before its point and `places` after it. -/
def exponential (places : Nat) (keepPoint : Bool) : Binary64 → Text :=
  withSign fun num den =>
    let s := roundAny num den (places + 1)
    pointed (s.all.take 1) (s.all.drop 1) keepPoint ++ exponentText (s.point - 1)

/-- A number in `count` significant digits, at least one; zeros at its end are kept if
`keepZeros`. -/
def generalForm (count : Nat) (keepZeros : Bool) (x : Binary64) : Text :=
  let count := max 1 count
  if keepZeros then
    withSign (fun num den =>
      let s := roundAny num den count
      if -4 < s.point && s.point ≤ count then
        match s.point with
        | .ofNat (p + 1) => pointed (s.all.take (p + 1)) (s.all.drop (p + 1)) true
        | .ofNat 0 => "0." ++ s.all
        | .negSucc p => "0." ++ List.replicate (p + 1) ('0' : CodePoint) ++ s.all
      else pointed (s.all.take 1) (s.all.drop 1) true ++ exponentText (s.point - 1)) x
  else generalWith count x

end Decimal

end CompileGate
