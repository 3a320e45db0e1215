/-
CompileGate/Number/Decimal.lean

The decimal texts of floating-point numbers.

* `shortest` has the fewest digits that read back as the same number, and of
  those texts the one nearest to it; it is positional for exponents from -4 to
  15 and scientific beyond, with a point in every positional text.
* `general` has at most six digits, rounded from the exact value with ties to
  the even digit, and drops the zeros at its end.
-/
import CompileGate.Number.Binary64

namespace CompileGate
namespace Decimal

/-- The number `0.d₁d₂…dₙ * 10 ^ point`, where `d₁…dₙ` are the digits of `digits`. -/
structure Scaled where
  digits : Nat
  count : Nat
  point : Int

/-- The number of decimal digits of `n`. -/
def digitCount (n : Nat) : Nat := (Nat.toDigits 10 n).length

/-- `num / den * 10 ^ places` as a quotient. -/
def shifted (num den : Nat) : (places : Int) → Nat × Nat
  | .ofNat p => (num * tenTo p, den)
  | .negSucc p => (num, den * tenTo (p + 1))

/-- The power of ten that `num / den` lies below and a tenth of which it reaches. -/
def pointOf (num den : Nat) : Int :=
  let guess : Int := (digitCount num : Int) - digitCount den
  let (n, d) := shifted num den (-guess)
  if d ≤ n then guess + 1 else guess

/-- `num / den` rounded to `count` digits, ties to the even digit. -/
def round (num den count : Nat) : Scaled :=
  let point := pointOf num den
  let (n, d) := shifted num den (count - point)
  let digits := Binary64.divNearest n d
  if digits = tenTo count then ⟨tenTo (count - 1), count, point + 1⟩ else ⟨digits, count, point⟩

/-- The number nearest to a scaled decimal. -/
def Scaled.read (s : Scaled) : Binary64 := Binary64.ofDecimal false s.digits (s.point - s.count)

/-- The two neighbours of `num / den` among the decimals of `count` digits, the nearer first. -/
def neighbours (num den count : Nat) : List Scaled :=
  let point := pointOf num den
  let (n, d) := shifted num den (count - point)
  let low := n / d
  let below : Scaled := ⟨low, count, point⟩
  let above : Scaled :=
    if low + 1 = tenTo count then ⟨tenTo (count - 1), count, point + 1⟩ else ⟨low + 1, count, point⟩
  if Binary64.divNearest n d = low then [below, above] else [above, below]

/-- The first decimal of `count`, `count + 1`, … digits that reads back as `x`; with 17 digits
one always does. -/
def shortestFrom (x : Binary64) (num den : Nat) : (tries count : Nat) → Scaled
  | 0, count => round num den count
  | tries + 1, count =>
    match (neighbours num den count).find? fun s => s.read = x with
    | some s => s
    | none => shortestFrom x num den tries (count + 1)

/-- The digits of a scaled decimal without the zeros at their end. -/
def Scaled.significant (s : Scaled) : Text :=
  Text.trimEnd (· = '0') (Text.padZeros s.count (Text.ofNat s.digits))

/-- An exponent with its sign and at least two digits. -/
def exponentText (e : Int) : Text :=
  (if e < 0 then "e-" else "e+") ++ Text.padZeros 2 (Text.ofNat e.natAbs)

/-- The digits with a point after the first and an exponent. -/
def scientific (digits : Text) (point : Int) : Text :=
  let mantissa :=
    match digits with
    | [] => "0"
    | [d] => [d]
    | d :: rest => d :: ('.' : CodePoint) :: rest
  mantissa ++ exponentText (point - 1)

/-- The digits with a point in its place and zeros where digits are missing. -/
def positional (digits : Text) (point : Int) (keepPoint : Bool) : Text :=
  match point with
  | .negSucc p => "0." ++ List.replicate (p + 1) ('0' : CodePoint) ++ digits
  | .ofNat 0 => "0." ++ digits
  | .ofNat p =>
    let whole := digits.take p
    let fraction := digits.drop p
    let tail : Text :=
      if !fraction.isEmpty then "." ++ fraction else if keepPoint then ".0" else []
    whole ++ List.replicate (p - whole.length) ('0' : CodePoint) ++ tail

/-- A number in the fewest digits that read back as it. -/
def shortest (x : Binary64) : Text :=
  match x.unpack with
  | .nan => "nan"
  | .infinite negative => if negative then "-inf" else "inf"
  | .finite negative significand exponent =>
    let sign : Text := if negative then "-" else []
    if significand = 0 then sign ++ "0.0"
    else
      let (num, den) := Binary64.ratio significand exponent
      let s := shortestFrom (Binary64.ofFields false (x.bits.toNat % twoTo 63)) num den 17 1
      sign ++
        if -4 < s.point && s.point ≤ 16 then positional s.significant s.point true
        else scientific s.significant s.point

/-- A number in at most `count` significant digits. -/
def generalWith (count : Nat) (x : Binary64) : Text :=
  match x.unpack with
  | .nan => "nan"
  | .infinite negative => if negative then "-inf" else "inf"
  | .finite negative significand exponent =>
    let sign : Text := if negative then "-" else []
    if significand = 0 then sign ++ "0"
    else
      let (num, den) := Binary64.ratio significand exponent
      let s := round num den count
      sign ++
        if -4 < s.point && s.point ≤ count then positional s.significant s.point false
        else scientific s.significant s.point

/-- A number in at most six significant digits. -/
def general (x : Binary64) : Text := generalWith 6 x

end Decimal

end CompileGate
