/-
CompileGate/Number/Binary64.lean

Binary floating-point numbers of 64 bits, as exact data.  A number is its bit
pattern; `unpack` reads the pattern as a sign and a whole number times a power
of two, and `ofRatio` rounds any quotient of whole numbers to the nearest
pattern, ties to the even one.  Nothing here computes with machine floats, so
every statement about these numbers is one about whole numbers.
-/
import CompileGate.Number.Power
import CompileGate.Text.Basic

namespace CompileGate

/-- A floating-point number of 64 bits, as its bit pattern. -/
structure Binary64 where
  bits : UInt64
deriving DecidableEq

namespace Binary64

/-- What a bit pattern stands for. -/
inductive Unpacked
  | nan
  | infinite (negative : Bool)
  /-- The number `significand * 2 ^ exponent`, or its negative. -/
  | finite (negative : Bool) (significand : Nat) (exponent : Int)

/-- The number of bits after the exponent field. -/
def fractionBits : Nat := 52

/-- The exponent of the least positive number. -/
def leastExponent : Int := -1074

/-- Reads a bit pattern. -/
def unpack (x : Binary64) : Unpacked :=
  let n := x.bits.toNat
  let negative := n / twoTo 63 = 1
  let field := n / twoTo fractionBits % twoTo 11
  let fraction := n % twoTo fractionBits
  if field = 2047 then if fraction = 0 then .infinite negative else .nan
  else if field = 0 then .finite negative fraction leastExponent
  else .finite negative (twoTo fractionBits + fraction) (leastExponent + (field : Nat) - 1)

/-- The bit pattern of a sign and the bits below it. -/
def ofFields (negative : Bool) (magnitude : Nat) : Binary64 :=
  ⟨(magnitude + if negative then twoTo 63 else 0).toUInt64⟩

def infinite (negative : Bool) : Binary64 := ofFields negative (2047 * twoTo fractionBits)

def nan : Binary64 := ⟨0x7FF8000000000000⟩

/-- `num / den`, rounded to the nearest whole number, a half to the even one. -/
def divNearest (num den : Nat) : Nat :=
  let quotient := num / den
  let rest := num % den
  if 2 * rest < den then quotient
  else if 2 * rest = den then quotient + quotient % 2
  else quotient + 1

/-- `num / den / 2 ^ exponent` as a quotient of whole numbers. -/
def scaled (num den : Nat) : (exponent : Int) → Nat × Nat
  | .ofNat e => (num, den * twoTo e)
  | .negSucc e => (num * twoTo (e + 1), den)

/-- The number nearest to `num / den`; `den` is not zero. -/
def ofRatio (negative : Bool) (num den : Nat) : Binary64 :=
  if num = 0 then ofFields negative 0
  else
    -- the quotient lies between `2 ^ (k - 1)` and `2 ^ (k + 1)`
    let k : Int := (Nat.log2 num : Int) - Nat.log2 den
    let guess := k - fractionBits
    let (n, d) := scaled num den guess
    let exponent := max leastExponent (if n < twoTo fractionBits * d then guess - 1 else guess)
    let (n, d) := scaled num den exponent
    let significand := divNearest n d
    -- a significand of `2 ^ 53` carries into the exponent field by itself
    let magnitude :=
      if significand < twoTo fractionBits then significand
      else (exponent - leastExponent).toNat * twoTo fractionBits + significand
    if magnitude ≥ 2047 * twoTo fractionBits then infinite negative else ofFields negative magnitude

/-- The number nearest to `digits * 10 ^ exponent`.  Exponents that lie far outside the range of
the format give zero or infinity without the power being computed. -/
def ofDecimal (negative : Bool) (digits : Nat) (exponent : Int) : Binary64 :=
  if digits = 0 then ofFields negative 0
  else
    let size : Int := (Nat.log2 digits : Int) * 30103 / 100000 + exponent
    if size > 400 then infinite negative
    else if size < -400 then ofFields negative 0
    else match exponent with
      | .ofNat e => ofRatio negative (digits * tenTo e) 1
      | .negSucc e => ofRatio negative digits (tenTo (e + 1))

/-- The number nearest to a whole number. -/
def ofInt (n : Int) : Binary64 := ofDecimal (n < 0) n.natAbs 0

def ofFloat (x : Float) : Binary64 := ⟨x.toBits⟩

def toFloat (x : Binary64) : Float := Float.ofBits x.bits

/-- Zero of either sign. -/
def isZero (x : Binary64) : Bool :=
  match x.unpack with
  | .finite _ 0 _ => true
  | _ => false

/-- The whole number that a number equals, if it equals one. -/
def toInt? (x : Binary64) : Option Int :=
  match x.unpack with
  | .finite negative significand exponent =>
    let magnitude : Option Nat :=
      match exponent with
      | .ofNat e => some (significand * twoTo e)
      | .negSucc e =>
        if significand % twoTo (e + 1) = 0 then some (significand / twoTo (e + 1)) else none
    magnitude.map fun m => if negative then -(m : Int) else m
  | _ => none

/-- The quotient of whole numbers that a finite number is, without its sign. -/
def ratio (significand : Nat) : (exponent : Int) → Nat × Nat
  | .ofNat e => (significand * twoTo e, 1)
  | .negSucc e => (significand, twoTo (e + 1))

end Binary64

end CompileGate
