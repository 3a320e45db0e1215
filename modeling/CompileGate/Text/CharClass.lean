/-
CompileGate/Text/CharClass.lean

Classes of code points given as tables.  A class is the increasing list of
numbers at which membership flips: below the first number a code point is
outside, from there to the next it is inside, and so on.  A lookup walks the
list and stops at the first number above the code point, so the Latin part of
each class costs a few comparisons.
-/
import CompileGate.Text.Basic

namespace CompileGate

/-- The numbers at which membership flips, in increasing order. -/
abbrev CharClass := List Nat

namespace CharClass

/-- Whether `n` is a member, when numbers below the first flip are `inside`. -/
def memberFrom (inside : Bool) : CharClass → Nat → Bool
  | [], _ => inside
  | flip :: flips, n => if n < flip then inside else memberFrom (!inside) flips n

/-- Whether a code point belongs to a class. -/
def contains (cls : CharClass) (c : CodePoint) : Bool := memberFrom false cls c.toNat

end CharClass

end CompileGate
