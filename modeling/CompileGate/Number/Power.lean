/-
CompileGate/Number/Power.lean

Powers of the two bases that numbers are written in.
-/
namespace CompileGate

/-- A power of two. -/
def twoTo (exponent : Nat) : Nat := Nat.pow 2 exponent

/-- A power of ten. -/
def tenTo (exponent : Nat) : Nat := Nat.pow 10 exponent

end CompileGate
