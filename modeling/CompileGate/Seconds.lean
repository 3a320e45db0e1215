/-
CompileGate/Seconds.lean

Clock readings and durations.  The library is generic in them: it only adds,
subtracts and compares, and writes a duration in a message.  It runs on
floating-point seconds; statements about deadlines can be made over an exact
number type.
-/
import CompileGate.Number.Decimal

namespace CompileGate

/-- The numbers that measure time. -/
class Seconds (τ : Type) extends Zero τ, Add τ, Sub τ, LE τ, LT τ where
  decLe : DecidableLE τ
  decLt : DecidableLT τ
  /-- The duration that a setting gives. -/
  ofSetting : Binary64 → τ
  /-- A duration in a message. -/
  general : τ → Text

instance decidableLEOfSeconds {τ : Type} [Seconds τ] : DecidableLE τ := Seconds.decLe

instance decidableLTOfSeconds {τ : Type} [Seconds τ] : DecidableLT τ := Seconds.decLt

namespace Seconds

variable {τ : Type} [Seconds τ]

/-- The lesser of two durations; the first of two that do not compare. -/
def least (a b : τ) : τ := if b < a then b else a

/-- Whether no time is left. -/
def isOver (left : τ) : Bool := left ≤ 0

end Seconds

instance secondsOfFloat : Seconds Float where
  zero := 0
  decLe := inferInstance
  decLt := inferInstance
  ofSetting := Binary64.toFloat
  general x := Decimal.general (Binary64.ofFloat x)

end CompileGate
