/-
CompileGate/Text/Lines.lean

The lines of a text.  A line ends at a line feed, a carriage return (with the
line feed after it), a vertical tab, a form feed, one of the separators U+001C
to U+001E, the next-line control U+0085, or the separators U+2028 and U+2029.
The end of the last line may be missing.
-/
import CompileGate.Text.Basic

namespace CompileGate

/-- A code point that ends a line. -/
def CodePoint.endsLine (c : CodePoint) : Bool :=
  (0x0A ≤ c.toNat && c.toNat ≤ 0x0D) || (0x1C ≤ c.toNat && c.toNat ≤ 0x1E) || c.toNat = 0x85
    || c.toNat = 0x2028 || c.toNat = 0x2029

namespace Text

/-- The lines of a text, after the beginning `line` of its first line, last code point first.
A line feed right after a carriage return belongs to the same line end. -/
def linesFrom (line : Text) (afterReturn : Bool) : Text → List Text
  | [] => if line.isEmpty then [] else [line.reverse]
  | c :: rest =>
    if c = '\n' && afterReturn then linesFrom [] false rest
    else if c.endsLine then line.reverse :: linesFrom [] (c = '\r') rest
    else linesFrom (c :: line) false rest

/-- The lines of a text, without their ends. -/
def lines (t : Text) : List Text := linesFrom [] false t

end Text

end CompileGate
