/-
CompileGate/Text/Blank.lean

White space, in the sense of the Unicode property: tabs, line ends, the four
information separators U+001C to U+001F, the next-line control U+0085, the
no-break space and the spaces of every width.
-/
import CompileGate.Text.CharClass

namespace CompileGate

/-- The flips of the class of blanks. -/
def blankFlips : CharClass := [
  9, 14, 28, 33, 133, 134, 160, 161, 5760, 5761, 8192, 8203, 8232, 8234, 8239, 8240, 8287, 8288,
  12288, 12289]

/-- White space in the sense of Unicode. -/
def CodePoint.isBlank (c : CodePoint) : Bool := CharClass.contains blankFlips c

namespace Text

/-- A text without the blanks at its two ends. -/
def strip (t : Text) : Text := trimBoth CodePoint.isBlank t

/-- A text without the blanks at its beginning. -/
def stripStart (t : Text) : Text := t.dropWhile CodePoint.isBlank

/-- The words between blanks. -/
def blankWords (t : Text) : List Text := words CodePoint.isBlank t

end Text

end CompileGate
