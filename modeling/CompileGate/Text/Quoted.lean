/-
CompileGate/Text/Quoted.lean

A text as messages show it: between quotes, with the code points that would not
show written as escapes.  The quote is `'`, or `"` when the text holds `'` and
no `"`.
-/
import CompileGate.Text.Printable

namespace CompileGate
namespace Text

/-- The quote that a text is shown in. -/
def quoteFor (t : Text) : CodePoint :=
  if t.contains ('\'' : CodePoint) && !t.contains ('"' : CodePoint) then '"' else '\''

/-- A code point as it is shown between quotes. -/
def quotedPoint (quote c : CodePoint) : Text :=
  if c = quote || c = '\\' then [('\\' : CodePoint), c]
  else if c = '\n' then "\\n"
  else if c = '\r' then "\\r"
  else if c = '\t' then "\\t"
  else if c.isPrintable then [c]
  else if c.toNat < 0x100 then "\\x" ++ padZeros 2 (hex c.toNat)
  else if c.toNat < 0x10000 then "\\u" ++ padZeros 4 (hex c.toNat)
  else "\\U" ++ padZeros 8 (hex c.toNat)

/-- A text between quotes, with escapes for what would not show. -/
def quoted (t : Text) : Text :=
  quoteFor t :: t.flatMap (quotedPoint (quoteFor t)) ++ [quoteFor t]

/-- A text with escapes for the code points beyond ASCII. -/
def escapeBeyondAscii (t : Text) : Text :=
  t.flatMap fun c =>
    if c.isAscii then [c]
    else if c.toNat < 0x100 then "\\x" ++ padZeros 2 (hex c.toNat)
    else if c.toNat < 0x10000 then "\\u" ++ padZeros 4 (hex c.toNat)
    else "\\U" ++ padZeros 8 (hex c.toNat)

end Text

end CompileGate
