/-
CompileGate/Import/Span.lean

The import specifiers of a text with their places, in order.  Statements are
found from left to right; the search goes on right after the one just found, so
they do not overlap.
-/
import CompileGate.Import.Statement

namespace CompileGate
namespace Import

/-- A specifier and the places of it and of its statement; ends are exclusive. -/
structure Span where
  specifier : Text
  start : Nat
  stop : Nat
  statementStart : Nat
  statementStop : Nat

/-- The span of a statement found at a place. -/
def Statement.span (s : Statement) (position : Nat) : Span where
  specifier := s.specifier
  start := position + s.lead.length
  stop := position + s.lead.length + s.specifier.length
  statementStart := position
  statementStop := position + s.length

/-- The spans of a text that starts at `position`, of which the first `skip` code points belong
to a statement already found; `inWord` says whether a word code point stands before it. -/
def spansFrom : (inWord : Bool) → (position skip : Nat) → Text → List Span
  | _, _, _, [] => []
  | inWord, position, 0, c :: rest =>
    match if inWord then none else statement? (c :: rest) with
    | some s => s.span position :: spansFrom c.isWord (position + 1) (s.length - 1) rest
    | none => spansFrom c.isWord (position + 1) 0 rest
  | _, position, skip + 1, c :: rest => spansFrom c.isWord (position + 1) skip rest

/-- The import specifiers of a text with their places, in order. -/
def spans (t : Text) : List Span := spansFrom false 0 0 t

/-- The import specifiers of a text, in order. -/
def specifiers (t : Text) : List Text := (spans t).map Span.specifier

end Import

end CompileGate
