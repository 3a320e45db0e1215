/-
CompileGate/Import/Statement.lean

Import statements of contract sources, found lexically: comments and strings are
not told apart from code.  After the word that opens a statement come

    "X";
    "X" as N;
    * as N from "X";
    {A, B as C} from "X";

A statement is the word `import` at a word boundary, a gap, a quoted specifier,
perhaps `as` and a name, and `;`.  The gap is blank, or it starts with a blank,
holds no quote and no `;`, and ends in the word `from` and blanks.  Since a gap
ends at the first quote, at most one statement starts at a place, and reading it
needs no search.
-/
import CompileGate.Text.Blank
import CompileGate.Text.Word

namespace CompileGate
namespace Import

/-- A statement in three parts; their concatenation is its text. -/
structure Statement where
  /-- From `import` to the opening quote. -/
  lead : Text
  /-- The text between the quotes. -/
  specifier : Text
  /-- From the closing quote to `;`. -/
  tail : Text

def isQuote (c : CodePoint) : Bool := c = '"' || c = '\''

/-- A code point at which a gap ends, whether or not a specifier starts there. -/
def endsGap (c : CodePoint) : Bool := isQuote c || c = ';'

/-- A code point that a specifier may hold. -/
def isSpecifierPoint (c : CodePoint) : Bool := !isQuote c && c ≠ '\r' && c ≠ '\n'

/-- Whether a text ends in the word `from`, with a boundary before it, and blanks. -/
def endsInFrom (gap : Text) : Bool :=
  let back := gap.reverse
  let word := back.dropWhile CodePoint.isBlank
  word.length < back.length &&
    match Text.afterStart? "morf" word with
    | some (c :: _) => !c.isWord
    | _ => false

/-- Whether a text may stand between `import` and the opening quote. -/
def isGap (gap : Text) : Bool :=
  match gap with
  | [] => false
  | c :: _ => c.isBlank && (gap.all CodePoint.isBlank || endsInFrom gap)

/-- The first code point of a name. -/
def isNameStart (c : CodePoint) : Bool := c.isAsciiLetter || c = '_' || c = '$'

/-- A later code point of a name. -/
def isNamePoint (c : CodePoint) : Bool := c.isWord || c = '$'

/-- Splits a text after its blanks. -/
def takeBlanks (t : Text) : Text × Text := t.span CodePoint.isBlank

/-- Takes blanks, the word `as`, blanks and a name from the front of a text; takes nothing
where they do not stand. -/
def takeAlias (t : Text) : Text × Text :=
  let (blanks, rest) := takeBlanks t
  match Text.afterStart? "as" rest with
  | none => ([], t)
  | some rest =>
    let (inner, rest) := takeBlanks rest
    match rest with
    | [] => ([], t)
    | c :: more =>
      if blanks.isEmpty || inner.isEmpty || !isNameStart c then ([], t)
      else
        let (name, rest) := more.span isNamePoint
        (blanks ++ "as" ++ inner ++ c :: name, rest)

/-- Takes what follows a specifier, from the closing quote to `;`. -/
def takeTail? (quote : CodePoint) : Text → Option Text
  | [] => none
  | c :: rest =>
    if c = quote then
      let (name, rest) := takeAlias rest
      let (blanks, rest) := takeBlanks rest
      match rest with
      | [] => none
      | d :: _ => if d = ';' then some (c :: name ++ blanks ++ [d]) else none
    else none

/-- The statement at the front of a text, if there is one; whether a word ends before the text
is for the caller to know. -/
def statement? (t : Text) : Option Statement := do
  let rest ← Text.afterStart? "import" t
  let (gap, rest) := rest.span fun c => !endsGap c
  match rest with
  | [] => none
  | quote :: rest =>
    if isQuote quote && isGap gap then
      let (specifier, rest) := rest.span isSpecifierPoint
      if specifier.isEmpty then none
      else
        let tail ← takeTail? quote rest
        return ⟨"import" ++ gap ++ [quote], specifier, tail⟩
    else none

/-- The number of code points of a statement. -/
def Statement.length (s : Statement) : Nat := s.lead.length + s.specifier.length + s.tail.length

end Import

end CompileGate
