/-
CompileGate/Log/Template.lean

Message templates.  A template is text with places for values.  A place starts
with `%`; then may come a member name between parentheses, flags, a width, a
precision and a length mark, and last the letter of a conversion.  `%%` stands
for `%`.

Values fill the places in order, and all of them must be used.  When the only
value is an object, places may take its members by name instead.  A template
that its values do not fit gives no message.
-/
import CompileGate.Json.Display
import CompileGate.Number.Places

namespace CompileGate
namespace Log

/-! ### The form of a place -/

/-- How long a field is: not said, said, or given by a value. -/
inductive Extent
  | unsaid
  | said (n : Nat)
  | given
deriving DecidableEq

/-- The flags of a place. -/
structure Flags where
  left : Bool
  plus : Bool
  blank : Bool
  alternate : Bool
  zero : Bool
deriving DecidableEq

/-- A place for a value. -/
structure Place where
  member : Option Text
  flags : Flags
  width : Extent
  precision : Extent
  letter : CodePoint

/-- A piece of a template. -/
inductive Piece
  | literal (c : CodePoint)
  | place (p : Place)

def Flags.none : Flags := ⟨false, false, false, false, false⟩

/-- The flags at the front of a text. -/
def takeFlags (flags : Flags) : Text → Flags × Text
  | [] => (flags, [])
  | c :: rest =>
    if c = '-' then takeFlags { flags with left := true } rest
    else if c = '+' then takeFlags { flags with plus := true } rest
    else if c = ' ' then takeFlags { flags with blank := true } rest
    else if c = '#' then takeFlags { flags with alternate := true } rest
    else if c = '0' then takeFlags { flags with zero := true } rest
    else (flags, c :: rest)

/-- The extent at the front of a text; where none is written it is `default`. -/
def takeExtent (default : Extent) : Text → Extent × Text
  | [] => (default, [])
  | c :: rest =>
    if c = '*' then (.given, rest)
    else
      let (digits, after) := (c :: rest).span CodePoint.isAsciiDigit
      if digits.isEmpty then (default, c :: rest) else (.said (Text.digitsValue digits), after)

/-- The precision at the front of a text; a point alone says zero. -/
def takePrecision : Text → Extent × Text
  | [] => (.unsaid, [])
  | c :: rest => if c = '.' then takeExtent (.said 0) rest else (.unsaid, c :: rest)

/-- The member name at the front of a text, after its opening parenthesis; parentheses inside it
come in pairs. -/
def takeMember : (depth : Nat) → Text → Option (Text × Text)
  | _, [] => none
  | depth, c :: rest =>
    if c = ')' then
      match depth with
      | 0 => some ([], rest)
      | depth + 1 => (takeMember depth rest).map fun (name, after) => (c :: name, after)
    else
      (takeMember (if c = '(' then depth + 1 else depth) rest).map fun (name, after) =>
        (c :: name, after)

/-- The text after a length mark, if one is at its front. -/
def dropLengthMark : Text → Text
  | [] => []
  | c :: rest => if c = 'h' || c = 'l' || c = 'L' then rest else c :: rest

/-- The place at the front of a text, after its `%`. -/
def takePlace (t : Text) : Option (Place × Text) := do
  let (member, t) ←
    match t with
    | c :: rest =>
      if c = '(' then (takeMember 0 rest).map fun (name, after) => (some name, after)
      else some (none, t)
    | [] => none
  let (flags, t) := takeFlags .none t
  let (width, t) := takeExtent .unsaid t
  let (precision, t) := takePrecision t
  match dropLengthMark t with
  | [] => none
  | letter :: rest => some (⟨member, flags, width, precision, letter⟩, rest)

/-- The piece at the front of a text, and the rest. -/
def takePiece (c : CodePoint) (rest : Text) : Option (Piece × Text) :=
  if c ≠ '%' then some (.literal c, rest)
  else if Text.startsWith "%" rest then some (.literal '%', rest.tail)
  else (takePlace rest).map fun (place, rest) => (.place place, rest)

/-- The pieces of a template; `fuel` bounds their number. -/
def piecesWith : (fuel : Nat) → Text → Option (List Piece)
  | _, [] => some []
  | 0, _ => none
  | fuel + 1, c :: rest => do
    let (piece, rest) ← takePiece c rest
    return piece :: (← piecesWith fuel rest)

/-- The pieces of a template, if it is well formed. -/
def pieces (template : Text) : Option (List Piece) := piecesWith template.length template

/-! ### Fields -/

/-- A converted value: its sign or what stands for one, a mark of its base, and the rest. -/
structure Converted where
  sign : Text
  mark : Text
  body : Text
  /-- Whether zeros may fill the field. -/
  numeric : Bool

/-- A converted value that is no number. -/
def Converted.plain (t : Text) : Converted := ⟨[], [], t, false⟩

/-- The sign of a number under the flags. -/
def signOf (flags : Flags) (negative : Bool) : Text :=
  if negative then "-" else if flags.plus then "+" else if flags.blank then " " else []

/-- A converted value in a field of a width. -/
def Converted.fill (flags : Flags) (width : Nat) (c : Converted) : Text :=
  let lead := c.sign ++ c.mark
  let missing := width - (lead.length + c.body.length)
  if flags.left then lead ++ c.body ++ List.replicate missing (' ' : CodePoint)
  else if flags.zero && c.numeric then lead ++ List.replicate missing ('0' : CodePoint) ++ c.body
  else List.replicate missing (' ' : CodePoint) ++ lead ++ c.body

/-! ### Conversions -/

/-- The whole number that a value counts as. -/
def wholeOf : Json → Option Int
  | .int n => some n
  | .bool b => some (if b then 1 else 0)
  | _ => none

/-- A number cut to a whole one. -/
def cutOf : Json → Option Int
  | .float x =>
    match x.unpack with
    | .finite negative significand exponent =>
      let (num, den) := Binary64.ratio significand exponent
      some (if negative then -((num / den : Nat) : Int) else ((num / den : Nat) : Int))
    | _ => none
  | value => wholeOf value

/-- The floating-point number that a value counts as. -/
def realOf : Json → Option Binary64
  | .float x => some x
  | value => do
    let x := Binary64.ofInt (← wholeOf value)
    match x.unpack with
    | .finite .. => some x
    | _ => none

/-- A whole number in a base, with at least `least` digits. -/
def wholeIn (base : Nat) (mark : Text) (flags : Flags) (least : Nat) (n : Int) : Converted :=
  let digits : Text := (Nat.toDigits base n.natAbs).map CodePoint.ofChar
  ⟨signOf flags (n < 0), if flags.alternate then mark else [], Text.padZeros least digits, true⟩

/-- A real number, written by `write` without its sign. -/
def realWith (write : Binary64 → Text) (flags : Flags) (x : Binary64) : Converted :=
  match Text.afterStart? "-" (write x) with
  | some body => ⟨signOf flags true, [], body, true⟩
  | none => ⟨signOf flags false, [], write x, true⟩

/-- A value converted under a letter; a length is the greatest number of code points of a text
and the least number of digits of a whole number. -/
def convert (letter : CodePoint) (flags : Flags) (precision : Option Nat) (value : Json) :
    Option Converted :=
  let text (t : Text) : Option Converted :=
    some (.plain (match precision with | some n => t.take n | none => t))
  let real (write : Binary64 → Text) : Option Converted :=
    (realOf value).map (realWith write flags)
  let places := precision.getD 6
  if letter = 's' then text (Json.display value)
  else if letter = 'r' then text (Json.quoted value)
  else if letter = 'a' then text (Text.escapeBeyondAscii (Json.quoted value))
  else if letter = 'd' || letter = 'i' || letter = 'u' then
    (cutOf value).map (wholeIn 10 [] flags (precision.getD 0))
  else if letter = 'x' then (wholeOf value).map (wholeIn 16 "0x" flags (precision.getD 0))
  else if letter = 'X' then
    (wholeOf value).map fun n =>
      let c := wholeIn 16 "0X" flags (precision.getD 0) n
      { c with body := Text.toAsciiUpper c.body }
  else if letter = 'o' then (wholeOf value).map (wholeIn 8 "0o" flags (precision.getD 0))
  else if letter = 'c' then
    match value with
    | .string [c] => some (.plain [c])
    | value =>
      match wholeOf value with
      | some (.ofNat n) => if n < 0x110000 then some (.plain [CodePoint.ofNat n]) else none
      | _ => none
  else if letter = 'f' then real (Decimal.fixed places flags.alternate)
  else if letter = 'F' then real (Text.toAsciiUpper ∘ Decimal.fixed places flags.alternate)
  else if letter = 'e' then real (Decimal.exponential places flags.alternate)
  else if letter = 'E' then real (Text.toAsciiUpper ∘ Decimal.exponential places flags.alternate)
  else if letter = 'g' then real (Decimal.generalForm places flags.alternate)
  else if letter = 'G' then real (Text.toAsciiUpper ∘ Decimal.generalForm places flags.alternate)
  else none

/-! ### Filling a template -/

/-- The values that a template is filled with: those left, in order, and the object whose members
may be taken by name. -/
structure Supply where
  left : List Json
  named : Option (Table Json)

/-- The supply of a list of values. -/
def Supply.ofList : List Json → Supply
  | [.object (entry :: members)] => ⟨[.object (entry :: members)], some (entry :: members)⟩
  | values => ⟨values, none⟩

/-- The next value. -/
def Supply.next (s : Supply) : Option (Json × Supply) :=
  match s.left with
  | [] => none
  | value :: rest => some (value, { s with left := rest })

/-- The greatest extent. -/
def maxExtent : Nat := 2147483647

/-- An extent as a number. -/
def Supply.extent (s : Supply) : Extent → Option (Option Int × Supply)
  | .unsaid => some (none, s)
  | .said n => if n ≤ maxExtent then some (some n, s) else none
  | .given => do
    let (value, s) ← s.next
    let n ← wholeOf value
    if n.natAbs ≤ maxExtent then return (some n, s) else none

/-- The supply for a place that takes a member by name. -/
def Supply.select (s : Supply) : Option Text → Option Supply
  | none => some s
  | some name => do
    let value ← Table.get? name (← s.named)
    return { s with left := [value] }

/-- Fills a place.  A negative width counts from the other side; a negative precision is zero. -/
def Supply.fillPlace (p : Place) (s : Supply) : Option (Text × Supply) := do
  let s ← s.select p.member
  let (width, s) ← s.extent p.width
  let (precision, s) ← s.extent p.precision
  let (value, s) ← s.next
  let width := width.getD 0
  let flags := if width < 0 then { p.flags with left := true } else p.flags
  let converted ← convert p.letter flags (precision.map Int.toNat) value
  return (converted.fill flags width.natAbs, s)

/-- Fills the pieces of a template. -/
def Supply.fillPieces (s : Supply) : List Piece → Option Text
  | [] => if s.left.isEmpty || s.named.isSome then some [] else none
  | .literal c :: rest => (s.fillPieces rest).map (c :: ·)
  | .place p :: rest => do
    let (t, s) ← s.fillPlace p
    return t ++ (← s.fillPieces rest)

/-- The message of a template and its values; a template without values is the message. -/
def fillTemplate (template : Text) (values : List Json) : Option Text :=
  if values.isEmpty then some template
  else do (Supply.ofList values).fillPieces (← pieces template)

end Log

end CompileGate
