/-
CompileGate/Json/Reader.lean

Reading JSON text.  The reader takes what stands at the front of a text and
returns the rest; a failure names its reason and how much text was left, from
which the position follows.

Three words stand for numbers that JSON lacks.  A number is a whole number when
it has neither a fraction nor an exponent, and then has at most 4300 digits.
Escaped surrogates are joined when they form a pair and kept when they do not.
Of two members of one name the later gives the value and the earlier the place.

A container inside a container takes room on the call stack.  Where that is limited,
the reader stops at the first opening bracket for which there is none left, whatever
comes after it.
-/
import CompileGate.Json.Value
import CompileGate.Text.Integer

namespace CompileGate
namespace Json

/-- What a text that is no JSON lacks or has too much. -/
inductive Reason
  | byteOrderMark
  | expectingValue
  | expectingName
  | expectingColon
  | expectingComma
  | extraData
  | unterminatedString
  | controlCharacter
  | badEscape
  | badUnicodeEscape
deriving DecidableEq

/-- The two kinds of containers. -/
inductive Container
  | array
  | object
deriving DecidableEq

/-- Why and where reading stopped; the place is counted from the end. -/
inductive Halt
  | invalid (reason : Reason) (remaining : Nat)
  | longInteger (digits : Nat)
  /-- There was no room for one more container inside those that are open. -/
  | tooDeep (container : Container)
deriving DecidableEq

def isSpace (c : CodePoint) : Bool := c = ' ' || c = '\t' || c = '\n' || c = '\r'

/-- The text after the spaces at its front. -/
def skipSpace (t : Text) : Text := t.dropWhile isSpace

/-! ### Strings -/

def isHighSurrogate (n : Nat) : Bool := 0xD800 ≤ n && n ≤ 0xDBFF

def isLowSurrogate (n : Nat) : Bool := 0xDC00 ≤ n && n ≤ 0xDFFF

/-- The code point of a surrogate pair. -/
def joinSurrogates (high low : Nat) : CodePoint :=
  CodePoint.ofNat (0x10000 + (high - 0xD800) * 0x400 + (low - 0xDC00))

/-- What a one-letter escape stands for. -/
def escaped? (c : CodePoint) : Option CodePoint :=
  if c = '"' then some '"'
  else if c = '\\' then some '\\'
  else if c = '/' then some '/'
  else if c = 'b' then some (CodePoint.ofNat 0x08)
  else if c = 'f' then some (CodePoint.ofNat 0x0C)
  else if c = 'n' then some '\n'
  else if c = 'r' then some '\r'
  else if c = 't' then some '\t'
  else none

/-- The low surrogate that an escape at the front of a text writes, with more text after it. -/
def lowSurrogate? : Text → Option Nat
  | b :: u :: e :: f :: g :: h :: _ :: _ =>
    if b = '\\' && u = 'u' then (Text.hexValue? [e, f, g, h]).filter isLowSurrogate else none
  | _ => none

/-- Reads a string after its opening quote, at which `opening` code points were left;
`done` is what was read, last code point first. -/
def readString (opening : Nat) (done : Text) : Text → Except Halt (Text × Text)
  | [] => .error (.invalid .unterminatedString opening)
  | c :: rest =>
    if c = '"' then .ok (done.reverse, rest)
    else if c = '\\' then
      match rest with
      | [] => .error (.invalid .unterminatedString opening)
      | e :: rest =>
        if e = 'u' then
          match rest with
          | d₁ :: d₂ :: d₃ :: d₄ :: x :: rest =>
            match Text.hexValue? [d₁, d₂, d₃, d₄] with
            | none => .error (.invalid .badUnicodeEscape (rest.length + 6))
            | some n =>
              match if isHighSurrogate n then lowSurrogate? (x :: rest) else none with
              | some low =>
                match rest with
                | _ :: _ :: _ :: _ :: _ :: rest =>
                  readString opening (joinSurrogates n low :: done) rest
                | rest => readString opening (CodePoint.ofNat n :: done) rest
              | none => readString opening (CodePoint.ofNat n :: done) (x :: rest)
          | rest => .error (.invalid .badUnicodeEscape (rest.length + 1))
        else match escaped? e with
          | some c => readString opening (c :: done) rest
          | none => .error (.invalid .badEscape (rest.length + 2))
    else if c.toNat < 0x20 then .error (.invalid .controlCharacter (rest.length + 1))
    else readString opening (c :: done) rest

/-! ### Numbers and words -/

/-- The digits at the front of a text, and the rest. -/
def takeDigits (t : Text) : Text × Text := t.span CodePoint.isAsciiDigit

/-- The digits of a fraction at the front of a text, after its point. -/
def takeFraction : Text → Text × Text
  | c :: rest =>
    if c = '.' then
      let (digits, after) := takeDigits rest
      if digits.isEmpty then ([], c :: rest) else (digits, after)
    else ([], c :: rest)
  | [] => ([], [])

/-- The exponent at the front of a text. -/
def takeExponent : Text → Option Int × Text
  | c :: rest =>
    if c = 'e' || c = 'E' then
      let (negative, after) := Integer.takeSign rest
      let (digits, after) := takeDigits after
      if digits.isEmpty then (none, c :: rest)
      else
        let n : Int := Text.digitsValue digits
        (some (if negative then -n else n), after)
    else (none, c :: rest)
  | [] => (none, [])

/-- The whole part of a number: a zero alone, or digits that start with none. -/
def takeWhole : Text → Option (Text × Text)
  | c :: rest =>
    if c = '0' then some ([c], rest)
    else if c.isAsciiDigit then some (takeDigits (c :: rest))
    else none
  | [] => none

/-- Reads a number, if one stands at the front. -/
def readNumber? (t : Text) : Option (Except Halt (Json × Text)) :=
  let (negative, unsigned) :=
    match t with
    | c :: rest => if c = '-' then (true, rest) else (false, t)
    | [] => (false, t)
  (takeWhole unsigned).map fun (whole, rest) =>
    let (fraction, rest) := takeFraction rest
    let (exponent, rest) := takeExponent rest
    if fraction.isEmpty && exponent.isNone then
      if whole.length > Integer.maxDigits then .error (.longInteger whole.length)
      else
        let n : Int := Text.digitsValue whole
        .ok (.int (if negative then -n else n), rest)
    else
      .ok (.float (Binary64.ofDecimal negative (Text.digitsValue (whole ++ fraction))
        (exponent.getD 0 - fraction.length)), rest)

/-- The words that are values. -/
def words : List (Text × Json) :=
  [("null", .null), ("true", .bool true), ("false", .bool false), ("NaN", .float Binary64.nan),
    ("Infinity", .float (Binary64.infinite false)), ("-Infinity", .float (Binary64.infinite true))]

/-- Reads a word that is a value, if one stands at the front. -/
def readWord? (t : Text) : Option (Json × Text) :=
  words.findSome? fun (word, value) => (Text.afterStart? word t).map fun rest => (value, rest)

/-- Reads a value that is neither a string nor a container. -/
def readScalar (t : Text) : Except Halt (Json × Text) :=
  match readWord? t with
  | some result => .ok result
  | none =>
    match readNumber? t with
    | some step => step
    | none => .error (.invalid .expectingValue t.length)

/-! ### Containers -/

/-- Reads the name of a member and the colon after it, and the spaces on both sides. -/
def readName : Text → Except Halt (Text × Text)
  | [] => .error (.invalid .expectingName 0)
  | c :: rest =>
    if c = '"' then do
      let (name, rest) ← readString (rest.length + 1) [] rest
      match skipSpace rest with
      | [] => .error (.invalid .expectingColon 0)
      | c :: rest =>
        if c = ':' then .ok (name, skipSpace rest)
        else .error (.invalid .expectingColon (rest.length + 1))
    else .error (.invalid .expectingName (rest.length + 1))

/-- The room inside a container that is opened; no number stands for room without end. -/
def enter (container : Container) : (room : Option Nat) → Except Halt (Option Nat)
  | none => .ok none
  | some 0 => .error (.tooDeep container)
  | some (room + 1) => .ok (some room)

mutual

/-- Reads the value at the front of a text, with room for so many containers inside each other.
Each call takes from `fuel`; twice the length of the text is enough. -/
def readValue : (room : Option Nat) → (fuel : Nat) → Text → Except Halt (Json × Text)
  | _, 0, t => .error (.invalid .expectingValue t.length)
  | _, _ + 1, [] => .error (.invalid .expectingValue 0)
  | room, fuel + 1, c :: rest =>
    if c = '"' then do
      let (s, rest) ← readString (rest.length + 1) [] rest
      return (.string s, rest)
    else if c = '[' then do
      let room ← enter .array room
      match skipSpace rest with
      | [] => .error (.invalid .expectingValue 0)
      | d :: after =>
        if d = ']' then .ok (.array [], after)
        else do
          let (items, rest) ← readItems room fuel (d :: after)
          return (.array items, rest)
    else if c = '{' then do
      let room ← enter .object room
      match skipSpace rest with
      | [] => .error (.invalid .expectingName 0)
      | d :: after =>
        if d = '}' then .ok (.object [], after)
        else do
          let (members, rest) ← readMembers room fuel (d :: after)
          return (.object (Table.ofList members), rest)
    else readScalar (c :: rest)

/-- Reads the items of an array up to its end. -/
def readItems : (room : Option Nat) → (fuel : Nat) → Text → Except Halt (List Json × Text)
  | _, 0, t => .error (.invalid .expectingValue t.length)
  | room, fuel + 1, t => do
    let (item, rest) ← readValue room fuel t
    match skipSpace rest with
    | [] => .error (.invalid .expectingComma 0)
    | c :: rest =>
      if c = ']' then return ([item], rest)
      else if c = ',' then do
        let (items, rest) ← readItems room fuel (skipSpace rest)
        return (item :: items, rest)
      else .error (.invalid .expectingComma (rest.length + 1))

/-- Reads the members of an object up to its end. -/
def readMembers :
    (room : Option Nat) → (fuel : Nat) → Text → Except Halt (List (Text × Json) × Text)
  | _, 0, t => .error (.invalid .expectingName t.length)
  | room, fuel + 1, t => do
    let (name, rest) ← readName t
    let (value, rest) ← readValue room fuel rest
    match skipSpace rest with
    | [] => .error (.invalid .expectingComma 0)
    | c :: rest =>
      if c = '}' then return ([(name, value)], rest)
      else if c = ',' then do
        let (members, rest) ← readMembers room fuel (skipSpace rest)
        return ((name, value) :: members, rest)
      else .error (.invalid .expectingComma (rest.length + 1))

end

/-! ### Whole texts -/

/-- Why a text is not read. -/
inductive ReadError
  /-- The text is no JSON; lines and columns count from one, offsets from zero. -/
  | invalid (reason : Reason) (line column offset : Nat)
  /-- A whole number has too many digits. -/
  | longInteger (digits : Nat)
  /-- Containers are nested too deep. -/
  | tooDeep (container : Container)
deriving DecidableEq

/-- The place of an offset in a text: its line and its column, both from one. -/
def place (t : Text) (offset : Nat) : Nat × Nat :=
  let before := t.take offset
  (before.count ('\n' : CodePoint) + 1,
    (before.reverse.takeWhile fun c : CodePoint => c ≠ '\n').length + 1)

/-- A halt as an error about the whole text. -/
def Halt.toError (t : Text) : Halt → ReadError
  | .invalid reason remaining =>
    let offset := t.length - remaining
    let (line, column) := place t offset
    .invalid reason line column offset
  | .longInteger digits => .longInteger digits
  | .tooDeep container => .tooDeep container

/-- Reads a text that is one value with spaces around it. -/
def readAll (room : Option Nat) (t : Text) : Except Halt Json :=
  if t.head? = some (CodePoint.ofNat 0xFEFF) then .error (.invalid .byteOrderMark t.length)
  else do
    let (value, rest) ← readValue room (2 * t.length + 2) (skipSpace t)
    let rest := skipSpace rest
    if rest.isEmpty then return value else .error (.invalid .extraData rest.length)

/-- The value that a text writes, where there is room for so many containers inside each other. -/
def readWithin (room : Option Nat) (t : Text) : Except ReadError Json :=
  match readAll room t with
  | .ok value => .ok value
  | .error halt => .error (halt.toError t)

/-- The value that a text writes, however deep it is. -/
def read (t : Text) : Except ReadError Json := readWithin none t

/-! ### Wording -/

def Reason.message : Reason → Text
  | .byteOrderMark => "Unexpected UTF-8 BOM (decode using utf-8-sig)"
  | .expectingValue => "Expecting value"
  | .expectingName => "Expecting property name enclosed in double quotes"
  | .expectingColon => "Expecting ':' delimiter"
  | .expectingComma => "Expecting ',' delimiter"
  | .extraData => "Extra data"
  | .unterminatedString => "Unterminated string starting at"
  | .controlCharacter => "Invalid control character at"
  | .badEscape => "Invalid \\escape"
  | .badUnicodeEscape => "Invalid \\uXXXX escape"

def Container.name : Container → Text
  | .array => "array"
  | .object => "object"

def ReadError.message : ReadError → Text
  | .invalid reason line column offset =>
    reason.message ++ ": line " ++ Text.ofNat line ++ " column " ++ Text.ofNat column
      ++ " (char " ++ Text.ofNat offset ++ ")"
  | .longInteger digits =>
    "Exceeds the limit (4300 digits) for integer string conversion: value has "
      ++ Text.ofNat digits ++ " digits; use sys.set_int_max_str_digits() to increase the limit"
  | .tooDeep container =>
    "maximum recursion depth exceeded while decoding a JSON " ++ container.name
      ++ " from a unicode string"

end Json

end CompileGate
