/-
CompileGate/Text/Utf8.lean

UTF-8, both ways.  A byte string falls into pieces: whole code points, and
broken runs, each the longest beginning of a code point that the bytes after it
do not continue.  The strict reader fails at the first broken run and names it;
the lenient one writes U+FFFD for each.

Writing fails only at a surrogate, which no UTF-8 sequence holds.
-/
import CompileGate.Text.Basic

namespace CompileGate
namespace Utf8

/-! ### Reading -/

/-- Why a run of bytes is no code point. -/
inductive Defect
  | invalidStart
  | invalidContinuation
  | unexpectedEnd
deriving DecidableEq

/-- A code point of which some bytes are read. -/
structure Pending where
  /-- The bytes read so far. -/
  seen : Nat
  /-- The bytes still owed. -/
  owed : Nat
  /-- The least value of the next byte. -/
  low : Nat
  /-- The greatest value of the next byte. -/
  high : Nat
  /-- The bits read so far. -/
  value : Nat

/-- A piece of a byte string: a code point, or a run that is none. -/
inductive Piece
  | point (c : CodePoint) (size : Nat)
  | broken (size : Nat) (defect : Defect)

/-- The bytes of a piece. -/
def Piece.size : Piece → Nat
  | .point _ size => size
  | .broken size _ => size

/-- What the first byte of a code point says: a piece of its own, or bytes to follow. -/
def lead (byte : UInt8) : Piece ⊕ Pending :=
  let b := byte.toNat
  if b < 0x80 then .inl (.point (CodePoint.ofNat b) 1)
  else if b < 0xC2 then .inl (.broken 1 .invalidStart)
  else if b < 0xE0 then .inr ⟨1, 1, 0x80, 0xBF, b - 0xC0⟩
  else if b = 0xE0 then .inr ⟨1, 2, 0xA0, 0xBF, 0⟩
  else if b = 0xED then .inr ⟨1, 2, 0x80, 0x9F, 0xD⟩
  else if b < 0xF0 then .inr ⟨1, 2, 0x80, 0xBF, b - 0xE0⟩
  else if b = 0xF0 then .inr ⟨1, 3, 0x90, 0xBF, 0⟩
  else if b < 0xF4 then .inr ⟨1, 3, 0x80, 0xBF, b - 0xF0⟩
  else if b = 0xF4 then .inr ⟨1, 3, 0x80, 0x8F, 4⟩
  else .inl (.broken 1 .invalidStart)

/-- The pieces of a byte string, of which a code point may be pending. -/
def piecesFrom : Option Pending → List UInt8 → List Piece
  | none, [] => []
  | some p, [] => [.broken p.seen .unexpectedEnd]
  | none, b :: bytes =>
    match lead b with
    | .inl piece => piece :: piecesFrom none bytes
    | .inr p => piecesFrom (some p) bytes
  | some p, b :: bytes =>
    if p.low ≤ b.toNat ∧ b.toNat ≤ p.high then
      let value := 64 * p.value + (b.toNat - 0x80)
      if p.owed ≤ 1 then .point (CodePoint.ofNat value) (p.seen + 1) :: piecesFrom none bytes
      else piecesFrom (some ⟨p.seen + 1, p.owed - 1, 0x80, 0xBF, value⟩) bytes
    else
      .broken p.seen .invalidContinuation ::
        match lead b with
        | .inl piece => piece :: piecesFrom none bytes
        | .inr q => piecesFrom (some q) bytes

/-- The pieces of a byte string. -/
def pieces (bytes : List UInt8) : List Piece := piecesFrom none bytes

/-- The text of a byte string, each broken run read as U+FFFD. -/
def decodeLenient (bytes : List UInt8) : Text :=
  (pieces bytes).map fun
    | .point c _ => c
    | .broken _ _ => CodePoint.replacement

/-- The first broken run of a byte string. -/
structure DecodeError where
  first : Nat
  size : Nat
  byte : UInt8
  defect : Defect
deriving DecidableEq

/-- The text of the pieces, the first of which starts at `offset`. -/
def textOfPieces (bytes : List UInt8) : Nat → List Piece → Except DecodeError Text
  | _, [] => .ok []
  | offset, .point c size :: rest => do
    let tail ← textOfPieces bytes (offset + size) rest
    return c :: tail
  | offset, .broken size defect :: _ => .error ⟨offset, size, bytes.getD offset 0, defect⟩

/-- The text of a byte string, if it is UTF-8 throughout. -/
def decode (bytes : List UInt8) : Except DecodeError Text :=
  textOfPieces bytes 0 (pieces bytes)

/-! ### Writing -/

/-- The bytes of a code point. -/
def encodePoint (c : CodePoint) : List UInt8 :=
  let n := c.toNat
  if n < 0x80 then [n.toUInt8]
  else if n < 0x800 then [(0xC0 + n / 64).toUInt8, (0x80 + n % 64).toUInt8]
  else if n < 0x10000 then
    [(0xE0 + n / 4096).toUInt8, (0x80 + n / 64 % 64).toUInt8, (0x80 + n % 64).toUInt8]
  else
    [(0xF0 + n / 262144).toUInt8, (0x80 + n / 4096 % 64).toUInt8,
      (0x80 + n / 64 % 64).toUInt8, (0x80 + n % 64).toUInt8]

/-- The first run of surrogates of a text. -/
structure EncodeError where
  character : CodePoint
  first : Nat
  count : Nat
deriving DecidableEq

/-- The first run of surrogates of a text that starts at `offset`. -/
def surrogates? : (offset : Nat) → Text → Option EncodeError
  | _, [] => none
  | offset, c :: rest =>
    if c.isSurrogate then
      some ⟨c, offset, 1 + (rest.takeWhile CodePoint.isSurrogate).length⟩
    else surrogates? (offset + 1) rest

/-- The bytes of a text that holds no surrogate. -/
def encode (t : Text) : Except EncodeError (List UInt8) :=
  match surrogates? 0 t with
  | some e => .error e
  | none => .ok (t.flatMap encodePoint)

/-- The number of bytes of a code point. -/
def pointSize (c : CodePoint) : Nat :=
  if c.toNat < 0x80 then 1 else if c.toNat < 0x800 then 2 else if c.toNat < 0x10000 then 3 else 4

/-- The number of bytes of a text that holds no surrogate. -/
def size (t : Text) : Except EncodeError Nat :=
  match surrogates? 0 t with
  | some e => .error e
  | none => .ok (t.foldl (fun n c => n + pointSize c) 0)

/-- The bytes of a text, with U+003F for each surrogate. -/
def encodeLenient (t : Text) : List UInt8 :=
  t.flatMap fun c => if c.isSurrogate then [0x3F] else encodePoint c

/-! ### Wording -/

def Defect.message : Defect → Text
  | .invalidStart => "invalid start byte"
  | .invalidContinuation => "invalid continuation byte"
  | .unexpectedEnd => "unexpected end of data"

def DecodeError.message (e : DecodeError) : Text :=
  let run : Text :=
    if e.size = 1 then
      "byte 0x" ++ Text.padZeros 2 (Text.hex e.byte.toNat) ++ " in position " ++ Text.ofNat e.first
    else "bytes in position " ++ Text.ofNat e.first ++ "-" ++ Text.ofNat (e.first + e.size - 1)
  "'utf-8' codec can't decode " ++ run ++ ": " ++ e.defect.message

def EncodeError.message (e : EncodeError) : Text :=
  let run : Text :=
    if e.count = 1 then
      "character '\\u" ++ Text.padZeros 4 (Text.hex e.character.toNat) ++ "' in position "
        ++ Text.ofNat e.first
    else
      "characters in position " ++ Text.ofNat e.first ++ "-" ++ Text.ofNat (e.first + e.count - 1)
  "'utf-8' codec can't encode " ++ run ++ ": surrogates not allowed"

/-! ### Basic lemmas -/

theorem surrogates?_eq_none_iff {offset : Nat} {t : Text} :
    surrogates? offset t = none ↔ ∀ c ∈ t, c.isSurrogate = false := by
  induction t generalizing offset with
  | nil => simp [surrogates?]
  | cons c t ih =>
    by_cases h : c.isSurrogate = true
    · simp [surrogates?, h]
    · simp [surrogates?, h, ih]

end Utf8

end CompileGate
