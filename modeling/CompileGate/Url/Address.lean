/-
CompileGate/Url/Address.lean

Numeric addresses, as they may stand between the brackets of an authority: four
octets with points, or eight groups of hexadecimal digits with colons, of which
one run of zero groups may be left out and the last two may be written as
octets; the latter may name a zone after `%`.
-/
import CompileGate.Text.Basic

namespace CompileGate
namespace Address

/-- A decimal octet without a leading zero. -/
def isOctet (t : Text) : Bool :=
  !t.isEmpty && t.all CodePoint.isAsciiDigit && t.length ≤ 3
    && (t.length = 1 || t.head? ≠ some '0') && Text.digitsValue t ≤ 255

/-- Four octets with points between them. -/
def isV4 (t : Text) : Bool :=
  let octets := Text.splitOn '.' t
  octets.length = 4 && octets.all isOctet

/-- One to four hexadecimal digits. -/
def isGroup (t : Text) : Bool :=
  !t.isEmpty && t.length ≤ 4 && t.all fun c => c.hexValue?.isSome

/-- Whether groups, with an empty one where zeros are left out, make an address. -/
def groupsAreV6 (groups : List Text) : Bool :=
  let inner := (groups.drop 1).dropLast
  let gaps := inner.count []
  if 9 < groups.length then false
  else if gaps = 0 then groups.length = 8 && groups.all isGroup
  else if gaps = 1 then
    -- an empty group at an end is allowed only beside the gap
    let high := groups.takeWhile fun g => !g.isEmpty
    let low := (groups.reverse.takeWhile fun g => !g.isEmpty).reverse
    let emptyStart := groups.head? = some []
    let emptyEnd := groups.getLast? = some []
    let gapAt := (groups.drop 1).idxOf [] + 1
    (!emptyStart || gapAt = 1) && (!emptyEnd || gapAt + 2 = groups.length)
      && (high ++ low).all isGroup && high.length + low.length ≤ 7
  else false

/-- Groups of hexadecimal digits with colons between them, perhaps with a zone. -/
def isV6 (t : Text) : Bool :=
  let (address, zoneOk) :=
    match Text.cutFirst? '%' t with
    | none => (t, true)
    | some (address, zone) => (address, !zone.isEmpty && !zone.contains ('%' : CodePoint))
  let groups := Text.splitOn ':' address
  let last := groups.getLast?.getD []
  zoneOk && 3 ≤ groups.length &&
    if last.contains ('.' : CodePoint) then
      isV4 last && groupsAreV6 (groups.dropLast ++ (["0", "0"] : List Text))
    else groupsAreV6 groups

/-- An address of a later version: `v`, hexadecimal digits, a point and more. -/
def isFuture (t : Text) : Bool :=
  match t with
  | [] => false
  | v :: rest =>
    match Text.cutFirst? '.' rest with
    | none => false
    | some (version, address) =>
      v = 'v' && !version.isEmpty && version.all (fun c => c.hexValue?.isSome)
        && !address.isEmpty

end Address

end CompileGate
