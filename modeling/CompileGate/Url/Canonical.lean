/-
CompileGate/Url/Canonical.lean

The canonical form of a URL, which names a source, and the host that the
allow-list is asked about.

* The canonical form has a lower-case scheme and authority, no port that the
  scheme implies, a path without `.` and `..`, the query and no fragment.
* The host is in lower case and names the port unless the scheme implies it; a
  text without a readable host has the empty one.
-/
import CompileGate.Text.LowerCase
import CompileGate.Url.Join

namespace CompileGate
namespace Url

/-- An authority in lower case, without the port that the scheme implies. -/
def canonicalAuthority (scheme authority : Text) : Text :=
  let lower := Text.toLower authority
  match defaultPort? scheme with
  | none => lower
  | some port => (Text.beforeEnd? (":" ++ Text.ofNat port) lower).getD lower

/-- The canonical form of a URL. -/
def canonical (t : Text) : Except Defect Text := do
  let url ← split t
  let path ← if url.path.isEmpty then pure ("/" : Text) else join "/" url.path
  return unsplit ⟨url.scheme, canonicalAuthority url.scheme url.authority, path, url.query, []⟩

/-- The host of an authority and the text of its port. -/
def hostAndPort (authority : Text) : Text × Text :=
  let host := hostPart authority
  match Text.cutFirst? '[' host with
  | some (_, rest) =>
    let (address, after) := cutAt ']' rest
    (address, (cutAt ':' after).2)
  | none => cutAt ':' host

/-- The number of a port: decimal digits up to 65535.  No digits name no port. -/
def readPort? (t : Text) : Option (Option Nat) :=
  if t.isEmpty then some none
  else if t.all CodePoint.isAsciiDigit && Text.digitsValue t ≤ 65535 then
    some (some (Text.digitsValue t))
  else none

/-- The host of a URL as the allow-list names it. -/
def allowKey (url : Url) : Text :=
  let (host, port) := hostAndPort url.authority
  let host := Text.toLower host
  match readPort? port with
  | none => []
  | some port =>
    if host.isEmpty then []
    else
      match port with
      | none => host
      | some port =>
        if port = 0 || defaultPort? url.scheme = some port then host
        else host ++ ":" ++ Text.ofNat port

/-- The host that the allow-list is asked about; empty for a text that names none. -/
def hostOf (t : Text) : Text :=
  match split t with
  | .ok url => url.allowKey
  | .error _ => []

end Url

end CompileGate
