/-
CompileGate/Url/Basic.lean

URLs in five parts: scheme, authority, path, query and fragment.  `split` takes a
text apart and `unsplit` puts the parts together; a text may come back in another
spelling, since empty queries and fragments leave no mark.

Splitting drops control characters and spaces at the front and tabs and line
ends anywhere.  It refuses an authority whose brackets do not enclose an
address, and one that a compatible spelling would turn into several parts.
-/
import CompileGate.Text.Quoted
import CompileGate.Url.Address

namespace CompileGate

/-- A URL in its parts, without the marks between them. -/
structure Url where
  scheme : Text
  authority : Text
  path : Text
  query : Text
  fragment : Text
deriving DecidableEq

namespace Url

/-! ### Schemes -/

/-- The schemes whose relative references are resolved. -/
def relativeSchemes : List Text := [
  "", "ftp", "http", "gopher", "nntp", "imap", "wais", "file", "https", "shttp", "mms", "prospero",
  "rtsp", "rtsps", "rtspu", "sftp", "svn", "svn+ssh", "ws", "wss"]

/-- The schemes that have an authority. -/
def authoritySchemes : List Text := [
  "", "ftp", "http", "gopher", "nntp", "telnet", "imap", "wais", "file", "mms", "https", "shttp",
  "snews", "prospero", "rtsp", "rtsps", "rtspu", "rsync", "svn", "svn+ssh", "sftp", "nfs", "git",
  "git+ssh", "ws", "wss"]

/-- The schemes whose paths may end in parameters. -/
def parameterSchemes : List Text := [
  "", "ftp", "hdl", "prospero", "http", "imap", "https", "shttp", "rtsp", "rtsps", "rtspu", "sip",
  "sips", "mms", "sftp", "tel"]

/-- The port that a scheme uses when none is named. -/
def defaultPort? (scheme : Text) : Option Nat :=
  if scheme = "http" then some 80 else if scheme = "https" then some 443 else none

/-! ### Failures -/

/-- Why a text has no parts. -/
inductive Defect
  | unbalancedBrackets
  | badFutureAddress
  | bracketedV4
  | noAddress (host : Text)
  | hiddenDelimiter (authority : Text)
deriving DecidableEq

def Defect.message : Defect → Text
  | .unbalancedBrackets => "Invalid IPv6 URL"
  | .badFutureAddress => "IPvFuture address is invalid"
  | .bracketedV4 => "An IPv4 address cannot be in brackets"
  | .noAddress host => Text.quoted host ++ " does not appear to be an IPv4 or IPv6 address"
  | .hiddenDelimiter authority =>
    "netloc '" ++ authority ++ "' contains invalid characters under NFKC normalization"

/-! ### The authority -/

/-- The code points beyond ASCII whose compatible spelling holds a mark that ends an authority or
divides it. -/
def hiddenDelimiters : List Nat := [
  0x2047, 0x2048, 0x2049, 0x2100, 0x2101, 0x2105, 0x2106, 0x2A74, 0xFE13, 0xFE16, 0xFE55, 0xFE56,
  0xFE5F, 0xFE6B, 0xFF03, 0xFF0F, 0xFF1A, 0xFF1F, 0xFF20]

/-- The authority after its last `@`. -/
def hostPart (authority : Text) : Text :=
  match Text.cutLast? '@' authority with
  | some (_, host) => host
  | none => authority

/-- Checks what stands between brackets. -/
def checkAddress (host : Text) : Except Defect Unit :=
  if Text.startsWith "v" host then
    if Address.isFuture host then .ok () else .error .badFutureAddress
  else if Address.isV4 host then .error .bracketedV4
  else if Address.isV6 host then .ok ()
  else .error (.noAddress host)

/-- Checks an authority that holds both brackets. -/
def checkBracketed (authority : Text) : Except Defect Unit :=
  let host := hostPart authority
  match Text.cutFirst? '[' host with
  | none => checkAddress (Text.before ':' host)
  | some (before, rest) =>
    if !before.isEmpty then .error .unbalancedBrackets
    else
      match Text.cutFirst? ']' rest with
      | none => checkAddress rest
      | some (address, after) =>
        if !after.isEmpty && after.head? ≠ some ':' then .error .unbalancedBrackets
        else checkAddress address

/-- Checks the brackets of an authority. -/
def checkBrackets (authority : Text) : Except Defect Unit :=
  let opened := authority.contains ('[' : CodePoint)
  let closed := authority.contains (']' : CodePoint)
  if opened && closed then checkBracketed authority
  else if opened || closed then .error .unbalancedBrackets
  else .ok ()

/-- Checks that no code point of an authority hides a mark. -/
def checkHidden (authority : Text) : Except Defect Unit :=
  if authority.any fun c => hiddenDelimiters.contains c.toNat then
    .error (.hiddenDelimiter authority)
  else .ok ()

/-! ### Taking apart -/

def isSchemePoint (c : CodePoint) : Bool :=
  c.isAsciiLetter || c.isAsciiDigit || c = '+' || c = '-' || c = '.'

/-- A code point that ends an authority. -/
def endsAuthority (c : CodePoint) : Bool := c = '/' || c = '?' || c = '#'

/-- A text without the controls and spaces at its front and without tabs and line ends. -/
def clean (t : Text) : Text :=
  (t.dropWhile fun c => c.toNat ≤ 0x20).filter fun c : CodePoint =>
    c ≠ '\t' && c ≠ '\r' && c ≠ '\n'

/-- The scheme at the front of a text, in lower case, and what follows its colon. -/
def takeScheme? (t : Text) : Option (Text × Text) :=
  match Text.cutFirst? ':' t with
  | some (c :: scheme, rest) =>
    if c.isAsciiLetter && scheme.all isSchemePoint then
      some (Text.toAsciiLower (c :: scheme), rest)
    else none
  | _ => none

/-- The authority at the front of a text, and the rest. -/
def takeAuthority (t : Text) : Text × Text :=
  match Text.afterStart? "//" t with
  | some rest => rest.span fun c => !endsAuthority c
  | none => ([], t)

/-- What stands before and after the first `mark`; nothing after it when there is none. -/
def cutAt (mark : CodePoint) (t : Text) : Text × Text := (Text.cutFirst? mark t).getD (t, [])

/-- The parts of a text; `scheme` is the scheme of a text that names none. -/
def splitWith (scheme : Text) (t : Text) : Except Defect Url := do
  let t := clean t
  let (scheme, rest) := (takeScheme? t).getD (scheme, t)
  let (authority, rest) := takeAuthority rest
  checkBrackets authority
  let (rest, fragment) := cutAt '#' rest
  let (path, query) := cutAt '?' rest
  checkHidden authority
  return ⟨scheme, authority, path, query, fragment⟩

/-- The parts of a text. -/
def split (t : Text) : Except Defect Url := splitWith [] t

/-! ### Putting together -/

/-- The text of the parts. -/
def unsplit (url : Url) : Text :=
  let path :=
    if !url.authority.isEmpty
        || (!url.scheme.isEmpty && authoritySchemes.contains url.scheme
          && !Text.startsWith "//" url.path) then
      let rooted :=
        if !url.path.isEmpty && !Text.startsWith "/" url.path then ('/' : CodePoint) :: url.path
        else url.path
      "//" ++ url.authority ++ rooted
    else url.path
  (if url.scheme.isEmpty then [] else url.scheme ++ (":" : Text)) ++ path
    ++ (if url.query.isEmpty then [] else ('?' : CodePoint) :: url.query)
    ++ (if url.fragment.isEmpty then [] else ('#' : CodePoint) :: url.fragment)

end Url

end CompileGate
