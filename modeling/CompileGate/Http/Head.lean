/-
CompileGate/Http/Head.lean

The head of an HTTP request, read from the bytes of a connection: a request line
and header fields up to a blank line.

A request line has a method, a path and a version.  Without a version it is a
simple request, which only `GET` may be, and whose reply has no head.  A line
longer than 65536 bytes and more than 100 lines of fields are refused.

Fields end at the first line that is none.  A line that starts with a blank
continues the field before it.
-/
import CompileGate.Text.Integer
import CompileGate.Text.Quoted

namespace CompileGate
namespace Http

abbrev Bytes := List UInt8

/-- The text of bytes that stand for one code point each. -/
def latin1 (bytes : Bytes) : Text := bytes.map fun b => CodePoint.ofNat b.toNat

/-- The greatest length of a line. -/
def maxLine : Nat := 65536

/-- A line with its end, but no more than `limit` bytes; and the rest. -/
def takeLine : (limit : Nat) → Bytes → Bytes × Bytes
  | 0, bytes => ([], bytes)
  | _ + 1, [] => ([], [])
  | limit + 1, b :: bytes =>
    if b = 10 then ([b], bytes)
    else
      let (line, rest) := takeLine limit bytes
      (b :: line, rest)

/-- Why a request is refused before it is looked at. -/
inductive Refusal
  | requestLineTooLong
  | badVersion (version : Text)
  | unsupportedVersion (number : Text)
  | badRequestLine (line : Text)
  | badSimpleMethod (method : Text)
  | headerLineTooLong
  | tooManyHeaders
  | unknownMethod (method : Text)
deriving DecidableEq

/-! ### The request line -/

/-- A request line. -/
structure RequestLine where
  /-- The line as it was sent, without its end. -/
  text : Text
  method : Text
  path : Text
  version : Text
  /-- Whether the connection stays open unless something else is said. -/
  persistent : Bool
deriving DecidableEq

/-- The version of a request that names none. -/
def simpleVersion : Text := "HTTP/0.9"

/-- The version number of a version: its text, and its two parts. -/
def versionNumber? (version : Text) : Option (Text × Int × Int) := do
  let number ← Text.afterStart? "HTTP/" version
  match Text.splitOn '.' number with
  | [major, minor] => return (number, ← Integer.read? major, ← Integer.read? minor)
  | _ => none

/-- A path without repeated slashes at its front. -/
def singleSlash (path : Text) : Text :=
  if Text.startsWith "//" path then "/" ++ path.dropWhile (· = ('/' : CodePoint)) else path

/-- The words of a request line as a request, or why it is refused and the version that is known
by then. -/
def requestOfWords (line : Text) (words : List Text) : Except (Refusal × Text) RequestLine :=
  match words with
  | [] | [_] => .error (.badRequestLine line, simpleVersion)
  | [method, path] =>
    if method = "GET" then .ok ⟨line, method, singleSlash path, simpleVersion, false⟩
    else .error (.badSimpleMethod method, simpleVersion)
  | method :: path :: third :: more =>
    let version := (third :: more).getLast?.getD []
    match versionNumber? version with
    | none => .error (.badVersion version, simpleVersion)
    | some (number, major, minor) =>
      if 2 < major || (major = 2 && 0 ≤ minor) then
        .error (.unsupportedVersion number, simpleVersion)
      else if !more.isEmpty then .error (.badRequestLine line, version)
      else
        let persistent := 1 < major || (major = 1 && 1 ≤ minor)
        .ok ⟨line, method, singleSlash path, version, persistent⟩

/-- The text of a line without its end. -/
def lineText (line : Bytes) : Text :=
  Text.trimEnd (fun c => c = '\r' || c = '\n') (latin1 line)

/-! ### Fields -/

/-- The lines of the fields with their ends, up to the blank line; `left` more may follow. -/
def takeFieldLines : (left : Nat) → Bytes → Except Refusal (List Bytes) × Bytes
  | left, bytes =>
    let (line, rest) := takeLine (maxLine + 1) bytes
    if maxLine < line.length then (.error .headerLineTooLong, rest)
    else
      match left with
      | 0 => (.error .tooManyHeaders, rest)
      | left + 1 =>
        if line = [] || line = [10] || line = [13, 10] then (.ok [], rest)
        else
          let (lines, rest) := takeFieldLines left rest
          (lines.map (line :: ·), rest)

/-- The lines of a text with their ends; a carriage return ends a line too. -/
def splitLines (line : Text) : Text → List Text
  | [] => if line.isEmpty then [] else [line.reverse]
  | c :: rest =>
    if c = '\n' then (c :: line).reverse :: splitLines [] rest
    else if c = '\r' then
      match rest with
      | d :: after =>
        if d = '\n' then (d :: c :: line).reverse :: splitLines [] after
        else (c :: line).reverse :: splitLines [] (d :: after)
      | [] => [(c :: line).reverse]
    else splitLines (c :: line) rest

/-- A code point that the name of a field may hold. -/
def isFieldPoint (c : CodePoint) : Bool := 33 ≤ c.toNat && c.toNat ≤ 126 && c ≠ ':'

def isIndent (c : CodePoint) : Bool := c = ' ' || c = '\t'

/-- The name of a field and its value with the end of its line. -/
def fieldOfLine? (line : Text) : Option (Text × Text) :=
  let (name, rest) := line.span isFieldPoint
  match rest with
  | c :: value => if c = ':' then some (name, value.dropWhile isIndent) else none
  | [] => none

/-- A header field. -/
structure Field where
  name : Text
  value : Text
deriving DecidableEq

/-- Completes a field: the end of its last line is dropped; a field without a name is none. -/
def finishField : Option (Text × Text) → List Field
  | some (c :: name, value) =>
    [⟨c :: name, Text.trimEnd (fun c => c = '\r' || c = '\n') value⟩]
  | _ => []

/-- The fields of lines; `pending` is the field that a continuation would belong to. -/
def fieldsFrom (pending : Option (Text × Text)) : List Text → List Field
  | [] => finishField pending
  | line :: rest =>
    if (line.head?.map isIndent).getD false then
      fieldsFrom (pending.map fun (name, value) => (name, value ++ line)) rest
    else if Text.startsWith "From " line then finishField pending ++ fieldsFrom none rest
    else
      match fieldOfLine? line with
      | none => finishField pending
      | some ([], _) => finishField pending ++ fieldsFrom none rest
      | some field => finishField pending ++ fieldsFrom (some field) rest

/-- The fields of the lines of a head. -/
def fieldsOf (lines : List Bytes) : List Field :=
  fieldsFrom none (splitLines [] (latin1 lines.flatten))

/-- The head of a request. -/
structure Head where
  line : RequestLine
  fields : List Field
deriving DecidableEq

/-- The value of the first field of a name, in any case. -/
def Head.field? (head : Head) (name : Text) : Option Text :=
  (head.fields.find? fun f => Text.toAsciiLower f.name = Text.toAsciiLower name).map Field.value

/-- Whether a field has a value, in any case. -/
def Head.states (head : Head) (name value : Text) : Bool :=
  Text.toAsciiLower ((head.field? name).getD []) = value

/-- Whether the connection is kept open after the request. -/
def Head.keepsOpen (head : Head) : Bool :=
  if head.states "Connection" "close" then false
  else head.states "Connection" "keep-alive" || head.line.persistent

/-- Whether the client waits for a sign before it sends the body. -/
def Head.expectsSign (head : Head) : Bool :=
  head.states "Expect" "100-continue" && Text.le "HTTP/1.1" head.line.version

/-! ### The whole head -/

/-- What is read from the front of a connection. -/
inductive Reading
  /-- Nothing is left, or a blank line came. -/
  | nothing
  /-- A request that is refused; `line` and `method` are what is known of it. -/
  | refused (refusal : Refusal) (line method version : Text)
  | request (head : Head)

/-- Reads the head of a request; and the rest of the bytes. -/
def readHead (bytes : Bytes) : Reading × Bytes :=
  let (line, rest) := takeLine (maxLine + 1) bytes
  if maxLine < line.length then (.refused .requestLineTooLong [] [] [], rest)
  else
    let text := lineText line
    match Text.blankWords text with
    | [] => (.nothing, rest)
    | words =>
      match requestOfWords text words with
      | .error (refusal, version) => (.refused refusal text [] version, rest)
      | .ok request =>
        match takeFieldLines 100 rest with
        | (.error refusal, rest) => (.refused refusal text request.method request.version, rest)
        | (.ok lines, rest) => (.request ⟨request, fieldsOf lines⟩, rest)

end Http

end CompileGate
