/-
CompileGate/Http/Reply.lean

HTTP replies and their bytes.  The reply to a simple request has no head.  A
refused request is answered with an HTML page that tells the reason and closes
the connection; all else is answered in JSON.
-/
import CompileGate.Http.Head
import CompileGate.Json.Printer
import CompileGate.Text.Utf8

namespace CompileGate
namespace Http

/-- The usual phrase of a status. -/
def phraseOf (status : Nat) : Text :=
  match status with
  | 100 => "Continue"
  | 200 => "OK"
  | 204 => "No Content"
  | 400 => "Bad Request"
  | 404 => "Not Found"
  | 411 => "Length Required"
  | 413 => "Request Entity Too Large"
  | 429 => "Too Many Requests"
  | _ => []

/-- A reply. -/
structure Reply where
  status : Nat
  phrase : Text
  fields : List Field
  body : Bytes
deriving DecidableEq

/-- The bytes of a text of code points below 256. -/
def latin1Bytes (t : Text) : Bytes := t.map fun c => c.toNat.toUInt8

/-- The bytes of a reply; a simple one is its body alone. -/
def Reply.bytes (simple : Bool) (r : Reply) : Bytes :=
  if simple then r.body
  else
    let start : Text := "HTTP/1.1 " ++ Text.ofNat r.status ++ " " ++ r.phrase ++ "\r\n"
    let fields := r.fields.flatMap fun f => (f.name ++ ": " ++ f.value ++ "\r\n" : Text)
    latin1Bytes (start ++ fields ++ "\r\n") ++ r.body

/-! ### JSON replies -/

/-- The fields that let pages of any origin call the service. -/
def originFields : List Field := [
  ⟨"Access-Control-Allow-Origin", "*"⟩,
  ⟨"Access-Control-Allow-Headers", "Origin, X-Requested-With, Content-Type, Accept"⟩,
  ⟨"Access-Control-Allow-Methods", "GET,POST,OPTIONS"⟩]

/-- The fields that keep browsers from doing more than reading the reply. -/
def guardFields : List Field := [
  ⟨"X-Content-Type-Options", "nosniff"⟩, ⟨"X-Frame-Options", "DENY"⟩,
  ⟨"Referrer-Policy", "no-referrer"⟩]

/-- The field that gives the length of a body. -/
def lengthField (body : Bytes) : Field := ⟨"Content-Length", Text.ofNat body.length⟩

/-- A reply with a JSON object. -/
def Reply.json (status : Nat) (members : Table Json) : Reply :=
  let body := latin1Bytes (Json.print .compact (.object members))
  ⟨status, phraseOf status,
    [⟨"Content-Type", "application/json; charset=utf-8"⟩, lengthField body]
      ++ originFields ++ guardFields, body⟩

/-- A reply that tells what is wrong. -/
def Reply.failure (status : Nat) (message : Text) : Reply :=
  .json status [("success", .bool false), ("error", .string message)]

/-- The reply to a question about what is allowed. -/
def Reply.options : Reply := ⟨204, phraseOf 204, originFields ++ [lengthField []], []⟩

/-- The sign that a client waits for before it sends the body. -/
def Reply.sign : Reply := ⟨100, phraseOf 100, [], []⟩

/-! ### Refusals -/

namespace Refusal

def status : Refusal → Nat
  | .requestLineTooLong => 414
  | .badVersion _ | .badRequestLine _ | .badSimpleMethod _ => 400
  | .unsupportedVersion _ => 505
  | .headerLineTooLong | .tooManyHeaders => 431
  | .unknownMethod _ => 501

def message : Refusal → Text
  | .requestLineTooLong => "Request-URI Too Long"
  | .badVersion version => "Bad request version (" ++ Text.quoted version ++ ")"
  | .unsupportedVersion number => "Invalid HTTP version (" ++ number ++ ")"
  | .badRequestLine line => "Bad request syntax (" ++ Text.quoted line ++ ")"
  | .badSimpleMethod method => "Bad HTTP/0.9 request type (" ++ Text.quoted method ++ ")"
  | .headerLineTooLong => "Line too long"
  | .tooManyHeaders => "Too many headers"
  | .unknownMethod method => "Unsupported method (" ++ Text.quoted method ++ ")"

def explanation : Refusal → Text
  | .requestLineTooLong => "URI is too long"
  | .badVersion _ | .badRequestLine _ | .badSimpleMethod _ =>
    "Bad request syntax or unsupported method"
  | .unsupportedVersion _ => "Cannot fulfill request"
  | .headerLineTooLong => "got more than 65536 bytes when reading header line"
  | .tooManyHeaders => "got more than 100 headers"
  | .unknownMethod _ => "Server does not support this operation"

end Refusal

/-- A text inside an HTML page. -/
def escapeHtml (t : Text) : Text :=
  t.flatMap fun c : CodePoint =>
    if c = '&' then ("&amp;" : Text)
    else if c = '<' then "&lt;"
    else if c = '>' then "&gt;"
    else [c]

/-- The page that tells why a request is refused. -/
def Refusal.page (r : Refusal) : Text :=
  "<!DOCTYPE HTML>\n<html lang=\"en\">\n    <head>\n        <meta charset=\"utf-8\">\n"
    ++ "        <title>Error response</title>\n    </head>\n    <body>\n"
    ++ "        <h1>Error response</h1>\n        <p>Error code: " ++ Text.ofNat r.status
    ++ "</p>\n        <p>Message: " ++ escapeHtml r.message
    ++ ".</p>\n        <p>Error code explanation: " ++ Text.ofNat r.status ++ " - "
    ++ escapeHtml r.explanation ++ ".</p>\n    </body>\n</html>\n"

/-- The reply to a refused request; `HEAD` asks for no body. -/
def Reply.refusal (r : Refusal) (method : Text) : Reply :=
  let body := Utf8.encodeLenient r.page
  ⟨r.status, r.message,
    [⟨"Connection", "close"⟩, ⟨"Content-Type", "text/html;charset=utf-8"⟩, lengthField body],
    if method = "HEAD" then [] else body⟩

end Http

end CompileGate
