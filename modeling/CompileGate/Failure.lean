/-
CompileGate/Failure.lean

Everything that can go wrong, as causes.

A `GatewayError` aborts a request for a reason that the caller can act on, and
carries what is needed for that: the specifier or URL, the file that imported
it, the limit.  A `Fault` comes from outside: a transport that broke, a tool
that could not be installed.  A `Failure` is one of these, or a text that could
not be read or written, a value of the wrong shape, or a call stack without room.
The wording of each stands here and nowhere else.
-/
import CompileGate.Json.Display
import CompileGate.Json.Reader
import CompileGate.Seconds
import CompileGate.Text.Utf8
import CompileGate.Url.Basic

namespace CompileGate

/-! ### Faults from outside -/

/-- The kinds of faults that the outside reports. -/
inductive FaultKind
  | timeout
  | connectTimeout
  | readTimeout
  | connectionError
  | sslError
  | requestException
  | invalidUrl
  | tooManyRedirects
  | chunkedEncodingError
  | contentDecodingError
  | installationError
  | runtimeError
  | keyError
  | valueError
  | osError
  | other (name : Text)
deriving DecidableEq

namespace FaultKind

def name : FaultKind → Text
  | .timeout => "Timeout"
  | .connectTimeout => "ConnectTimeout"
  | .readTimeout => "ReadTimeout"
  | .connectionError => "ConnectionError"
  | .sslError => "SSLError"
  | .requestException => "RequestException"
  | .invalidUrl => "InvalidURL"
  | .tooManyRedirects => "TooManyRedirects"
  | .chunkedEncodingError => "ChunkedEncodingError"
  | .contentDecodingError => "ContentDecodingError"
  | .installationError => "SolcInstallationError"
  | .runtimeError => "RuntimeError"
  | .keyError => "KeyError"
  | .valueError => "ValueError"
  | .osError => "OSError"
  | .other name => name

/-- The kinds with a meaning of their own. -/
def known : List FaultKind := [
  .timeout, .connectTimeout, .readTimeout, .connectionError, .sslError, .requestException,
  .invalidUrl, .tooManyRedirects, .chunkedEncodingError, .contentDecodingError,
  .installationError, .runtimeError, .keyError, .valueError, .osError]

def ofName (name : Text) : FaultKind :=
  (known.find? fun kind => kind.name = name).getD (.other name)

/-- Waiting took too long. -/
def isTimeout : FaultKind → Bool
  | .timeout | .connectTimeout | .readTimeout => true
  | _ => false

/-- The request as such failed. -/
def isTransport : FaultKind → Bool
  | .timeout | .connectTimeout | .readTimeout | .connectionError | .sslError | .requestException
  | .invalidUrl | .tooManyRedirects | .chunkedEncodingError | .contentDecodingError => true
  | _ => false

/-- A value was not acceptable. -/
def isBadValue : FaultKind → Bool
  | .valueError | .invalidUrl => true
  | _ => false

end FaultKind

/-- A fault that the outside reports. -/
structure Fault where
  kind : FaultKind
  detail : Text
deriving DecidableEq

/-- The text of a fault; a missing key is shown between quotes. -/
def Fault.message (fault : Fault) : Text :=
  if fault.kind = .keyError then Text.quoted fault.detail else fault.detail

/-- The name of a kind with the place that defines it, as reports of unexpected faults use it. -/
def FaultKind.fullName (kind : FaultKind) : Text :=
  if kind.isTransport then "requests.exceptions." ++ kind.name
  else if kind = .installationError then "solcx.exceptions." ++ kind.name
  else kind.name

/-- The report of an unexpected fault. -/
def Fault.report (fault : Fault) : Text :=
  if fault.message.isEmpty then fault.kind.fullName
  else fault.kind.fullName ++ ": " ++ fault.message

/-- The last line of a report of an unexpected fault. -/
def Fault.lastLine (fault : Fault) : Text := (Text.splitOn '\n' fault.report).getLast?.getD []

/-! ### Failures that abort a request -/

/-- The limit that a request ran into. -/
inductive Ceiling
  | sources
  | totalBytes
  | named (name : Text)
deriving DecidableEq

namespace Ceiling

def name : Ceiling → Text
  | .sources => "max_sources"
  | .totalBytes => "max_total_bytes"
  | .named name => name

def ofName (name : Text) : Ceiling :=
  if name = "max_sources" then .sources
  else if name = "max_total_bytes" then .totalBytes
  else .named name

end Ceiling

/-- Why a request was aborted. -/
inductive GatewayError (τ : Type)
  | general (details : List Json)
  | invalidRequest (details : List Json)
  | disallowedHost (url host : Text) (specifier referrer : Option Text)
  | unsupportedSpecifier (specifier : Text) (referrer : Option Text) (reason : Text)
  | missingPackageVersion (package specifier : Text) (referrer : Option Text)
  | noBaseContext (specifier : Text) (referrer : Option Text)
  | fetchFailed (url : Text) (status : Option Int) (reason : Text)
  | resourceLimitExceeded (ceiling : Ceiling) (limit : Int) (referrer url : Option Text)
  | deadlineExceeded (timeout : τ) (url : Option Text)
  | unsupportedCompilerVersion (selector reason : Text)
  | compilerFailed (details : List Json)

namespace GatewayError

variable {τ : Type}

def kind : GatewayError τ → Text
  | .general _ => "GatewayError"
  | .invalidRequest _ => "InvalidRequest"
  | .disallowedHost .. => "DisallowedHost"
  | .unsupportedSpecifier .. => "UnsupportedSpecifier"
  | .missingPackageVersion .. => "MissingPackageVersion"
  | .noBaseContext .. => "NoBaseContext"
  | .fetchFailed .. => "FetchFailed"
  | .resourceLimitExceeded .. => "ResourceLimitExceeded"
  | .deadlineExceeded .. => "DeadlineExceeded"
  | .unsupportedCompilerVersion .. => "UnsupportedCompilerVersion"
  | .compilerFailed _ => "CompilerFailed"

/-- One detail is shown as it is; several are listed between parentheses. -/
def ofDetails : List Json → Text
  | [] => []
  | [detail] => detail.display
  | details => "(" ++ Text.join ", " (details.map Json.quoted) ++ ")"

/-- The file that holds an import. -/
def place (referrer : Option Text) : Text :=
  match referrer with
  | none | some [] => "<entry>"
  | some key => key

/-- A further circumstance, when there is one to tell. -/
def circumstance (intro : Text) : Option Text → Text
  | none | some [] => []
  | some t => intro ++ t

/-- What went wrong, in a sentence. -/
def message [Seconds τ] : GatewayError τ → Text
  | .general details | .invalidRequest details | .compilerFailed details => ofDetails details
  | .disallowedHost url host specifier referrer =>
    let host : Text := if host.isEmpty then "<none>" else host
    let location : Text :=
      match specifier with
      | none => []
      | some s => "; import " ++ Text.quoted s ++ " in " ++ place referrer
    "Disallowed host for imports: " ++ host ++ " (" ++ url ++ ")" ++ location
  | .unsupportedSpecifier specifier referrer reason =>
    reason ++ ": " ++ Text.quoted specifier ++ " in " ++ place referrer
  | .missingPackageVersion package specifier referrer =>
    "Missing version for package \"" ++ package ++ "\" (import " ++ Text.quoted specifier ++ " in "
      ++ place referrer ++ "). Provide \"packageVersions\": \x7b\"" ++ package
      ++ "\": \"<version>\"\x7d"
  | .noBaseContext specifier referrer =>
    "Relative import " ++ Text.quoted specifier ++ " in " ++ place referrer
      ++ " has no base context (the entry file has no URL of its own)"
  | .fetchFailed url status reason =>
    let detail :=
      match status with
      | some status => Text.strip (Text.ofInt status ++ " " ++ reason)
      | none => reason
    "Fetch failed for " ++ url ++ ": " ++ if detail.isEmpty then "unknown error" else detail
  | .resourceLimitExceeded ceiling limit referrer url =>
    let what : Text :=
      match ceiling with
      | .sources => "Too many source files (> " ++ Text.ofInt limit ++ ")"
      | _ => "Total import size exceeded (" ++ Text.ofInt limit ++ " bytes)"
    what ++ circumstance " while fetching " url ++ circumstance " imported by " referrer
  | .deadlineExceeded timeout url =>
    "Request deadline exceeded (" ++ Seconds.general timeout ++ "s)"
      ++ circumstance " while fetching " url
  | .unsupportedCompilerVersion selector reason => reason ++ ": " ++ selector

end GatewayError

/-! ### All failures -/

/-- A value of the wrong shape; the field is the kind of the value. -/
inductive Misplaced
  | noMember (kind member : Text)
  | notIterable (kind : Text)
  | notText (kind : Text)
  | noDuration
deriving DecidableEq

namespace Misplaced

def kind : Misplaced → Text
  | .noMember .. => "AttributeError"
  | .notIterable _ | .notText _ | .noDuration => "TypeError"

def message : Misplaced → Text
  | .noMember kind member => "'" ++ kind ++ "' object has no attribute '" ++ member ++ "'"
  | .notIterable kind => "'" ++ kind ++ "' object is not iterable"
  | .notText kind => "expected string or bytes-like object, got '" ++ kind ++ "'"
  | .noDuration => "unsupported format string passed to NoneType.__format__"

end Misplaced

/-- Everything that can go wrong. -/
inductive Failure (τ : Type)
  | gateway (error : GatewayError τ)
  | fault (fault : Fault)
  | badUrl (defect : Url.Defect)
  | badJson (error : Json.ReadError)
  | unencodable (error : Utf8.EncodeError)
  | undecodable (error : Utf8.DecodeError)
  | misplaced (value : Misplaced)
  /-- A value is nested too deep to be copied. -/
  | uncopied

namespace Failure

variable {τ : Type}

/-- The name of the kind of a failure. -/
def kind : Failure τ → Text
  | .gateway error => error.kind
  | .fault f => f.kind.name
  | .badUrl _ => "ValueError"
  | .badJson (.invalid ..) => "JSONDecodeError"
  | .badJson (.longInteger _) => "ValueError"
  | .badJson (.tooDeep _) => "RecursionError"
  | .unencodable _ => "UnicodeEncodeError"
  | .undecodable _ => "UnicodeDecodeError"
  | .misplaced value => value.kind
  | .uncopied => "RecursionError"

def message [Seconds τ] : Failure τ → Text
  | .gateway error => error.message
  | .fault f => f.message
  | .badUrl defect => defect.message
  | .badJson error => error.message
  | .unencodable error => error.message
  | .undecodable error => error.message
  | .misplaced value => value.message
  | .uncopied => "maximum recursion depth exceeded while calling a Python object"

/-- The text of a failure; its kind where it has none. -/
def text [Seconds τ] (failure : Failure τ) : Text :=
  if failure.message.isEmpty then failure.kind else failure.message

/-- An outcome with a URL defect as a failure. -/
def ofUrl {α : Type} : Except Url.Defect α → Except (Failure τ) α
  | .ok a => .ok a
  | .error defect => .error (.badUrl defect)

/-- An outcome with an unwritable text as a failure. -/
def ofEncoding {α : Type} : Except Utf8.EncodeError α → Except (Failure τ) α
  | .ok a => .ok a
  | .error error => .error (.unencodable error)

end Failure

end CompileGate
