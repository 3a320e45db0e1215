/-
CompileGate/Request.lean

Compile requests, read from a JSON object.

Every member is checked on its own and all complaints are reported together, in
a fixed order of the members.  Three members have a second name; the first name
wins, and a complaint uses the name that was given.  Members with other names
are ignored.
-/
import CompileGate.Context
import CompileGate.EntryKey
import CompileGate.Failure

namespace CompileGate

/-- A compile request. -/
structure Request where
  source : Text
  filename : Option Text
  compilerVersion : Option Text
  returnArtifacts : Bool
  packageVersions : Table Text
  settings : Table Json
  /-- The key of the entry source. -/
  entryKey : Text

namespace Request

/-- A complaint: the place in the payload and what is wrong there. -/
structure Complaint where
  place : List Text
  problem : Text

def Complaint.message (c : Complaint) : Text := Text.join "." c.place ++ ": " ++ c.problem

/-- The value of a member, or the complaints about it. -/
abbrev Checked (α : Type) := Except (List Complaint) α

/-- Fails with one complaint. -/
def complain {α : Type} (place : List Text) (problem : Text) : Checked α :=
  .error [⟨place, problem⟩]

/-- The member under the first of some names that is given, and that name. -/
def given? (payload : Table Json) : List Text → Option (Text × Json)
  | [] => none
  | name :: names =>
    match Table.get? name payload with
    | some value => some (name, value)
    | none => given? payload names

/-- A text. -/
def checkText (place : List Text) : Json → Checked Text
  | .string s => .ok s
  | _ => complain place "Input should be a valid string"

/-- A text or null. -/
def checkOptionalText (place : List Text) : Json → Checked (Option Text)
  | .null => .ok none
  | value => (checkText place value).map some

/-- The source: a text that is not blank. -/
def checkSource (payload : Table Json) : Checked Text :=
  match given? payload ["source"] with
  | none => complain ["source"] "Field required"
  | some (name, value) => do
    let source ← checkText [name] value
    if (Text.strip source).isEmpty then complain [name] "Missing 'source' string."
    else return source

/-- A member that is a text, null or missing. -/
def checkOptional (payload : Table Json) (names : List Text) : Checked (Option Text) :=
  match given? payload names with
  | none => .ok none
  | some (name, value) => checkOptionalText [name] value

/-- A compiler version, without the blanks around it; a blank one counts as none. -/
def checkVersion (payload : Table Json) : Checked (Option Text) := do
  let version ← checkOptional payload ["compilerVersion", "compiler_version"]
  match version.map Text.strip with
  | none | some [] => return none
  | some version => return some version

def trueWords : List Text := ["1", "on", "t", "true", "y", "yes"]

def falseWords : List Text := ["0", "off", "f", "false", "n", "no"]

/-- The truth value that a whole number stands for. -/
def truthOfInt (n : Int) : Option Bool :=
  if n = 0 then some false else if n = 1 then some true else none

/-- The first whole number that 64 bits do not hold. -/
def wordBound : Int := 9223372036854775808

/-- A truth value; zero and one and some words stand for truth values too. -/
def checkTruth (place : List Text) (value : Json) : Checked Bool :=
  let notBoolean : Checked Bool := complain place "Input should be a valid boolean"
  let unclear : Checked Bool :=
    complain place "Input should be a valid boolean, unable to interpret input"
  match value with
  | .bool b => .ok b
  | .int n =>
    match truthOfInt n with
    | some b => .ok b
    | none => if -wordBound ≤ n ∧ n < wordBound then unclear else notBoolean
  | .float x =>
    match x.toInt? with
    | none => notBoolean
    | some n =>
      match truthOfInt n with
      | some b => .ok b
      | none => if -wordBound < n ∧ n < wordBound then unclear else notBoolean
  | .string s =>
    let word := Text.toAsciiLower s
    if trueWords.contains word then .ok true
    else if falseWords.contains word then .ok false
    else if s.any CodePoint.isSurrogate then
      complain place "Input should be a valid string, unable to parse raw data as a unicode string"
    else unclear
  | _ => notBoolean

/-- Whether artifacts are wanted. -/
def checkArtifacts (payload : Table Json) : Checked Bool :=
  match given? payload ["returnArtifacts", "return_artifacts"] with
  | none => .ok false
  | some (name, value) => checkTruth [name] value

/-- An object; null counts as an empty one. -/
def checkObject (place : List Text) : Json → Checked (Table Json)
  | .null => .ok []
  | .object members => .ok members
  | _ => complain place "Input should be a valid dictionary"

/-- The members of an object whose values are texts; all complaints are kept. -/
def checkTexts (place : List Text) : Table Json → Checked (Table Text)
  | [] => .ok []
  | (name, value) :: rest =>
    match checkText (place ++ [name]) value, checkTexts place rest with
    | .ok s, .ok texts => .ok ((name, s) :: texts)
    | .ok _, .error complaints => .error complaints
    | .error complaints, .ok _ => .error complaints
    | .error complaints, .error more => .error (complaints ++ more)

/-- The pinned package versions. -/
def checkVersions (payload : Table Json) : Checked (Table Text) :=
  match given? payload ["packageVersions", "package_versions"] with
  | none => .ok []
  | some (name, value) => do checkTexts [name] (← checkObject [name] value)

/-- The compiler settings. -/
def checkSettings (payload : Table Json) : Checked (Table Json) :=
  match given? payload ["settings"] with
  | none => .ok []
  | some (name, value) => checkObject [name] value

/-- The complaints about a member. -/
def complaints {α : Type} : Checked α → List Complaint
  | .ok _ => []
  | .error cs => cs

/-- The request of a payload, without its entry key, or everything that is wrong with it. -/
def check (payload : Table Json) : Checked Request :=
  let source := checkSource payload
  let filename := checkOptional payload ["filename"]
  let version := checkVersion payload
  let artifacts := checkArtifacts payload
  let versions := checkVersions payload
  let settings := checkSettings payload
  let entryKey := checkOptional payload ["entry_key"]
  match source, filename, version, artifacts, versions, settings, entryKey with
  | .ok source, .ok filename, .ok version, .ok artifacts, .ok versions, .ok settings, .ok _ =>
    .ok ⟨source, filename, version, artifacts, versions, settings, []⟩
  | _, _, _, _, _, _, _ =>
    .error (complaints source ++ complaints filename ++ complaints version
      ++ complaints artifacts ++ complaints versions ++ complaints settings ++ complaints entryKey)

variable {τ : Type}

/-- An invalid request. -/
def invalid {α : Type} (message : Text) : Except (Failure τ) α :=
  .error (.gateway (.invalidRequest [message]))

/-- Reads a request. -/
def read : Json → Except (Failure τ) Request
  | .object payload =>
    match check payload with
    | .error complaints => invalid (Text.join "; " (complaints.map Complaint.message))
    | .ok request => do
      let key ← Failure.ofEncoding (EntryKey.choose request.filename request.source)
      return { request with entryKey := key }
  | _ => invalid "Request body must be a JSON object."

/-- Reads a request that arrives at `now`, with its policy. -/
def readWithContext [Seconds τ] (config : Config τ) (now : τ) (payload : Json) :
    Except (Failure τ) (Request × Context τ) := do
  let request ← read payload
  return (request, Context.ofConfig config request.packageVersions now)

end Request

end CompileGate
