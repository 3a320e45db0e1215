/-
CompileGate/Compiler/Report.lean

What a compiler reports, in short: its diagnostics, whether one of them is an
error, and the contracts that it produced.  Empty values count as missing; a
value of another shape where members are looked for is a failure.
-/
import CompileGate.Failure

namespace CompileGate
namespace Compiler

/-- A remark of the compiler. -/
structure Diagnostic where
  type : Json
  severity : Json
  message : Json
  sourceLocation : Json

/-- A contract that the compiler produced. -/
structure Artifact where
  file : Text
  contract : Text
  abi : Json
  bytecode : Json

/-- A report in short. -/
structure Summary where
  diagnostics : List Diagnostic
  hasError : Bool
  artifacts : List Artifact

namespace Diagnostic

/-- The remark that an entry of the error list makes; entries that are no objects make none. -/
def ofEntry? : Json → Option Diagnostic
  | .object e =>
    let member (name : Text) : Json := (Table.get? name e).getD .null
    let formatted := member "formattedMessage"
    let location := member "sourceLocation"
    some {
      type := member "type"
      severity := member "severity"
      message := if formatted.isEmpty then member "message" else formatted
      sourceLocation := if location.isEmpty then .null else location }
  | _ => none

/-- Whether a remark is an error. -/
def isError (d : Diagnostic) : Bool := d.severity.text? = some "error"

def toJson (d : Diagnostic) : Json :=
  .object [("type", d.type), ("severity", d.severity), ("message", d.message),
    ("sourceLocation", d.sourceLocation)]

end Diagnostic

/-- The entries of a value that is gone through; names and characters are no objects. -/
def entries : Json → Except Misplaced (List Json)
  | .array items => .ok items
  | .object _ | .string _ => .ok []
  | other => if other.isEmpty then .ok [] else .error (.notIterable other.kindName)

/-- The members of a value that is gone through by name. -/
def namedEntries : Json → Except Misplaced (Table Json)
  | .object members => .ok members
  | other => if other.isEmpty then .ok [] else .error (.noMember other.kindName "items")

/-- The member of a value that must be an object. -/
def member (name : Text) : Json → Except Misplaced Json
  | .object members => .ok ((Table.get? name members).getD .null)
  | other => .error (.noMember other.kindName "get")

/-- The member of a value that is an object or empty. -/
def memberOrNull (name : Text) (value : Json) : Except Misplaced Json :=
  if value.isEmpty then .ok .null else member name value

namespace Artifact

/-- The contract that an entry of the contract list holds. -/
def ofEntry (file contract : Text) (value : Json) : Except Misplaced Artifact := do
  let evm ← member "evm" value
  let bytecode ← memberOrNull "bytecode" evm
  let code ← memberOrNull "object" bytecode
  let abi ← member "abi" value
  return ⟨file, contract, abi, if code.isEmpty then .string [] else code⟩

def toJson (a : Artifact) : Json :=
  .object [("file", .string a.file), ("contract", .string a.contract), ("abi", a.abi),
    ("bytecode", a.bytecode)]

end Artifact

/-- The contracts of a file. -/
def artifactsOfFile (file : Text) (contracts : Json) : Except Misplaced (List Artifact) := do
  (← namedEntries contracts).mapM fun entry => Artifact.ofEntry file entry.1 entry.2

/-- A report in short. -/
def summarize (report : Table Json) : Except Misplaced Summary := do
  let errors ← entries ((Table.get? "errors" report).getD .null)
  let diagnostics := errors.filterMap Diagnostic.ofEntry?
  let files ← namedEntries ((Table.get? "contracts" report).getD .null)
  let artifacts ← files.mapM fun entry => artifactsOfFile entry.1 entry.2
  return ⟨diagnostics, diagnostics.any Diagnostic.isError, artifacts.flatten⟩

end Compiler

end CompileGate
