/-
CompileGate/Compiler/Release.lean

Looks a release up in the release index: a JSON document whose member `releases`
gives the file of each release.  The file's name holds the tag of the build.
-/
import CompileGate.Compiler.Version
import CompileGate.World

namespace CompileGate
namespace Compiler

variable {τ : Type} [Seconds τ]

/-- The bytes of a body that is read as a whole. -/
def readWhole : (done : List (List UInt8)) → List (BodyPart τ) →
    Effect τ (World τ) (Except Fault (List UInt8))
  | done, [] => return .ok done.reverse.flatten
  | done, .wait delay :: rest => do
    World.wait delay
    readWhole done rest
  | _, .fault f :: _ => return .error f
  | done, .bytes b :: rest => readWhole (b :: done) rest

/-- The failure of an index that is no JSON. -/
def badIndex {σ α : Type} (url detail : Text) : Effect τ σ α :=
  World.abort
    (.fetchFailed url none ("invalid JSON in compiler release index: " ++ detail))

/-- The document that an index response holds. -/
def readIndex (url : Text) (response : Response τ) : Effect τ (World τ) Json := do
  match ← readWhole [] (response.body.read 65536) with
  | .error f => if f.kind.isBadValue then badIndex url f.message else throw (.fault f)
  | .ok bytes =>
    match Utf8.decode bytes with
    | .error e => badIndex url e.message
    | .ok text =>
      match Json.readWithin (← get).room.index text with
      | .error (.tooDeep container) => throw (.badJson (.tooDeep container))
      | .error e => badIndex url e.message
      | .ok index => return index

/-- What the index holds under a release; null when there is nothing. -/
def releaseFile (index : Json) (release : Text) : Except Misplaced Json :=
  match index with
  | .object members =>
    match (Table.get? "releases" members).getD .null with
    | .object releases => .ok ((Table.get? release releases).getD .null)
    | other => if other.isEmpty then .ok .null else .error (.noMember other.kindName "get")
  | _ => .ok .null

/-- The tag of a release's build, from the document of the index. -/
def tagInIndex (index : Json) (release : Text) : Except (Failure τ) Text :=
  match releaseFile index release with
  | .error m => .error (.misplaced m)
  | .ok file =>
    if file.isEmpty then
      .error (.gateway
        (.unsupportedCompilerVersion release "Compiler version not found in releases"))
    else
      match file with
      | .string name =>
        match tagOfFile? name with
        | some tag => .ok tag
        | none => .error (.gateway (.unsupportedCompilerVersion release
            ("Unexpected release filename format " ++ Text.quoted name)))
      | other => .error (.misplaced (.notText other.kindName))

/-- The tag of a release's build, looked up in the release index. -/
def lookUpRelease (release url : Text) (timeout : τ) : Effect τ (World τ) Text := do
  match ← World.request url timeout with
  | .error f =>
    if f.kind.isTransport then World.abort (.fetchFailed url none f.message)
    else throw (.fault f)
  | .ok response =>
    if 200 ≤ response.status ∧ response.status < 300 then
      let index ← readIndex url response
      World.lift (tagInIndex index release)
    else World.abort (.fetchFailed url (some response.status) (response.reason.getD []))

end Compiler

end CompileGate
