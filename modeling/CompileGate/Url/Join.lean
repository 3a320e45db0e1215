/-
CompileGate/Url/Join.lean

Resolves a reference against a base URL.  A reference with another scheme, or
with an authority, stands for itself; otherwise it takes from the base what it
lacks, and its path is appended to the directory of the base path.  The segments
`.` and `..` of the result are resolved, and `..` at the root is dropped.
-/
import CompileGate.Url.Basic

namespace CompileGate
namespace Url

/-- A URL whose path is cut before the parameters of its last segment. -/
structure Target where
  url : Url
  parameters : Text

/-- Cuts a path before the parameters of its last segment. -/
def cutParameters (path : Text) : Text × Text :=
  match Text.cutLast? '/' path with
  | none => cutAt ';' path
  | some (directory, last) =>
    let (name, parameters) := cutAt ';' last
    (directory ++ "/" ++ name, parameters)

/-- The parts of a text, with the parameters of its path apart. -/
def Target.ofText (scheme : Text) (t : Text) : Except Defect Target := do
  let url ← splitWith scheme t
  if parameterSchemes.contains url.scheme then
    let (path, parameters) := cutParameters url.path
    return ⟨{ url with path := path }, parameters⟩
  else return ⟨url, []⟩

/-- The text of a target. -/
def Target.toText (target : Target) : Text :=
  if target.parameters.isEmpty then unsplit target.url
  else unsplit { target.url with path := target.url.path ++ ";" ++ target.parameters }

/-! ### Paths -/

/-- The segments of a path with `.` dropped and each `..` taken back with the segment before it;
`done` holds the segments so far, last first. -/
def resolveSegments (done : List Text) : List Text → List Text
  | [] => done.reverse
  | segment :: rest =>
    if segment = ".." then resolveSegments done.tail rest
    else if segment = "." then resolveSegments done rest
    else resolveSegments (segment :: done) rest

/-- The segments without the empty ones between the first and the last. -/
def dropInnerEmpty : List Text → List Text
  | [] => []
  | first :: rest =>
    first :: (rest.dropLast.filter fun s => !s.isEmpty) ++ rest.drop (rest.length - 1)

/-- The segments of the directory of a path. -/
def directorySegments (path : Text) : List Text :=
  let segments := Text.splitOn '/' path
  if segments.getLast? = some [] then segments else segments.dropLast

/-- The path of a reference, resolved against a base path. -/
def joinPaths (base path : Text) : Text :=
  let segments :=
    if Text.startsWith "/" path then Text.splitOn '/' path
    else dropInnerEmpty (directorySegments base ++ Text.splitOn '/' path)
  let last := segments.getLast?.getD []
  let resolved := resolveSegments [] segments ++ if last = "." || last = ".." then [[]] else []
  let joined := Text.join "/" resolved
  if joined.isEmpty then "/" else joined

/-! ### References -/

/-- The URL that a reference names, seen from a base URL. -/
def join (base reference : Text) : Except Defect Text :=
  if base.isEmpty then .ok reference
  else if reference.isEmpty then .ok base
  else do
    let b ← Target.ofText [] base
    let r ← Target.ofText b.url.scheme reference
    if r.url.scheme ≠ b.url.scheme || !relativeSchemes.contains r.url.scheme then
      return reference
    else if authoritySchemes.contains r.url.scheme && !r.url.authority.isEmpty then
      return r.toText
    else
      let authority :=
        if authoritySchemes.contains r.url.scheme then b.url.authority else r.url.authority
      if r.url.path.isEmpty && r.parameters.isEmpty then
        let query := if r.url.query.isEmpty then b.url.query else r.url.query
        return Target.toText
          ⟨⟨r.url.scheme, authority, b.url.path, query, r.url.fragment⟩, b.parameters⟩
      else
        return Target.toText
          ⟨⟨r.url.scheme, authority, joinPaths b.url.path r.url.path, r.url.query,
            r.url.fragment⟩, r.parameters⟩

end Url

end CompileGate
