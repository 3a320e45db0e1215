/-
CompileGate/Specifier/Forms.lean

The two short forms of import specifiers.

    github:owner/repo@ref/path
    [@scope/]name[@version]/path

Each part runs up to the first mark that it may not hold, so a specifier has at
most one reading.  The path may hold anything but a line feed; one line feed at
the very end is not part of it.
-/
import CompileGate.Text.Blank

namespace CompileGate
namespace Specifier

/-- A code point of a scope, an owner, a repository or a package name. -/
def isNamePoint (c : CodePoint) : Bool := c ≠ '/' && c ≠ '@' && !c.isBlank

/-- A code point of a version or a ref. -/
def isVersionPoint (c : CodePoint) : Bool := c ≠ '/' && !c.isBlank

/-- The longest non-empty run on which `p` holds, and what follows the mark after it. -/
def takeRun? (p : CodePoint → Bool) (mark : CodePoint) (t : Text) : Option (Text × Text) :=
  let (run, rest) := t.span p
  match rest with
  | [] => none
  | c :: rest => if run.isEmpty || c ≠ mark then none else some (run, rest)

/-- A text as one line: without the line feed at its end, if it holds no other and is not empty
then. -/
def line? (t : Text) : Option Text :=
  let body := (Text.beforeEnd? "\n" t).getD t
  if body.isEmpty || body.contains ('\n' : CodePoint) then none else some body

/-- A file of a repository at a ref. -/
structure GithubPath where
  owner : Text
  repo : Text
  ref : Text
  path : Text
deriving DecidableEq

/-- Reads the `github:` form. -/
def github? (t : Text) : Option GithubPath := do
  let rest ← Text.afterStart? "github:" t
  let (owner, rest) ← takeRun? isNamePoint '/' rest
  let (repo, rest) ← takeRun? isNamePoint '@' rest
  let (ref, rest) ← takeRun? isVersionPoint '/' rest
  let path ← line? rest
  return ⟨owner, repo, ref, path⟩

/-- The URL of a file of a repository. -/
def GithubPath.url (g : GithubPath) : Text :=
  "https://raw.githubusercontent.com/" ++ g.owner ++ "/" ++ g.repo ++ "/" ++ g.ref ++ "/" ++ g.path

/-- The URL that the `github:` form stands for. -/
def expandGithub? (t : Text) : Option Text := (github? t).map GithubPath.url

/-- A file of a package, perhaps at a version. -/
structure PackagePath where
  package : Text
  version : Option Text
  path : Text
deriving DecidableEq

/-- The scope at the front of a text, with its marks, and the rest. -/
def takeScope? (t : Text) : Option (Text × Text) :=
  match t with
  | [] => none
  | c :: rest =>
    if c = '@' then (takeRun? isNamePoint '/' rest).map fun (scope, rest) =>
      ("@" ++ scope ++ "/", rest)
    else some ([], t)

/-- Reads the package form. -/
def package? (t : Text) : Option PackagePath := do
  let (scope, rest) ← takeScope? t
  let (name, rest) := rest.span isNamePoint
  if name.isEmpty then none
  else
    match rest with
    | [] => none
    | mark :: rest =>
      if mark = '/' then
        let path ← line? rest
        return ⟨scope ++ name, none, path⟩
      else if mark = '@' then
        let (version, rest) ← takeRun? isVersionPoint '/' rest
        let path ← line? rest
        return ⟨scope ++ name, some version, path⟩
      else none

/-- A package path without a prefix of its own: neither relative nor absolute, and no scheme. -/
def isBarePackage (t : Text) : Bool :=
  match t with
  | [] => false
  | c :: _ => c ≠ '.' && c ≠ '/' && !t.contains (':' : CodePoint) && t.contains ('/' : CodePoint)

end Specifier

end CompileGate
