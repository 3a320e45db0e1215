/-
CompileGate/Cli/Dotenv.lean

Files that hold variables, one assignment a line.

A line is a name, `=` and a value; `export ` may stand before the name.  Blank
lines and lines that start with `#` hold nothing.  A value between quotes ends
at the closing quote, and what follows it is ignored; between double quotes a
backslash takes the next code point as it is.  A value without quotes ends at
`#`.
-/
import CompileGate.Cli.Files
import CompileGate.Config
import CompileGate.Failure
import CompileGate.Text.Lines

namespace CompileGate
namespace Dotenv

/-- A quoted value, after its opening quote. -/
def unquote (quote : CodePoint) : Text → Text
  | [] => []
  | c :: rest =>
    if quote = '"' ∧ c = '\\' then
      match rest with
      | [] => []
      | d :: rest => d :: unquote quote rest
    else if c = quote then []
    else c :: unquote quote rest

/-- The value that is written after `=`, without blanks around it. -/
def readValue : Text → Text
  | [] => []
  | c :: rest =>
    if c = '\'' ∨ c = '"' then unquote c rest else Text.strip (Text.before '#' (c :: rest))

/-- A line without the word that marks a variable for other programs. -/
def dropExport (line : Text) : Text :=
  match Text.afterStart? "export " line with
  | some rest => Text.stripStart rest
  | none => line

/-- The name and the value of an assignment. -/
def readAssignment? (line : Text) : Option (Text × Text) :=
  match Text.cutFirst? '=' line with
  | none => none
  | some (name, value) =>
    let name := Text.strip name
    if name.isEmpty then none else some (name, readValue (Text.strip value))

/-- The assignment of a line, if it has one. -/
def readLine? (line : Text) : Option (Text × Text) :=
  let line := Text.strip line
  if line.isEmpty ∨ Text.startsWith "#" line then none else readAssignment? (dropExport line)

/-- The assignments of a text. -/
def assignments (t : Text) : List (Text × Text) := (Text.lines t).filterMap readLine?

/-! ### Changing an environment -/

/-- A code point that no variable can hold. -/
def nul : CodePoint := CodePoint.ofNat 0

/-- The environment after an assignment; none when the assignment is impossible.  A variable that
is set keeps its value, unless values are to be replaced. -/
def assign (replace : Bool) (env : Environment) (a : Text × Text) : Option Environment :=
  if !replace && Table.has a.1 env then some env
  else if a.1.contains nul || a.2.contains nul then none
  else some (Table.insert a.1 a.2 env)

/-- The environment after assignments, up to the first that is impossible, and whether all were
possible. -/
def assignAll (replace : Bool) : List (Text × Text) → Environment → Bool × Environment
  | [], env => (true, env)
  | a :: rest, env =>
    match assign replace env a with
    | some env => assignAll replace rest env
    | none => (false, env)

/-- Reads the variables of a file into an environment, and tells whether there is such a file. -/
def load {τ : Type} (replace : Bool) (files : Files) (path : Text) (env : Environment) :
    Except (Failure τ) Bool × Environment :=
  match files.read? path with
  | none => (.ok false, env)
  | some bytes =>
    match Utf8.decode bytes with
    | .error e => (.error (.undecodable e), env)
    | .ok t =>
      match assignAll replace (assignments t) env with
      | (true, env) => (.ok true, env)
      | (false, env) => (.error (.fault ⟨.valueError, "embedded null byte"⟩), env)

end Dotenv

end CompileGate
