/-
CompileGate/Compiler/Run.lean

The processes of a compiler: asking it for its version and giving it a document.
A process that cannot start, runs too long or reports failure fails with the
command and what the process wrote.
-/
import CompileGate.Compiler.Version
import CompileGate.World

namespace CompileGate
namespace Compiler

variable {τ : Type} [Seconds τ]

/-- Fails because of what a compiler's process did. -/
def failRun {σ α : Type} (message : Text) : Effect τ σ α :=
  World.abort (.compilerFailed [message])

/-- Runs a process and returns what it writes. -/
def runCommand (event : Event τ) (command : Text) (p : Job τ) (timeout : Option τ) :
    Effect τ (World τ) Text := do
  World.runJob event p
  match p.startFault with
  | some reason => failRun ("Command could not start: " ++ command ++ ": " ++ reason)
  | none =>
    if p.hangs then
      match timeout with
      | none => throw (.misplaced .noDuration)
      | some t =>
        failRun ("Command timed out after " ++ Seconds.general t ++ "s: " ++ command)
    else if p.status ≠ 0 then
      failRun ("Command failed: " ++ command ++ "\nSTDOUT:\n" ++ p.stdout ++ "\nSTDERR:\n"
        ++ p.stderr)
    else return p.stdout

/-- Asks a compiler for its version. -/
def askVersion (binary : Text) : Effect τ (World τ) Banner := do
  let command := binary ++ " --version"
  let output ← runCommand (.askedVersion command) command (← get).tools.version none
  match findBanner? output with
  | some banner => return banner
  | none =>
    failRun ("Could not parse solc version output: "
      ++ Text.quoted ((Text.strip output).take 200))

/-- Gives a document to a compiler and returns its report. -/
def compile (binary : Text) (document : Json) (timeout : Option τ) :
    Effect τ (World τ) (Table Json) := do
  let command := binary ++ " --standard-json"
  let input := Json.print .spaced document
  let output ← runCommand (.compiled command input timeout) command (← get).tools.compile timeout
  match Json.readWithin (← get).room.report output with
  | .error (.tooDeep container) => throw (.badJson (.tooDeep container))
  | .error e => failRun ("solc returned invalid JSON: " ++ e.message)
  | .ok (.object report) => return report
  | .ok _ => failRun "solc returned a non-object JSON document"

end Compiler

end CompileGate
