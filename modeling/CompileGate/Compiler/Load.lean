/-
CompileGate/Compiler/Load.lean

Provides the compiler that a request selects.

* Without a selector it is the configured release.
* A release is looked up in the release index, then installed if it is not.
* A build is installed by its release.

Where a build is known, from the index or from the selector, the commit that the
installed compiler reports must be that build's.  No step is started after the
deadline, and none is repeated.
-/
import CompileGate.Compiler.Release
import CompileGate.Compiler.Run
import CompileGate.Config

namespace CompileGate
namespace Compiler

/-- An installed compiler and the build that it reports. -/
structure Installed where
  binary : Text
  version : Text
deriving DecidableEq

variable {τ : Type} [Seconds τ]

/-- The time left before a deadline; fails when there is none left. -/
def timeLeft (deadline : Option τ) (config : Config τ) : Effect τ (World τ) (Option τ) := do
  match deadline with
  | none => return none
  | some d =>
    let left := d - (← World.clock)
    if Seconds.isOver left then World.abort (.deadlineExceeded config.requestTimeout none)
    else return some left

/-- Whether an installation that met this fault failed as a compiler. -/
def isInstallFault (kind : FaultKind) : Bool :=
  kind = .installationError || kind.isTransport || kind.isBadValue

/-- Installs a release. -/
def install (release : Text) : Effect τ (World τ) Unit := do
  World.log Log.info "solc_gateway.compiler" "installing solc" [("solc_version", .string release)]
  modify (World.record (.installed release))
  let tools := (← get).tools
  World.wait tools.installDelay
  match tools.installFault with
  | none => return
  | some f =>
    if isInstallFault f.kind then
      failRun ("Failed to install solc " ++ release ++ ": " ++ f.message)
    else throw (.fault f)

/-- The compiler of a release, installed if it is not. -/
def ensureInstalled (release : Text) : Effect τ (World τ) Text := do
  if !(← get).tools.installed.contains release then install release
  return (← get).tools.executable release

/-- The tag of the build that a selector asks for, where it is known. -/
def expectedTag (selector : Selector) (config : Config τ) (deadline : Option τ) :
    Effect τ (World τ) (Option Text) := do
  match selector with
  | .default _ => return none
  | .build b => return some b.tag
  | .release release =>
    let left ← timeLeft deadline config
    let timeout := (left.map fun l => Seconds.least config.fetchTimeout l).getD config.fetchTimeout
    return some (← lookUpRelease release config.releaseIndex timeout)

/-- Whether a reported build may stand for the one with a tag. -/
def matchesTag (banner : Banner) (tag : Text) : Bool :=
  match readBuild? tag with
  | some want => want.commit = Text.toAsciiLower banner.build.commit
  | none => true

/-- The compiler that a selector asks for. -/
def load (selector : Option Text) (config : Config τ) (deadline : Option τ) :
    Effect τ (World τ) Installed := do
  match Selector.read selector config.defaultRelease with
  | .error e => World.abort e
  | .ok sel =>
    let tag ← expectedTag sel config deadline
    let _ ← timeLeft deadline config
    let binary ← ensureInstalled sel.releaseOf
    let _ ← timeLeft deadline config
    let banner ← askVersion binary
    if tag.any fun t => !matchesTag banner t then
      let named :=
        match selector with
        | none | some [] => tag.getD []
        | some s => s
      World.abort (.unsupportedCompilerVersion named
        ("Installed solc build " ++ banner.long ++ " does not match requested build"))
    else
      World.log Log.info "solc_gateway.compiler" "compiler selected"
        [("selector", Json.ofText? selector), ("solc_version", .string banner.long)]
      return ⟨binary, banner.long⟩

end Compiler

end CompileGate
