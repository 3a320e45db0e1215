/-
CompileGate/Compiler/Version.lean

Compiler versions in the four places where they are written:

    0.8.26                                  a release, as a request names it
    v0.8.26+commit.8a97fa7a                 a build, likewise
    soljson-v0.8.26+commit.8a97fa7a.js      a build, in the release index
    Version: 0.8.26+commit.8a97fa7a.Linux   a build, as a compiler reports it

A release is three runs of digits with points between them.
-/
import CompileGate.Failure
import CompileGate.Text.Blank
import CompileGate.Text.Caseless
import CompileGate.Text.Digit

namespace CompileGate
namespace Compiler

/-- A build: a release and the commit that it was made from. -/
structure Build where
  release : Text
  commit : Text
deriving DecidableEq

/-- How a request selects a compiler. -/
inductive Selector
  | default (release : Text)
  | release (release : Text)
  | build (build : Build)
deriving DecidableEq

namespace Build

/-- The name of a build. -/
def tag (b : Build) : Text := "v" ++ b.release ++ "+commit." ++ b.commit

end Build

/-! ### Reading -/

/-- A run of digits at the front of a text. -/
def takeDigits? (t : Text) : Option (Text × Text) :=
  let (digits, rest) := t.span CodePoint.isDigit
  if digits.isEmpty then none else some (digits, rest)

/-- A release at the front of a text, and the rest. -/
def takeRelease? (t : Text) : Option (Text × Text) := do
  let (major, rest) ← takeDigits? t
  let rest ← Text.afterStart? "." rest
  let (minor, rest) ← takeDigits? rest
  let rest ← Text.afterStart? "." rest
  let (patch, rest) ← takeDigits? rest
  return (major ++ "." ++ minor ++ "." ++ patch, rest)

/-- A digit of a commit in lower case. -/
def isLowerHex (c : CodePoint) : Bool := c.isAsciiDigit || (0x61 ≤ c.toNat && c.toNat ≤ 0x66)

/-- A digit of a commit in either case. -/
def isHex (c : CodePoint) : Bool := c.hexValue?.isSome

/-- Whether nothing but perhaps one line feed is left. -/
def atEnd (t : Text) : Bool := t.isEmpty || t = "\n"

/-- The text after a `v`, if it starts with one. -/
def dropV (t : Text) : Text := (Text.afterStart? "v" t).getD t

/-- The text after a `v` in either case, if it starts with one. -/
def dropAnyV (t : Text) : Text := (Text.afterCaseless? "v" t).getD t

/-- Reads a release that is the whole text. -/
def readRelease? (t : Text) : Option Text := do
  let (release, rest) ← takeRelease? (dropV t)
  if atEnd rest then some release else none

/-- A build at the front of a text, in any case, without its `v`; and the rest. -/
def takeBuild? (t : Text) : Option (Build × Text) := do
  let (release, rest) ← takeRelease? t
  let rest ← Text.afterCaseless? "+commit." rest
  let (commit, rest) := rest.span isHex
  if commit.isEmpty then none else some (⟨release, commit⟩, rest)

/-- Reads a build that is the whole text; its commit is put into lower case. -/
def readBuild? (t : Text) : Option Build := do
  let (build, rest) ← takeBuild? (dropAnyV t)
  if atEnd rest then some { build with commit := Text.toAsciiLower build.commit } else none

/-- Reads how a request selects a compiler. -/
def Selector.read {τ : Type} (selector : Option Text) (defaultRelease : Text) :
    Except (GatewayError τ) Selector :=
  match selector with
  | none => .ok (.default (defaultRelease.dropWhile (· = ('v' : CodePoint))))
  | some raw =>
    let s := Text.strip raw
    if s.isEmpty then .ok (.default (defaultRelease.dropWhile (· = ('v' : CodePoint))))
    else
      match readRelease? s with
      | some r => .ok (.release r)
      | none =>
        match readBuild? s with
        | some b => .ok (.build b)
        | none => .error (.unsupportedCompilerVersion raw "Unsupported compilerVersion format")

/-- The release that is selected. -/
def Selector.releaseOf : Selector → Text
  | .default r => r
  | .release r => r
  | .build b => b.release

/-- The tag of the build that a file of the release index holds. -/
def tagOfFile? (file : Text) : Option Text := do
  let rest ← Text.afterCaseless? "soljson-" file
  let afterV ← Text.afterCaseless? "v" rest
  let (_, afterBuild) ← takeBuild? afterV
  let ending ← Text.afterCaseless? ".js" afterBuild
  if atEnd ending then some (rest.take (rest.length - afterBuild.length)) else none

/-! ### What a compiler reports -/

/-- A build as a compiler reports it, with the marks of its platform. -/
structure Banner where
  long : Text
  build : Build
deriving DecidableEq

/-- The commit after the first `+commit.` that has one. -/
def findCommit? : Text → Option Text
  | [] => none
  | c :: rest =>
    match (Text.afterStart? "+commit." (c :: rest)).map fun t => t.takeWhile isLowerHex with
    | some (d :: commit) => some (d :: commit)
    | _ => findCommit? rest

/-- The banner at the front of a text. -/
def takeBanner? (t : Text) : Option Banner := do
  let rest ← Text.afterStart? "Version:" t
  let rest := rest.dropWhile CodePoint.isBlank
  let (release, after) ← takeRelease? rest
  let commit ← findCommit? (after.takeWhile fun c => !c.isBlank)
  return ⟨rest.takeWhile fun c => !c.isBlank, ⟨release, commit⟩⟩

/-- The first banner in a text. -/
def findBanner? : Text → Option Banner
  | [] => none
  | c :: rest =>
    match takeBanner? (c :: rest) with
    | some banner => some banner
    | none => findBanner? rest

end Compiler

end CompileGate
