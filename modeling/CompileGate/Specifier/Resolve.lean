/-
CompileGate/Specifier/Resolve.lean

Maps an import specifier to the canonical URL of what it names.  The first rule
that applies decides:

1. an `http` or `https` URL, joined with the base when there is one;
2. `github:owner/repo@ref/path`;
3. a package path, with `npm:` before it or bare;
4. `./x` or `../x`, against the base.

Whatever comes out must have its host on the allow-list.  Nothing is fetched.
-/
import CompileGate.Context
import CompileGate.Failure
import CompileGate.Specifier.Forms
import CompileGate.Text.Caseless

namespace CompileGate
namespace Specifier

variable {τ : Type}

/-- A URL, if its host is on the allow-list. -/
def assertAllowed (url : Text) (ctx : Context τ) (specifier referrer : Option Text) :
    Except (Failure τ) Text :=
  let host := Url.hostOf url
  if host.isEmpty || !ctx.allowedHosts.contains host then
    .error (.gateway (.disallowedHost url host specifier referrer))
  else .ok url

/-- Whether a text starts with `http://` or `https://`, in any case. -/
def isWebUrl (t : Text) : Bool :=
  match Text.afterCaseless? "http" t with
  | none => false
  | some rest =>
    Text.startsWith "://" rest ||
      match Text.afterCaseless? "s" rest with
      | none => false
      | some rest => Text.startsWith "://" rest

/-- The URL of a package path.  An explicit version wins over a pinned one. -/
def expandPackage (spec : Text) (ctx : Context τ) (referrer : Option Text) :
    Except (GatewayError τ) Text :=
  let (body, reason) : Text × Text :=
    match Text.afterStart? "npm:" spec with
    | some body => (body, "Invalid npm import")
    | none => (spec, "Invalid package import")
  match package? body with
  | none => .error (.unsupportedSpecifier spec referrer reason)
  | some p =>
    match p.version.orElse fun _ => Table.get? p.package ctx.packageVersions with
    | none | some [] => .error (.missingPackageVersion p.package spec referrer)
    | some version => .ok (ctx.packageCdn ++ "/" ++ p.package ++ "@" ++ version ++ "/" ++ p.path)

/-- The canonical form of a URL, if its host is on the allow-list. -/
def admitted (url : Text) (ctx : Context τ) (specifier : Text) (referrer : Option Text) :
    Except (Failure τ) Text := do
  let url ← Failure.ofUrl (Url.canonical url)
  assertAllowed url ctx (some specifier) referrer

/-- The URL that a specifier names, seen from a file at `base`. -/
def resolve (raw : Text) (base : Option Text) (ctx : Context τ) (referrer : Option Text) :
    Except (Failure τ) Text :=
  let spec := Text.strip raw
  let base := base.getD []
  if isWebUrl spec then do
    let url ← Failure.ofUrl (Url.join base spec)
    admitted url ctx raw referrer
  else if Text.startsWith "github:" spec then
    match expandGithub? spec with
    | none => .error (.gateway (.unsupportedSpecifier raw referrer "Invalid GitHub shorthand"))
    | some url => admitted url ctx raw referrer
  else if Text.startsWith "npm:" spec || isBarePackage spec then
    match expandPackage spec ctx referrer with
    | .error e => .error (.gateway e)
    | .ok url => admitted url ctx raw referrer
  else if Text.startsWith "./" spec || Text.startsWith "../" spec then
    if base.isEmpty then .error (.gateway (.noBaseContext raw referrer))
    else do
      let url ← Failure.ofUrl (Url.join base spec)
      admitted url ctx raw referrer
  else .error (.gateway (.unsupportedSpecifier raw referrer "Unsupported import path"))

end Specifier

end CompileGate
