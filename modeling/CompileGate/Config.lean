/-
CompileGate/Config.lean

The settings of a gateway, fixed at its start and shared by all requests, and how
the environment gives them.

The hosts of the allow-list are in lower case, and the host of the package
network is always among them.  A setting that is blank or does not read as a
number falls back to its default.
-/
import CompileGate.Number.Reading
import CompileGate.Seconds
import CompileGate.Table
import CompileGate.Url.Canonical

namespace CompileGate

/-- The settings of a gateway. -/
structure Config (τ : Type) where
  host : Text
  port : Int
  /-- The greatest number of sources, the entry included. -/
  maxSources : Int
  /-- The greatest number of bytes of all sources together. -/
  maxTotalBytes : Int
  /-- Where packages are fetched from. -/
  packageCdn : Text
  /-- The hosts that imports may be fetched from. -/
  allowedHosts : List Text
  /-- Where compiler releases are listed. -/
  releaseIndex : Text
  /-- The release used when a request names none. -/
  defaultRelease : Text
  fetchTimeout : τ
  requestTimeout : τ
  maxBodyBytes : Int
  rateLimit : Int

namespace Config

def defaultHosts : List Text := ["unpkg.com", "raw.githubusercontent.com", "githubusercontent.com"]

def defaultCdn : Text := "https://unpkg.com"

def defaultIndex : Text := "https://binaries.soliditylang.org/bin/list.json"

def builtinRelease : Text := "0.8.26"

/-- A text without the slashes at its end. -/
def dropSlashes (t : Text) : Text := Text.trimEnd (· = '/') t

variable {τ : Type} [Seconds τ]

/-- The settings with the allow-list in lower case and the package network in it. -/
def normalize (config : Config τ) : Config τ :=
  let cdnHost := Url.hostOf config.packageCdn
  let hosts := config.allowedHosts.map Text.toLower ++ if cdnHost.isEmpty then [] else [cdnHost]
  { config with allowedHosts := hosts.eraseDups, packageCdn := dropSlashes config.packageCdn }

/-- The built-in settings, before normalisation. -/
def builtin : Config τ where
  host := "0.0.0.0"
  port := 8080
  maxSources := 64
  maxTotalBytes := 1500000
  packageCdn := defaultCdn
  allowedHosts := defaultHosts
  releaseIndex := defaultIndex
  defaultRelease := builtinRelease
  fetchTimeout := Seconds.ofSetting (Binary64.ofInt 20)
  requestTimeout := Seconds.ofSetting (Binary64.ofInt 120)
  maxBodyBytes := 524288
  rateLimit := 30

end Config

/-! ### The environment -/

/-- The variables of a process. -/
abbrev Environment := Table Text

namespace Environment

/-- The value of a variable without the blanks around it; empty when it is not set. -/
def stripped (env : Environment) (name : Text) : Text :=
  Text.strip ((Table.get? name env).getD [])

/-- A text setting. -/
def text (env : Environment) (name default : Text) : Text :=
  let value := stripped env name
  if value.isEmpty then default else value

/-- A whole-number setting. -/
def int (env : Environment) (name : Text) (default : Int) : Int :=
  (Integer.read? (stripped env name)).getD default

/-- A duration setting. -/
def seconds {τ : Type} [Seconds τ] (env : Environment) (name : Text) (default : τ) : τ :=
  ((Decimal.read? (stripped env name)).map Seconds.ofSetting).getD default

/-- A list of hosts with commas between them. -/
def hosts (env : Environment) (name : Text) (default : List Text) : List Text :=
  let value := stripped env name
  if value.isEmpty then default
  else
    ((Text.splitOn ',' value).map Text.strip).filterMap fun host =>
      if host.isEmpty then none else some (Text.toLower host)

end Environment

/-- The settings that an environment gives. -/
def Config.ofEnvironment {τ : Type} [Seconds τ] (env : Environment) : Config τ :=
  let base : Config τ := builtin
  normalize {
    host := env.text "SOLC_GATEWAY_HOST" base.host
    port := env.int "PORT" base.port
    maxSources := env.int "MAX_SOURCES" base.maxSources
    maxTotalBytes := env.int "MAX_TOTAL_BYTES" base.maxTotalBytes
    packageCdn := env.text "NPM_CDN" base.packageCdn
    allowedHosts := env.hosts "SOLC_GATEWAY_ALLOWED_HOSTS" base.allowedHosts
    releaseIndex := env.text "SOLC_LIST_URL" base.releaseIndex
    defaultRelease := env.text "SOLC_DEFAULT_VERSION" base.defaultRelease
    fetchTimeout := env.seconds "SOLC_GATEWAY_FETCH_TIMEOUT" base.fetchTimeout
    requestTimeout := env.seconds "SOLC_GATEWAY_REQUEST_TIMEOUT" base.requestTimeout
    maxBodyBytes := env.int "SOLC_GATEWAY_MAX_BODY_BYTES" base.maxBodyBytes
    rateLimit := env.int "SOLC_GATEWAY_RATE_LIMIT" base.rateLimit }

end CompileGate
