/-
CompileGate/Cli/Run.lean

A run of the program: it reads its command line, takes variables from a file if
asked to, starts its log, builds its settings from the environment, and then
serves, or compiles the one request that the environment holds.

A run of `compile` that comes to its request prints one line of JSON, and ends
with 0 exactly when that object reports success.  Only a whole number that is too
long to be read breaks it down.
-/
import CompileGate.Cli.Arguments
import CompileGate.Cli.Dotenv
import CompileGate.Http.Server
import CompileGate.Log.Entry

namespace CompileGate
namespace Cli

/-- What a run finds. -/
structure Surroundings (τ : Type) where
  environment : Environment
  /-- The name of the level of the log where the command line gives none.  It is looked up when the
  program is loaded, before variables are taken from a file. -/
  logLevel : Text
  files : Files
  /-- What comes to the service until it is interrupted. -/
  visits : List (Http.Visit τ)
  world : World τ

/-- What a run leaves. -/
structure Outcome (τ : Type) where
  /-- The status that the run ends with, unless it breaks down. -/
  status : Except (Failure τ) Int
  stdout : Text
  stderr : Text
  /-- The settings that were served with, and what became of the visits. -/
  served : Option (Config τ × List (Http.Visited τ))
  /-- The level of the log. -/
  level : Int
  world : World τ

namespace Outcome

variable {τ : Type}

/-- A run that did nothing but end. -/
def bare (status : Except (Failure τ) Int) (stdout stderr : Text) (w : World τ) : Outcome τ :=
  ⟨status, stdout, stderr, none, Log.warning, w⟩

end Outcome

variable {τ : Type}

/-- A run that stops before any command. -/
def stopped (w : World τ) : Stop → Outcome τ
  | .help scope => .bare (.ok 0) scope.help [] w
  | .version => .bare (.ok 0) versionLine [] w
  | .misuse scope error =>
    .bare (.ok 2) [] (scope.usage ++ scope.program ++ ": error: " ++ error.message ++ "\n") w
  | .droppedValue =>
    .bare (.error (.fault ⟨.valueError, "not enough values to unpack (expected 1, got 0)"⟩)) [] [] w

/-! ### Compiling one request -/

/-- The variable that holds the request. -/
def requestVariable : Text := "SOLC_GATEWAY_REQUEST_JSON"

/-- The payload that the environment holds, or what is wrong with it. -/
def readPayload (room : Nat) (env : Environment) : Except (Json.ReadError ⊕ Text) Json :=
  let t := (Table.get? requestVariable env).getD []
  if (Text.strip t).isEmpty then
    .error (.inr ("Missing required request payload: set " ++ requestVariable
      ++ " to a JSON object string."))
  else
    match Json.readWithin room t with
    | .error e => .error (.inl e)
    | .ok payload =>
      if payload.isObject then .ok payload
      else .error (.inr (requestVariable ++ " must decode to a JSON object (dict)."))

/-- The line that shows a reply. -/
def replyLine (reply : Table Json) : Text := Json.print .compact (.object reply) ++ "\n"

/-- Whether a reply reports success. -/
def succeeded (reply : Table Json) : Bool :=
  match Table.get? "success" reply with
  | some value => !value.isEmpty
  | none => false

variable [Seconds τ]

/-- Compiles the request of the environment. -/
def compile (config : Config τ) (level : Int) (env : Environment) (w : World τ) : Outcome τ :=
  let refused (message : Text) : Outcome τ :=
    ⟨.ok 1, replyLine (Pipeline.failureReply Stage.parseRequest.name "InvalidRequest" message), [],
      none, level, w⟩
  match readPayload w.room.request env with
  | .error (.inl (.longInteger n)) => ⟨.error (.badJson (.longInteger n)), [], [], none, level, w⟩
  | .error (.inl e) => refused e.message
  | .error (.inr message) => refused message
  | .ok payload =>
    let (reply, w) := Pipeline.run true config payload w
    ⟨.ok (if succeeded reply then 0 else 1), replyLine reply, [], none, level, w⟩

/-! ### Serving -/

/-- The host that the command line names. -/
def namedHost? (settings : Settings) : Option Text := settings.host.filter fun t => !t.isEmpty

/-- The settings with those of the command line in place. -/
def override (settings : Settings) (config : Config τ) : Config τ :=
  if (namedHost? settings).isNone && settings.port.isNone then config
  else
    Config.normalize { config with
      host := (namedHost? settings).getD config.host
      port := settings.port.getD config.port }

/-- A log record of the service itself. -/
def serverRecord (message : Text) (extras : Table Json) : Event τ :=
  .logged ⟨Log.info, "solc_gateway.server", message, extras, none⟩

/-- Serves until the run is interrupted. -/
def serve (config : Config τ) (level : Int) (visits : List (Http.Visit τ)) (w : World τ) :
    Outcome τ :=
  let w := w.record (serverRecord "solc-gateway listening"
    [("host", .string config.host), ("port", .int config.port)])
  let (visited, server) := Http.receiveAll (Server.start config w) visits
  let w := server.world.record (serverRecord "shutting down" [])
  ⟨.ok 0, [], [], some (config, visited), level, w⟩

/-! ### The whole run -/

/-- The environment with the variables of the file that was asked for. -/
def loadDotenv (settings : Settings) (s : Surroundings τ) :
    Except (Failure τ) Environment :=
  match settings.dotenv with
  | none | some [] => .ok s.environment
  | some path =>
    match Dotenv.load settings.dotenvOverride s.files path s.environment with
    | (.ok _, env) => .ok env
    | (.error e, _) => .error e

/-- Runs a command. -/
def runCommand (i : Invocation) (s : Surroundings τ) : Outcome τ :=
  match loadDotenv i.settings s with
  | .error e => .bare (.error e) [] [] s.world
  | .ok env =>
    match Log.chooseLevel s.logLevel i.settings.logLevel with
    | .error fault => .bare (.error (.fault fault)) [] [] s.world
    | .ok level =>
      let config : Config τ := Config.ofEnvironment env
      match i.command with
      | .serve => serve (override i.settings config) level s.visits s.world
      | .compile => compile config level env s.world

/-- Runs the program on a command line. -/
def run (words : List Text) (s : Surroundings τ) : Outcome τ :=
  match read words with
  | .error stop => stopped s.world stop
  | .ok i => runCommand i s

end Cli

end CompileGate
