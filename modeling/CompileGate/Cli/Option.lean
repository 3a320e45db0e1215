/-
CompileGate/Cli/Option.lean

The commands of the program, the options that each scope of the command line
knows, and the help of each scope.
-/
import CompileGate.Text.Basic

namespace CompileGate
namespace Cli

/-- What the program can be told to do. -/
inductive Command
  | serve
  | compile
deriving DecidableEq

namespace Command

/-- All commands, in the order of the help. -/
def all : List Command := [.serve, .compile]

def name : Command → Text
  | .serve => "serve"
  | .compile => "compile"

def ofName? (name : Text) : Option Command := all.find? fun command => command.name = name

end Command

/-- The part of the command line that words belong to: before the command's name, or after it. -/
inductive Scope
  | top
  | command (c : Command)
deriving DecidableEq

/-- The options. -/
inductive Switch
  | help
  | version
  | dotenv
  | dotenvOverride
  | logLevel
  | host
  | port
deriving DecidableEq

/-- How many values an option takes. -/
inductive Arity
  | none
  | one
  | atMostOne
deriving DecidableEq

namespace Switch

/-- The ways to write an option. -/
def spellings : Switch → List Text
  | .help => ["-h", "--help"]
  | .version => ["--version"]
  | .dotenv => ["--dotenv"]
  | .dotenvOverride => ["--dotenv-override"]
  | .logLevel => ["--log-level"]
  | .host => ["--host"]
  | .port => ["--port"]

/-- The name of an option in messages. -/
def name (s : Switch) : Text := Text.join "/" s.spellings

def arity : Switch → Arity
  | .help | .version | .dotenvOverride => .none
  | .dotenv => .atMostOne
  | .logLevel | .host | .port => .one

end Switch

namespace Scope

/-- The options of a scope, in the order of the help. -/
def switches : Scope → List Switch
  | .top => [.help, .version]
  | .command .serve => [.help, .dotenv, .dotenvOverride, .logLevel, .host, .port]
  | .command .compile => [.help, .dotenv, .dotenvOverride, .logLevel]

/-- The spellings of a scope with their options, in order. -/
def spelled (scope : Scope) : List (Text × Switch) :=
  scope.switches.flatMap fun s => s.spellings.map fun t => (t, s)

/-- The option that a word spells in full. -/
def find? (scope : Scope) (word : Text) : Option Switch :=
  (scope.spelled.find? fun e => e.1 = word).map Prod.snd

/-- What the program calls itself in a scope. -/
def program : Scope → Text
  | .top => "solc-gateway"
  | .command c => "solc-gateway " ++ c.name

/-! ### Help -/

/-- Lines as one text. -/
def ofLines (lines : List Text) : Text := lines.flatMap fun line => line ++ "\n"

/-- How a scope is used. -/
def usage : Scope → Text
  | .top => ofLines ["usage: solc-gateway [-h] [--version] \x7bserve,compile\x7d ..."]
  | .command .serve => ofLines [
      "usage: solc-gateway serve [-h] [--dotenv [PATH]] [--dotenv-override]",
      "                          [--log-level LEVEL] [--host HOST] [--port PORT]"]
  | .command .compile => ofLines [
      "usage: solc-gateway compile [-h] [--dotenv [PATH]] [--dotenv-override]",
      "                            [--log-level LEVEL]"]

/-- The help on the options that all commands have. -/
def commonHelp : Text := ofLines [
  "",
  "options:",
  "  -h, --help         show this help message and exit",
  "  --dotenv [PATH]    Read settings from a .env file before configuration is",
  "                     built (PATH defaults to ./.env).",
  "  --dotenv-override  Let .env values replace variables that are already set in",
  "                     the environment.",
  "  --log-level LEVEL  Log level (default: SOLC_GATEWAY_LOG_LEVEL or INFO)."]

/-- What the help of a scope says after its usage. -/
def description : Scope → Text
  | .top => ofLines [
      "",
      "Solidity compile gateway with remote import resolution",
      "",
      "positional arguments:",
      "  \x7bserve,compile\x7d",
      "    serve          Run the HTTP API.",
      "    compile        Compile one request read from SOLC_GATEWAY_REQUEST_JSON and",
      "                   print the JSON response.",
      "",
      "options:",
      "  -h, --help       show this help message and exit",
      "  --version        show program's version number and exit"]
  | .command .serve =>
    commonHelp ++ ofLines [
      "  --host HOST        Bind address (default: SOLC_GATEWAY_HOST or 0.0.0.0).",
      "  --port PORT        Port (default: PORT or 8080)."]
  | .command .compile => commonHelp

/-- The help of a scope. -/
def help (scope : Scope) : Text := scope.usage ++ scope.description

end Scope

/-- The answer to a question about the version. -/
def versionLine : Text := "solc-gateway 0.1.0\n"

end Cli

end CompileGate
