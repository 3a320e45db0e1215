/-
CompileGate/Main.lean

The program.  It runs without a network and without compilers of its own:
nothing can be fetched and no compiler can be installed.  `serve` answers the
requests of one connection, which it reads from its input.
-/
import CompileGate.Cli.Run
import CompileGate.Log.Timestamp
import Std.Time.DateTime.Timestamp

open CompileGate

/-- The variables that the program looks at. -/
def lookedAt : List String := [
  "SOLC_GATEWAY_HOST", "PORT", "MAX_SOURCES", "MAX_TOTAL_BYTES", "NPM_CDN",
  "SOLC_GATEWAY_ALLOWED_HOSTS", "SOLC_LIST_URL", "SOLC_DEFAULT_VERSION",
  "SOLC_GATEWAY_FETCH_TIMEOUT", "SOLC_GATEWAY_REQUEST_TIMEOUT", "SOLC_GATEWAY_MAX_BODY_BYTES",
  "SOLC_GATEWAY_RATE_LIMIT", "SOLC_GATEWAY_LOG_LEVEL", "SOLC_GATEWAY_REQUEST_JSON"]

/-- The environment of the program. -/
def environment : IO Environment :=
  lookedAt.filterMapM fun name => do
    return (← IO.getEnv name).map fun value => (Text.ofString name, Text.ofString value)

/-- The file that the command line names, if there is one. -/
def namedFile (words : List Text) : IO Files := do
  match Cli.read words with
  | .ok ⟨_, { dotenv := some path, .. }⟩ =>
    try
      let content ← IO.FS.readBinFile path.toDisplay
      return [(path, some content.toList)]
    catch _ => return []
  | _ => return []

/-- All that is left of a stream. -/
partial def readAll (stream : IO.FS.Stream) (done : List UInt8) : IO (List UInt8) := do
  let chunk ← stream.read 65536
  if chunk.isEmpty then return done else readAll stream (done ++ chunk.toList)

/-- The one connection that `serve` answers. -/
def connection (words : List Text) : IO (List (Http.Visit Float)) := do
  match Cli.read words with
  | .ok ⟨.serve, _⟩ => return [.connection "127.0.0.1" (← readAll (← IO.getStdin) [])]
  | _ => return []

/-- An outside in which nothing can be reached. -/
def offline (now : Float) : World Float where
  now := now
  routes := []
  tools := { Toolchain.idle with
    installFault := some ⟨.installationError, "no compiler can be installed offline"⟩ }
  room := .usual
  breakdown := none
  trace := []

def main (args : List String) : IO UInt32 := do
  let words := args.map Text.ofString
  let now := (← IO.monoMsNow).toFloat / 1000
  let env ← environment
  let outcome := Cli.run words
    ⟨env, Log.defaultName env, ← namedFile words, ← connection words, offline now⟩
  let stdout ← IO.getStdout
  let stderr ← IO.getStderr
  stdout.putStr outcome.stdout.toDisplay
  for visited in (outcome.served.map Prod.snd).getD [] do
    match visited with
    | .served s =>
      stdout.write ⟨s.output.toArray⟩
      if let some failure := s.breakdown then
        stderr.putStrLn (failure.kind ++ ": " ++ failure.message).toDisplay
    | .paused _ => pure ()
  stderr.putStr outcome.stderr.toDisplay
  let time := Log.timestamp (← Std.Time.Timestamp.now).toMillisecondsSinceUnixEpoch.val.toNat
  for record in outcome.world.records do
    if record.isVisible outcome.level then
      stderr.putStrLn (record.line time).toDisplay
  match outcome.status with
  | .ok code => return code.toNat.toUInt32
  | .error failure =>
    stderr.putStrLn (failure.kind ++ ": " ++ failure.message).toDisplay
    return 1
