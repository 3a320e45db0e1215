/-
CompileGate/Pipeline.lean

A compile request from its payload to its reply, in seven stages:

    parse the request, resolve the sources, rewrite the imports, build the input,
    load the compiler, compile, emit the result.

Each stage starts only when the one before it has succeeded.  The reply is a
JSON object in every case: the result of the last stage, or the failure of the
first stage that failed, with that stage's name.
-/
import CompileGate.Compiler.Document
import CompileGate.Compiler.Load
import CompileGate.Compiler.Report
import CompileGate.FetchCache
import CompileGate.Request
import CompileGate.SourceGraph

namespace CompileGate

/-- The stages of a request, in order. -/
inductive Stage
  | parseRequest
  | resolveSources
  | rewriteImports
  | buildInput
  | loadCompiler
  | compile
  | emitResult
deriving DecidableEq

def Stage.name : Stage → Text
  | .parseRequest => "parse_request"
  | .resolveSources => "resolve_sources"
  | .rewriteImports => "rewrite_imports"
  | .buildInput => "build_input"
  | .loadCompiler => "load_compiler"
  | .compile => "compile"
  | .emitResult => "emit_result"

/-- A failure and the stage that it happened in. -/
structure StageFailure (τ : Type) where
  stage : Stage
  failure : Failure τ

namespace Pipeline

variable {τ : Type}

/-- An effect as part of a stage. -/
def inStage {α : Type} (stage : Stage) (effect : Effect τ (World τ) α) :
    EStateM (StageFailure τ) (World τ) α := fun w =>
  match effect w with
  | .ok a w => .ok a w
  | .error e w => .error ⟨stage, e⟩ w

variable [Seconds τ]

/-! ### The stages -/

def parseRequest (config : Config τ) (payload : Json) :
    Effect τ (World τ) (Request × Context τ) := do
  World.lift (Request.readWithContext config (← World.clock) payload)

/-- Where the walk of a request takes texts from: its cache, over the world. -/
def fetcher (ctx : Context τ) (fetchTimeout : τ) : SourceGraph.Fetcher τ (Session τ) where
  fetch url maxBytes := FetchCache.fetch ctx fetchTimeout url (some maxBytes)
  now s := s.world.now

/-- Walks the sources from an entry and reports the graph. -/
def buildGraph (ctx : Context τ) (fetchTimeout : τ) (key content : Text) (base : Option Text) :
    Effect τ (Session τ) SourceGraph := do
  let g ← SourceGraph.build ctx (fetcher ctx fetchTimeout) key content base
  Session.onWorld (World.log Log.info "solc_gateway.sources" "import graph resolved" [
    ("entry", .string key), ("files", .int g.nodes.length), ("total_bytes", .int g.totalBytes),
    ("fetches", .int g.fetches)])
  return g

/-- Runs an effect in a session of its own, which is closed afterwards if it is `owned`. -/
def inSession {α : Type} (owned : Bool) (effect : Effect τ (Session τ) α) :
    Effect τ (World τ) α := fun w =>
  let close (w : World τ) : World τ := if owned then w.record .closedSession else w
  match effect (Session.ofWorld w) with
  | .ok a s => .ok a (close s.world)
  | .error e s => .error e (close s.world)

def resolveSources (owned : Bool) (config : Config τ) (request : Request) (ctx : Context τ) :
    Effect τ (World τ) SourceGraph :=
  inSession owned (buildGraph ctx config.fetchTimeout request.entryKey request.source none)

def rewriteImports (g : SourceGraph) : Effect τ (World τ) (Table Text) := return g.rewritten

def buildInput (sources : Table Text) (request : Request) : Effect τ (World τ) Json := do
  let members ← World.lift (Compiler.copiedDocument (← get).room.copy sources request.settings)
  let document := Json.object members
  let digest ← World.lift (Failure.ofEncoding (EntryKey.digest (Json.print .canonical document)))
  World.log Log.debug "solc_gateway.graph" "compiler input built"
    [("input_sha256", .string digest), ("files", .int sources.length)]
  return document

def loadCompiler (config : Config τ) (request : Request) (ctx : Context τ) :
    Effect τ (World τ) Compiler.Installed :=
  Compiler.load request.compilerVersion config ctx.deadline

def compile (compiler : Compiler.Installed) (document : Json) (ctx : Context τ) :
    Effect τ (World τ) (Table Json) := do
  let now ← World.clock
  if ctx.isOver now then World.abort (.deadlineExceeded ctx.namedTimeout none)
  else Compiler.compile compiler.binary document (ctx.secondsLeft now)

/-- The reply of a request whose stages all succeeded. -/
def result (request : Request) (sources : Table Text) (compiler : Compiler.Installed)
    (summary : Compiler.Summary) : Table Json :=
  let base : Table Json := [
    ("success", .bool !summary.hasError),
    ("compiler", .object [("version", .string compiler.version)]),
    ("filename", .string request.entryKey),
    ("files", .array (sources.names.map .string)),
    ("diagnostics", .array (summary.diagnostics.map Compiler.Diagnostic.toJson))]
  if !summary.hasError && request.returnArtifacts then
    Table.insert "artifacts" (.array (summary.artifacts.map Compiler.Artifact.toJson)) base
  else base

def emitResult (request : Request) (sources : Table Text) (compiler : Compiler.Installed)
    (report : Table Json) : Effect τ (World τ) (Table Json) :=
  match Compiler.summarize report with
  | .ok summary => return result request sources compiler summary
  | .error m => throw (.misplaced m)

/-! ### The whole -/

/-- All stages, one after the other. -/
def stages (owned : Bool) (config : Config τ) (payload : Json) :
    EStateM (StageFailure τ) (World τ) (Table Json) := do
  let (request, ctx) ← inStage .parseRequest (parseRequest config payload)
  let g ← inStage .resolveSources (resolveSources owned config request ctx)
  let sources ← inStage .rewriteImports (rewriteImports g)
  let document ← inStage .buildInput (buildInput sources request)
  let compiler ← inStage .loadCompiler (loadCompiler config request ctx)
  let report ← inStage .compile (compile compiler document ctx)
  inStage .emitResult (emitResult request sources compiler report)

/-- The reply of a request that failed. -/
def failureReply (stage kind message : Text) : Table Json := [
  ("success", .bool false),
  ("error", .string (if message.isEmpty then kind else message)),
  ("stage", .string stage),
  ("errorKind", .string kind)]

/-- The reply of a request that met a fault of the pipeline itself. -/
def breakdownReply (f : Fault) : Table Json :=
  Table.insert "errorKind" (.string "InternalError")
    (failureReply "unknown" f.kind.name f.message)

/-- The reply to a payload, and the world afterwards. -/
def run (owned : Bool) (config : Config τ) (payload : Json) (w : World τ) :
    Table Json × World τ :=
  match w.breakdown with
  | some f =>
    (breakdownReply f, w.record (.logged
      ⟨Log.error, "solc_gateway.main", "unexpected failure while compiling", [],
        some f.lastLine⟩))
  | none =>
    match stages owned config payload w with
    | .ok reply w => (reply, w)
    | .error e w =>
      (failureReply e.stage.name e.failure.kind e.failure.message, w.record (.logged
        ⟨Log.warning, "solc_gateway.main", "compile request failed",
          [("stage", .string e.stage.name), ("error_kind", .string e.failure.kind),
            ("error", .string e.failure.message)], none⟩))

end Pipeline

end CompileGate
