/-
CompileGate/World.lean

The outside of the gateway as a value: a clock, the answers of the web to come,
the installed compilers and what their processes do, and the room that the call
stack leaves.  All effects of the gateway run in this world, which keeps a trace
of them; each entry of the trace has the clock reading at which the effect began.
The clock moves only by the delays that answers, installations and processes
take.
-/
import CompileGate.Failure
import CompileGate.Log.Record

namespace CompileGate

/-! ### What the outside does -/

/-- A part of a body on its way. -/
inductive BodyPart (τ : Type)
  | bytes (b : List UInt8)
  | wait (delay : τ)
  | fault (f : Fault)

/-- A body: whole, to be cut into slices by the reader, or in parts of its own. -/
inductive Body (τ : Type)
  | whole (b : List UInt8)
  | parts (ps : List (BodyPart τ))

/-- Slices of `size` bytes; `count` bounds their number. -/
def slices (size : Nat) : (count : Nat) → List UInt8 → List (List UInt8)
  | 0, _ => []
  | _ + 1, [] => []
  | count + 1, b :: bytes => (b :: bytes).take size :: slices size count ((b :: bytes).drop size)

/-- The parts of a body for a reader that takes `size` bytes at a time. -/
def Body.read {τ : Type} (size : Nat) : Body τ → List (BodyPart τ)
  | .whole b => (slices size b.length b).map .bytes
  | .parts ps => ps

/-- An answer to an HTTP request. -/
structure Response (τ : Type) where
  status : Int
  reason : Option Text
  headers : Table Text
  body : Body τ

/-- The value of a header; names are read without regard to ASCII case. -/
def Response.header? {τ : Type} (r : Response τ) (name : Text) : Option Text :=
  (r.headers.reverse.find? fun h => Text.toAsciiLower h.1 = Text.toAsciiLower name).map Prod.snd

/-- What a request meets: a delay, then an answer or a fault. -/
structure Answer (τ : Type) where
  delay : τ
  outcome : Except Fault (Response τ)

/-- What one run of a compiler does. -/
structure Job (τ : Type) where
  stdout : Text
  stderr : Text
  status : Int
  delay : τ
  /-- Whether it runs longer than it is given. -/
  hangs : Bool
  /-- Why it cannot start. -/
  startFault : Option Text

/-- A process that writes nothing and takes no time. -/
def Job.silent {τ : Type} [Seconds τ] : Job τ := ⟨[], [], 0, 0, false, none⟩

/-- The compilers of the outside. -/
structure Toolchain (τ : Type) where
  installed : List Text
  installDelay : τ
  installFault : Option Fault
  /-- Where the compiler of a release is. -/
  executable : Text → Text
  version : Job τ
  compile : Job τ

/-- No compiler is installed, and those that will be say nothing. -/
def Toolchain.idle {τ : Type} [Seconds τ] : Toolchain τ where
  installed := []
  installDelay := 0
  installFault := none
  executable release := "solc-v" ++ release
  version := .silent
  compile := .silent

/-! ### The call stack -/

/-- The room that is left on the call stack where values inside values are worked on.  The texts of
requests, of the release index and of reports are read with room for so many containers inside
each other; settings are copied with room for so many calls. -/
structure Room where
  request : Nat
  index : Nat
  report : Nat
  copy : Nat

/-- A stack of a thousand calls, of which the gateway itself takes no more than forty. -/
def Room.usual : Room := ⟨960, 960, 960, 960⟩

/-! ### The trace -/

/-- An effect of the gateway. -/
inductive Event (τ : Type)
  | requested (url : Text) (timeout : τ)
  | installed (version : Text)
  | askedVersion (command : Text)
  | compiled (command input : Text) (timeout : Option τ)
  | closedSession
  | logged (record : Log.Record)

/-- The outside and what was done to it. -/
structure World (τ : Type) where
  now : τ
  /-- The answers to come, by URL; the last one stays. -/
  routes : Table (List (Answer τ))
  tools : Toolchain τ
  room : Room
  /-- A fault of the pipeline itself, outside its stages. -/
  breakdown : Option Fault
  /-- The effects, last first, each with the clock reading at its beginning. -/
  trace : List (τ × Event τ)

/-- Effects that may fail. -/
abbrev Effect (τ σ α : Type) := EStateM (Failure τ) σ α

namespace World

variable {τ : Type} [Seconds τ]

/-- The effects in the order in which they began. -/
def events (w : World τ) : List (Event τ) := w.trace.reverse.map Prod.snd

/-- The log records, in order. -/
def records (w : World τ) : List Log.Record :=
  w.events.filterMap fun
    | .logged r => some r
    | _ => none

/-- The world after an effect has begun. -/
def record (event : Event τ) (w : World τ) : World τ :=
  { w with trace := (w.now, event) :: w.trace }

/-- The world some time later. -/
def advance (delay : τ) (w : World τ) : World τ := { w with now := w.now + delay }

/-- The answer of a URL that nothing is known about. -/
def notFound : Answer τ := ⟨0, .ok ⟨404, some "Not Found", [], .whole []⟩⟩

/-- Takes the next answer of a URL; the last one stays. -/
def nextAnswer (url : Text) (w : World τ) : Answer τ × World τ :=
  match Table.get? url w.routes with
  | none | some [] => (notFound, w)
  | some [a] => (a, w)
  | some (a :: rest) => (a, { w with routes := Table.insert url rest w.routes })

/-! ### Effects -/

/-- Fails with an error of the gateway. -/
def abort {σ α : Type} (e : GatewayError τ) : Effect τ σ α := throw (.gateway e)

/-- An outcome as an effect. -/
def lift {σ α : Type} : Except (Failure τ) α → Effect τ σ α
  | .ok a => pure a
  | .error e => throw e

/-- The clock reading. -/
def clock : Effect τ (World τ) τ := do return (← get).now

/-- Lets time pass. -/
def wait (delay : τ) : Effect τ (World τ) Unit := modify (advance delay)

/-- Writes a log record. -/
def log (level : Int) (logger message : Text) (extras : Table Json) : Effect τ (World τ) Unit :=
  modify (record (.logged ⟨level, logger, message, extras, none⟩))

/-- Sends a request and waits for what it meets. -/
def request (url : Text) (timeout : τ) : Effect τ (World τ) (Except Fault (Response τ)) := do
  modify (record (.requested url timeout))
  let (answer, w) := nextAnswer url (← get)
  set (advance answer.delay w)
  return answer.outcome

/-- Runs a process that was recorded and waits for it. -/
def runJob (event : Event τ) (p : Job τ) : Effect τ (World τ) Unit := do
  modify (record event)
  modify (advance p.delay)

end World

end CompileGate
