/-
CompileGate/Http/Server.lean

The HTTP service.  It compiles on `POST /compile`, tells its health on
`GET /healthz`, and answers `OPTIONS` for any path.

One connection may carry many requests.  Each request is read, answered and
logged before the next one is looked at.  The body of a `POST` that is turned
away is read and dropped when it is small; otherwise the connection closes.
Bodies of other requests are not looked for.

A body in which a whole number is too long, or in which values are nested too
deep, breaks the handling of its request down: nothing is sent, and the
connection closes.
-/
import CompileGate.Http.Reply
import CompileGate.Pipeline
import CompileGate.RateLimiter

namespace CompileGate

/-- The service: its settings, the windows of its clients and the world it acts in. -/
structure Server (τ : Type) where
  config : Config τ
  limiter : RateLimiter τ
  world : World τ

namespace Server

/-- A service that has answered nothing yet. -/
def start {τ : Type} [Seconds τ] (config : Config τ) (w : World τ) : Server τ :=
  ⟨config, RateLimiter.fresh config.rateLimit (Seconds.ofSetting (Binary64.ofInt 60)), w⟩

end Server

namespace Http

/-- A connection that is being served. -/
structure Exchange (τ : Type) where
  server : Server τ
  client : Text
  /-- The bytes that are not read yet. -/
  input : Bytes
  /-- What was sent, last first. -/
  output : List Bytes
  closing : Bool
  /-- What the handling of a request broke down with. -/
  breakdown : Option (Failure τ)

namespace Exchange

variable {τ : Type}

/-- Writes a log record about the client. -/
def log (message : Text) (x : Exchange τ) : Exchange τ :=
  let record : Log.Record :=
    ⟨Log.info, "solc_gateway.server", "http " ++ message, [("client", .string x.client)], none⟩
  { x with server := { x.server with world := x.server.world.record (.logged record) } }

/-- Logs a reply to a request line. -/
def logReply (line : Text) (status : Nat) (x : Exchange τ) : Exchange τ :=
  x.log ("\"" ++ line ++ "\" " ++ Text.ofNat status ++ " -")

/-- Sends bytes. -/
def write (bytes : Bytes) (x : Exchange τ) : Exchange τ := { x with output := bytes :: x.output }

/-- Sends a reply to a request. -/
def send (line : RequestLine) (reply : Reply) (x : Exchange τ) : Exchange τ :=
  (x.logReply line.text reply.status).write (reply.bytes (line.version = simpleVersion))

/-- Refuses a request and closes the connection. -/
def refuse (refusal : Refusal) (line method version : Text) (x : Exchange τ) : Exchange τ :=
  let reply := Reply.refusal refusal method
  let x := x.log ("code " ++ Text.ofNat refusal.status ++ ", message " ++ refusal.message)
  let x := x.logReply line reply.status
  { x.write (reply.bytes (version = simpleVersion)) with closing := true }

/-- Drops the next `n` bytes. -/
def discard (n : Nat) (x : Exchange τ) : Exchange τ := { x with input := x.input.drop n }

/-- Breaks the handling of a request down, which closes the connection. -/
def breakDown (failure : Failure τ) (x : Exchange τ) : Exchange τ :=
  { x with closing := true, breakdown := some failure }

/-- The largest body that is read to be dropped. -/
def maxDiscard : Int := 1048576

/-- The length of the body that a head announces; negative when it is no number. -/
def announced (head : Head) : Int :=
  match head.field? "Content-Length" with
  | none | some [] => 0
  | some value => (Integer.read? value).getD (-1)

/-- Turns a request away before its body was read. -/
def turnAway (head : Head) (status : Nat) (message : Text) (x : Exchange τ) : Exchange τ :=
  let length := announced head
  let x :=
    if 0 ≤ length ∧ length ≤ maxDiscard then x.discard length.toNat else { x with closing := true }
  x.send head.line (.failure status message)

/-- The path of a request without its query. -/
def pathOf (head : Head) : Text := Text.before '?' head.line.path

variable [Seconds τ]

/-- Answers a request whose body is there. -/
def answer (head : Head) (body : Bytes) (x : Exchange τ) : Exchange τ :=
  let bad (detail : Text) : Exchange τ :=
    x.send head.line (.failure 400 ("Invalid JSON body: " ++ detail))
  match Utf8.decode body with
  | .error e => bad e.message
  | .ok text =>
    match Json.readWithin x.server.world.room.request text with
    | .error (.invalid reason line column offset) =>
      bad (Json.ReadError.invalid reason line column offset).message
    | .error e => x.breakDown (.badJson e)
    | .ok payload =>
      let (reply, w) := Pipeline.run true x.server.config payload x.server.world
      let x := { x with server := { x.server with world := w } }
      let invalid := ((Table.get? "errorKind" reply).bind Json.text?) = some "InvalidRequest"
      x.send head.line (.json (if invalid then 400 else 200) reply)

/-- Reads the body of a compile request and answers it. -/
def receive (head : Head) (x : Exchange τ) : Exchange τ :=
  match head.field? "Content-Length" with
  | none => ({ x with closing := true }).send head.line (.failure 411 "Content-Length required.")
  | some value =>
    match Integer.read? value with
    | some (.ofNat length) =>
      if x.server.config.maxBodyBytes < length then
        x.turnAway head 413 ("Request body too large (> "
          ++ Text.ofInt x.server.config.maxBodyBytes ++ " bytes).")
      else (x.discard length).answer head (x.input.take length)
    | _ => x.turnAway head 400 "Invalid Content-Length."

/-- Answers a `POST` request. -/
def post (head : Head) (x : Exchange τ) : Exchange τ :=
  if pathOf head ≠ "/compile" then x.turnAway head 404 "Not found."
  else
    let (allowed, limiter) := x.server.limiter.allow x.server.world.now x.client
    let x := { x with server := { x.server with limiter := limiter } }
    if allowed then x.receive head
    else x.turnAway head 429 "Too many requests, please try again later."

/-- Answers a request. -/
def dispatch (head : Head) (x : Exchange τ) : Exchange τ :=
  let method := head.line.method
  if method = "GET" then
    if pathOf head = "/healthz" then x.send head.line (.json 200 [("ok", .bool true)])
    else x.send head.line (.failure 404 "Not found.")
  else if method = "POST" then x.post head
  else if method = "OPTIONS" then x.send head.line .options
  else x.refuse (.unknownMethod method) head.line.text method head.line.version

/-- Reads one request and answers it. -/
def step (x : Exchange τ) : Exchange τ :=
  let (reading, rest) := readHead x.input
  let x := { x with input := rest }
  match reading with
  | .nothing => { x with closing := true }
  | .refused refusal line method version => x.refuse refusal line method version
  | .request head =>
    let x := { x with closing := !head.keepsOpen }
    let x := if head.expectsSign then x.write (Reply.sign.bytes false) else x
    x.dispatch head

/-- Serves requests until the connection closes, but no more than `count` of them; each takes at
least one byte, or closes the connection. -/
def steps : (count : Nat) → Exchange τ → Exchange τ
  | 0, x => x
  | count + 1, x =>
    let x := x.step
    if x.closing then x else steps count x

end Exchange

/-- What a connection got, what it left unread, and what its handling broke down with. -/
structure Served (τ : Type) where
  output : Bytes
  unread : Nat
  breakdown : Option (Failure τ)

/-- Serves a connection on which a client sends some bytes and nothing more. -/
def serve {τ : Type} [Seconds τ] (server : Server τ) (client : Text) (input : Bytes) :
    Served τ × Server τ :=
  let x := Exchange.steps (input.length + 1) ⟨server, client, input, [], false, none⟩
  (⟨x.output.reverse.flatten, x.input.length, x.breakdown⟩, x.server)

/-! ### A run of the service -/

/-- What comes to the service: a connection, or a time without any. -/
inductive Visit (τ : Type)
  | connection (client : Text) (input : Bytes)
  | pause (delay : τ)

/-- What became of a visit. -/
inductive Visited (τ : Type)
  | served (s : Served τ)
  | paused (now : τ)

/-- Receives visits one after the other. -/
def receiveAll {τ : Type} [Seconds τ] (server : Server τ) :
    List (Visit τ) → List (Visited τ) × Server τ
  | [] => ([], server)
  | .connection client input :: rest =>
    let (served, server) := serve server client input
    let (more, server) := receiveAll server rest
    (.served served :: more, server)
  | .pause delay :: rest =>
    let server := { server with world := server.world.advance delay }
    let (more, final) := receiveAll server rest
    (.paused server.world.now :: more, final)

end Http

end CompileGate
