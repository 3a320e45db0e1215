/-
CompileGate/FetchCache.lean

The texts that a request has fetched, by URL.

* A text that is there is not fetched again.
* Redirects are followed by hand, and every hop must be on the allow-list before
  it is requested; at most six requests are made for one text.
* The deadline is looked at before each request and at each part of a body, and
  a body that grows past its limit is dropped at once.
-/
import CompileGate.Specifier.Resolve
import CompileGate.World

namespace CompileGate

/-- The texts fetched so far, and how often texts were fetched and found. -/
structure FetchCache where
  texts : Table Text
  fetches : Nat
  hits : Nat

/-- The world and the texts fetched from it. -/
structure Session (τ : Type) where
  world : World τ
  cache : FetchCache

namespace Session

variable {τ : Type}

/-- A session that has fetched nothing. -/
def ofWorld (w : World τ) : Session τ := ⟨w, ⟨[], 0, 0⟩⟩

/-- An effect on the world alone. -/
def onWorld {α : Type} (effect : Effect τ (World τ) α) : Effect τ (Session τ) α := fun s =>
  match effect s.world with
  | .ok a w => .ok a { s with world := w }
  | .error e w => .error e { s with world := w }

end Session

namespace FetchCache

variable {τ : Type} [Seconds τ]

/-- The statuses that send a request elsewhere. -/
def redirectStatuses : List Int := [301, 302, 303, 307, 308]

/-- How many redirects are followed. -/
def maxRedirects : Nat := 5

/-- How much of a body is read at a time. -/
def chunkSize : Nat := 65536

/-- Fails when no time is left. -/
def checkDeadline (ctx : Context τ) (url : Text) : Effect τ (World τ) Unit := do
  if ctx.isOver (← World.clock) then
    World.abort (.deadlineExceeded ctx.namedTimeout (some url))

/-- The time that a request may take. -/
def timeoutFor (ctx : Context τ) (fetchTimeout : τ) (url : Text) : Effect τ (World τ) τ := do
  checkDeadline ctx url
  match ctx.secondsLeft (← World.clock) with
  | none => return fetchTimeout
  | some left => return Seconds.least fetchTimeout left

/-- Reads the parts of a body after the `done` bytes, last part first. -/
def readParts (ctx : Context τ) (url : Text) (maxBytes : Option Int) :
    (size : Nat) → (done : List (List UInt8)) → List (BodyPart τ) → Effect τ (World τ) (List UInt8)
  | _, done, [] => return done.reverse.flatten
  | size, done, .wait delay :: rest => do
    World.wait delay
    readParts ctx url maxBytes size done rest
  | _, _, .fault f :: _ =>
    if f.kind.isTransport then World.abort (.fetchFailed url none f.message) else throw (.fault f)
  | size, done, .bytes [] :: rest => readParts ctx url maxBytes size done rest
  | size, done, .bytes (b :: bytes) :: rest => do
    checkDeadline ctx url
    let size := size + (b :: bytes).length
    if maxBytes.any fun limit => limit < (size : Int) then
      World.abort (.resourceLimitExceeded .totalBytes ctx.maxTotalBytes none (some url))
    else readParts ctx url maxBytes size ((b :: bytes) :: done) rest

/-- Where an answer sends the request, if it does. -/
def redirect? (response : Response τ) : Option Text :=
  if redirectStatuses.contains response.status then
    (response.header? "Location").filter fun location => !location.isEmpty
  else none

/-- The failure of a request that met a fault. -/
def failRequest {α : Type} (ctx : Context τ) (url : Text) (timeout : τ) (f : Fault) :
    Effect τ (World τ) α := do
  if f.kind.isTimeout then
    checkDeadline ctx url
    World.abort (.fetchFailed url none ("timed out after " ++ Seconds.general timeout ++ "s"))
  else if f.kind.isTransport then World.abort (.fetchFailed url none f.message)
  else throw (.fault f)

/-- The URL of the next hop, if it may be requested. -/
def nextHop (ctx : Context τ) (current location : Text) : Except (Failure τ) Text := do
  let joined ← Failure.ofUrl (Url.join current location)
  let next ← Failure.ofUrl (Url.canonical joined)
  Specifier.assertAllowed next ctx none none

/-- Fetches the bytes of `url`, of which `current` is the hop to request next; `left` requests
may still be made. -/
def download (ctx : Context τ) (fetchTimeout : τ) (url : Text) (maxBytes : Option Int) :
    (left : Nat) → (current : Text) → Effect τ (World τ) (List UInt8)
  | 0, _ =>
    World.abort (.fetchFailed url none
      ("too many redirects (> " ++ Text.ofNat maxRedirects ++ ")"))
  | left + 1, current => do
    let timeout ← timeoutFor ctx fetchTimeout current
    match ← World.request current timeout with
    | .error f => failRequest ctx current timeout f
    | .ok response =>
      match redirect? response with
      | some location => do
        let next ← World.lift (nextHop ctx current location)
        download ctx fetchTimeout url maxBytes left next
      | none =>
        if 200 ≤ response.status ∧ response.status < 300 then
          readParts ctx url maxBytes 0 [] (response.body.read chunkSize)
        else
          World.abort (.fetchFailed url (some response.status) (response.reason.getD []))

/-- The text of a URL: the one in the cache, or a fetched one, which goes into the cache. -/
def fetch (ctx : Context τ) (fetchTimeout : τ) (url : Text) (maxBytes : Option Int) :
    Effect τ (Session τ) Text := do
  let s ← get
  match Table.get? url s.cache.texts with
  | some text =>
    set { s with cache := { s.cache with hits := s.cache.hits + 1 } }
    Session.onWorld (World.log Log.debug "solc_gateway.fetch" "fetch cache hit"
      [("url", .string url)])
    return text
  | none =>
    let _ ← World.lift (Specifier.assertAllowed url ctx none none)
    let bytes ← Session.onWorld (download ctx fetchTimeout url maxBytes (maxRedirects + 1) url)
    let text := Utf8.decodeLenient bytes
    modify fun s =>
      { s with cache :=
        ⟨Table.insert url text s.cache.texts, s.cache.fetches + 1, s.cache.hits⟩ }
    Session.onWorld (World.log Log.info "solc_gateway.fetch" "fetched import"
      [("url", .string url), ("bytes", .int bytes.length)])
    return text

end FetchCache

end CompileGate
