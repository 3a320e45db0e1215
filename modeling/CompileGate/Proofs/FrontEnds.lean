/-
CompileGate/Proofs/FrontEnds.lean

How the two front ends answer the text of a request.

The text comes as the body of an HTTP request (`Http.Exchange.Receives`) or in a variable of
a command (`Cli.Compiles`).  The reader can stop in it at two things that are no errors in the
syntax of JSON: at a whole number that is too long (`Json.IsOverlong`), and at a container for
which the call stack has no room (`Json.IsTooDeep`).  The service expects neither of them: it
closes the connection without a reply.  The command does not expect the first one, and breaks
down.

Every other text is answered with one JSON object, whatever becomes of the request behind it.
The status tells them apart: a body that is no JSON and a request that is refused are bad
(`Http.IsBad`), and the command ends with 0 exactly when its object reports success.

Main result: `front_ends_answer`.
-/
import CompileGate.Cli.Run
import CompileGate.Proofs.Framing
import CompileGate.Proofs.NestedJson
import CompileGate.Proofs.ReadableReplies
import CompileGate.Proofs.RefusedRequests

namespace CompileGate

/-! ### Texts that the reader cannot finish -/

/-- The reader comes to a whole number with too many digits. -/
def Json.IsOverlong (room : Option Nat) (t : Text) : Prop :=
  ∃ digits, Json.readWithin room t = .error (.longInteger digits)

/-- The reader comes to a container for which there is no room. -/
def Json.IsTooDeep (room : Option Nat) (t : Text) : Prop :=
  ∃ container, Json.readWithin room t = .error (.tooDeep container)

/-- A whole number with too many digits is overlong. -/
theorem Json.isOverlong_of_digits {room : Option Nat} {c : CodePoint} {digits : Text}
    (hdigits : IsDigits (c :: digits)) (hfront : c ≠ '0')
    (hlength : Integer.maxDigits < (c :: digits).length) :
    IsOverlong room (c :: digits) := by
  have hdigit : c.isAsciiDigit = true := hdigits c List.mem_cons_self
  have hwritten : (Numeral.mk false (c :: digits) [] none).IsWritten :=
    ⟨hdigits, .inr ⟨c, digits, rfl, hfront⟩, by simp [IsDigits], by simp⟩
  -- the limit is on the count of the digits, whatever they are
  have hvalue : (Numeral.mk false (c :: digits) [] none).value
      = .error (.longInteger (c :: digits).length) := by
    rw [Numeral.value]
    exact if_pos hlength
  have hends : EndsNumber [] := by simp [EndsNumber]
  have hscalar := readScalar_text hwritten hends
  have htext : (Numeral.mk false (c :: digits) [] none).text ++ [] = c :: digits := by
    simp [Numeral.text, Numeral.fractionText, Numeral.exponentText]
  -- the reader gets to the number: no mark in front, and no blank
  have hstart := startsScalar_of_isAsciiDigit hdigit
  have hmark : (c :: digits).head? ≠ some (CodePoint.ofNat 0xFEFF) := fun hmark =>
    CodePoint.ne_of_isAsciiDigit hdigit rfl (Option.some.inj hmark)
  have hall : readAll room (c :: digits) = .error (.longInteger (c :: digits).length) := by
    rw [htext, hvalue] at hscalar
    rw [readAll, if_neg hmark, skipSpace_cons hstart.1.1, readValue_scalar hstart, hscalar]
    rfl
  exact ⟨(c :: digits).length, by rw [readWithin, hall]; rfl⟩

namespace Http

/-- The bytes hold a JSON value, for which there is room. -/
def Holds (room : Option Nat) (body : Bytes) (payload : Json) : Prop :=
  ∃ text, Utf8.decode body = .ok text ∧ Json.readWithin room text = .ok payload

/-- The body breaks the handling of its request down, with a failure of this kind. -/
inductive Breaks (room : Option Nat) (body : Bytes) : (kind : Text) → Prop
  | overlong {text : Text} : Utf8.decode body = .ok text → Json.IsOverlong room text →
      Breaks room body "ValueError"
  | tooDeep {text : Text} : Utf8.decode body = .ok text → Json.IsTooDeep room text →
      Breaks room body "RecursionError"

theorem Holds.eq {room : Option Nat} {body : Bytes} {payload payload' : Json}
    (h : Holds room body payload) (h' : Holds room body payload') : payload = payload' := by
  obtain ⟨text, hdecode, hread⟩ := h
  obtain ⟨text', hdecode', hread'⟩ := h'
  -- one text, and so one value
  obtain rfl := Except.ok.inj (hdecode.symm.trans hdecode')
  exact Except.ok.inj (hread.symm.trans hread')

/-- In a body that breaks nothing down the limit on the room does not matter. -/
theorem holds_none_iff {room : Option Nat} {body : Bytes} (h : ∀ kind, ¬ Breaks room body kind)
    (payload : Json) : Holds none body payload ↔ Holds room body payload := by
  -- with less room the reader gives the same answer or gets too deep
  have hsame : ∀ text, Utf8.decode body = .ok text →
      Json.readWithin room text = Json.readWithin none text := fun text hdecode =>
    (Json.readWithin_eq_or room text).resolve_right fun hdeep => h _ (.tooDeep hdecode hdeep)
  constructor
  · rintro ⟨text, hdecode, hread⟩
    exact ⟨text, hdecode, (hsame text hdecode).trans hread⟩
  · rintro ⟨text, hdecode, hread⟩
    exact ⟨text, hdecode, (hsame text hdecode).symm.trans hread⟩

/-- The members of a reply are those that its bytes hold. -/
theorem exists_holds_json (status : Nat) {members : Table Json} (h : IsReply members) :
    ∃ object success, Holds none (Reply.json status members).body (.object object)
      ∧ Table.get? "success" object = some (.bool success) := by
  obtain ⟨object, hread, hsuccess⟩ := h.read_print
  obtain ⟨success, hmember⟩ := h.success
  have hascii : ∀ c ∈ Json.print .compact (.object members), c.toNat < 0x80 :=
    fun c hc => Nat.lt_succ_of_lt (h.isShown_print c hc).2
  exact ⟨object, success, ⟨_, Utf8.decode_latin1Bytes hascii, hread⟩, hsuccess success hmember⟩

variable {τ : Type}

namespace Exchange

/-! ### Replies on a connection -/

/-- One JSON reply was sent between the exchanges `x` and `y`, and nothing else became of the
connection. -/
structure Replies (line : RequestLine) (status : Nat) (members : Table Json) (x y : Exchange τ) :
    Prop where
  output_eq : y.output
    = (Reply.json status members).bytes (line.version = simpleVersion) :: x.output
  input_eq : y.input = x.input
  closing_eq : y.closing = x.closing
  breakdown_eq : y.breakdown = x.breakdown

/-- What is sent before the answer to a request. -/
def signs (head : Head) : List Bytes := if head.expectsSign then [Reply.sign.bytes false] else []

variable {x y z : Exchange τ} {head : Head} {body rest : Bytes}

theorem replies_send (line : RequestLine) (status : Nat) (members : Table Json)
    (houtput : z.output = x.output) (hinput : z.input = x.input) (hclosing : z.closing = x.closing)
    (hbreakdown : z.breakdown = x.breakdown) :
    Replies line status members x (z.send line (.json status members)) :=
  ⟨congrArg (_ :: ·) houtput, hinput, hclosing, hbreakdown⟩

theorem output_received : (x.received head rest).output = signs head ++ x.output := by
  unfold received signs
  split
  · rfl
  · rfl

end Exchange

variable [Seconds τ]

/-- The body is no JSON, or a request that is refused in the world `w`. -/
def IsBad (config : Config τ) (w : World τ) (body : Bytes) : Prop :=
  ∀ payload, Holds none body payload → Pipeline.Refuses true config payload w

namespace Exchange

variable {x y : Exchange τ} {head : Head} {body rest : Bytes}

/-! ### A request for a compilation -/

/-- The head gives a length, and it is `n`. -/
def Announces (head : Head) (n : Nat) : Prop :=
  ∃ value, head.field? "Content-Length" = some value ∧ Integer.read? value = some (n : Int)

/-- The next request is one for a compilation, all of it has come, and the client may send it. -/
structure Receives (x : Exchange τ) (head : Head) (body rest : Bytes) : Prop where
  read : readHead x.input = (.request head, body ++ rest)
  method_eq : head.line.method = "POST"
  path_eq : pathOf head = "/compile"
  announces : Announces head body.length
  length_le : (body.length : Int) ≤ x.server.config.maxBodyBytes
  allowed : (x.server.limiter.allow x.server.world.now x.client).1 = true

/-- The body of a request that was let in is answered. -/
theorem receive_eq_answer (hinput : y.input = body ++ rest)
    (hlength : Announces head body.length)
    (hle : (body.length : Int) ≤ y.server.config.maxBodyBytes) :
    y.receive head = { y with input := rest }.answer head body := by
  obtain ⟨value, hvalue, hread⟩ := hlength
  have htake : y.input.take body.length = body := by
    rw [hinput, List.take_left]
  have hdrop : y.discard body.length = { y with input := rest } := by
    rw [discard, hinput, List.drop_left]
  rw [receive, hvalue]
  dsimp only
  rw [hread]
  -- the length fits, so exactly the body is taken off the input
  show (if y.server.config.maxBodyBytes < (body.length : Int) then _ else _) = _
  rw [if_neg (Int.not_lt.mpr hle), htake, hdrop]

/-- The limiter lets the request in, and its body is answered. -/
theorem exists_post_eq_answer (hpath : pathOf head = "/compile") (hinput : y.input = body ++ rest)
    (hlength : Announces head body.length)
    (hle : (body.length : Int) ≤ y.server.config.maxBodyBytes)
    (hallowed : (y.server.limiter.allow y.server.world.now y.client).1 = true) :
    ∃ limiter, y.post head
      = { y with input := rest, server := { y.server with limiter } }.answer head body := by
  rcases hallow : y.server.limiter.allow y.server.world.now y.client with ⟨allowed, limiter⟩
  rw [hallow] at hallowed
  obtain rfl : allowed = true := hallowed
  refine ⟨limiter, ?_⟩
  rw [post, if_neg (not_not_intro hpath), hallow]
  exact receive_eq_answer hinput hlength hle

/-- The request is answered with its body at hand, after the sign that it asks for. -/
theorem step_of_receives (h : x.Receives head body rest) :
    ∃ y : Exchange τ, x.step = y.answer head body ∧ y.output = signs head ++ x.output
      ∧ y.input = rest ∧ y.closing = !head.keepsOpen ∧ y.breakdown = x.breakdown
      ∧ y.server.config = x.server.config ∧ y.server.world = x.server.world := by
  obtain ⟨limiter, hpost⟩ := exists_post_eq_answer (y := x.received head (body ++ rest))
    h.path_eq input_received h.announces (by simpa using h.length_le) (by simpa using h.allowed)
  rw [step_of_request h.read, dispatch_of_post h.method_eq, hpost]
  -- the limiter changes, and neither the configuration nor the world
  have hserver : (x.received head (body ++ rest)).server = x.server := server_received
  refine ⟨_, rfl, output_received, rfl, closing_received, breakdown_received, ?_, ?_⟩
  · rw [← hserver]
  · rw [← hserver]

/-- The exchange broke down with a failure of a kind: nothing was sent, and the connection closes. -/
structure BreaksDown (kind : Text) (x y : Exchange τ) : Prop where
  output_eq : y.output = x.output
  closing_eq : y.closing = true
  breakdown_eq : ∃ failure, y.breakdown = some failure ∧ failure.kind = kind

theorem breaksDown_of_breaks {kind : Text} (h : Breaks y.server.world.room.request body kind) :
    BreaksDown kind y (y.answer head body) := by
  cases h with
  | overlong hdecode hlong =>
    obtain ⟨digits, hread⟩ := hlong
    rw [answer, hdecode]
    dsimp only
    rw [hread]
    exact ⟨rfl, rfl, _, rfl, rfl⟩
  | tooDeep hdecode hdeep =>
    obtain ⟨container, hread⟩ := hdeep
    rw [answer, hdecode]
    dsimp only
    rw [hread]
    exact ⟨rfl, rfl, _, rfl, rfl⟩

/-- A text that is no JSON is answered by what is wrong with it. -/
theorem answer_of_not_holds (y : Exchange τ) (head : Head)
    (hjson : ∀ payload, ¬ Holds y.server.world.room.request body payload)
    (hbody : ∀ kind, ¬ Breaks y.server.world.room.request body kind) :
    ∃ message, y.answer head body = y.send head.line (.failure 400 message) := by
  unfold answer
  dsimp only
  split
  · exact ⟨_, rfl⟩
  · rename_i text hdecode
    split
    · exact ⟨_, rfl⟩
    · rename_i e hother hread
      -- the only failure that is answered is one in the syntax
      cases e with
      | invalid reason line column offset => exact absurd rfl (hother reason line column offset)
      | longInteger digits => exact absurd (.overlong hdecode ⟨digits, hread⟩) (hbody _)
      | tooDeep container => exact absurd (.tooDeep hdecode ⟨container, hread⟩) (hbody _)
    · rename_i payload hread
      exact absurd ⟨text, hdecode, hread⟩ (hjson payload)

/-- A JSON value is answered by the pipeline. -/
theorem answer_of_holds (y : Exchange τ) (head : Head) {payload : Json}
    (h : Holds y.server.world.room.request body payload) :
    ∃ status, Replies head.line status
        (Pipeline.run true y.server.config payload y.server.world).1 y (y.answer head body)
      ∧ (status = 400 ∧ Pipeline.Refuses true y.server.config payload y.server.world
        ∨ status = 200 ∧ ¬ Pipeline.Refuses true y.server.config payload y.server.world) := by
  obtain ⟨text, hdecode, hread⟩ := h
  -- the status looks at the kind of the error in the reply
  have htext : ∀ o : Option Json, o.bind Json.text? = some refusalKind
      ↔ o = some (.string refusalKind) := by
    intro o
    cases o with
    | none => simp
    | some value => cases value <;> simp [Json.text?]
  rw [← Pipeline.invalid_iff, ← htext, answer, hdecode]
  dsimp only
  rw [hread]
  dsimp only
  refine ⟨_, replies_send _ _ _ rfl rfl rfl rfl, ?_⟩
  by_cases hinvalid : (Table.get? "errorKind"
      (Pipeline.run true y.server.config payload y.server.world).1).bind Json.text?
      = some refusalKind
  · exact .inl ⟨if_pos hinvalid, hinvalid⟩
  · exact .inr ⟨if_neg hinvalid, hinvalid⟩

/-- Every body that does not break its handling down is answered with a JSON object, and its status
tells whether the body is bad. -/
theorem answer_replies (y : Exchange τ) (head : Head)
    (hbody : ∀ kind, ¬ Breaks y.server.world.room.request body kind) :
    ∃ status members, IsReply members ∧ Replies head.line status members y (y.answer head body)
      ∧ (status = 400 ∧ IsBad y.server.config y.server.world body
        ∨ status = 200 ∧ ¬ IsBad y.server.config y.server.world body) := by
  by_cases hjson : ∃ payload, Holds y.server.world.room.request body payload
  · -- a value: it is bad if the pipeline refuses it, and the body holds no other
    obtain ⟨payload, hpayload⟩ := hjson
    have hbad : IsBad y.server.config y.server.world body
        ↔ Pipeline.Refuses true y.server.config payload y.server.world := by
      refine ⟨fun h => h payload ((holds_none_iff hbody payload).mpr hpayload), ?_⟩
      rintro h payload' hpayload'
      rwa [← hpayload.eq ((holds_none_iff hbody payload').mp hpayload')]
    obtain ⟨status, hreplies, hstatus⟩ := answer_of_holds y head hpayload
    rw [hbad]
    exact ⟨status, _, Pipeline.isReply_run _ _ _ _, hreplies, hstatus⟩
  · -- no value at all is bad in itself
    rw [not_exists] at hjson
    obtain ⟨message, hanswer⟩ := answer_of_not_holds y head hjson hbody
    rw [hanswer]
    exact ⟨400, _, isReply_failure message, replies_send _ _ _ rfl rfl rfl rfl,
      .inl ⟨rfl, fun payload hpayload =>
        absurd ((holds_none_iff hbody payload).mp hpayload) (hjson payload)⟩⟩

end Exchange

end Http

/-! ### The command -/

namespace Cli

variable {τ : Type} [Seconds τ]

/-- The command line asks for the compilation of the request in the environment `env`. -/
def Compiles (words : List Text) (s : Surroundings τ) (env : Environment) : Prop :=
  ∃ i level, read words = .ok i ∧ i.command = .compile ∧ loadDotenv i.settings s = .ok env
    ∧ Log.chooseLevel s.logLevel i.settings.logLevel = .ok level

/-- The text of the request. -/
def requestText (env : Environment) : Text := (Table.get? requestVariable env).getD []

/-- There is a text, and a whole number in it is too long. -/
def BringsOverlong (room : Option Nat) (env : Environment) : Prop :=
  (Text.strip (requestText env)).isEmpty = false ∧ Json.IsOverlong room (requestText env)

theorem run_of_compiles {words : List Text} {s : Surroundings τ} {env : Environment}
    (h : Compiles words s env) :
    ∃ config level, run words s = compile config level env s.world := by
  obtain ⟨i, level, hread, hcommand, hdotenv, hlevel⟩ := h
  refine ⟨Config.ofEnvironment env, level, ?_⟩
  rw [run, hread]
  dsimp only
  rw [runCommand, hdotenv]
  dsimp only
  rw [hlevel]
  dsimp only
  rw [hcommand]

variable {config : Config τ} {level : Int} {env : Environment} {w : World τ}

theorem compile_of_bringsOverlong (config : Config τ) (level : Int) (w : World τ)
    (h : BringsOverlong w.room.request env) :
    (∃ digits, (compile config level env w).status = .error (.badJson (.longInteger digits)))
      ∧ (compile config level env w).stdout = [] := by
  obtain ⟨hblank, digits, hread⟩ := h
  -- the text is not blank, so it is read
  have hpayload : readPayload w.room.request env = .error (.inl (.longInteger digits)) := by
    rw [requestText] at hblank hread
    rw [readPayload, hblank, if_neg Bool.false_ne_true, hread]
  rw [compile, hpayload]
  exact ⟨⟨digits, rfl⟩, rfl⟩

theorem readPayload_of_not_bringsOverlong {room : Nat} (h : ¬ BringsOverlong room env)
    (digits : Nat) : readPayload room env ≠ .error (.inl (.longInteger digits)) := by
  intro hpayload
  -- only the reader itself says so, and only of a text that is not blank
  unfold readPayload at hpayload
  dsimp only at hpayload
  split at hpayload
  · cases hpayload
  · rename_i hblank
    split at hpayload
    · rename_i e hread
      rw [Sum.inl.inj (Except.error.inj hpayload)] at hread
      exact h ⟨(Bool.not_eq_true _).mp hblank, digits, hread⟩
    · split at hpayload
      · cases hpayload
      · cases hpayload

/-- One line of JSON was printed, and the status says what it says. -/
structure Answers (out : Outcome τ) (line : Text) (object : Table Json) (success : Bool) :
    Prop where
  stdout_eq : out.stdout = line ++ "\n"
  one_line : ('\n' : CodePoint) ∉ line
  read : Json.read line = .ok (.object object)
  success_eq : Table.get? "success" object = some (.bool success)
  status_eq : out.status = .ok (if success then 0 else 1)

omit [Seconds τ] in
theorem answers_of_isReply {out : Outcome τ} {members : Table Json} (h : IsReply members)
    (hstdout : out.stdout = replyLine members)
    (hstatus : out.status = .ok (if succeeded members then 0 else 1)) :
    ∃ line object success, Answers out line object success := by
  obtain ⟨object, hread, hsuccess⟩ := h.read_print
  obtain ⟨success, hmember⟩ := h.success
  refine ⟨_, object, success, hstdout, ?_, hread, hsuccess success hmember, ?_⟩
  · -- a printed value shows no line feed
    intro hmem
    exact absurd (h.isShown_print _ hmem).1 (by decide)
  · -- the status was taken from the reply before it was printed
    have hsucceeded : succeeded members = success := by
      rw [succeeded, hmember]
      exact Bool.not_not success
    rw [hstatus, hsucceeded]

/-- Every text but an overlong one is answered in one line. -/
theorem compile_answers (config : Config τ) (level : Int) (w : World τ)
    (h : ¬ BringsOverlong w.room.request env) :
    ∃ line object success, Answers (compile config level env w) line object success := by
  unfold compile
  dsimp only
  -- the failures of the reader that are expected, and the run itself, each give a reply
  split
  · rename_i digits hpayload
    exact absurd hpayload (readPayload_of_not_bringsOverlong h digits)
  · exact answers_of_isReply (Pipeline.isReply_failureReply _ _ _) rfl rfl
  · exact answers_of_isReply (Pipeline.isReply_failureReply _ _ _) rfl rfl
  · exact answers_of_isReply (Pipeline.isReply_run true config _ w) rfl rfl

end Cli

/-! ### Both front ends -/

open Http (Holds Breaks IsBad Reply simpleVersion)
open Http.Exchange (signs)

/-- **Both front ends answer every text in which the reader does not stop at a number that is too
long or a container that is too deep.**  A compile request over HTTP gets one JSON reply, whose
status tells whether the body is bad, and the connection goes on as it would; the command prints one
line of JSON, and its status tells whether that reports success.  A number that is too long breaks
either of them down, and a container that is too deep the service: there is no reply, and the
connection closes. -/
theorem front_ends_answer {τ : Type} [Seconds τ] :
    (∀ (x : Http.Exchange τ) (head : Http.Head) (body rest : Http.Bytes),
      x.Receives head body rest →
      (∀ kind, Breaks x.server.world.room.request body kind →
          x.step.output = signs head ++ x.output ∧ x.step.closing = true
            ∧ ∃ failure, x.step.breakdown = some failure ∧ failure.kind = kind)
        ∧ ((∀ kind, ¬ Breaks x.server.world.room.request body kind) →
          ∃ status members object success,
          x.step.output = (Reply.json status members).bytes (head.line.version = simpleVersion)
            :: (signs head ++ x.output)
          ∧ x.step.input = rest ∧ x.step.closing = !head.keepsOpen
          ∧ x.step.breakdown = x.breakdown
          ∧ Holds none (Reply.json status members).body (.object object)
          ∧ Table.get? "success" object = some (.bool success)
          ∧ (status = 400 ∧ IsBad x.server.config x.server.world body
            ∨ status = 200 ∧ ¬ IsBad x.server.config x.server.world body)))
      ∧ ∀ (words : List Text) (s : Cli.Surroundings τ) (env : Environment),
        Cli.Compiles words s env →
        (Cli.BringsOverlong s.world.room.request env →
          (∃ digits, (Cli.run words s).status = .error (.badJson (.longInteger digits)))
            ∧ (Cli.run words s).stdout = [])
        ∧ (¬ Cli.BringsOverlong s.world.room.request env → ∃ line object success,
          Cli.Answers (Cli.run words s) line object success) := by
  constructor
  · intro x head body rest h
    obtain ⟨y, hstep, houtput, hinput, hclosing, hbreakdown, hconfig, hworld⟩ :=
      Http.Exchange.step_of_receives h
    -- the limiter has let the request in: what follows is the answer to its body
    rw [hstep, ← hworld]
    constructor
    · intro kind hbody
      have hbroken : Http.Exchange.BreaksDown kind y (y.answer head body) :=
        Http.Exchange.breaksDown_of_breaks hbody
      exact ⟨hbroken.output_eq.trans houtput, hbroken.closing_eq, hbroken.breakdown_eq⟩
    · intro hbody
      obtain ⟨status, members, hreply, hreplies, hstatus⟩ :=
        Http.Exchange.answer_replies y head hbody
      obtain ⟨object, success, hholds, hsuccess⟩ := Http.exists_holds_json status hreply
      rw [hconfig] at hstatus
      refine ⟨status, members, object, success, ?_, ?_, ?_, ?_, hholds, hsuccess, hstatus⟩
      · rw [hreplies.output_eq, houtput]
      · rw [hreplies.input_eq, hinput]
      · rw [hreplies.closing_eq, hclosing]
      · rw [hreplies.breakdown_eq, hbreakdown]
  · intro words s env h
    obtain ⟨config, level, hrun⟩ := Cli.run_of_compiles h
    rw [hrun]
    exact ⟨Cli.compile_of_bringsOverlong _ _ _, Cli.compile_answers _ _ _⟩

/-! ### Heads that are written out -/

namespace Http

/-- A line ends at its first line feed. -/
theorem takeLine_append {limit : Nat} {line : Bytes} (hfree : (10 : UInt8) ∉ line)
    (hlength : line.length < limit) (rest : Bytes) :
    takeLine limit (line ++ 10 :: rest) = (line ++ [10], rest) := by
  -- on the line, with the limit going down along it
  induction line generalizing limit with
  | nil =>
    obtain ⟨limit, rfl⟩ : ∃ k, limit = k + 1 := ⟨limit - 1, by omega⟩
    rfl
  | cons b line ih =>
    obtain ⟨limit, rfl⟩ : ∃ k, limit = k + 1 := ⟨limit - 1, by omega⟩
    rw [List.mem_cons, not_or] at hfree
    rw [List.cons_append, takeLine, if_neg (Ne.symm hfree.1),
      ih hfree.2 (Nat.lt_of_succ_lt_succ hlength)]
    rfl

/-- A line that is short enough ends before the limit of a head. -/
theorem takeLine_of_short {line : Bytes} (hfree : (10 : UInt8) ∉ line)
    (hlength : line.length < maxLine) (rest : Bytes) :
    takeLine (maxLine + 1) (line ++ 10 :: rest) = (line ++ [10], rest)
      ∧ ¬ maxLine < (line ++ [10]).length := by
  refine ⟨takeLine_append hfree (Nat.lt_succ_of_lt hlength) rest, ?_⟩
  rw [List.length_append, List.length_singleton]
  omega

/-- A line with a field and a blank line are the lines of the fields. -/
theorem takeFieldLines_single {field : Bytes} (hfree : (10 : UInt8) ∉ field)
    (hlength : field.length < maxLine) (hfield : field ≠ [] ∧ field ≠ [13]) (left : Nat)
    (rest : Bytes) :
    takeFieldLines (left + 2) (field ++ 10 :: 13 :: 10 :: rest) = (.ok [field ++ [10]], rest) := by
  obtain ⟨hline, hshort⟩ := takeLine_of_short hfree hlength (13 :: 10 :: rest)
  have hblank : takeLine (maxLine + 1) ([13] ++ 10 :: rest) = ([13] ++ [10], rest) :=
    takeLine_append (by decide) (by decide) rest
  have hblank' : takeFieldLines (left + 1) (13 :: 10 :: rest) = (.ok [], rest) := by
    rw [takeFieldLines, ← List.singleton_append, hblank]
    rfl
  -- the field is none of the lines that end the fields
  have hnot : ¬ (decide (field ++ [10] = []) || decide (field ++ [10] = [10])
      || decide (field ++ [10] = [13, 10])) = true := by
    have hend : field ++ [10] ≠ [13] ++ [10] := fun h =>
      hfield.2 (List.append_cancel_right h)
    simpa [hfield.1] using hend
  rw [takeFieldLines, hline]
  dsimp only
  rw [if_neg hshort, if_neg hnot, hblank']
  rfl

/-- A request line, a line with a field and a blank line are a head. -/
theorem readHead_append (first field : Bytes) {request : RequestLine}
    (hfirst : (10 : UInt8) ∉ first ∧ first.length < maxLine)
    (hfree : (10 : UInt8) ∉ field ∧ field.length < maxLine) (hfield : field ≠ [] ∧ field ≠ [13])
    (hrequest : requestOfWords (lineText (first ++ [10]))
      (Text.blankWords (lineText (first ++ [10]))) = .ok request) (rest : Bytes) :
    readHead (first ++ 10 :: (field ++ 10 :: 13 :: 10 :: rest))
      = (.request ⟨request, fieldsOf [field ++ [10]]⟩, rest) := by
  obtain ⟨hline, hshort⟩ := takeLine_of_short hfirst.1 hfirst.2 (field ++ 10 :: 13 :: 10 :: rest)
  rw [readHead, hline]
  dsimp only
  rw [if_neg hshort]
  cases hwords : Text.blankWords (lineText (first ++ [10])) with
  | nil =>
    rw [hwords] at hrequest
    cases hrequest
  | cons word words =>
    rw [hwords] at hrequest
    dsimp only
    rw [hrequest]
    dsimp only
    rw [takeFieldLines_single hfree.1 hfree.2 hfield]

end Http

/-! ### Two texts -/

open Http.Exchange (sending stillWorld plainHead)

/-- The head of a compile request with a body of a length. -/
def compileHead (length : Text) : Text :=
  "POST /compile HTTP/1.1\r\nContent-Length: " ++ length ++ "\r\n\r\n"

/-- The surroundings of a command with a request in the environment. -/
def surroundingsOf (t : Text) : Cli.Surroundings Int :=
  ⟨[(Cli.requestVariable, t)], Log.defaultName [], [], [], stillWorld⟩

theorem compiles_surroundingsOf (t : Text) :
    Cli.Compiles ["compile"] (surroundingsOf t) [(Cli.requestVariable, t)] := by
  have hlevel : Log.chooseLevel (Log.defaultName []) none = .ok Log.info := by decide +kernel
  exact ⟨⟨.compile, .none⟩, Log.info, by decide +kernel, rfl, rfl, hlevel⟩

/-- A limiter that has seen no request lets everyone in. -/
theorem RateLimiter.allow_fresh {τ : Type} [Seconds τ] (limit : Int) (length now : τ)
    (client : Text) : ((fresh limit length).allow now client).1 = true := by
  rw [fresh, allow]
  split
  · rfl
  · rename_i hlimit
    dsimp only
    rw [Std.HashMap.getElem?_empty, current, if_neg hlimit]

theorem readWithin_braces {room : Nat} (hroom : 0 < room) :
    Json.readWithin room "\x7b\x7d" = .ok (.object []) :=
  Json.readWithin_print Json.Style.isPlain_compact (v := .object []) (.object (List.forall_mem_nil _))
    fun _ hcount => Option.some.inj hcount ▸ hroom

theorem isBad_braces (config : Config Int) :
    IsBad config stillWorld (Http.latin1Bytes "\x7b\x7d") := by
  intro payload hpayload
  have hholds : Holds none (Http.latin1Bytes "\x7b\x7d") (.object []) := ⟨"\x7b\x7d", rfl, rfl⟩
  obtain rfl := hholds.eq hpayload
  exact ⟨rfl, .inl ⟨_, rfl⟩⟩

/-- An object without a source is a bad request. -/
theorem braces_answered :
    (sending (compileHead "2" ++ "\x7b\x7d")).Receives (plainHead "POST" "/compile" (some "2"))
        (Http.latin1Bytes "\x7b\x7d") []
      ∧ (∀ kind, ¬ Breaks stillWorld.room.request (Http.latin1Bytes "\x7b\x7d") kind)
      ∧ (∃ members, (sending (compileHead "2" ++ "\x7b\x7d")).step.output
        = [(Reply.json 400 members).bytes false])
      ∧ Cli.Compiles ["compile"] (surroundingsOf "\x7b\x7d") [(Cli.requestVariable, "\x7b\x7d")]
      ∧ ¬ Cli.BringsOverlong stillWorld.room.request [(Cli.requestVariable, "\x7b\x7d")]
      ∧ ∃ line object success,
        Cli.Answers (Cli.run ["compile"] (surroundingsOf "\x7b\x7d")) line object success := by
  have hreceives : (sending (compileHead "2" ++ "\x7b\x7d")).Receives
      (plainHead "POST" "/compile" (some "2")) (Http.latin1Bytes "\x7b\x7d") [] :=
    ⟨by decide +kernel, rfl, by decide +kernel, ⟨"2", by decide +kernel, by decide +kernel⟩,
      of_decide_eq_true rfl, RateLimiter.allow_fresh _ _ _ _⟩
  have hread : Json.readWithin stillWorld.room.request "\x7b\x7d" = .ok (.object []) :=
    readWithin_braces (by decide)
  have hbody : ∀ kind,
      ¬ Breaks stillWorld.room.request (Http.latin1Bytes "\x7b\x7d") kind := by
    rintro kind (⟨hdecode, digits, hlong⟩ | ⟨hdecode, container, hdeep⟩)
    · rw [← Except.ok.inj hdecode] at hlong
      cases hread.symm.trans hlong
    · rw [← Except.ok.inj hdecode] at hdeep
      cases hread.symm.trans hdeep
  have hcompiles := compiles_surroundingsOf "\x7b\x7d"
  have hbrings : ¬ Cli.BringsOverlong stillWorld.room.request
      [(Cli.requestVariable, "\x7b\x7d")] := by
    rintro ⟨-, digits, hlong⟩
    cases hread.symm.trans hlong
  refine ⟨hreceives, hbody, ?_, hcompiles, hbrings,
    (front_ends_answer.2 _ _ _ hcompiles).2 hbrings⟩
  obtain ⟨status, members, object, success, houtput, -, -, -, -, -, hstatus⟩ :=
    (front_ends_answer.1 _ _ _ _ hreceives).2 hbody
  -- of the two ways to be answered the request is the bad one
  rcases hstatus with ⟨rfl, -⟩ | ⟨-, hgood⟩
  · exact ⟨members, houtput⟩
  · exact absurd (isBad_braces _) hgood

/-! ### Two texts that are not answered -/

/-- A code point as often as it takes to be too much: as digits of a number, or as brackets. -/
def repeated (c : CodePoint) : Text := List.replicate 4301 c

theorem isOverlong_repeated (room : Option Nat) : Json.IsOverlong room (repeated '1') := by
  have hdigits : Json.IsDigits (('1' : CodePoint) :: List.replicate 4300 '1') := by
    intro c hc
    rw [List.eq_of_mem_replicate (n := 4301) hc]
    rfl
  -- the length is compared, without evaluating the number
  refine Json.isOverlong_of_digits hdigits (by decide) ?_
  rw [List.length_cons, List.length_replicate]
  decide

theorem isTooDeep_repeated {room : Nat} (h : room < 4301) : Json.IsTooDeep room (repeated '[') := by
  have hread := Json.readWithin_brackets h []
  rw [List.append_nil] at hread
  exact ⟨.array, hread⟩

theorem length_repeated (c : CodePoint) : (Http.latin1Bytes (repeated c)).length = 4301 := by
  rw [Http.latin1Bytes, List.length_map, repeated, List.length_replicate]

theorem decode_repeated {c : CodePoint} (h : c.toNat < 0x80) :
    Utf8.decode (Http.latin1Bytes (repeated c)) = .ok (repeated c) := by
  refine Utf8.decode_latin1Bytes fun d hd => ?_
  rw [List.eq_of_mem_replicate hd]
  exact h

theorem readHead_compileHead (body : Http.Bytes) :
    Http.readHead (Http.latin1Bytes (compileHead "4301") ++ body)
      = (.request (plainHead "POST" "/compile" (some "4301")), body) := by
  have hfields : Http.fieldsOf [Http.latin1Bytes "Content-Length: 4301\r" ++ [10]]
      = (plainHead "POST" "/compile" (some "4301")).fields := by decide +kernel
  -- stated of any text that is the line, so that the words are computed once
  have hline : ∀ text, text = Http.lineText (Http.latin1Bytes "POST /compile HTTP/1.1\r" ++ [10]) →
      Http.requestOfWords text (Text.blankWords text)
        = .ok (plainHead "POST" "/compile" (some "4301")).line := by
    rintro _ rfl
    decide +kernel
  have hhead := Http.readHead_append (Http.latin1Bytes "POST /compile HTTP/1.1\r")
    (Http.latin1Bytes "Content-Length: 4301\r") (by decide) (by decide) (by decide)
    (hline _ rfl) body
  rw [hfields] at hhead
  exact hhead

theorem receives_repeated (c : CodePoint) :
    (sending (compileHead "4301" ++ repeated c)).Receives
      (plainHead "POST" "/compile" (some "4301")) (Http.latin1Bytes (repeated c)) [] := by
  have hinput : (sending (compileHead "4301" ++ repeated c)).input
      = Http.latin1Bytes (compileHead "4301") ++ (Http.latin1Bytes (repeated c) ++ []) := by
    rw [List.append_nil]
    exact List.map_append
  refine ⟨?_, rfl, by decide +kernel, ⟨"4301", by decide +kernel, ?_⟩, ?_, ?_⟩
  · rw [hinput, readHead_compileHead]
  · rw [length_repeated]
    decide +kernel
  · rw [length_repeated]
    exact of_decide_eq_true rfl
  · exact RateLimiter.allow_fresh _ _ _ _

/-- A request whose body breaks its handling down gets nothing. -/
theorem unanswered_of_breaks {c : CodePoint} {kind : Text}
    (h : Breaks stillWorld.room.request (Http.latin1Bytes (repeated c)) kind) :
    (sending (compileHead "4301" ++ repeated c)).step.output = []
      ∧ (sending (compileHead "4301" ++ repeated c)).step.closing = true
      ∧ ∃ failure, (sending (compileHead "4301" ++ repeated c)).step.breakdown = some failure
        ∧ failure.kind = kind := by
  obtain ⟨y, hstep, houtput, -, -, -, -, hworld⟩ :=
    Http.Exchange.step_of_receives (receives_repeated c)
  have hbroken : Http.Exchange.BreaksDown kind y (y.answer
      (plainHead "POST" "/compile" (some "4301")) (Http.latin1Bytes (repeated c))) :=
    Http.Exchange.breaksDown_of_breaks (hworld ▸ h)
  rw [hstep]
  exact ⟨hbroken.output_eq.trans houtput, hbroken.closing_eq, hbroken.breakdown_eq⟩

/-- A number of 4301 digits is answered by neither front end, and as many brackets not over HTTP. -/
theorem long_number_unanswered :
    (sending (compileHead "4301" ++ repeated '1')).Receives
        (plainHead "POST" "/compile" (some "4301")) (Http.latin1Bytes (repeated '1')) []
      ∧ (sending (compileHead "4301" ++ repeated '1')).step.output = []
      ∧ (sending (compileHead "4301" ++ repeated '1')).step.closing = true
      ∧ (sending (compileHead "4301" ++ repeated '[')).Receives
        (plainHead "POST" "/compile" (some "4301")) (Http.latin1Bytes (repeated '[')) []
      ∧ (sending (compileHead "4301" ++ repeated '[')).step.output = []
      ∧ (sending (compileHead "4301" ++ repeated '[')).step.closing = true
      ∧ Cli.Compiles ["compile"] (surroundingsOf (repeated '1'))
        [(Cli.requestVariable, repeated '1')]
      ∧ (Cli.run ["compile"] (surroundingsOf (repeated '1'))).stdout = []
      ∧ ∃ digits, (Cli.run ["compile"] (surroundingsOf (repeated '1'))).status
        = .error (.badJson (.longInteger digits)) := by
  have hdigits : Breaks stillWorld.room.request (Http.latin1Bytes (repeated '1')) "ValueError" :=
    .overlong (decode_repeated (by decide)) (isOverlong_repeated _)
  have hbrackets : Breaks stillWorld.room.request (Http.latin1Bytes (repeated '['))
      "RecursionError" := .tooDeep (decode_repeated (by decide)) (isTooDeep_repeated (by decide))
  obtain ⟨houtput, hclosing, -⟩ := unanswered_of_breaks hdigits
  obtain ⟨houtput', hclosing', -⟩ := unanswered_of_breaks hbrackets
  -- the digits have no blank at either end
  have hbrings : Cli.BringsOverlong (surroundingsOf (repeated '1')).world.room.request
      [(Cli.requestVariable, repeated '1')] := by
    have hstrip : Text.strip (repeated '1') = repeated '1' :=
      Text.trimBoth_eq_self fun c hc => by
        rw [List.eq_of_mem_replicate hc]
        decide
    exact ⟨congrArg List.isEmpty hstrip, isOverlong_repeated _⟩
  obtain ⟨config, level, hrun⟩ := Cli.run_of_compiles (compiles_surroundingsOf (repeated '1'))
  obtain ⟨hstatus, hstdout⟩ := Cli.compile_of_bringsOverlong config level
    (surroundingsOf (repeated '1')).world hbrings
  rw [hrun]
  exact ⟨receives_repeated '1', houtput, hclosing, receives_repeated '[', houtput', hclosing',
    compiles_surroundingsOf (repeated '1'), hstdout, hstatus⟩

end CompileGate
