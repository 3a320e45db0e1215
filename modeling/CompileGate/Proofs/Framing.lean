/-
CompileGate/Proofs/Framing.lean

Where the next request of a connection is read.

The body of a request has the length that the head declares (`declaredLength?`), and
right after it the next request begins.  A reply keeps this (`Framed`) when the
connection closes or exactly these bytes are gone.

A `POST` keeps it on every path, whether its body is read, dropped or too long to be
dropped (`framed_post`).  The other methods never look at the body, and neither does a
`POST` that is turned away with a length left empty; then the body, or what follows a
head without a readable length, is read as the next request.  So an exchange keeps the
framing exactly if it closes or the body is accounted for (`framed_step_iff`).

Along a connection on which all bodies are, each request is read right after the body
of the one before (`isChain_readings`).

Main result: `framing_exact`.
-/
import CompileGate.Http.Server
import CompileGate.Proofs.PlainNumber
import CompileGate.Proofs.SessionWalk
import Mathlib.Data.List.Chain

namespace CompileGate

namespace Http

/-! ### Bodies that a head declares -/

/-- The length of the body of a request; of none when what is declared is no length. -/
def declaredLength? (head : Head) : Option Nat :=
  match head.field? "Content-Length" with
  | none => some 0
  | some value =>
    match Integer.read? value with
    | some (.ofNat n) => some n
    | _ => none

/-- What follows the body of a request. -/
def afterBody? (head : Head) (rest : Bytes) : Option Bytes :=
  (declaredLength? head).map fun n => rest.drop n

/-- The methods that the service has. -/
def Head.IsServed (head : Head) : Prop :=
  head.line.method ∈ (["GET", "POST", "OPTIONS"] : List Text)

/-- There is no body, or the request is one whose length is looked at on every path. -/
def AccountsFor (head : Head) : Prop :=
  declaredLength? head = some 0
    ∨ (head.line.method = "POST" ∧ head.field? "Content-Length" ≠ some [])

deriving instance DecidableEq for Reading

instance (head : Head) : Decidable head.IsServed := inferInstanceAs (Decidable (_ ∈ _))

instance (head : Head) : Decidable (AccountsFor head) := inferInstanceAs (Decidable (_ ∨ _))

/-- A plain decimal declares the length that it writes. -/
theorem declaredLength?_of_digits {head : Head} {digits : Text}
    (hvalue : head.field? "Content-Length" = some digits) (hdigits : digits ≠ [])
    (h : ∀ c ∈ digits, c.isAsciiDigit = true) :
    declaredLength? head
      = if digits.length ≤ Integer.maxDigits then some (Text.digitsValue digits) else none := by
  rw [declaredLength?, hvalue]
  dsimp only
  rw [Integer.read?_of_digits hdigits h]
  by_cases hlength : digits.length ≤ Integer.maxDigits
  · rw [if_pos hlength, if_pos hlength]
  · rw [if_neg hlength, if_neg hlength]

theorem declaredLength?_of_empty {head : Head} (hvalue : head.field? "Content-Length" = some []) :
    declaredLength? head = none := by
  rw [declaredLength?, hvalue]
  rfl

/-- What is read to drop a body agrees with what is declared, unless the length is left empty. -/
theorem declaredLength?_eq {head : Head} (hvalue : head.field? "Content-Length" ≠ some []) :
    declaredLength? head
      = if 0 ≤ Exchange.announced head then some (Exchange.announced head).toNat else none := by
  -- the two readers differ in the empty value only
  cases hfield : head.field? "Content-Length" with
  | none =>
    have hannounced : Exchange.announced head = 0 := by rw [Exchange.announced, hfield]
    rw [declaredLength?, hfield, hannounced]
    rfl
  | some value =>
    have hannounced : Exchange.announced head = (Integer.read? value).getD (-1) := by
      rw [Exchange.announced, hfield]
      cases value with
      | nil => exact absurd hfield hvalue
      | cons c more => rfl
    rw [declaredLength?, hfield, hannounced]
    dsimp only
    cases Integer.read? value with
    | none => rfl
    | some length => cases length <;> rfl

namespace Exchange

variable {τ : Type} {x y : Exchange τ} {head : Head} {rest : Bytes}

/-- The connection closes, or what is read next is what follows the body. -/
def Framed (head : Head) (rest : Bytes) (y : Exchange τ) : Prop :=
  y.closing = true ∨ afterBody? head rest = some y.input

instance : Decidable (Framed head rest y) := inferInstanceAs (Decidable (_ ∨ _))

/-! ### One request -/

theorem closing_send (line : RequestLine) (reply : Reply) (x : Exchange τ) :
    (x.send line reply).closing = x.closing := rfl

theorem framed_send (line : RequestLine) (reply : Reply) :
    Framed head rest (y.send line reply) ↔ Framed head rest y := Iff.rfl

/-- A request is turned away together with its body, or for good. -/
theorem framed_turnAway (hvalue : head.field? "Content-Length" ≠ some []) (status : Nat)
    (message : Text) (x : Exchange τ) :
    Framed head x.input (x.turnAway head status message) := by
  rw [turnAway, framed_send]
  by_cases hsmall : 0 ≤ announced head ∧ announced head ≤ maxDiscard
  · rw [if_pos hsmall]
    right
    rw [afterBody?, declaredLength?_eq hvalue, if_pos hsmall.1]
    rfl
  · -- too much to drop, or no length
    rw [if_neg hsmall]
    exact .inl rfl

/-- With its length left empty the request is turned away alone. -/
theorem turnAway_of_empty (hvalue : head.field? "Content-Length" = some []) (status : Nat)
    (message : Text) (x : Exchange τ) :
    x.turnAway head status message = x.send head.line (.failure status message) := by
  have hannounced : announced head = 0 := by rw [announced, hvalue]
  rw [turnAway, hannounced]
  rfl

variable [Seconds τ]

theorem input_answer (body : Bytes) (x : Exchange τ) : (x.answer head body).input = x.input := by
  unfold answer
  dsimp only
  split
  · rfl
  · split
    · rfl
    · rfl
    · rfl

/-- The body of a compile request is read, dropped, or the connection closes. -/
theorem framed_receive (hvalue : head.field? "Content-Length" ≠ some []) (x : Exchange τ) :
    Framed head x.input (x.receive head) := by
  rw [receive]
  -- no length at all closes the connection
  cases hfield : head.field? "Content-Length" with
  | none => exact .inl rfl
  | some value =>
    dsimp only
    split
    · rename_i length hlength
      split_ifs with hlong
      · exact framed_turnAway hvalue _ _ x
      · -- all of the body is taken off the input before it is answered
        right
        rw [afterBody?, declaredLength?, hfield]
        dsimp only
        rw [hlength, input_answer]
        rfl
    · exact framed_turnAway hvalue _ _ x

/-- A `POST` is turned away or received; the limiter does not touch the bytes to come. -/
theorem post_cases (head : Head) (x : Exchange τ) :
    ∃ y : Exchange τ, y.input = x.input ∧ y.closing = x.closing
      ∧ (x.post head = y.receive head
        ∨ ∃ status message, x.post head = y.turnAway head status message) := by
  rw [post]
  by_cases hpath : pathOf head ≠ "/compile"
  · rw [if_pos hpath]
    exact ⟨x, rfl, rfl, .inr ⟨_, _, rfl⟩⟩
  · rw [if_neg hpath]
    -- the server gets the new limiter whether the request is let in or not
    rcases x.server.limiter.allow x.server.world.now x.client with ⟨allowed, limiter⟩
    refine ⟨{ x with server := { x.server with limiter := limiter } }, rfl, rfl, ?_⟩
    cases allowed with
    | true => exact .inl rfl
    | false => exact .inr ⟨_, _, rfl⟩

/-- A `POST` keeps the framing, unless it leaves its length empty. -/
theorem framed_post (hvalue : head.field? "Content-Length" ≠ some []) (x : Exchange τ) :
    Framed head x.input (x.post head) := by
  obtain ⟨y, hinput, -, hpost | ⟨status, message, hpost⟩⟩ := post_cases head x
  · rw [hpost, ← hinput]
    exact framed_receive hvalue y
  · rw [hpost, ← hinput]
    exact framed_turnAway hvalue status message y

/-- A `POST` with its length left empty is turned away alone, on every path. -/
theorem post_of_empty (hvalue : head.field? "Content-Length" = some []) (x : Exchange τ) :
    (x.post head).input = x.input ∧ (x.post head).closing = x.closing := by
  obtain ⟨y, hinput, hclosing, hpost | ⟨status, message, hpost⟩⟩ := post_cases head x
  · -- an empty value is no length, and is refused as such
    have hreceive : y.receive head = y.turnAway head 400 "Invalid Content-Length." := by
      rw [receive, hvalue]
      rfl
    rw [hpost, hreceive, turnAway_of_empty hvalue]
    exact ⟨hinput, hclosing⟩
  · rw [hpost, turnAway_of_empty hvalue]
    exact ⟨hinput, hclosing⟩

/-- The methods without a body are answered without a look at one. -/
theorem dispatch_of_ne_post (hserved : head.IsServed) (hmethod : head.line.method ≠ "POST")
    (x : Exchange τ) :
    (x.dispatch head).input = x.input ∧ (x.dispatch head).closing = x.closing := by
  rw [dispatch]
  by_cases hget : head.line.method = "GET"
  · rw [if_pos hget]
    split_ifs
    · exact ⟨rfl, rfl⟩
    · exact ⟨rfl, rfl⟩
  · rw [if_neg hget, if_neg hmethod]
    have hoptions : head.line.method = "OPTIONS" := by
      simpa [Head.IsServed, hget, hmethod] using hserved
    rw [if_pos hoptions]
    exact ⟨rfl, rfl⟩

theorem dispatch_of_post (hmethod : head.line.method = "POST") (x : Exchange τ) :
    x.dispatch head = x.post head := by
  have hget : head.line.method ≠ "GET" := by
    rw [hmethod]
    decide
  rw [dispatch]
  rw [if_neg hget, if_pos hmethod]

/-- A request of another method closes the connection. -/
theorem closing_dispatch_of_not_served (hserved : ¬ head.IsServed) (x : Exchange τ) :
    (x.dispatch head).closing = true := by
  simp only [Head.IsServed, List.mem_cons, List.not_mem_nil, or_false, not_or] at hserved
  rw [dispatch, if_neg hserved.1, if_neg hserved.2.1, if_neg hserved.2.2]
  rfl

/-- A request whose body is accounted for keeps the framing. -/
theorem framed_dispatch (hserved : head.IsServed) (h : AccountsFor head) (x : Exchange τ) :
    Framed head x.input (x.dispatch head) := by
  by_cases hmethod : head.line.method = "POST"
  · rw [dispatch_of_post hmethod]
    refine framed_post ?_ x
    -- an empty value would declare no length
    rcases h with hnone | ⟨-, hvalue⟩
    · intro hempty
      rw [declaredLength?_of_empty hempty] at hnone
      cases hnone
    · exact hvalue
  · have hnone : declaredLength? head = some 0 := h.resolve_right fun hpost => hmethod hpost.1
    right
    rw [(dispatch_of_ne_post hserved hmethod x).1, afterBody?, hnone]
    rfl

/-- Any other is answered as if nothing came with it. -/
theorem dispatch_of_not_accountsFor (hserved : head.IsServed) (h : ¬ AccountsFor head)
    (x : Exchange τ) :
    (x.dispatch head).input = x.input ∧ (x.dispatch head).closing = x.closing := by
  by_cases hmethod : head.line.method = "POST"
  · rw [dispatch_of_post hmethod]
    have hempty : head.field? "Content-Length" = some [] := by
      by_contra hvalue
      exact h (.inr ⟨hmethod, hvalue⟩)
    exact post_of_empty hempty x
  · exact dispatch_of_ne_post hserved hmethod x

/-! ### Closing is for good -/

omit [Seconds τ] in
theorem closing_turnAway (h : x.closing = true) (status : Nat) (message : Text) :
    (x.turnAway head status message).closing = true := by
  rw [turnAway, closing_send]
  split_ifs
  · exact h
  · rfl

theorem closing_answer (h : x.closing = true) (body : Bytes) :
    (x.answer head body).closing = true := by
  unfold answer
  dsimp only
  split
  · exact h
  · split
    · exact h
    · rfl
    · exact h

theorem closing_receive (h : x.closing = true) : (x.receive head).closing = true := by
  rw [receive]
  split
  · rfl
  · split
    · split_ifs
      · exact closing_turnAway h _ _
      · exact closing_answer (show (x.discard _).closing = true from h) _
    · exact closing_turnAway h _ _

theorem closing_dispatch (h : x.closing = true) : (x.dispatch head).closing = true := by
  by_cases hserved : head.IsServed
  · by_cases hmethod : head.line.method = "POST"
    · obtain ⟨y, -, hclosing, hpost | ⟨status, message, hpost⟩⟩ := post_cases head x
      · rw [dispatch_of_post hmethod, hpost]
        exact closing_receive (hclosing.trans h)
      · rw [dispatch_of_post hmethod, hpost]
        exact closing_turnAway (hclosing.trans h) status message
    · rw [(dispatch_of_ne_post hserved hmethod x).2]
      exact h
  · exact closing_dispatch_of_not_served hserved x

/-! ### One step -/

/-- The state in which a request is answered. -/
def received (head : Head) (rest : Bytes) (x : Exchange τ) : Exchange τ :=
  let y := { x with input := rest, closing := !head.keepsOpen }
  if head.expectsSign then y.write (Reply.sign.bytes false) else y

omit [Seconds τ] in
@[simp]
theorem input_received : (x.received head rest).input = rest := by
  unfold received
  split <;> rfl

omit [Seconds τ] in
@[simp]
theorem closing_received : (x.received head rest).closing = !head.keepsOpen := by
  unfold received
  split <;> rfl

omit [Seconds τ] in
@[simp]
theorem server_received : (x.received head rest).server = x.server := by
  unfold received
  split <;> rfl

omit [Seconds τ] in
@[simp]
theorem client_received : (x.received head rest).client = x.client := by
  unfold received
  split <;> rfl

omit [Seconds τ] in
@[simp]
theorem breakdown_received : (x.received head rest).breakdown = x.breakdown := by
  unfold received
  split <;> rfl

theorem step_of_request (hread : readHead x.input = (.request head, rest)) :
    x.step = (x.received head rest).dispatch head := by
  rw [step, hread]
  rfl

/-- A request whose body is accounted for is followed by the one after its body. -/
theorem framed_step (hread : readHead x.input = (.request head, rest)) (hserved : head.IsServed)
    (h : AccountsFor head) : Framed head rest x.step := by
  have hframed := framed_dispatch hserved h (x.received head rest)
  rw [input_received] at hframed
  rw [step_of_request hread]
  exact hframed

/-- When all of the body was sent, only an open connection and a body that is not accounted for
lose the framing. -/
theorem framed_step_iff (hread : readHead x.input = (.request head, rest)) (hserved : head.IsServed)
    (hsent : ∀ n, declaredLength? head = some n → n ≤ rest.length) :
    Framed head rest x.step ↔ (head.keepsOpen = true → AccountsFor head) := by
  by_cases haccounts : AccountsFor head
  · exact ⟨fun _ _ => haccounts, fun _ => framed_step hread hserved haccounts⟩
  · obtain ⟨hinput, hclosing⟩ := dispatch_of_not_accountsFor hserved haccounts (x.received head rest)
    rw [input_received] at hinput
    rw [closing_received] at hclosing
    -- what comes next is all that came, so a body that was framed would be empty
    have hafter : afterBody? head rest ≠ some rest := by
      intro hafter
      obtain ⟨n, hn, hdrop⟩ := Option.map_eq_some_iff.mp hafter
      have hle := hsent n hn
      have hlength := congrArg List.length hdrop
      rw [List.length_drop] at hlength
      obtain rfl : n = 0 := by omega
      exact haccounts (.inl hn)
    rw [step_of_request hread, Framed, hinput, hclosing, or_iff_left hafter]
    cases head.keepsOpen with
    | true => simpa using haccounts
    | false => simp

/-! ### A connection -/

/-- The states of a connection in which a request is read, the first one first. -/
def readings : (count : Nat) → Exchange τ → List (Exchange τ)
  | 0, _ => []
  | count + 1, x => x :: if x.step.closing then [] else readings count x.step

/-- They are those that a connection goes through. -/
theorem steps_eq (count : Nat) (x : Exchange τ) :
    x.steps count = ((readings count x).getLast?.map step).getD x := by
  induction count generalizing x with
  | zero => rfl
  | succ count ih =>
    rw [steps, readings, List.getLast?_cons]
    split_ifs with hclosing
    · rfl
    · rw [ih x.step, Option.getD_map]
      rfl

theorem head?_readings (count : Nat) (x : Exchange τ) : ∀ y ∈ (readings count x).head?, y = x := by
  cases count with
  | zero => simp [readings]
  | succ count => simp [readings]

/-- The second of two states is right after the body of the request that the first one reads. -/
def Follows (x y : Exchange τ) : Prop :=
  ∃ head rest, readHead x.input = (.request head, rest) ∧ afterBody? head rest = some y.input

/-- A connection that stays open has read a request that it serves. -/
theorem request_of_open (h : x.step.closing = false) :
    ∃ head rest, readHead x.input = (.request head, rest) ∧ head.IsServed
      ∧ head.keepsOpen = true := by
  rcases hread : readHead x.input with ⟨reading, rest⟩
  -- a head that is refused closes the connection, and so does the end of the input
  cases reading with
  | nothing =>
    rw [step, hread] at h
    cases h
  | refused refusal line method version =>
    rw [step, hread] at h
    cases h
  | request head =>
    rw [step_of_request hread] at h
    have hserved : head.IsServed := by
      by_contra hserved
      rw [closing_dispatch_of_not_served hserved] at h
      cases h
    refine ⟨head, rest, rfl, hserved, ?_⟩
    cases hopen : head.keepsOpen with
    | true => rfl
    | false =>
      have hclosing : (x.received head rest).closing = true := by
        rw [closing_received, hopen]
        rfl
      rw [closing_dispatch hclosing] at h
      cases h

theorem follows_step (h : x.step.closing = false)
    (haccounts : ∀ head rest, readHead x.input = (.request head, rest) → head.IsServed →
      head.keepsOpen = true → AccountsFor head) : Follows x x.step := by
  obtain ⟨head, rest, hread, hserved, hopen⟩ := request_of_open h
  have hframed := framed_step hread hserved (haccounts head rest hread hserved hopen)
  refine ⟨head, rest, hread, hframed.resolve_left ?_⟩
  rw [h]
  exact Bool.false_ne_true

/-- When all bodies are accounted for, each request is read right after the body of the one
before. -/
theorem isChain_readings (count : Nat) (x : Exchange τ)
    (haccounts : ∀ y ∈ readings count x, ∀ head rest, readHead y.input = (.request head, rest) →
      head.IsServed → head.keepsOpen = true → AccountsFor head) :
    (readings count x).IsChain Follows := by
  -- on the requests read, from the state that the first one leaves
  induction count generalizing x with
  | zero => exact .nil
  | succ count ih =>
    rw [readings] at haccounts ⊢
    split_ifs at haccounts ⊢ with hclosing
    · exact .singleton x
    · refine List.isChain_cons.mpr ⟨fun y hy => ?_, ih x.step fun y hy => ?_⟩
      · rw [head?_readings count x.step y hy]
        rw [Bool.not_eq_true] at hclosing
        exact follows_step hclosing (haccounts x List.mem_cons_self)
      · exact haccounts y (List.mem_cons_of_mem x hy)

/-- **The framing of a connection is kept exactly where bodies are accounted for.**  A plain decimal
declares the length that it writes; when all of the body was sent, the connection closes or goes on
right after it, unless it stays open and the request is one whose body is not accounted for; and
a connection that reads no such request reads each one right after the body of the one before. -/
theorem framing_exact (x : Exchange τ) :
    (∀ (head : Head) (digits : Text), head.field? "Content-Length" = some digits → digits ≠ [] →
      (∀ c ∈ digits, c.isAsciiDigit = true) →
      declaredLength? head
        = if digits.length ≤ Integer.maxDigits then some (Text.digitsValue digits) else none)
      ∧ (∀ head rest, readHead x.input = (.request head, rest) → head.IsServed →
        (∀ n, declaredLength? head = some n → n ≤ rest.length) →
        (Framed head rest x.step ↔ (head.keepsOpen = true → AccountsFor head)))
      ∧ ∀ count, x.steps count = ((readings count x).getLast?.map step).getD x
        ∧ ((∀ y ∈ readings count x, ∀ head rest,
            readHead y.input = (.request head, rest) → head.IsServed → head.keepsOpen = true →
            AccountsFor head) →
          (readings count x).IsChain Follows) :=
  ⟨fun _ _ hvalue hdigits h => declaredLength?_of_digits hvalue hdigits h,
    fun _ _ hread hserved hsent => framed_step_iff hread hserved hsent,
    fun count => ⟨steps_eq count x, isChain_readings count x⟩⟩

/-! ### Bodies that look like requests -/

/-- An outside that nothing is asked of. -/
def stillWorld : World Int where
  now := 0
  routes := []
  tools := .idle
  room := .usual
  breakdown := none
  trace := []

/-- A connection on which a client sends a text. -/
def sending (t : Text) : Exchange Int :=
  ⟨Server.start Config.builtin stillWorld, "127.0.0.1", latin1Bytes t, [], false, none⟩

/-- The head of a request with a length, if there is one. -/
def plainHead (method path : Text) (length? : Option Text) : Head :=
  ⟨⟨method ++ " " ++ path ++ " HTTP/1.1", method, path, "HTTP/1.1", true⟩,
    length?.toList.map fun length => ⟨"Content-Length", length⟩⟩

/-- A body that looks like a request. -/
def disguised : Text := "GET /inner HTTP/1.1\r\n\r\n"

/-- It is sent with a request that is turned away, and another one follows. -/
def turnedAway : Exchange Int :=
  sending ("POST /other HTTP/1.1\r\nContent-Length: 23\r\n\r\n" ++ disguised
    ++ "OPTIONS / HTTP/1.1\r\n\r\n")

/-- It is dropped. -/
theorem framing_turned_away :
    Framed (plainHead "POST" "/other" (some "23"))
        (latin1Bytes (disguised ++ "OPTIONS / HTTP/1.1\r\n\r\n")) turnedAway.step
      ∧ (readings 3 turnedAway).map (fun y => (readHead y.input).1)
        = [.request (plainHead "POST" "/other" (some "23")), .request (plainHead "OPTIONS" "/" none),
          .nothing]
      ∧ (readings 3 turnedAway).IsChain Follows := by
  obtain ⟨hdigits, hframed, hchain⟩ := framing_exact turnedAway
  have hlength : declaredLength? (plainHead "POST" "/other" (some "23")) = some 23 :=
    hdigits _ "23" (by decide +kernel) (by decide) (by decide)
  have hread : readHead turnedAway.input
      = (.request (plainHead "POST" "/other" (some "23")),
        latin1Bytes (disguised ++ "OPTIONS / HTTP/1.1\r\n\r\n")) := by decide +kernel
  have hreads : (readings 3 turnedAway).map (fun y => (readHead y.input).1)
      = [.request (plainHead "POST" "/other" (some "23")), .request (plainHead "OPTIONS" "/" none),
        .nothing] := by decide +kernel
  refine ⟨(hframed _ _ hread (by decide +kernel) ?_).mpr fun _ => by decide +kernel, hreads,
    (hchain 3).2 ?_⟩
  · intro n hn
    rw [hlength] at hn
    cases hn
    decide +kernel
  · intro y hy head rest hhead _ _
    -- of the three readings two are requests, and each is accounted for
    have hmem : Reading.request head ∈ (readings 3 turnedAway).map fun y => (readHead y.input).1 :=
      List.mem_map.mpr ⟨y, hy, congrArg Prod.fst hhead⟩
    rw [hreads] at hmem
    simp only [List.mem_cons, Reading.request.injEq, List.not_mem_nil, or_false,
      reduceCtorEq] at hmem
    rcases hmem with rfl | rfl
    · decide +kernel
    · decide +kernel

/-- It is sent with a question for the health of the service. -/
def healthWithBody : Exchange Int :=
  sending ("GET /healthz HTTP/1.1\r\nContent-Length: 23\r\n\r\n" ++ disguised)

/-- It comes after a request that leaves its length empty. -/
def emptyLength : Exchange Int :=
  sending ("POST /other HTTP/1.1\r\nContent-Length:\r\n\r\n" ++ disguised)

/-- Each time it is read as a request, on a connection that was not closed. -/
theorem disguised_request_read :
    (readHead healthWithBody.input
        = (.request (plainHead "GET" "/healthz" (some "23")), latin1Bytes disguised)
      ∧ afterBody? (plainHead "GET" "/healthz" (some "23")) (latin1Bytes disguised) = some []
      ∧ (latin1Bytes disguised).length = 23
      ∧ ¬ Framed (plainHead "GET" "/healthz" (some "23")) (latin1Bytes disguised)
        healthWithBody.step
      ∧ (readings 2 healthWithBody).map (fun y => (readHead y.input).1)
        = [.request (plainHead "GET" "/healthz" (some "23")),
          .request (plainHead "GET" "/inner" none)])
      ∧ readHead emptyLength.input
        = (.request (plainHead "POST" "/other" (some [])), latin1Bytes disguised)
      ∧ Integer.read? [] = none
      ∧ emptyLength.step.closing = false
      ∧ (readings 2 emptyLength).map (fun y => (readHead y.input).1)
        = [.request (plainHead "POST" "/other" (some [])),
          .request (plainHead "GET" "/inner" none)] := by
  decide +kernel

end Exchange

end Http

end CompileGate
