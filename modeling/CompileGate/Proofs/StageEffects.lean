/-
CompileGate/Proofs/StageEffects.lean

What the stages of a request do to the outside, and when.

`Stage.Does config deadline S` says which effects the stage `S` may have and at
which clock readings.  All but log records need time that is left before the
deadline (`InTime`), and an effect with a time limit is given no more than that
(`allowance`).

An effect is taken apart along its construction: `Emits P m w` says that `m`, run
in the world `w`, only adds entries to the trace that satisfy `P`, whether it
returns or fails.  A time limit is read off the clock right before it is used, so
the rule for two effects in a row keeps the world that the first one leaves.

Main result: one statement for each stage that has effects, from
`Pipeline.resolveSources_ensures` to `Pipeline.emitResult_ensures`.
-/
import CompileGate.Proofs.NestedJson
import CompileGate.Proofs.RedirectChain
import CompileGate.Proofs.SessionWalk

namespace CompileGate

open Effect

variable {τ : Type}

/-! ### What is added to a trace -/

/-- Between the worlds `w` and `v` only effects have begun that satisfy `P`; the compilers and the
room on the call stack are the same. -/
structure World.Extends (P : τ × Event τ → Prop) (w v : World τ) : Prop where
  tools_eq : v.tools = w.tools
  room_eq : v.room = w.room
  trace_eq : ∃ entries, v.trace = entries ++ w.trace ∧ ∀ x ∈ entries, P x

namespace World.Extends

variable {P Q : τ × Event τ → Prop} {w v u : World τ}

theorem of_eq (htools : v.tools = w.tools) (hroom : v.room = w.room)
    (htrace : v.trace = w.trace) : w.Extends P v :=
  ⟨htools, hroom, [], htrace, by simp⟩

theorem refl : w.Extends P w := of_eq rfl rfl rfl

/-- What one step and then another add, both add together. -/
theorem trans (h : w.Extends P v) (h' : v.Extends P u) : w.Extends P u := by
  obtain ⟨htools, hroom, entries, htrace, hP⟩ := h
  obtain ⟨htools', hroom', entries', htrace', hP'⟩ := h'
  refine ⟨htools'.trans htools, hroom'.trans hroom, entries' ++ entries, ?_, ?_⟩
  · rw [htrace', htrace, List.append_assoc]
  · intro x hx
    rcases List.mem_append.mp hx with hx | hx
    · exact hP' x hx
    · exact hP x hx

/-- An entry is added at the clock reading of its world. -/
theorem record {event : Event τ} (h : P (w.now, event)) : w.Extends P (w.record event) :=
  ⟨rfl, rfl, [(w.now, event)], rfl, by simpa using h⟩

end World.Extends

/-- Run in the world `w`, the effect `m` only adds entries to the trace that satisfy `P`. -/
def Effect.Emits {α : Type} (P : τ × Event τ → Prop) (m : Effect τ (World τ) α) (w : World τ) :
    Prop :=
  Ensures m w (fun _ => w.Extends P) fun _ => w.Extends P

namespace Effect.Emits

variable {α β : Type} {P : τ × Event τ → Prop} {m : Effect τ (World τ) α} {w : World τ}

theorem pure (a : α) : Emits P (Pure.pure a) w := .refl

theorem abort (e : GatewayError τ) : Emits (α := α) P (World.abort e) w := .refl

theorem throw (e : Failure τ) : Emits (α := α) P (MonadExcept.throw e) w := .refl

theorem lift (x : Except (Failure τ) α) : Emits P (World.lift x) w := by
  cases x with
  | ok a => exact .refl
  | error e => exact .refl

/-- A change of the world emits what it adds. -/
theorem of_modify {f : World τ → World τ} (h : w.Extends P (f w)) :
    Emits P (modify f : Effect τ (World τ) PUnit) w := h

/-- Log records are allowed wherever the clock stands. -/
theorem log (h : ∀ t r, P (t, .logged r)) (level : Int) (logger message : Text)
    (extras : Table Json) : Emits P (World.log level logger message extras) w :=
  .of_modify (.record (h w.now _))

/-- The second effect begins in the world that the first one leaves, and how that came about may be
used for it. -/
theorem bind {f : α → Effect τ (World τ) β} (hm : Emits P m w)
    (hf : ∀ a v, m w = .ok a v → Emits P (f a) v) : Emits P (m >>= f) w := by
  unfold Emits at hm ⊢
  rw [ensures_bind]
  refine .of_run (fun a v hmw => ?_) fun e v hmw => hm.of_error hmw
  have hv : w.Extends P v := hm.of_ok hmw
  exact (hf a v hmw).mono (fun _ _ h => hv.trans h) fun _ _ h => hv.trans h

end Effect.Emits

/-! ### What the stages may do -/

variable [Seconds τ]

/-- There is time left at a clock reading, if there is a deadline. -/
def InTime (deadline : Option τ) (now : τ) : Prop :=
  ∀ d, deadline = some d → Seconds.isOver (d - now) = false

/-- How much of a time limit is left at a clock reading. -/
def allowance (limit : τ) (deadline : Option τ) (now : τ) : τ :=
  match deadline with
  | none => limit
  | some d => Seconds.least limit (d - now)

/-- The effects of the stages, each with the clock reading at which it may begin. -/
inductive Stage.Does (config : Config τ) (deadline : Option τ) : Stage → τ × Event τ → Prop
  | logged (S : Stage) (now : τ) (record : Log.Record) :
      Does config deadline S (now, .logged record)
  | requestedImport {now : τ} (url : Text) : InTime deadline now →
      Does config deadline .resolveSources
        (now, .requested url (allowance config.fetchTimeout deadline now))
  | closedSession (now : τ) : Does config deadline .resolveSources (now, .closedSession)
  | requestedIndex {now : τ} : InTime deadline now →
      Does config deadline .loadCompiler
        (now, .requested config.releaseIndex (allowance config.fetchTimeout deadline now))
  | installed {now : τ} (release : Text) : InTime deadline now →
      Does config deadline .loadCompiler (now, .installed release)
  | askedVersion {now : τ} (command : Text) : InTime deadline now →
      Does config deadline .loadCompiler (now, .askedVersion command)
  | compiled {now : τ} (command input : Text) : InTime deadline now →
      Does config deadline .compile
        (now, .compiled command input (deadline.map fun d => d - now))

/-- The deadline of a request that arrives at `now`. -/
def Pipeline.deadlineAt (config : Config τ) (now : τ) : Option τ :=
  (Context.ofConfig config [] now).deadline

/-- The check that is made, in the words of `InTime`. -/
theorem Context.isOver_eq_false_iff {ctx : Context τ} {now : τ} :
    ctx.isOver now = false ↔ InTime ctx.deadline now := by
  rw [Context.isOver, Context.secondsLeft, InTime]
  cases ctx.deadline with
  | none => simp
  | some d => simp

/-! ### Imports -/

namespace FetchCache

variable {config : Config τ} {ctx : Context τ}

/-- Where the check passes there is time left, and it takes none. -/
theorem checkDeadline_ensures (ctx : Context τ) (url : Text) (w : World τ) :
    Ensures (checkDeadline ctx url) w (fun _ v => v = w ∧ InTime ctx.deadline w.now)
      fun _ v => v = w := by
  rw [checkDeadline, ensures_bind, ensures_clock]
  by_cases hover : ctx.isOver w.now = true
  · rw [if_pos hover]
    exact rfl
  · rw [if_neg hover]
    exact ⟨rfl, Context.isOver_eq_false_iff.mp (by simpa using hover)⟩

/-- To look at the clock has no effect. -/
theorem emits_checkDeadline {P : τ × Event τ → Prop} (url : Text) (w : World τ) :
    Emits P (checkDeadline ctx url) w := by
  refine (checkDeadline_ensures ctx url w).mono ?_ ?_
  · rintro _ _ ⟨rfl, -⟩
    exact .refl
  · rintro _ _ rfl
    exact .refl

/-- A time limit is what is left of the usual one, and there is some left. -/
theorem timeoutFor_ensures_allowance (ctx : Context τ) (limit : τ) (url : Text) (w : World τ) :
    Ensures (timeoutFor ctx limit url) w
      (fun timeout v => v = w ∧ InTime ctx.deadline w.now
        ∧ timeout = allowance limit ctx.deadline w.now)
      fun _ v => v = w := by
  rw [timeoutFor, ensures_bind]
  refine (checkDeadline_ensures ctx url w).mono ?_ fun _ _ h => h
  rintro - v ⟨rfl, hin⟩
  rw [ensures_bind, ensures_clock, Context.secondsLeft]
  cases hd : ctx.deadline with
  | none => exact ⟨rfl, hd ▸ hin, rfl⟩
  | some d => exact ⟨rfl, hd ▸ hin, rfl⟩

/-- While a body is read only time passes. -/
theorem emits_readParts {P : τ × Event τ → Prop} (url : Text) (maxBytes : Option Int)
    (parts : List (BodyPart τ)) (size : Nat) (done : List (List UInt8)) (w : World τ) :
    Emits P (readParts ctx url maxBytes size done parts) w := by
  -- the cases are those of `readParts`: the kinds of the first part
  fun_induction readParts ctx url maxBytes size done parts generalizing w with
  | case1 => exact .pure _
  | case2 size done delay rest ih =>
    have hwait : Emits P (World.wait delay) w := .of_modify (.of_eq rfl rfl rfl)
    exact hwait.bind fun _ v _ => ih v
  | case3 => exact .abort _
  | case4 => exact .throw _
  | case5 size done rest ih => exact ih w
  | case6 size done b bytes rest ih =>
    refine (emits_checkDeadline url w).bind fun _ v _ => ?_
    dsimp only
    split
    · exact .abort _
    · exact ih v

/-- A request that failed is reported at once, or after a look at the clock. -/
theorem emits_failRequest {P : τ × Event τ → Prop} {α : Type} (url : Text) (timeout : τ)
    (f : Fault) (w : World τ) : Emits P (failRequest (α := α) ctx url timeout f) w := by
  unfold failRequest
  split
  · exact (emits_checkDeadline url w).bind fun _ v _ => .abort _
  · split
    · exact .abort _
    · exact .throw _

end FetchCache

namespace World

/-- A request is one entry, and its answer takes nothing but time. -/
theorem emits_request {P : τ × Event τ → Prop} {url : Text} {timeout : τ} {w : World τ}
    (h : P (w.now, .requested url timeout)) : Emits P (request url timeout) w := by
  have hv : w.Extends P (nextAnswer url (w.record (.requested url timeout))).2 := by
    obtain ⟨routes, hrest⟩ := exists_routes_nextAnswer url (w.record (.requested url timeout))
    rw [hrest]
    exact (Extends.record h).trans (.of_eq rfl rfl rfl)
  -- the delay of the answer moves the clock alone
  exact hv.trans (.of_eq rfl rfl rfl)

end World

namespace FetchCache

variable {config : Config τ} {ctx : Context τ}

/-- Each hop of a download is a request with time left for it. -/
theorem emits_download (url : Text) (maxBytes : Option Int) (left : Nat) (current : Text)
    (w : World τ) :
    Emits (Stage.Does config ctx.deadline .resolveSources)
      (download ctx config.fetchTimeout url maxBytes left current) w := by
  -- on the hops that are left
  induction left generalizing current w with
  | zero => exact .abort _
  | succ left ih =>
    rw [download]
    have htimeout := timeoutFor_ensures_allowance ctx config.fetchTimeout current w
    refine Emits.bind (htimeout.mono ?_ ?_) ?_
    · rintro _ _ ⟨rfl, -⟩
      exact .refl
    · rintro _ _ rfl
      exact .refl
    intro timeout v hv
    -- the limit was read off the clock in the very world that the request begins in
    obtain ⟨rfl, hin, rfl⟩ := htimeout.of_ok hv
    refine (World.emits_request (.requestedImport current hin)).bind fun outcome u _ => ?_
    cases outcome with
    | error f => exact emits_failRequest current _ f u
    | ok response =>
      dsimp only
      cases redirect? response with
      | some location => exact (Emits.lift _).bind fun next u' _ => ih next u'
      | none =>
        dsimp only
        split
        · exact emits_readParts url maxBytes _ 0 [] u
        · exact .abort _

/-- A get of a session emits what the imports of a request may. -/
theorem fetch_emits (url : Text) (maxBytes : Option Int) {w : World τ} {s : Session τ}
    (hs : w.Extends (Stage.Does config ctx.deadline .resolveSources) s.world) :
    Ensures (fetch ctx config.fetchTimeout url maxBytes) s
      (fun _ t => w.Extends (Stage.Does config ctx.deadline .resolveSources) t.world)
      fun _ t => w.Extends (Stage.Does config ctx.deadline .resolveSources) t.world := by
  -- a get ends with a log record, whether it finds the text or brings it
  have hlog : ∀ (u : World τ) (level : Int) (logger message : Text) (extras : Table Json),
      Emits (Stage.Does config ctx.deadline .resolveSources)
        (World.log level logger message extras) u :=
    fun u level logger message extras =>
      Emits.log (fun now record => .logged _ now record) level logger message extras
  rw [fetch, ensures_bind, ensures_get]
  cases Table.get? url s.cache.texts with
  | some text =>
    dsimp only
    rw [ensures_bind, ensures_set, ensures_bind, Session.ensures_onWorld]
    exact (hlog s.world _ _ _ _).mono (fun _ _ h => hs.trans h) fun _ _ h => hs.trans h
  | none =>
    dsimp only
    rw [ensures_bind, ensures_lift]
    refine ⟨fun url' _ => ?_, fun _ _ => hs⟩
    rw [ensures_bind, Session.ensures_onWorld]
    refine (emits_download url maxBytes (maxRedirects + 1) url s.world).mono ?_
      fun _ _ h => hs.trans h
    intro bytes v hv
    rw [ensures_bind, ensures_modify, ensures_bind, Session.ensures_onWorld]
    exact (hlog v _ _ _ _).mono (fun _ _ h => (hs.trans hv).trans h)
      fun _ _ h => (hs.trans hv).trans h

end FetchCache

/-! ### Compilers -/

namespace Compiler

variable {config : Config τ} {deadline : Option τ}

/-- Without a deadline there is always time, and none is named. -/
theorem timeLeft_ensures (config : Config τ) (deadline : Option τ) (w : World τ) :
    Ensures (timeLeft deadline config) w
      (fun left v => v = w ∧ InTime deadline w.now ∧ left = deadline.map fun d => d - w.now)
      fun _ v => v = w := by
  unfold timeLeft
  cases deadline with
  | none => exact ⟨rfl, by simp [InTime], rfl⟩
  | some d =>
    dsimp only
    rw [ensures_bind, FetchCache.ensures_clock]
    by_cases hover : Seconds.isOver (d - w.now) = true
    · rw [if_pos hover]
      exact rfl
    · rw [if_neg hover]
      refine ⟨rfl, ?_, rfl⟩
      rintro _ ⟨⟩
      simpa using hover

/-- A step that is guarded by the deadline starts while there is time left. -/
theorem emits_timeLeft_bind {α : Type} {P : τ × Event τ → Prop}
    {f : Option τ → Effect τ (World τ) α} {w : World τ}
    (h : InTime deadline w.now → Emits P (f (deadline.map fun d => d - w.now)) w) :
    Emits P (timeLeft deadline config >>= f) w := by
  have hleft := timeLeft_ensures config deadline w
  refine Emits.bind (hleft.mono ?_ ?_) ?_
  · rintro _ _ ⟨rfl, -⟩
    exact .refl
  · rintro _ _ rfl
    exact .refl
  · intro left v hv
    obtain ⟨rfl, hin, rfl⟩ := hleft.of_ok hv
    exact h hin

/-- The body of the release index is read without a look at the clock. -/
theorem emits_readWhole {P : τ × Event τ → Prop} (parts : List (BodyPart τ))
    (done : List (List UInt8)) (w : World τ) : Emits P (readWhole done parts) w := by
  fun_induction readWhole done parts generalizing w with
  | case1 => exact .pure _
  | case2 done delay rest ih =>
    have hwait : Emits P (World.wait delay) w := .of_modify (.of_eq rfl rfl rfl)
    exact hwait.bind fun _ v _ => ih v
  | case3 => exact .pure _
  | case4 done b rest ih => exact ih w

/-- Reading the index has no effect, however it ends. -/
theorem emits_readIndex {P : τ × Event τ → Prop} (url : Text) (response : Response τ)
    (w : World τ) : Emits P (readIndex url response) w := by
  refine (emits_readWhole _ [] w).bind fun bytes v _ => ?_
  split
  · split
    · exact .abort _
    · exact .throw _
  · split
    · exact .abort _
    · refine Emits.bind (m := get) .refl fun here u _ => ?_
      split
      · exact .throw _
      · exact .abort _
      · exact .pure _

/-- One request, and the index is searched in what it brings. -/
theorem emits_lookUpRelease {P : τ × Event τ → Prop} {release url : Text} {timeout : τ}
    {w : World τ} (h : P (w.now, .requested url timeout)) :
    Emits P (lookUpRelease release url timeout) w := by
  refine (World.emits_request h).bind fun outcome v _ => ?_
  split
  · split
    · exact .abort _
    · exact .throw _
  · split
    · exact (emits_readIndex url _ v).bind fun index u _ => .lift _
    · exact .abort _

/-- The index is asked only for a release that is selected without its build. -/
theorem emits_expectedTag (selector : Selector) (w : World τ) :
    Emits (Stage.Does config deadline .loadCompiler) (expectedTag selector config deadline) w := by
  unfold expectedTag
  cases selector with
  | default release => exact .pure _
  | build b => exact .pure _
  | release release =>
    refine emits_timeLeft_bind fun hin => ?_
    -- what the index is given is the allowance, written by way of the time left
    have hallowance : ((deadline.map fun d => d - w.now).map
        fun left => Seconds.least config.fetchTimeout left).getD config.fetchTimeout
        = allowance config.fetchTimeout deadline w.now := by
      cases deadline with
      | none => rfl
      | some d => rfl
    dsimp only
    rw [hallowance]
    exact (emits_lookUpRelease (.requestedIndex hin)).bind fun tag v _ => .pure _

/-- An installation begins while there is time left, and then takes its own. -/
theorem emits_install {release : Text} {w : World τ} (hin : InTime deadline w.now) :
    Emits (Stage.Does config deadline .loadCompiler) (install release) w := by
  unfold install
  refine (Emits.log (fun now record => .logged _ now record) _ _ _ _).bind fun _ v hv => ?_
  -- a log record takes no time
  obtain rfl : w.record _ = v := (EStateM.Result.ok.inj hv).2
  refine (Emits.of_modify (.record (.installed release hin))).bind fun _ u _ => ?_
  refine Emits.bind (m := get) .refl fun tools u' _ => ?_
  have hwait : Emits (Stage.Does config deadline .loadCompiler)
      (World.wait tools.tools.installDelay) u' := .of_modify (.of_eq rfl rfl rfl)
  refine hwait.bind fun _ u'' _ => ?_
  split
  · exact .pure _
  · split
    · exact .abort _
    · exact .throw _

/-- What is installed already is not installed again. -/
theorem emits_ensureInstalled {release : Text} {w : World τ} (hin : InTime deadline w.now) :
    Emits (Stage.Does config deadline .loadCompiler) (ensureInstalled release) w := by
  unfold ensureInstalled
  refine Emits.bind (m := get) .refl fun u v hv => ?_
  obtain ⟨rfl, rfl⟩ := EStateM.Result.ok.inj hv
  -- where the compiler is, is looked up afterwards
  have hplace : ∀ v : World τ, Emits (Stage.Does config deadline .loadCompiler)
      (do return (← get).tools.executable release) v := fun v =>
    Emits.bind (m := get) .refl fun _ _ _ => .pure _
  split
  · exact (emits_install hin).bind fun _ v _ => hplace v
  · exact hplace _

/-- A process begins once, and it takes its time whatever comes of it. -/
theorem runCommand_ensures (event : Event τ) (command : Text) (p : Job τ) (timeout : Option τ)
    (w : World τ) :
    Ensures (runCommand event command p timeout) w
      (fun output v => output = p.stdout ∧ v = (w.record event).advance p.delay)
      fun _ v => v = (w.record event).advance p.delay := by
  unfold runCommand
  rw [ensures_bind]
  show Ensures _ ((w.record event).advance p.delay) _ _
  split
  · exact rfl
  · split
    · split
      · exact rfl
      · exact rfl
    · split
      · exact rfl
      · exact ⟨rfl, rfl⟩

/-- A process that begins is one entry. -/
theorem emits_runCommand {P : τ × Event τ → Prop} {event : Event τ} {command : Text} {p : Job τ}
    {timeout : Option τ} {w : World τ} (h : P (w.now, event)) :
    Emits P (runCommand event command p timeout) w := by
  have hv : w.Extends P ((w.record event).advance p.delay) :=
    (World.Extends.record h).trans (.of_eq rfl rfl rfl)
  refine (runCommand_ensures event command p timeout w).mono ?_ ?_
  · rintro _ _ ⟨-, rfl⟩
    exact hv
  · rintro _ _ rfl
    exact hv

/-- A compiler is asked for its version once. -/
theorem emits_askVersion {binary : Text} {w : World τ} (hin : InTime deadline w.now) :
    Emits (Stage.Does config deadline .loadCompiler) (askVersion binary) w := by
  unfold askVersion
  refine Emits.bind (m := get) .refl fun u v hv => ?_
  obtain ⟨rfl, rfl⟩ := EStateM.Result.ok.inj hv
  refine (emits_runCommand (.askedVersion _ hin)).bind fun output v _ => ?_
  split
  · exact .pure _
  · exact .abort _

/-- The deadline is checked before the installation and again before the compiler is asked. -/
theorem emits_load (selector : Option Text) (w : World τ) :
    Emits (Stage.Does config deadline .loadCompiler) (load selector config deadline) w := by
  unfold load
  split
  · exact .abort _
  · refine (emits_expectedTag _ w).bind fun tag v _ => ?_
    -- each step that may take time starts with its own look at the clock
    refine emits_timeLeft_bind fun hin => ?_
    refine (emits_ensureInstalled hin).bind fun binary u _ => ?_
    refine emits_timeLeft_bind fun hin => ?_
    refine (emits_askVersion hin).bind fun banner u' _ => ?_
    split
    · exact .abort _
    · exact (Emits.log (fun now record => .logged _ now record) _ _ _ _).bind
        fun _ _ _ => .pure _

end Compiler

/-! ### The stages -/

namespace Pipeline

/-- The walk requests imports in time, closes its session if it is its own, and leaves a finished
graph. -/
theorem resolveSources_ensures (owned : Bool) (config : Config τ) (request : Request)
    (ctx : Context τ) (w : World τ) :
    Ensures (resolveSources owned config request ctx) w
      (fun g v => w.Extends (Stage.Does config ctx.deadline .resolveSources) v
        ∧ SourceGraph.Finished ⟨request.entryKey, request.source, none⟩ ctx g)
      fun _ v => w.Extends (Stage.Does config ctx.deadline .resolveSources) v := by
  have hkeeps : (fetcher ctx config.fetchTimeout).Keeps
      ⟨request.entryKey, request.source, none⟩ ctx
      (fun _ t => w.Extends (Stage.Does config ctx.deadline .resolveSources) t.world)
      fun _ _ _ t => w.Extends (Stage.Does config ctx.deadline .resolveSources) t.world :=
    fun _ _ _ ht => FetchCache.fetch_emits _ _ ht
  -- the session is closed whether the walk ends or fails
  have hclose : ∀ v : World τ, w.Extends (Stage.Does config ctx.deadline .resolveSources) v →
      w.Extends (Stage.Does config ctx.deadline .resolveSources)
        (if owned then v.record .closedSession else v) := by
    intro v hv
    cases owned with
    | true => exact hv.trans (.record (.closedSession v.now))
    | false => exact hv
  rw [resolveSources, ensures_inSession]
  refine (buildGraph_ensures hkeeps .refl).mono ?_ ?_
  · rintro g _ ⟨hfinished, u, hu, rfl⟩
    exact ⟨hclose _ (hu.trans (.record (.logged _ u.world.now _))), hfinished⟩
  · intro e t h
    refine hclose t.world ?_
    exact SourceGraph.Stopped.state (P := fun t : Session τ =>
        w.Extends (Stage.Does config ctx.deadline .resolveSources) t.world)
      (fun _ _ ht => ht) (fun _ _ _ _ ht => ht) h

/-- The document is made without a look at the clock; a log record tells of it. -/
theorem buildInput_ensures (config : Config τ) (deadline : Option τ) (sources : Table Text)
    (request : Request) (w : World τ) :
    Ensures (buildInput sources request) w
      (fun document v => w.Extends (Stage.Does config deadline .buildInput) v
        ∧ document = .object (Compiler.document sources request.settings))
      fun _ v => v = w := by
  rw [buildInput, ensures_bind, ensures_get, ensures_bind, ensures_lift]
  refine ⟨fun members hmembers => ?_, fun _ _ => rfl⟩
  obtain ⟨-, rfl⟩ := Compiler.copiedDocument_eq_ok_iff.mp hmembers
  rw [ensures_bind, ensures_lift]
  refine ⟨fun digest _ => ?_, fun _ _ => rfl⟩
  rw [ensures_bind]
  exact ⟨.record (.logged _ w.now _), rfl⟩

/-- A compilation is one effect, and a report is what the compiler wrote. -/
theorem compile_ensures (config : Config τ) (compiler : Compiler.Installed) (document : Json)
    (ctx : Context τ) (w : World τ) :
    Ensures (compile compiler document ctx) w
      (fun report v => InTime ctx.deadline w.now
        ∧ Json.read w.tools.compile.stdout = .ok (.object report) ∧ v.tools = w.tools
        ∧ v.room = w.room ∧ v.trace = (w.now, .compiled (compiler.binary ++ " --standard-json")
          (Json.print .spaced document) (ctx.secondsLeft w.now)) :: w.trace)
      fun _ v => w.Extends (Stage.Does config ctx.deadline .compile) v := by
  rw [compile, ensures_bind, FetchCache.ensures_clock]
  by_cases hover : ctx.isOver w.now = true
  · rw [if_pos hover]
    exact .refl
  have hin : InTime ctx.deadline w.now := Context.isOver_eq_false_iff.mp (by simpa using hover)
  rw [if_neg hover, Compiler.compile, ensures_bind, ensures_get]
  -- whatever the compiler writes, it has run by then
  have hrun : w.Extends (Stage.Does config ctx.deadline .compile)
      ((w.record (.compiled (compiler.binary ++ " --standard-json")
        (Json.print .spaced document) (ctx.secondsLeft w.now))).advance w.tools.compile.delay) :=
    (World.Extends.record (.compiled _ _ hin)).trans (.of_eq rfl rfl rfl)
  rw [ensures_bind]
  refine (Compiler.runCommand_ensures _ _ w.tools.compile _ w).mono ?_ ?_
  · rintro output _ ⟨rfl, rfl⟩
    rw [ensures_bind, ensures_get]
    split
    · exact hrun
    · exact hrun
    · rename_i report hreport
      -- of all outputs only an object is a report
      exact ⟨hin, Json.read_of_readWithin hreport, rfl, rfl, rfl⟩
    · exact hrun
  · rintro _ _ rfl
    exact hrun

omit [Seconds τ] in
/-- The result is made of the report alone. -/
theorem emitResult_ensures (request : Request) (sources : Table Text)
    (compiler : Compiler.Installed) (report : Table Json) (w : World τ) :
    Ensures (emitResult request sources compiler report) w
      (fun reply v => v = w ∧ ∃ summary, Compiler.summarize report = .ok summary
        ∧ reply = result request sources compiler summary)
      fun _ v => v = w := by
  unfold emitResult
  cases Compiler.summarize report with
  | ok summary => exact ⟨rfl, summary, rfl, rfl⟩
  | error m => exact rfl

end Pipeline

end CompileGate
