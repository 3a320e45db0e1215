/-
CompileGate/Proofs/RefusedRequests.lean

Which requests are refused as invalid.

Only the first stage refuses a request.  The effects of the later stages are taken apart
once more, this time for what they fail with (`FailsWith`): they fail in many ways, but
never with a refusal (`no_refusal_of_next`).  A fault of the outside is passed on under
its own name, and the outside might report one under the name of a refusal.  There is no
other way for a reply to say that the request is invalid.

Main result: `invalid_iff`.
-/
import CompileGate.Proofs.FetchFailures
import CompileGate.Proofs.ResolutionFailures
import CompileGate.Proofs.StageOrder

namespace CompileGate

open Effect

variable {τ : Type}

/-! ### Refusals -/

/-- The failure of a request that is refused as invalid. -/
def Failure.isRefusal : Failure τ → Bool
  | .gateway (.invalidRequest _) => true
  | _ => false

/-- The name of a refusal. -/
def refusalKind : Text := "InvalidRequest"

/-- A refusal has the complaints about the payload with it. -/
theorem isRefusal_iff {e : Failure τ} :
    e.isRefusal = true ↔ ∃ details, e = .gateway (.invalidRequest details) := by
  constructor
  · intro h
    unfold Failure.isRefusal at h
    split at h
    · exact ⟨_, rfl⟩
    · cases h
  · rintro ⟨details, rfl⟩
    rfl

/-- Only a fault of the outside can go by the name of a refusal. -/
theorem kind_eq_refusalKind_iff {e : Failure τ} :
    e.kind = refusalKind ↔ e.isRefusal = true ∨ ∃ f, e = .fault f ∧ f.kind.name = refusalKind := by
  constructor
  · intro h
    -- a failure of the gateway goes by the name of its constructor, a fault by its own
    cases e with
    | gateway error =>
      cases error with
      | invalidRequest details => exact .inl rfl
      | _ => exact absurd h (of_decide_eq_false rfl)
    | fault f => exact .inr ⟨f, rfl, h⟩
    | badUrl defect => exact absurd h (of_decide_eq_false rfl)
    | badJson error =>
      cases error with
      | invalid => exact absurd h (of_decide_eq_false rfl)
      | longInteger => exact absurd h (of_decide_eq_false rfl)
      | tooDeep => exact absurd h (of_decide_eq_false rfl)
    | unencodable error => exact absurd h (of_decide_eq_false rfl)
    | undecodable error => exact absurd h (of_decide_eq_false rfl)
    | misplaced value =>
      cases value with
      | _ => exact absurd h (of_decide_eq_false rfl)
    | uncopied => exact absurd h (of_decide_eq_false rfl)
  · rintro (hrefusal | ⟨f, rfl, hf⟩)
    · obtain ⟨details, rfl⟩ := isRefusal_iff.mp hrefusal
      rfl
    · exact hf

/-! ### Effects that refuse nothing -/

/-- The effect never fails with a refusal. -/
abbrev Effect.Accepts {σ α : Type} (m : Effect τ σ α) : Prop :=
  FailsWith (fun _ => True) (fun e => e.isRefusal = false) m

namespace Effect.Accepts

variable {σ α β : Type} {m : Effect τ σ α}

theorem abort {error : GatewayError τ} (h : (Failure.gateway error).isRefusal = false) :
    Accepts (World.abort error : Effect τ σ α) := FailsWith.abort h

theorem modify (f : σ → σ) : Accepts (modify f : Effect τ σ PUnit) :=
  FailsWith.modify fun _ _ => trivial

theorem get : Accepts (get : Effect τ σ σ) := fun _ _ => trivial

theorem set (s : σ) : Accepts (set s : Effect τ σ PUnit) := fun _ _ => trivial

/-- Running in a session adds no failures. -/
theorem onWorld {m : Effect τ (World τ) α} (h : Accepts m) : Accepts (Session.onWorld m) :=
  fun s _ => Session.ensures_onWorld.mpr (h s.world trivial)

theorem log (level : Int) (logger message : Text) (extras : Table Json) :
    Accepts (World.log (τ := τ) level logger message extras) := modify _

theorem clock : Accepts (World.clock (τ := τ)) := FetchCache.failsWith_clock

end Effect.Accepts

/-- The outcome is no refusal. -/
def Accepted {α : Type} (x : Except (Failure τ) α) : Prop := ∀ e, x = .error e → e.isRefusal = false

section Accepted

variable {α β : Type}

theorem accepted_ok (a : α) : Accepted (.ok a : Except (Failure τ) α) := nofun

theorem accepted_error {e : Failure τ} (h : e.isRefusal = false) :
    Accepted (.error e : Except (Failure τ) α) := by
  rintro _ ⟨⟩
  exact h

/-- A pure step may use what the step before it brought. -/
theorem Accepted.bind {x : Except (Failure τ) α} {f : α → Except (Failure τ) β} (hx : Accepted x)
    (hf : ∀ a, Accepted (f a)) : Accepted (x >>= f) := by
  cases x with
  | ok a => exact hf a
  | error e => exact accepted_error (hx e rfl)

/-- A URL that cannot be read is a fault of its own kind. -/
theorem accepted_ofUrl (x : Except Url.Defect α) : Accepted (Failure.ofUrl x : Except (Failure τ) α) := by
  cases x with
  | ok a => exact accepted_ok a
  | error defect => exact accepted_error rfl

theorem accepted_ofEncoding (x : Except Utf8.EncodeError α) :
    Accepted (Failure.ofEncoding x : Except (Failure τ) α) := by
  cases x with
  | ok a => exact accepted_ok a
  | error error => exact accepted_error rfl

theorem Effect.Accepts.lift {σ : Type} {x : Except (Failure τ) α} (h : Accepted x) :
    Accepts (World.lift x : Effect τ σ α) := FailsWith.lift h

end Accepted

/-! ### Imports -/

namespace Specifier

variable (raw url : Text) (base : Option Text) (ctx : Context τ) (specifier referrer : Option Text)

/-- A host that is not allowed is refused by its own name. -/
theorem accepted_assertAllowed : Accepted (assertAllowed url ctx specifier referrer) := by
  unfold assertAllowed
  dsimp only
  split
  · exact accepted_error rfl
  · exact accepted_ok url

/-- A resolved URL is made canonical and then has to be allowed. -/
theorem accepted_admitted : Accepted (admitted url ctx raw referrer) :=
  (accepted_ofUrl _).bind fun next => accepted_assertAllowed next ctx (some raw) referrer

/-- Specifiers fail with the failures of imports. -/
theorem accepted_resolve : Accepted (resolve raw base ctx referrer) := by
  unfold resolve
  -- one split for each form of a specifier
  dsimp only
  split
  · exact (accepted_ofUrl _).bind fun url => accepted_admitted raw url ctx referrer
  split
  · split
    · exact accepted_error rfl
    · exact accepted_admitted raw _ ctx referrer
  split
  · split
    · rename_i error herror
      refine accepted_error ?_
      cases blames_of_expandPackage herror with
      | disallowedHost => rfl
      | unsupportedSpecifier => rfl
      | missingPackageVersion => rfl
      | noBaseContext => rfl
    · exact accepted_admitted raw _ ctx referrer
  split
  · split
    · exact accepted_error rfl
    · exact (accepted_ofUrl _).bind fun url => accepted_admitted raw url ctx referrer
  · exact accepted_error rfl

end Specifier

namespace FetchCache

variable [Seconds τ] (ctx : Context τ) (fetchTimeout : τ) (url : Text) (maxBytes : Option Int)

theorem accepts_checkDeadline : Accepts (checkDeadline ctx url) := failsWith_checkDeadline rfl

theorem accepts_timeoutFor : Accepts (timeoutFor ctx fetchTimeout url) := failsWith_timeoutFor rfl

/-- A body can be late, broken or too large. -/
theorem accepts_readParts (size : Nat) (done : List (List UInt8)) (parts : List (BodyPart τ)) :
    Accepts (readParts ctx url maxBytes size done parts) := by
  -- the cases are those of `readParts`: the kinds of the first part
  fun_induction readParts ctx url maxBytes size done parts with
  | case1 => exact .pure _
  | case2 size done delay rest ih => exact (Accepts.modify _).bind fun _ => ih
  | case3 => exact .abort rfl
  | case4 => exact .throw rfl
  | case5 size done rest ih => exact ih
  | case6 size done b bytes rest ih =>
    refine (accepts_checkDeadline ctx url).bind fun _ => ?_
    dsimp only
    split
    · exact .abort rfl
    · exact ih

/-- What a request meets is passed on, or reported as a failed fetch. -/
theorem accepts_failRequest {α : Type} (f : Fault) :
    Accepts (failRequest (α := α) ctx url fetchTimeout f) := by
  unfold failRequest
  split
  · exact (accepts_checkDeadline ctx url).bind fun _ => .abort rfl
  · split
    · exact .abort rfl
    · exact .throw rfl

/-- A request hands its fault over and does not fail itself. -/
theorem accepts_request (url : Text) (timeout : τ) : Accepts (World.request url timeout) :=
  fun _ _ => trivial

/-- A hop fails as its request, its redirect or its body does. -/
theorem accepts_download (left : Nat) (current : Text) :
    Accepts (download ctx fetchTimeout url maxBytes left current) := by
  -- on the hops that are left
  induction left generalizing current with
  | zero => exact .abort rfl
  | succ left ih =>
    rw [download]
    refine (accepts_timeoutFor ctx fetchTimeout current).bind fun timeout =>
      (accepts_request current timeout).bind fun outcome => ?_
    split
    · exact accepts_failRequest ctx timeout current _
    · split
      · exact (Accepts.lift ((accepted_ofUrl _).bind fun _ => (accepted_ofUrl _).bind fun next =>
          Specifier.accepted_assertAllowed next ctx none none)).bind fun next => ih next
      · split
        · exact accepts_readParts ctx url maxBytes 0 [] _
        · exact .abort rfl

/-- A get fails as its URL or its download does. -/
theorem accepts_fetch : Accepts (fetch ctx fetchTimeout url maxBytes) := by
  refine Accepts.get.bind fun s => ?_
  split
  · exact (Accepts.set _).bind fun _ => (Accepts.log _ _ _ _).onWorld.bind fun _ => .pure _
  · refine (Accepts.lift (Specifier.accepted_assertAllowed url ctx none none)).bind fun _ =>
      (accepts_download ctx fetchTimeout url maxBytes _ url).onWorld.bind fun bytes => ?_
    exact (Accepts.modify _).bind fun _ => (Accepts.log _ _ _ _).onWorld.bind fun _ => .pure _

end FetchCache

/-! ### Compilers -/

namespace Compiler

theorem accepts_failRun {σ α : Type} (message : Text) :
    Accepts (failRun message : Effect τ σ α) := .abort rfl

/-- An index without the release, or of the wrong shape. -/
theorem accepted_tagInIndex (index : Json) (release : Text) :
    Accepted (tagInIndex (τ := τ) index release) := by
  unfold tagInIndex
  split
  · exact accepted_error rfl
  · split
    · exact accepted_error rfl
    · split
      · split
        · exact accepted_ok _
        · exact accepted_error rfl
      · exact accepted_error rfl

/-- A selector that cannot be read is the fault of the version, not of the request. -/
theorem exists_eq_of_read_selector {selector : Option Text} {defaultRelease : Text}
    {error : GatewayError τ} (h : Selector.read selector defaultRelease = .error error) :
    ∃ version reason, error = .unsupportedCompilerVersion version reason := by
  unfold Selector.read at h
  split at h
  · cases h
  · dsimp only at h
    split at h
    · cases h
    · split at h
      · cases h
      · split at h
        · cases h
        · exact ⟨_, _, (Except.error.inj h).symm⟩

variable [Seconds τ] (config : Config τ) (deadline : Option τ)

theorem accepts_timeLeft : Accepts (timeLeft deadline config) := by
  unfold timeLeft
  split
  · exact .pure _
  · refine Accepts.clock.bind fun now => ?_
    dsimp only
    split
    · exact .abort rfl
    · exact .pure _

theorem accepts_readWhole (parts : List (BodyPart τ)) (done : List (List UInt8)) :
    Accepts (readWhole done parts) := by
  fun_induction readWhole done parts with
  | case1 => exact .pure _
  | case2 done delay rest ih => exact (Accepts.modify _).bind fun _ => ih
  | case3 => exact .pure _
  | case4 done b rest ih => exact ih

/-- An index that is broken, unreadable or too deep is no refusal of the request. -/
theorem accepts_readIndex (url : Text) (response : Response τ) :
    Accepts (readIndex url response) := by
  refine (accepts_readWhole _ []).bind fun bytes => ?_
  split
  · split
    · exact .abort rfl
    · exact .throw rfl
  · split
    · exact .abort rfl
    · refine Accepts.get.bind fun w => ?_
      split
      · exact .throw rfl
      · exact .abort rfl
      · exact .pure _

theorem accepts_lookUpRelease (release url : Text) (timeout : τ) :
    Accepts (lookUpRelease release url timeout) := by
  refine (FetchCache.accepts_request url timeout).bind fun outcome => ?_
  split
  · split
    · exact .abort rfl
    · exact .throw rfl
  · split
    · exact (accepts_readIndex url _).bind fun index => .lift (accepted_tagInIndex index release)
    · exact .abort rfl

/-- Only the lookup can fail. -/
theorem accepts_expectedTag (selector : Selector) :
    Accepts (expectedTag selector config deadline) := by
  unfold expectedTag
  split
  · exact .pure _
  · exact .pure _
  · exact (accepts_timeLeft config deadline).bind fun left =>
      (accepts_lookUpRelease _ _ _).bind fun tag => .pure _

/-- An installation fails as a compiler or with the fault it met. -/
theorem accepts_install (release : Text) : Accepts (install (τ := τ) release) := by
  refine (Accepts.log _ _ _ _).bind fun _ => (Accepts.modify _).bind fun _ =>
    Accepts.get.bind fun w => (Accepts.modify _).bind fun _ => ?_
  split
  · exact .pure _
  · split
    · exact accepts_failRun _
    · exact .throw rfl

/-- The place of an installed compiler is looked up without failure. -/
theorem accepts_ensureInstalled (release : Text) :
    Accepts (ensureInstalled (τ := τ) release) := by
  have hplace : Accepts (do return (← get).tools.executable release : Effect τ (World τ) Text) :=
    Accepts.get.bind fun _ => .pure _
  refine Accepts.get.bind fun w => ?_
  split
  · exact (accepts_install release).bind fun _ => hplace
  · exact hplace

/-- A process is late, cannot be started or fails. -/
theorem accepts_runCommand (event : Event τ) (command : Text) (job : Job τ) (timeout : Option τ) :
    Accepts (runCommand event command job timeout) := by
  -- it is recorded and takes its time before it can fail
  have hrun : Accepts (World.runJob event job) := (Accepts.modify _).bind fun _ => Accepts.modify _
  refine hrun.bind fun _ => ?_
  split
  · exact accepts_failRun _
  · split
    · split
      · exact .throw rfl
      · exact accepts_failRun _
    · split
      · exact accepts_failRun _
      · exact .pure _

/-- A compiler may not tell its version. -/
theorem accepts_askVersion (binary : Text) : Accepts (askVersion (τ := τ) binary) := by
  refine Accepts.get.bind fun w => (accepts_runCommand _ _ _ _).bind fun output => ?_
  split
  · exact .pure _
  · exact accepts_failRun _

/-- Loading fails for the selector, the lookup, the installation or the version. -/
theorem accepts_load (selector : Option Text) : Accepts (load selector config deadline) := by
  unfold load
  split
  · rename_i error herror
    obtain ⟨version, reason, rfl⟩ := exists_eq_of_read_selector herror
    exact .abort rfl
  · refine (accepts_expectedTag config deadline _).bind fun tag =>
      (accepts_timeLeft config deadline).bind fun _ =>
      (accepts_ensureInstalled _).bind fun binary =>
      (accepts_timeLeft config deadline).bind fun _ => (accepts_askVersion binary).bind fun _ => ?_
    split
    · exact .abort rfl
    · exact (Accepts.log _ _ _ _).bind fun _ => .pure _

/-- A report that is no JSON object is a failure of the compiler. -/
theorem accepts_compile (binary : Text) (document : Json) (timeout : Option τ) :
    Accepts (compile binary document timeout) := by
  refine Accepts.get.bind fun w => (accepts_runCommand _ _ _ _).bind fun output =>
    Accepts.get.bind fun w => ?_
  split
  · exact .throw rfl
  · exact accepts_failRun _
  · exact .pure _
  · exact accepts_failRun _

end Compiler

/-! ### The stages -/

namespace Pipeline

/-- Building the document fails for want of room or of bytes. -/
theorem accepts_buildInput (sources : Table Text) (request : Request) :
    Accepts (buildInput (τ := τ) sources request) := by
  refine Accepts.get.bind fun w => (Accepts.lift fun e he => ?_).bind fun members =>
    (Accepts.lift (accepted_ofEncoding _)).bind fun _ => (Accepts.log _ _ _ _).bind fun _ => .pure _
  unfold Compiler.copiedDocument at he
  split at he
  · cases he
  · rw [← Except.error.inj he]
    rfl

/-- A report of the wrong shape is found out at the end. -/
theorem accepts_emitResult (request : Request) (sources : Table Text)
    (compiler : Compiler.Installed) (report : Table Json) :
    Accepts (emitResult (τ := τ) request sources compiler report) := by
  unfold emitResult
  split
  · exact .pure _
  · exact .throw rfl

variable [Seconds τ] (owned : Bool) (config : Config τ) (payload : Json)

/-- Of the ways in which a walk stops none is a refusal. -/
theorem accepts_resolveSources (request : Request) (ctx : Context τ) :
    Accepts (resolveSources owned config request ctx) := by
  intro w _
  have hkeeps : (fetcher ctx config.fetchTimeout).Keeps ⟨request.entryKey, request.source, none⟩ ctx
      (fun _ _ => True) fun _ _ e _ => e.isRefusal = false := fun _ _ _ _ =>
    (FetchCache.accepts_fetch ctx config.fetchTimeout _ _ _ trivial).mono
      (fun _ _ _ => trivial) fun _ _ h => h.1
  rw [resolveSources, ensures_inSession]
  refine (buildGraph_ensures hkeeps trivial).mono (fun _ _ _ => trivial) fun e v h => ⟨?_, trivial⟩
  -- the ceilings and the deadline have failures of their own; resolving and fetching were looked at
  -- above
  cases h with
  | entryUnencodable _ _ => rfl
  | entryTooLarge _ _ _ => rfl
  | entryTooMany _ _ _ => rfl
  | unresolved _ _ _ hresolve _ => exact Specifier.accepted_resolve _ _ _ _ e hresolve
  | tooMany _ _ _ => rfl
  | late _ _ _ => rfl
  | unfetched _ _ hfetch => exact hfetch
  | unencodable _ _ _ _ => rfl
  | tooLarge _ _ _ _ _ => rfl

/-- The stage checks the deadline first. -/
theorem accepts_compile (compiler : Compiler.Installed) (document : Json) (ctx : Context τ) :
    Accepts (compile compiler document ctx) := by
  refine Accepts.clock.bind fun now => ?_
  split
  · exact .abort rfl
  · exact Compiler.accepts_compile _ _ _

variable {owned config payload}

/-- Only the first stage refuses a request. -/
theorem no_refusal_of_next {p : Progress τ} {S : Stage} {stage : Effect τ (World τ) (Progress τ)}
    (h : p.next? owned config payload = some (S, stage)) (hS : S ≠ .parseRequest) :
    Accepts stage := by
  -- the stages in turn, each behind the value that it leaves
  cases p with
  | received => obtain ⟨⟩ := h; exact absurd rfl hS
  | replied reply => cases h
  | parsed request ctx =>
    obtain ⟨⟩ := h
    exact (accepts_resolveSources owned config request ctx).bind fun _ => .pure _
  | resolved request ctx g =>
    obtain ⟨⟩ := h
    exact .pure _
  | rewritten request ctx sources =>
    obtain ⟨⟩ := h
    exact (accepts_buildInput sources request).bind fun _ => .pure _
  | built request ctx sources document =>
    obtain ⟨⟩ := h
    exact (Compiler.accepts_load config _ _).bind fun _ => .pure _
  | loaded request ctx sources document compiler =>
    obtain ⟨⟩ := h
    exact (accepts_compile compiler document ctx).bind fun _ => .pure _
  | compiled request sources compiler report =>
    obtain ⟨⟩ := h
    exact (accepts_emitResult request sources compiler report).bind fun _ => .pure _

/-- The first stage fails as the payload is read. -/
theorem failsAt_parseRequest_iff {w v : World τ} {e : Failure τ} :
    FailsAt owned config payload w .parseRequest e v
      ↔ v = w ∧ Request.read (τ := τ) payload = .error e := by
  -- reading the payload is all that the stage does
  have hparse : ∀ u : World τ, ((do
      let parsed ← parseRequest config payload
      return Progress.parsed parsed.1 parsed.2) : Effect τ (World τ) (Progress τ)) u = .error e v
      ↔ v = u ∧ Request.read (τ := τ) payload = .error e := by
    intro u
    have hstage : parseRequest config payload u
        = World.lift (Request.readWithContext config u.now payload) u := rfl
    cases hread : Request.read (τ := τ) payload with
    | ok request =>
      rw [Request.readWithContext, hread] at hstage
      rw [bind_of_ok hstage]
      exact ⟨nofun, fun h => nomatch h.2⟩
    | error e' =>
      rw [Request.readWithContext, hread] at hstage
      rw [bind_of_error hstage]
      constructor
      · rintro ⟨⟩
        exact ⟨rfl, rfl⟩
      · rintro ⟨rfl, ⟨⟩⟩
        rfl
  constructor
  · rintro ⟨p, u, stage, hreached, hnext, hstage⟩
    have hposition := position_of_next hnext
    cases p with
    | received =>
      obtain ⟨⟩ := hnext
      obtain rfl : u = w := (holds_of_reached hreached).known
      exact (hparse u).mp hstage
    | _ => cases hposition
  · intro h
    exact ⟨.received, w, _, .start, rfl, (hparse w).mpr h⟩

variable (owned config payload)

/-- The request is refused: as its payload is read, or by a fault of the outside that goes by the
name of a refusal. -/
def Refuses (w : World τ) : Prop :=
  w.breakdown = none
    ∧ ((∃ details, Request.read (τ := τ) payload = .error (.gateway (.invalidRequest details)))
      ∨ ∃ S f v, FailsAt owned config payload w S (.fault f) v ∧ f.kind.name = refusalKind)

variable {owned config payload}

/-- A request fails in one way. -/
theorem FailsAt.eq {w v v' : World τ} {S S' : Stage} {e e' : Failure τ}
    (h : FailsAt owned config payload w S e v) (h' : FailsAt owned config payload w S' e' v') :
    e' = e := by
  have hstages := (stages_of_failsAt h).symm.trans (stages_of_failsAt h')
  simp only [EStateM.Result.error.injEq, StageFailure.mk.injEq] at hstages
  exact hstages.1.2.symm

/-- A request that is answered does not fail as well. -/
theorem not_failsAt_of_reached {w v v' : World τ} {S : Stage} {e : Failure τ} {reply : Table Json}
    (h : Reached owned config payload w (.replied reply) v) :
    ¬ FailsAt owned config payload w S e v' := fun h' =>
  nomatch (stages_of_reached h).symm.trans (stages_of_failsAt h')

/-- A refusal comes from the payload. -/
theorem FailsAt.isRefusal_iff {w v : World τ} {S : Stage} {e : Failure τ}
    (h : FailsAt owned config payload w S e v) :
    e.isRefusal = true
      ↔ ∃ details, Request.read (τ := τ) payload = .error (.gateway (.invalidRequest details)) := by
  constructor
  · intro he
    -- a refusal of a later stage is ruled out, and the first one fails as the payload is read
    by_cases hS : S = .parseRequest
    · subst hS
      obtain ⟨details, rfl⟩ := CompileGate.isRefusal_iff.mp he
      exact ⟨details, (failsAt_parseRequest_iff.mp h).2⟩
    · obtain ⟨p, u, stage, -, hnext, hstage⟩ := h
      have haccepted : e.isRefusal = false :=
        ((no_refusal_of_next hnext hS u trivial).of_error hstage).1
      rw [he] at haccepted
      cases haccepted
  · rintro ⟨details, hread⟩
    rw [← h.eq (failsAt_parseRequest_iff.mpr ⟨rfl, hread⟩)]
    rfl

variable (owned config payload)

/-- **A reply says that the request is invalid when the request is refused, and only then.** -/
theorem invalid_iff (w : World τ) :
    Table.get? "errorKind" (run owned config payload w).1 = some (.string refusalKind)
      ↔ Refuses owned config payload w := by
  -- a breakdown outside the stages is reported as an internal error
  cases hw : w.breakdown with
  | some f =>
    have hrun : (run owned config payload w).1 = breakdownReply f := by
      rw [run, hw]
    have hkind : Table.get? "errorKind" (breakdownReply f)
        = some (.string "InternalError") := rfl
    rw [hrun, hkind, Refuses, hw]
    exact ⟨fun h => absurd (Json.string.inj (Option.some.inj h)) (by decide), fun h => nomatch h.1⟩
  | none =>
    rcases failsAt_or_reached owned config payload w with ⟨S, e, v, h⟩ | ⟨reply, v, h⟩
    · have hkind : Table.get? "errorKind" (run owned config payload w).1
          = some (.string e.kind) := by
        rw [run_eq_of_error hw (stages_of_failsAt h)]
        rfl
      rw [hkind, Option.some.injEq, Json.string.injEq, kind_eq_refusalKind_iff, h.isRefusal_iff,
        Refuses, and_iff_right hw]
      refine or_congr_right ⟨?_, ?_⟩
      · rintro ⟨f, rfl, hname⟩
        exact ⟨S, f, v, h, hname⟩
      · rintro ⟨S', f, v', h', hname⟩
        exact ⟨f, (h'.eq h), hname⟩
    · -- a reply without failure names no kind
      have hkind : Table.get? "errorKind" (run owned config payload w).1 = none := by
        obtain ⟨request, sources, compiler, report, summary, -, -, rfl⟩ := (holds_of_reached h).known
        rw [run_eq_of_ok hw (stages_of_reached h), get?_result (by decide)]
        rfl
      rw [hkind]
      refine ⟨nofun, ?_⟩
      rintro ⟨-, ⟨details, hread⟩ | ⟨S, f, v', h', -⟩⟩
      · exact absurd (failsAt_parseRequest_iff.mpr ⟨rfl, hread⟩) (not_failsAt_of_reached h)
      · exact absurd h' (not_failsAt_of_reached h)

end Pipeline

end CompileGate
