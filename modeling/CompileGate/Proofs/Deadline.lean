/-
CompileGate/Proofs/Deadline.lean

Nothing starts after the deadline, and nothing that arrives after it is used.

What a stage may do, and when, is known from `Stage.Does`; here it is compared
with the deadline itself, for which time must be measured in exact numbers
(`ExactSeconds`).  The clock may move in any way.

A text comes in with the parts of a body, and each part that is not empty has a
time of arrival (`arrivals`).  A text that a walk is given was not there before,
so it is the whole body of one answer, and the deadline was looked at as each of
these parts arrived (`Delivered`).

Main result: `deadline_kept`.
-/
import CompileGate.Proofs.FetchCalls
import CompileGate.Proofs.StageOrder

namespace CompileGate

open Effect

variable {τ : Type} [Seconds τ]

/-- Time is measured in exact numbers. -/
class ExactSeconds (τ : Type) [Seconds τ] : Prop where
  le_refl : ∀ a : τ, a ≤ a
  le_of_lt : ∀ a b : τ, a < b → a ≤ b
  not_le : ∀ a b : τ, ¬ a ≤ b ↔ b < a
  sub_le_zero : ∀ a b : τ, a - b ≤ 0 ↔ a ≤ b

instance exactSecondsOfInt : ExactSeconds Int where
  le_refl := Int.le_refl
  le_of_lt _ _ := Int.le_of_lt
  not_le _ _ := Int.not_le
  sub_le_zero a b := by
    show a - b ≤ (0 : Int) ↔ a ≤ b
    omega

/-- What an effect that begins at a clock reading must keep to before a deadline. -/
def KeepsTo (config : Config τ) (deadline : τ) : τ × Event τ → Prop
  | (now, .requested _ timeout) =>
    now < deadline ∧ timeout ≤ config.fetchTimeout ∧ timeout ≤ deadline - now
  | (now, .installed _) | (now, .askedVersion _) => now < deadline
  | (now, .compiled _ _ timeout) =>
    now < deadline ∧ ∃ limit, timeout = some limit ∧ limit ≤ deadline - now
  | (_, .closedSession) | (_, .logged _) => True

section Exact

variable [ExactSeconds τ]

theorem least_le (a b : τ) : Seconds.least a b ≤ a ∧ Seconds.least a b ≤ b := by
  unfold Seconds.least
  by_cases h : b < a
  · rw [if_pos h]
    exact ⟨ExactSeconds.le_of_lt b a h, ExactSeconds.le_refl b⟩
  · rw [if_neg h]
    refine ⟨ExactSeconds.le_refl a, ?_⟩
    by_contra hab
    exact h ((ExactSeconds.not_le a b).mp hab)

theorem lt_of_inTime {deadline now : τ} (h : InTime (some deadline) now) : now < deadline := by
  have hover := h deadline rfl
  rw [Seconds.isOver, decide_eq_false_iff_not, ExactSeconds.sub_le_zero] at hover
  exact (ExactSeconds.not_le deadline now).mp hover

/-- What a stage may do keeps to the deadline. -/
theorem keepsTo_of_does {config : Config τ} {deadline : τ} {S : Stage} {x : τ × Event τ}
    (h : S.Does config (some deadline) x) : KeepsTo config deadline x := by
  cases h with
  | logged => trivial
  | closedSession => trivial
  | requestedImport url hin => exact ⟨lt_of_inTime hin, least_le _ _⟩
  | requestedIndex hin => exact ⟨lt_of_inTime hin, least_le _ _⟩
  | installed release hin => exact lt_of_inTime hin
  | askedVersion command hin => exact lt_of_inTime hin
  | compiled command input hin => exact ⟨lt_of_inTime hin, _, rfl, ExactSeconds.le_refl _⟩

end Exact

/-! ### Texts -/

/-- The parts of a body that hold bytes, in order, each with the clock reading when it arrives; the
reading begins at `now`. -/
def arrivals (now : τ) : List (BodyPart τ) → List (τ × List UInt8)
  | [] => []
  | .wait delay :: rest => arrivals (now + delay) rest
  | .fault _ :: rest => arrivals now rest
  | .bytes [] :: rest => arrivals now rest
  | .bytes (b :: bytes) :: rest => (now, b :: bytes) :: arrivals now rest

namespace FetchCache

/-- A download of `url` that starts in the world `w` ends with an answer whose body arrives in these
pieces. -/
def Delivered (ctx : Context τ) (fetchTimeout : τ) (url : Text) (w : World τ)
    (pieces : List (τ × List UInt8)) : Prop :=
  ∃ hops current v response v', Redirected ctx fetchTimeout url w hops current v
    ∧ Answered ctx fetchTimeout current v response v' ∧ redirect? response = none
    ∧ 200 ≤ response.status ∧ response.status < 300
    ∧ pieces = arrivals v'.now (response.body.read chunkSize)

variable {ctx : Context τ} {fetchTimeout : τ}

/-- A body that is read is all its parts, each of which came in time. -/
theorem readParts_ensures (url : Text) (maxBytes : Option Int) (parts : List (BodyPart τ))
    (size : Nat) (done : List (List UInt8)) (w : World τ) :
    Ensures (readParts ctx url maxBytes size done parts) w
      (fun bytes _ => bytes = done.reverse.flatten ++ ((arrivals w.now parts).map Prod.snd).flatten
        ∧ ∀ piece ∈ arrivals w.now parts, InTime ctx.deadline piece.1)
      fun _ _ => True := by
  -- the cases are those of `readParts`: the kinds of the first part
  fun_induction readParts ctx url maxBytes size done parts generalizing w with
  | case1 size done =>
    rw [ensures_pure]
    exact ⟨by simp [arrivals], by simp [arrivals]⟩
  | case2 size done delay rest ih =>
    rw [ensures_bind]
    exact ih (w.advance delay)
  | case3 => trivial
  | case4 => trivial
  | case5 size done rest ih => exact ih w
  | case6 size done b bytes rest ih =>
    rw [ensures_bind]
    -- the deadline is looked at when the part has arrived, before its size is
    refine (checkDeadline_ensures ctx url w).mono ?_ fun _ _ _ => trivial
    rintro - v ⟨rfl, hin⟩
    dsimp only
    split
    · trivial
    · refine (ih v).mono ?_ fun _ _ h => h
      rintro bytes' - ⟨rfl, hrest⟩
      refine ⟨by simp [arrivals], ?_⟩
      intro piece hpiece
      rcases List.mem_cons.mp hpiece with rfl | hpiece
      · exact hin
      · exact hrest piece hpiece

/-- A request that met a fault gives no bytes. -/
theorem failRequest_ensures {α : Type} (ctx : Context τ) (url : Text) (timeout : τ) (f : Fault)
    (w : World τ) :
    Ensures (failRequest (α := α) ctx url timeout f) w (fun _ _ => False) fun _ _ => True := by
  unfold failRequest
  split
  · rw [ensures_bind]
    exact (checkDeadline_ensures ctx url w).mono (fun _ _ _ => trivial) fun _ _ _ => trivial
  · split
    · trivial
    · trivial

/-- The bytes of a download are the pieces of an answer, each of which came in time. -/
theorem download_delivers {url : Text} {w : World τ} (maxBytes : Option Int) {left hops : Nat}
    {current : Text} {v : World τ} (h : Redirected ctx fetchTimeout url w hops current v) :
    Ensures (download ctx fetchTimeout url maxBytes left current) v
      (fun bytes _ => ∃ pieces, Delivered ctx fetchTimeout url w pieces
        ∧ bytes = (pieces.map Prod.snd).flatten ∧ ∀ piece ∈ pieces, InTime ctx.deadline piece.1)
      fun _ _ => True := by
  -- along the requests that may still be made
  induction left generalizing hops current v with
  | zero => trivial
  | succ left ih =>
    rw [download, ensures_bind]
    refine .of_run (fun timeout u htimeout => ?_) fun _ _ _ => trivial
    obtain rfl := (timeoutFor_ensures ctx fetchTimeout current v).of_ok htimeout
    rw [ensures_bind]
    refine .of_run (fun outcome v' hrequest => ?_) fun _ _ _ => trivial
    cases outcome with
    | error f =>
      exact (failRequest_ensures ctx current timeout f v').mono (fun _ _ h => h.elim)
        fun _ _ h => h
    | ok response =>
      have hanswered : Answered ctx fetchTimeout current u response v' :=
        ⟨timeout, htimeout, hrequest⟩
      dsimp only
      cases hlocation : redirect? response with
      | some location =>
        dsimp only
        rw [ensures_bind, ensures_lift]
        exact ⟨fun next hnext => ih (.hop h hanswered hlocation hnext), fun _ _ => trivial⟩
      | none =>
        dsimp only
        split
        · rename_i hstatus
          refine (readParts_ensures url maxBytes _ 0 [] v').mono ?_ fun _ _ h => h
          rintro bytes - ⟨rfl, hin⟩
          exact ⟨_, ⟨hops, current, u, response, v', h, hanswered, hlocation, hstatus.1,
            hstatus.2, rfl⟩, by simp, hin⟩
        · trivial

/-- A text that is not in the cache is what a download of it brings, in time. -/
theorem fetch_delivers (ctx : Context τ) (fetchTimeout : τ) {url : Text} (maxBytes : Option Int)
    {s : Session τ} (hmiss : Table.get? url s.cache.texts = none) :
    Ensures (fetch ctx fetchTimeout url maxBytes) s
      (fun text t => t.cache.texts = Table.insert url text s.cache.texts
        ∧ ∃ pieces, Delivered ctx fetchTimeout url s.world pieces
          ∧ text = Utf8.decodeLenient (pieces.map Prod.snd).flatten
          ∧ ∀ piece ∈ pieces, InTime ctx.deadline piece.1)
      fun _ _ => True := by
  rw [fetch, ensures_bind, ensures_get]
  simp only [hmiss]
  rw [ensures_bind, ensures_lift]
  refine ⟨fun url' _ => ?_, fun _ _ => trivial⟩
  rw [ensures_bind, Session.ensures_onWorld]
  refine (download_delivers maxBytes .start).mono ?_ fun _ _ _ => trivial
  rintro _ v ⟨pieces, hdelivered, rfl, hin⟩
  rw [ensures_bind, ensures_modify, ensures_bind, Session.ensures_onWorld]
  exact ⟨rfl, pieces, hdelivered, rfl, hin⟩

end FetchCache

/-! ### The walk of a request -/

namespace Pipeline

open SourceGraph FetchCache

/-- The texts that calls have returned came in time. -/
def AllInTime (ctx : Context τ) (fetchTimeout : τ) (calls : List (Call τ (Session τ))) : Prop :=
  ∀ call ∈ calls, ∀ text, call.outcome = .ok text →
    ∃ pieces, Delivered ctx fetchTimeout call.url call.before.world pieces
      ∧ text = Utf8.decodeLenient (pieces.map Prod.snd).flatten
      ∧ ∀ piece ∈ pieces, InTime ctx.deadline piece.1

/-- The calls that the walk of a request makes from the world `w`. -/
def walkCalls (config : Config τ) (request : Request) (ctx : Context τ) (w : World τ) :
    List (Call τ (Session τ)) :=
  (final (build ctx (fetcher ctx config.fetchTimeout).recorded request.entryKey request.source none)
    (Session.ofWorld w, [])).2

/-- What is in the cache of a walk belongs to a source found, and came in time. -/
structure CachedInTime (ctx : Context τ) (fetchTimeout : τ) (sources : List Source)
    (s : Session τ × List (Call τ (Session τ))) : Prop where
  names : ∀ key ∈ Table.names s.1.cache.texts, key ∈ sources.map Source.key
  inTime : AllInTime ctx fetchTimeout s.2

variable {ctx : Context τ} {fetchTimeout : τ}

theorem AllInTime.concat {calls : List (Call τ (Session τ))} {call : Call τ (Session τ)}
    (h : AllInTime ctx fetchTimeout calls)
    (hcall : ∀ text, call.outcome = .ok text →
      ∃ pieces, Delivered ctx fetchTimeout call.url call.before.world pieces
        ∧ text = Utf8.decodeLenient (pieces.map Prod.snd).flatten
        ∧ ∀ piece ∈ pieces, InTime ctx.deadline piece.1) :
    AllInTime ctx fetchTimeout (calls ++ [call]) := by
  intro c hc text htext
  rcases List.mem_append.mp hc with hc | hc
  · exact h c hc text htext
  · obtain rfl := List.mem_singleton.mp hc
    exact hcall text htext

/-- A walk only asks for what is not in the cache. -/
theorem keeps_inTime (entry : Source) (ctx : Context τ) (fetchTimeout : τ) :
    (fetcher ctx fetchTimeout).recorded.Keeps entry ctx (CachedInTime ctx fetchTimeout)
      fun _ _ _ s => AllInTime ctx fetchTimeout s.2 := by
  intro sources x child s hp _ _ hj
  -- a key that is asked for is new, and the cache has keys of sources only
  have hmiss : Table.get? child s.1.cache.texts = none :=
    Table.get?_eq_none_iff.mpr fun hchild => hp.fresh (hj.names child hchild)
  have hfetch := fetch_delivers ctx fetchTimeout (some (ctx.maxTotalBytes - totalSize sources))
    hmiss
  unfold Ensures Fetcher.recorded
  dsimp only
  cases hrun : (fetcher ctx fetchTimeout).fetch child (ctx.maxTotalBytes - totalSize sources) s.1
    with
  | ok content t =>
    obtain ⟨htexts, hcontent⟩ := hfetch.of_ok hrun
    refine ⟨?_, hj.inTime.concat ?_⟩
    · intro key hkey
      rw [htexts, Table.names_insert] at hkey
      rw [List.map_append]
      split at hkey
      · exact List.mem_append_left _ (hj.names key hkey)
      · rcases List.mem_append.mp hkey with hkey | hkey
        · exact List.mem_append_left _ (hj.names key hkey)
        · exact List.mem_append_right _ hkey
    · rintro _ ⟨⟩
      exact hcontent
  | error e t => exact hj.inTime.concat nofun

theorem allInTime_walkCalls (config : Config τ) (request : Request) (ctx : Context τ)
    (w : World τ) : AllInTime ctx config.fetchTimeout (walkCalls config request ctx w) := by
  have hstart : CachedInTime ctx config.fetchTimeout [⟨request.entryKey, request.source, none⟩]
      (Session.ofWorld w, []) :=
    ⟨by simp [Session.ofWorld, Table.names], by simp [AllInTime]⟩
  have hwalk : Ensures
      (build ctx (fetcher ctx config.fetchTimeout).recorded request.entryKey request.source none)
      (Session.ofWorld w, []) (fun _ s => AllInTime ctx config.fetchTimeout s.2)
      fun _ s => AllInTime ctx config.fetchTimeout s.2 := by
    refine (build_ensures (keeps_inTime ⟨request.entryKey, request.source, none⟩ ctx
      config.fetchTimeout) hstart).mono ?_ ?_
    · exact fun _ _ h => h.2.inTime
    · intro e s h
      exact Stopped.state (P := fun s : Session τ × List (Call τ (Session τ)) =>
          AllInTime ctx config.fetchTimeout s.2)
        (fun _ _ hj => hj.inTime) (fun _ _ _ _ hf => hf) h
  exact Ensures.final (P := fun s : Session τ × List (Call τ (Session τ)) =>
    AllInTime ctx config.fetchTimeout s.2) hwalk

/-- The sources of a request are its entry and what the calls of its walk have returned. -/
theorem sources_of_resolveSources {owned : Bool} {config : Config τ} {request : Request}
    {w v : World τ} {g : SourceGraph} (h : resolveSources owned config request ctx w = .ok g v) :
    g.nodes.map SourceNode.source
      = sourcesAfter ⟨request.entryKey, request.source, none⟩ (walkCalls config request ctx w) := by
  have hresolve : Ensures (resolveSources owned config request ctx) w
      (fun g _ => g.nodes.map SourceNode.source = sourcesAfter
        ⟨request.entryKey, request.source, none⟩ (walkCalls config request ctx w))
      fun _ _ => True := by
    rw [resolveSources, ensures_inSession, buildGraph, ensures_bind]
    refine .of_run (fun g t hbuild => ?_) fun _ _ _ => trivial
    rw [ensures_bind, Session.ensures_onWorld]
    show g.nodes.map SourceNode.source = _
    -- recording the calls changes nothing else, so the recorded walk returns the same graph
    have hmirror := mirrors_build ctx (fetcher ctx config.fetchTimeout) request.entryKey
      request.source none (Session.ofWorld w, [])
    rw [hbuild] at hmirror
    have hcalls := calls_ensures (fetcher ctx config.fetchTimeout)
      ⟨request.entryKey, request.source, none⟩ ctx (Session.ofWorld w)
    unfold walkCalls final
    cases hrecorded : build ctx (fetcher ctx config.fetchTimeout).recorded request.entryKey
        request.source none (Session.ofWorld w, []) with
    | ok g' t' =>
      rw [hrecorded] at hmirror
      obtain ⟨rfl, -⟩ := EStateM.Result.ok.inj hmirror
      exact (hcalls.of_ok hrecorded).2.2
    | error e t' =>
      rw [hrecorded] at hmirror
      cases hmirror
  exact hresolve.of_ok h

/-! ### Whole requests -/

/-- All effects of a request are effects of its stages. -/
theorem exists_does_of_run (owned : Bool) (config : Config τ) (payload : Json) (w : World τ) :
    ∃ entries, (run owned config payload w).2.trace = entries ++ w.trace
      ∧ ∀ x ∈ entries, ∃ S : Stage, S.Does config (deadlineAt config w.now) x := by
  have hstaged : ∀ {v : World τ} {entries : List (Stage × τ × Event τ)},
      Staged config w v entries → ∀ x ∈ (entries.map Prod.snd).reverse,
        ∃ S : Stage, S.Does config (deadlineAt config w.now) x := by
    intro v entries h x hx
    obtain ⟨y, hy, rfl⟩ := List.mem_map.mp (List.mem_reverse.mp hx)
    exact ⟨y.1, h.does y hy⟩
  have hlog : ∀ (now : τ) (record : Log.Record), ∃ S : Stage,
      S.Does config (deadlineAt config w.now) (now, .logged record) :=
    fun now record => ⟨.emitResult, .logged _ now record⟩
  -- a run that breaks down logs that, and does nothing else
  cases hw : w.breakdown with
  | some f =>
    have htrace : (run owned config payload w).2.trace
        = [(w.now, .logged ⟨Log.error, "solc_gateway.main", "unexpected failure while compiling",
          [], some f.lastLine⟩)] ++ w.trace := by
      unfold run
      rw [hw]
      rfl
    refine ⟨_, htrace, ?_⟩
    intro x hx
    rw [List.mem_singleton.mp hx]
    exact hlog _ _
  | none =>
    rcases failsAt_or_reached owned config payload w with ⟨S, e, v, h⟩ | ⟨reply, v, h⟩
    · -- a failure is logged after all that the stages did
      obtain ⟨-, entries, hentries, -⟩ := staged_of_failsAt h
      refine ⟨(v.now, .logged (failureRecord S e)) :: (entries.map Prod.snd).reverse, ?_, ?_⟩
      · rw [run_eq_of_error hw (stages_of_failsAt h), World.record, hentries.trace_eq]
        rfl
      · intro x hx
        rcases List.mem_cons.mp hx with rfl | hx
        · exact hlog _ _
        · exact hstaged hentries x hx
    · obtain ⟨-, -, entries, hentries, -⟩ := holds_of_reached h
      refine ⟨_, ?_, hstaged hentries⟩
      rw [run_eq_of_ok hw (stages_of_reached h), hentries.trace_eq]

theorem deadlineAt_eq {config : Config τ} (h : 0 < config.requestTimeout) (now : τ) :
    deadlineAt config now = some (now + config.requestTimeout) := by
  rw [deadlineAt, Context.ofConfig, if_pos h]
  rfl

/-- **The deadline of a request is kept**: by every effect, and by every piece of a text that comes
into the graph of its sources. -/
theorem deadline_kept [ExactSeconds τ] (owned : Bool) {config : Config τ} (payload : Json)
    (w : World τ) (hconfig : 0 < config.requestTimeout) :
    (∃ entries, (run owned config payload w).2.trace = entries ++ w.trace
        ∧ ∀ x ∈ entries, KeepsTo config (w.now + config.requestTimeout) x)
      ∧ ∀ request ctx u, parseRequest config payload w = .ok (request, ctx) u →
        (∀ call ∈ walkCalls config request ctx u, ∀ text, call.outcome = .ok text →
          ∃ pieces, Delivered ctx config.fetchTimeout call.url call.before.world pieces
            ∧ text = Utf8.decodeLenient (pieces.map Prod.snd).flatten
            ∧ ∀ piece ∈ pieces, piece.1 < w.now + config.requestTimeout)
        ∧ ∀ g v, resolveSources owned config request ctx u = .ok g v →
          g.nodes.map SourceNode.source = sourcesAfter ⟨request.entryKey, request.source, none⟩
            (walkCalls config request ctx u) := by
  constructor
  · obtain ⟨entries, htrace, hdoes⟩ := exists_does_of_run owned config payload w
    refine ⟨entries, htrace, ?_⟩
    intro x hx
    obtain ⟨S, hS⟩ := hdoes x hx
    rw [deadlineAt_eq hconfig] at hS
    exact keepsTo_of_does hS
  · intro request ctx u hparse
    -- the deadline was set when the request was parsed
    have hdeadline : ctx.deadline = some (w.now + config.requestTimeout) := by
      rw [context_of_parseRequest hparse]
      exact deadlineAt_eq hconfig w.now
    refine ⟨?_, fun g v hresolve => sources_of_resolveSources hresolve⟩
    intro call hcall text htext
    obtain ⟨pieces, hdelivered, hbytes, hin⟩ :=
      allInTime_walkCalls config request ctx u call hcall text htext
    refine ⟨pieces, hdelivered, hbytes, ?_⟩
    intro piece hpiece
    have hpiece' := hin piece hpiece
    rw [hdeadline] at hpiece'
    exact lt_of_inTime hpiece'

/-! ### A part of a body that comes at the deadline -/

def lateConfig : Config Int :=
  { (Config.builtin : Config Int) with fetchTimeout := 8, requestTimeout := 10 }

def latePayload : Json := .object [
  ("source", .string "import \"https://unpkg.com/a.sol\";"), ("filename", .string "e.sol")]

/-- The first text takes half of the time, and the second one comes when there is none left. -/
def lateWorld : World Int where
  now := 1000
  routes := [
    ("https://unpkg.com/a.sol", [⟨1, .ok ⟨200, some "OK", [], .parts [.wait 4,
      .bytes (Utf8.encodeLenient "import './b.sol';")]⟩⟩]),
    ("https://unpkg.com/b.sol", [⟨1, .ok ⟨200, some "OK", [], .parts [.wait 4,
      .bytes (Utf8.encodeLenient "contract B \x7b\x7d")]⟩⟩])]
  tools := .idle
  room := .usual
  breakdown := none
  trace := []

/-- The requests of a trace, first to last: when each began and how long it might take. -/
def requestTimes (w : World Int) : List (Int × Int) :=
  w.trace.reverse.filterMap fun
    | (now, .requested _ timeout) => some (now, timeout)
    | _ => none

/-- What a walk asked for, and whether it was given it. -/
def lateCalls : List (Text × Bool) :=
  match parseRequest lateConfig latePayload lateWorld with
  | .ok (request, ctx) u => (walkCalls lateConfig request ctx u).map fun call =>
      (call.url, call.outcome.toOption.isSome)
  | .error _ _ => []

/-- The request is over at 1010: the second import has less time than usual, and the part of its
text that comes right then is too late. -/
theorem late_part_refused : (0 : Int) < lateConfig.requestTimeout
    ∧ requestTimes (run true lateConfig latePayload lateWorld).2 = [(1000, 8), (1005, 5)]
    ∧ (∀ x ∈ (run true lateConfig latePayload lateWorld).2.trace, KeepsTo lateConfig 1010 x)
    ∧ ∃ request ctx u, parseRequest lateConfig latePayload lateWorld = .ok (request, ctx) u
      ∧ (walkCalls lateConfig request ctx u).map
          (fun call => (call.url, call.outcome.toOption.isSome))
        = ([("https://unpkg.com/a.sol", true), ("https://unpkg.com/b.sol", false)]
          : List (Text × Bool))
      ∧ ∀ call ∈ walkCalls lateConfig request ctx u, ∀ text, call.outcome = .ok text →
        ∃ pieces, Delivered ctx lateConfig.fetchTimeout call.url call.before.world pieces
          ∧ text = Utf8.decodeLenient (pieces.map Prod.snd).flatten
          ∧ ∀ piece ∈ pieces, piece.1 < (1010 : Int) := by
  have hpositive : (0 : Int) < lateConfig.requestTimeout := by decide
  obtain ⟨⟨entries, htrace, hkeeps⟩, hwalk⟩ :=
    deadline_kept true latePayload lateWorld hpositive
  refine ⟨hpositive, by decide +kernel, ?_, ?_⟩
  · intro x hx
    rw [htrace] at hx
    exact hkeeps x ((List.append_nil entries).subst hx)
  · have hcalls : lateCalls = ([("https://unpkg.com/a.sol", true),
        ("https://unpkg.com/b.sol", false)] : List (Text × Bool)) := by
      decide +kernel
    unfold lateCalls at hcalls
    cases hparse : parseRequest lateConfig latePayload lateWorld with
    | error e u =>
      rw [hparse] at hcalls
      cases hcalls
    | ok parsed u =>
      rw [hparse] at hcalls
      exact ⟨parsed.1, parsed.2, u, rfl, hcalls, (hwalk parsed.1 parsed.2 u hparse).1⟩

end Pipeline

end CompileGate
