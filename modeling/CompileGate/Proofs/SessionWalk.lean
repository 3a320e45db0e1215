/-
CompileGate/Proofs/SessionWalk.lean

The walk of a request: over the texts that its session fetches, with a log record
at the end, and in a session that is closed afterwards.

The rules here carry the two outcomes of a walk from `SourceGraph.build` to the
stage that resolves sources.  A graph that the stage returns is `Finished`.
-/
import CompileGate.Pipeline
import CompileGate.Proofs.WalkOutcome
import Mathlib.Algebra.Order.Ring.Int

namespace CompileGate

open SourceGraph Effect

variable {τ : Type}

/-- Time in whole seconds. -/
instance secondsOfInt : Seconds Int where
  decLe := inferInstance
  decLt := inferInstance
  ofSetting x := x.toInt?.getD 0
  general x := Decimal.general (Binary64.ofInt x)

theorem Session.ensures_onWorld {α : Type} {m : Effect τ (World τ) α} {s : Session τ}
    {done : α → Session τ → Prop} {failed : Failure τ → Session τ → Prop} :
    Ensures (Session.onWorld m) s done failed
      ↔ Ensures m s.world (fun a w => done a { s with world := w })
        fun e w => failed e { s with world := w } := by
  simp only [Ensures, Session.onWorld]
  cases m s.world with
  | ok a w => exact Iff.rfl
  | error e w => exact Iff.rfl

namespace Pipeline

theorem ensures_inSession {α : Type} {owned : Bool} {m : Effect τ (Session τ) α} {w : World τ}
    {done : α → World τ → Prop} {failed : Failure τ → World τ → Prop} :
    Ensures (inSession owned m) w done failed
      ↔ Ensures m (Session.ofWorld w)
        (fun a s => done a (if owned then s.world.record .closedSession else s.world))
        fun e s => failed e (if owned then s.world.record .closedSession else s.world) := by
  simp only [Ensures, inSession]
  cases m (Session.ofWorld w) with
  | ok a s => exact Iff.rfl
  | error e s => exact Iff.rfl

variable [Seconds τ] {ctx : Context τ} {fetchTimeout : τ}

/-- The record of a finished walk. -/
def graphRecord (key : Text) (g : SourceGraph) : Log.Record :=
  ⟨Log.info, "solc_gateway.sources", "import graph resolved",
    [("entry", .string key), ("files", .int g.nodes.length), ("total_bytes", .int g.totalBytes),
      ("fetches", .int g.fetches)], none⟩

/-- Both outcomes of a walk over the texts of a session. -/
theorem buildGraph_ensures {entry : Source} {J : List Source → Session τ → Prop}
    {F : List Source → Text → Failure τ → Session τ → Prop}
    (hkeeps : (fetcher ctx fetchTimeout).Keeps entry ctx J F) {s : Session τ} (hj : J [entry] s) :
    Ensures (buildGraph ctx fetchTimeout entry.key entry.content entry.base) s
      (fun g t => Finished entry ctx g ∧ ∃ u, J (g.nodes.map SourceNode.source) u
        ∧ t = { u with world := u.world.record (.logged (graphRecord entry.key g)) })
      (Stopped entry ctx (fetcher ctx fetchTimeout) J F) := by
  rw [buildGraph, ensures_bind]
  refine (build_ensures hkeeps hj).mono ?_ fun _ _ h => h
  rintro g u ⟨hfin, hu⟩
  rw [ensures_bind, Session.ensures_onWorld]
  exact ⟨hfin, u, hu, rfl⟩

theorem finished_of_resolveSources {owned : Bool} {config : Config τ} {request : Request}
    {w v : World τ} {g : SourceGraph} (h : resolveSources owned config request ctx w = .ok g v) :
    Finished ⟨request.entryKey, request.source, none⟩ ctx g := by
  have hwalk := buildGraph_ensures (s := Session.ofWorld w)
    (Fetcher.keeps_true (fetcher ctx config.fetchTimeout)
      ⟨request.entryKey, request.source, none⟩ ctx) trivial
  have hsession : Ensures (resolveSources owned config request ctx) w
      (fun g _ => Finished ⟨request.entryKey, request.source, none⟩ ctx g) fun _ _ => True := by
    rw [resolveSources, ensures_inSession]
    exact hwalk.mono (fun _ _ h => h.1) fun _ _ _ => trivial
  exact hsession.of_ok h

/-- Parsing changes nothing, and the policy of a request is that of the settings, with the versions
that the request pins. -/
theorem parseRequest_ensures (config : Config τ) (payload : Json) (w : World τ) :
    Ensures (parseRequest config payload) w
      (fun parsed v => v = w ∧ Request.read (τ := τ) payload = .ok parsed.1
        ∧ parsed.2 = Context.ofConfig config parsed.1.packageVersions w.now)
      fun _ v => v = w := by
  rw [parseRequest, ensures_bind]
  show Ensures (World.lift (Request.readWithContext config w.now payload)) w _ _
  rw [ensures_lift]
  refine ⟨?_, fun _ _ => rfl⟩
  intro parsed hparsed
  unfold Request.readWithContext at hparsed
  cases hread : Request.read (τ := τ) payload with
  | error e =>
    rw [hread] at hparsed
    cases hparsed
  | ok request =>
    rw [hread] at hparsed
    obtain rfl := Except.ok.inj hparsed
    exact ⟨rfl, rfl, rfl⟩

theorem context_of_parseRequest {config : Config τ} {payload : Json} {w v : World τ}
    {request : Request} (h : parseRequest config payload w = .ok (request, ctx) v) :
    ctx = Context.ofConfig config request.packageVersions w.now :=
  ((parseRequest_ensures config payload w).of_ok h).2.2

end Pipeline

end CompileGate
