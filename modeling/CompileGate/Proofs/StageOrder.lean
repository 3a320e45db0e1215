/-
CompileGate/Proofs/StageOrder.lean

A request goes through the stages in order and ends at the first one that fails.

`Progress` is how far a request has come, with what the stages so far have given,
and `Progress.next?` is the stage to come.  `Reached` and `FailsAt` say where the
stages lead, one step at a time; running them is the same (`stages_of_reached`,
`stages_of_failsAt`).

A step only adds effects of its own stage, so the trace of a request is divided
into parts, one for each stage that was begun, in the order of the stages
(`Staged`).  What the stages give is tied together along the way
(`Progress.Known`): the compiler is given the sources that the reply lists, and
it is started once.

Main result: `run_all_or_nothing`.
-/
import CompileGate.Proofs.StageEffects

namespace CompileGate

open Effect

variable {τ : Type}

/-- The place of a stage among the stages. -/
def Stage.position (S : Stage) : Nat := S.ctorIdx

instance leOfStage : LE Stage := ⟨fun S T => S.position ≤ T.position⟩

instance ltOfStage : LT Stage := ⟨fun S T => S.position < T.position⟩

/-- Whether an effect installs or runs a compiler. -/
def Event.UsesCompiler : Event τ → Prop
  | .installed _ | .askedVersion _ | .compiled .. => True
  | _ => False

/-- Whether an effect gives a document to a compiler. -/
def Event.IsCompilation : Event τ → Prop
  | .compiled .. => True
  | _ => False

namespace Pipeline

/-! ### From stage to stage -/

/-- How far a request has come. -/
inductive Progress (τ : Type)
  | received
  | parsed (request : Request) (ctx : Context τ)
  | resolved (request : Request) (ctx : Context τ) (g : SourceGraph)
  | rewritten (request : Request) (ctx : Context τ) (sources : Table Text)
  | built (request : Request) (ctx : Context τ) (sources : Table Text) (document : Json)
  | loaded (request : Request) (ctx : Context τ) (sources : Table Text) (document : Json)
      (compiler : Compiler.Installed)
  | compiled (request : Request) (sources : Table Text) (compiler : Compiler.Installed)
      (report : Table Json)
  | replied (reply : Table Json)

/-- The number of stages that have succeeded. -/
def Progress.done : Progress τ → Nat
  | .received => 0
  | .parsed .. => 1
  | .resolved .. => 2
  | .rewritten .. => 3
  | .built .. => 4
  | .loaded .. => 5
  | .compiled .. => 6
  | .replied .. => 7

variable [Seconds τ]

section Machine

variable (owned : Bool) (config : Config τ) (payload : Json)

/-- The stage to come, unless the request is answered. -/
def Progress.next? : Progress τ → Option (Stage × Effect τ (World τ) (Progress τ))
  | .received => some (.parseRequest, do
      let parsed ← parseRequest config payload
      return .parsed parsed.1 parsed.2)
  | .parsed request ctx => some (.resolveSources, do
      return .resolved request ctx (← resolveSources owned config request ctx))
  | .resolved request ctx g => some (.rewriteImports, do
      return .rewritten request ctx (← rewriteImports g))
  | .rewritten request ctx sources => some (.buildInput, do
      return .built request ctx sources (← buildInput sources request))
  | .built request ctx sources document => some (.loadCompiler, do
      return .loaded request ctx sources document (← loadCompiler config request ctx))
  | .loaded request ctx sources document compiler => some (.compile, do
      return .compiled request sources compiler (← compile compiler document ctx))
  | .compiled request sources compiler report => some (.emitResult, do
      return .replied (← emitResult request sources compiler report))
  | .replied _ => none

/-- Some stages have succeeded, one after the other, since the world `w`. -/
inductive Reached (w : World τ) : Progress τ → World τ → Prop
  | start : Reached w .received w
  | step {p S stage u p' v} : Reached w p u → p.next? owned config payload = some (S, stage) →
      stage u = .ok p' v → Reached w p' v

/-- The stages before `S` succeed, and `S` fails. -/
def FailsAt (w : World τ) (S : Stage) (e : Failure τ) (v : World τ) : Prop :=
  ∃ p u stage, Reached owned config payload w p u
    ∧ p.next? owned config payload = some (S, stage) ∧ stage u = .error e v

/-- The stages that are left. -/
def Progress.remaining : Progress τ → EStateM (StageFailure τ) (World τ) (Table Json)
  | .received => do
    let (request, ctx) ← inStage .parseRequest (parseRequest config payload)
    remaining (.parsed request ctx)
  | .parsed request ctx => do
    let g ← inStage .resolveSources (resolveSources owned config request ctx)
    remaining (.resolved request ctx g)
  | .resolved request ctx g => do
    let sources ← inStage .rewriteImports (rewriteImports g)
    remaining (.rewritten request ctx sources)
  | .rewritten request ctx sources => do
    let document ← inStage .buildInput (buildInput sources request)
    remaining (.built request ctx sources document)
  | .built request ctx sources document => do
    let compiler ← inStage .loadCompiler (loadCompiler config request ctx)
    remaining (.loaded request ctx sources document compiler)
  | .loaded request ctx sources document compiler => do
    let report ← inStage .compile (compile compiler document ctx)
    remaining (.compiled request sources compiler report)
  | .compiled request sources compiler report => do
    let reply ← inStage .emitResult (emitResult request sources compiler report)
    remaining (.replied reply)
  | .replied reply => return reply
termination_by p => 7 - p.done
decreasing_by all_goals exact Nat.lt_succ_self _

theorem remaining_received :
    Progress.received.remaining owned config payload = stages owned config payload := by
  simp only [Progress.remaining, stages, bind_pure]

/-- What is left is the stage to come and what is left after it. -/
theorem remaining_of_next {p : Progress τ} {S : Stage} {stage : Effect τ (World τ) (Progress τ)}
    (h : p.next? owned config payload = some (S, stage)) :
    p.remaining owned config payload
      = inStage S stage >>= Progress.remaining owned config payload := by
  -- a stage and the progress that it makes are one stage
  have hstage : ∀ {α : Type} (S : Stage) (m : Effect τ (World τ) α) (f : α → Progress τ),
      (inStage S m >>= fun a => (f a).remaining owned config payload)
        = inStage S (m >>= fun a => pure (f a)) >>= Progress.remaining owned config payload := by
    intro α S m f
    funext w
    simp only [bind, EStateM.bind, inStage]
    cases m w with
    | ok a v => rfl
    | error e v => rfl
  cases p with
  | replied reply => cases h
  | received =>
    obtain ⟨⟩ := h
    rw [Progress.remaining]
    exact hstage _ _ fun parsed : Request × Context τ => .parsed parsed.1 parsed.2
  | parsed => obtain ⟨⟩ := h; rw [Progress.remaining]; exact hstage _ _ _
  | resolved => obtain ⟨⟩ := h; rw [Progress.remaining]; exact hstage _ _ _
  | rewritten => obtain ⟨⟩ := h; rw [Progress.remaining]; exact hstage _ _ _
  | built => obtain ⟨⟩ := h; rw [Progress.remaining]; exact hstage _ _ _
  | loaded => obtain ⟨⟩ := h; rw [Progress.remaining]; exact hstage _ _ _
  | compiled => obtain ⟨⟩ := h; rw [Progress.remaining]; exact hstage _ _ _

variable {owned config payload} {w : World τ}

theorem stages_eq_of_reached {p : Progress τ} {u : World τ}
    (h : Reached owned config payload w p u) :
    stages owned config payload w = p.remaining owned config payload u := by
  induction h with
  | start => rw [remaining_received]
  | @step p S stage u p' v _ hnext hstage ih =>
    -- the stage that was taken is the next one of those that are left
    have hrun : inStage S stage u = .ok p' v := by
      rw [inStage, hstage]
    rw [ih, remaining_of_next owned config payload hnext]
    simp only [bind, EStateM.bind, hrun]

theorem stages_of_reached {reply : Table Json} {v : World τ}
    (h : Reached owned config payload w (.replied reply) v) :
    stages owned config payload w = .ok reply v := by
  rw [stages_eq_of_reached h, Progress.remaining]
  rfl

theorem stages_of_failsAt {S : Stage} {e : Failure τ} {v : World τ}
    (h : FailsAt owned config payload w S e v) :
    stages owned config payload w = .error ⟨S, e⟩ v := by
  obtain ⟨p, u, stage, hreached, hnext, hstage⟩ := h
  have hrun : inStage S stage u = .error ⟨S, e⟩ v := by
    rw [inStage, hstage]
  rw [stages_eq_of_reached hreached, remaining_of_next owned config payload hnext]
  simp only [bind, EStateM.bind, hrun]

end Machine

/-! ### The trace in parts -/

/-- The effects between the worlds `w` and `v`, each with its stage, in the order of the stages. -/
structure Staged (config : Config τ) (w v : World τ) (entries : List (Stage × τ × Event τ)) :
    Prop where
  trace_eq : v.trace = (entries.map Prod.snd).reverse ++ w.trace
  sorted : entries.Pairwise fun x y => x.1 ≤ y.1
  does : ∀ x ∈ entries, x.1.Does config (deadlineAt config w.now) x.2

section Staged

variable {config : Config τ} {w u v : World τ} {entries : List (Stage × τ × Event τ)}

theorem Staged.refl : Staged config w w [] := ⟨rfl, .nil, by simp⟩

/-- What a stage adds comes after what the stages before it have added. -/
theorem Staged.extend {S : Stage} (h : Staged config w u entries)
    (hbefore : ∀ x ∈ entries, x.1 ≤ S)
    (hv : u.Extends (S.Does config (deadlineAt config w.now)) v) :
    ∃ added, Staged config w v (entries ++ added) ∧ ∀ x ∈ added, x.1 = S := by
  -- a trace has its last entry first, and the parts are in order
  obtain ⟨new, htrace, hdoes⟩ := hv.trace_eq
  have hadded : ∀ x ∈ new.reverse.map fun y => (S, y), x.1 = S ∧ x.2 ∈ new := by
    intro x hx
    obtain ⟨y, hy, rfl⟩ := List.mem_map.mp hx
    exact ⟨rfl, List.mem_reverse.mp hy⟩
  refine ⟨new.reverse.map fun y => (S, y), ⟨?_, ?_, ?_⟩, fun x hx => (hadded x hx).1⟩
  · rw [htrace, h.trace_eq]
    simp [Function.comp_def]
  · rw [List.pairwise_append]
    refine ⟨h.sorted, ?_, ?_⟩
    · rw [List.pairwise_map]
      exact List.pairwise_of_forall fun _ _ => Nat.le_refl _
    · intro x hx y hy
      rw [(hadded y hy).1]
      exact hbefore x hx
  · intro x hx
    rcases List.mem_append.mp hx with hx | hx
    · exact h.does x hx
    · rw [(hadded x hx).1]
      exact hdoes x.2 (hadded x hx).2

/-- Compilers are used by the last stages only. -/
theorem loadCompiler_le_of_usesCompiler {deadline : Option τ} {S : Stage} {x : τ × Event τ}
    (h : S.Does config deadline x) (hx : x.2.UsesCompiler) : Stage.loadCompiler ≤ S := by
  cases h with
  | logged => exact hx.elim
  | requestedImport => exact hx.elim
  | closedSession => exact hx.elim
  | requestedIndex => exact hx.elim
  | installed => exact Nat.le_refl _
  | askedVersion => exact Nat.le_refl _
  | compiled => exact Nat.le_succ _

theorem compile_eq_of_isCompilation {deadline : Option τ} {S : Stage} {x : τ × Event τ}
    (h : S.Does config deadline x) (hx : x.2.IsCompilation) : S = .compile := by
  cases h with
  | compiled => rfl
  | logged => exact hx.elim
  | requestedImport => exact hx.elim
  | closedSession => exact hx.elim
  | requestedIndex => exact hx.elim
  | installed => exact hx.elim
  | askedVersion => exact hx.elim

end Staged

/-! ### What the stages give -/

/-- Between the worlds `w` and `v` one document was given to a compiler, and nothing came after. -/
def CompilesOnce (w v : World τ) (document : Table Json) : Prop :=
  ∃ before now binary timeout,
    v.trace = (now, .compiled (binary ++ " --standard-json")
      (Json.print .spaced (.object document)) timeout) :: (before ++ w.trace)
    ∧ ∀ x ∈ before, ¬ x.2.IsCompilation

/-- The request is the one of the payload, and it has the policy of the settings. -/
structure IsAsked (config : Config τ) (payload : Json) (w : World τ) (request : Request)
    (ctx : Context τ) : Prop where
  read : Request.read (τ := τ) payload = .ok request
  policy : ctx = Context.ofConfig config request.packageVersions w.now

/-- The sources of a request: the entry first, and each once. -/
structure AreNamed (request : Request) (sources : Table Text) : Prop where
  entry : ∃ rest, sources.names = request.entryKey :: rest
  nodup : sources.names.Nodup

/-- The sources of a request are compiled, and this is the report. -/
structure IsCompiled (payload : Json) (w : World τ) (request : Request) (sources : Table Text)
    (report : Table Json) (v : World τ) : Prop where
  read : Request.read (τ := τ) payload = .ok request
  named : AreNamed request sources
  report : Json.read w.tools.compile.stdout = .ok (.object report)
  once : CompilesOnce w v (Compiler.document sources request.settings)

/-- What is known of what the stages have given since the world `w`. -/
def Progress.Known (config : Config τ) (payload : Json) (w : World τ) :
    Progress τ → World τ → Prop
  | .received, u => u = w
  | .parsed request ctx, _ => IsAsked config payload w request ctx
  | .resolved request ctx g, _ => IsAsked config payload w request ctx
      ∧ SourceGraph.Finished ⟨request.entryKey, request.source, none⟩ ctx g
  | .rewritten request ctx sources, _ =>
      IsAsked config payload w request ctx ∧ AreNamed request sources
  | .built request ctx sources document, _ | .loaded request ctx sources document _, _ =>
      IsAsked config payload w request ctx ∧ AreNamed request sources
      ∧ document = .object (Compiler.document sources request.settings)
  | .compiled request sources _ report, u => IsCompiled payload w request sources report u
  | .replied reply, u => ∃ request sources compiler report summary,
      IsCompiled payload w request sources report u ∧ Compiler.summarize report = .ok summary
      ∧ reply = result request sources compiler summary

/-- What is known of a request that has come so far. -/
structure Progress.Holds (config : Config τ) (payload : Json) (w : World τ) (p : Progress τ)
    (u : World τ) : Prop where
  known : p.Known config payload w u
  tools_eq : u.tools = w.tools
  staged : ∃ entries, Staged config w u entries ∧ ∀ x ∈ entries, x.1.position < p.done

section Steps

variable {owned : Bool} {config : Config τ} {payload : Json} {w u v : World τ}

omit [Seconds τ] in
theorem areNamed_rewritten {request : Request} {ctx : Context τ} {g : SourceGraph}
    (h : SourceGraph.Finished ⟨request.entryKey, request.source, none⟩ ctx g) :
    AreNamed request g.rewritten := by
  have hnames : Table.names g.rewritten = (g.nodes.map SourceNode.source).map Source.key := by
    simp [Table.names, SourceGraph.rewritten]
  -- rewriting keeps the nodes, of which the entry is the first
  obtain ⟨rest, hrest⟩ := h.discovered.exists_eq_cons
  refine ⟨⟨rest.map Source.key, ?_⟩, ?_⟩
  · rw [hnames, hrest]
    rfl
  · rw [hnames]
    exact h.discovered.nodup_keys

theorem position_of_next {p : Progress τ} {S : Stage} {stage : Effect τ (World τ) (Progress τ)}
    (h : p.next? owned config payload = some (S, stage)) : S.position = p.done := by
  cases p with
  | replied reply => cases h
  | received => obtain ⟨⟩ := h; rfl
  | parsed => obtain ⟨⟩ := h; rfl
  | resolved => obtain ⟨⟩ := h; rfl
  | rewritten => obtain ⟨⟩ := h; rfl
  | built => obtain ⟨⟩ := h; rfl
  | loaded => obtain ⟨⟩ := h; rfl
  | compiled => obtain ⟨⟩ := h; rfl

/-- A stage has its own effects only, and what it gives fits what the stages before it gave. -/
theorem Progress.Holds.stage_ensures {p : Progress τ} {S : Stage}
    {stage : Effect τ (World τ) (Progress τ)} (h : p.Holds config payload w u)
    (hnext : p.next? owned config payload = some (S, stage)) :
    Ensures stage u
      (fun p' v => p'.done = p.done + 1 ∧ p'.Known config payload w v
        ∧ u.Extends (S.Does config (deadlineAt config w.now)) v)
      fun _ v => u.Extends (S.Does config (deadlineAt config w.now)) v
        ∧ (S = .parseRequest → v = w) := by
  obtain ⟨hknown, htools, entries, hstaged, hbefore⟩ := h
  -- one case for each stage: the specification of the stage, and what was known before it
  cases p with
  | replied reply => cases hnext
  | received =>
    obtain ⟨⟩ := hnext
    obtain rfl : u = w := hknown
    rw [ensures_bind]
    refine (parseRequest_ensures config payload u).mono ?_ ?_
    · rintro parsed _ ⟨rfl, hread, hpolicy⟩
      exact ⟨rfl, ⟨hread, hpolicy⟩, .refl⟩
    · rintro _ _ rfl
      exact ⟨.refl, fun _ => rfl⟩
  | parsed request ctx =>
    obtain ⟨⟩ := hnext
    have hask : IsAsked config payload w request ctx := hknown
    obtain rfl := hask.policy
    rw [ensures_bind]
    refine (resolveSources_ensures owned config request _ u).mono ?_ ?_
    · rintro g v ⟨hv, hfinished⟩
      exact ⟨rfl, ⟨hask, hfinished⟩, hv⟩
    · exact fun _ v hv => ⟨hv, nofun⟩
  | resolved request ctx g =>
    obtain ⟨⟩ := hnext
    obtain ⟨hask, hfinished⟩ := hknown
    exact ⟨rfl, ⟨hask, areNamed_rewritten hfinished⟩, .refl⟩
  | rewritten request ctx sources =>
    obtain ⟨⟩ := hnext
    obtain ⟨hask, hnamed⟩ := hknown
    rw [ensures_bind]
    refine (buildInput_ensures config (deadlineAt config w.now) sources request u).mono ?_ ?_
    · rintro document v ⟨hv, hdocument⟩
      exact ⟨rfl, ⟨hask, hnamed, hdocument⟩, hv⟩
    · rintro _ _ rfl
      exact ⟨.refl, nofun⟩
  | built request ctx sources document =>
    obtain ⟨⟩ := hnext
    obtain ⟨hask, hnamed, hdocument⟩ := hknown
    obtain rfl := hask.policy
    rw [ensures_bind]
    refine (Compiler.emits_load request.compilerVersion u).mono ?_ ?_
    · exact fun compiler v hv => ⟨rfl, ⟨hask, hnamed, hdocument⟩, hv⟩
    · exact fun _ v hv => ⟨hv, nofun⟩
  | loaded request ctx sources document compiler =>
    obtain ⟨⟩ := hnext
    obtain ⟨hask, hnamed, rfl⟩ := hknown
    obtain rfl := hask.policy
    rw [ensures_bind]
    refine (compile_ensures config compiler _ _ u).mono ?_ ?_
    · rintro report v ⟨hin, hreport, hvtools, hvroom, hvtrace⟩
      rw [htools] at hreport
      -- no document was given before, since the stages before give none
      have hquiet : ∀ x ∈ (entries.map Prod.snd).reverse, ¬ x.2.IsCompilation := by
        intro x hx hcompilation
        obtain ⟨y, hy, rfl⟩ := List.mem_map.mp (List.mem_reverse.mp hx)
        have hlast := hbefore y hy
        rw [compile_eq_of_isCompilation (hstaged.does y hy) hcompilation] at hlast
        exact Nat.lt_irrefl _ hlast
      have hcompiled : u.Extends (Stage.Does config (deadlineAt config w.now) .compile) v := by
        refine ⟨hvtools, hvroom, [_], hvtrace, ?_⟩
        intro x hx
        rw [List.mem_singleton.mp hx]
        exact .compiled _ _ hin
      rw [hstaged.trace_eq] at hvtrace
      exact ⟨rfl, ⟨hask.read, hnamed, hreport, _, u.now, compiler.binary, _, hvtrace, hquiet⟩,
        hcompiled⟩
    · exact fun _ v hv => ⟨hv, nofun⟩
  | compiled request sources compiler report =>
    obtain ⟨⟩ := hnext
    rw [ensures_bind]
    refine (emitResult_ensures request sources compiler report u).mono ?_ ?_
    · rintro reply _ ⟨rfl, summary, hsummary, hreply⟩
      exact ⟨rfl, ⟨request, sources, compiler, report, summary, hknown, hsummary, hreply⟩, .refl⟩
    · rintro _ _ rfl
      exact ⟨.refl, nofun⟩

theorem Progress.Holds.start : Progress.Holds config payload w .received w :=
  ⟨rfl, rfl, [], .refl, by simp⟩

theorem Progress.Holds.step {p p' : Progress τ} {S : Stage}
    {stage : Effect τ (World τ) (Progress τ)} (h : p.Holds config payload w u)
    (hnext : p.next? owned config payload = some (S, stage)) (hstage : stage u = .ok p' v) :
    p'.Holds config payload w v := by
  obtain ⟨hdone, hknown, hv⟩ := (h.stage_ensures hnext).of_ok hstage
  obtain ⟨entries, hstaged, hbefore⟩ := h.staged
  -- the parts so far are of earlier stages, so those of this one come last
  have hposition := position_of_next hnext
  obtain ⟨added, hstaged', hadded⟩ := hstaged.extend (S := S)
    (fun x hx => (hbefore x hx).le.trans hposition.ge) hv
  refine ⟨hknown, hv.tools_eq.trans h.tools_eq, _, hstaged', ?_⟩
  intro x hx
  rcases List.mem_append.mp hx with hx | hx
  · have := hbefore x hx
    omega
  · rw [hadded x hx]
    omega

theorem holds_of_reached {p : Progress τ} (h : Reached owned config payload w p u) :
    p.Holds config payload w u := by
  induction h with
  | start => exact .start
  | step _ hnext hstage ih => exact ih.step hnext hstage

/-- A request comes to a stage that fails, or to its reply. -/
theorem failsAt_or_reached (owned : Bool) (config : Config τ) (payload : Json) (w : World τ) :
    (∃ S e v, FailsAt owned config payload w S e v)
      ∨ ∃ reply v, Reached owned config payload w (.replied reply) v := by
  have hrun : ∀ n {p : Progress τ} {u}, Reached owned config payload w p u → p.done + n = 7 →
      (∃ S e v, FailsAt owned config payload w S e v)
        ∨ ∃ reply v, Reached owned config payload w (.replied reply) v := by
    -- along the stages that are left
    intro n
    induction n with
    | zero =>
      intro p u h hn
      cases p with
      | replied reply => exact .inr ⟨reply, u, h⟩
      | _ => cases hn
    | succ n ih =>
      intro p u h hn
      cases hnext : p.next? owned config payload with
      | none =>
        cases p with
        | replied reply =>
          have hlt : Progress.done (.replied reply : Progress τ) < 7 := by omega
          exact absurd hlt (Nat.lt_irrefl 7)
        | _ => cases hnext
      | some next =>
        obtain ⟨S, stage⟩ := next
        cases hstage : stage u with
        | ok p' v =>
          -- a stage that succeeds leaves one fewer
          have hdone := (((holds_of_reached h).stage_ensures hnext).of_ok hstage).1
          exact ih (h.step hnext hstage) (by omega)
        | error e v => exact .inl ⟨S, e, v, p, u, stage, h, hnext, hstage⟩
  exact hrun 7 .start rfl

/-- The trace of a request that has failed. -/
theorem staged_of_failsAt {S : Stage} {e : Failure τ}
    (h : FailsAt owned config payload w S e v) :
    (S = .parseRequest → v = w)
      ∧ ∃ entries, Staged config w v entries ∧ ∀ x ∈ entries, x.1 ≤ S := by
  obtain ⟨p, u, stage, hreached, hnext, hstage⟩ := h
  have hholds := holds_of_reached hreached
  -- the failing stage adds the last part
  obtain ⟨hv, hparse⟩ := (hholds.stage_ensures hnext).of_error hstage
  obtain ⟨entries, hstaged, hbefore⟩ := hholds.staged
  have hposition := position_of_next hnext
  have hle : ∀ x ∈ entries, x.1 ≤ S := fun x hx => (hbefore x hx).le.trans hposition.ge
  obtain ⟨added, hstaged', hadded⟩ := hstaged.extend hle hv
  refine ⟨hparse, _, hstaged', ?_⟩
  intro x hx
  rcases List.mem_append.mp hx with hx | hx
  · exact hle x hx
  · rw [hadded x hx]
    exact Nat.le_refl _

end Steps

/-! ### What the reply says -/

/-- A report has an entry of the highest severity among its errors. -/
def ReportsError (report : Table Json) : Prop :=
  ∃ items entry, Table.get? "errors" report = some (.array items) ∧ .object entry ∈ items
    ∧ Table.get? "severity" entry = some (.string "error")

theorem getD_null_eq_iff {o : Option Json} {x : Json} (hx : x ≠ .null) :
    o.getD .null = x ↔ o = some x := by
  cases o with
  | none => exact ⟨fun h => absurd h.symm hx, nofun⟩
  | some y => exact ⟨fun h => congrArg some h, Option.some.inj⟩

/-- Only the entries of an array can be objects. -/
theorem object_mem_entries_iff {value : Json} {errors : List Json} {entry : Table Json}
    (h : Compiler.entries value = .ok errors) :
    .object entry ∈ errors ↔ ∃ items, value = .array items ∧ .object entry ∈ items := by
  unfold Compiler.entries at h
  split at h
  · rename_i items
    obtain rfl := Except.ok.inj h
    simp
  · obtain rfl := Except.ok.inj h
    simp
  · obtain rfl := Except.ok.inj h
    simp
  · -- any other value has no entries, or is refused
    rename_i harray _ _
    split at h
    · obtain rfl := Except.ok.inj h
      simp only [List.not_mem_nil, false_iff]
      rintro ⟨items, rfl, -⟩
      exact harray items rfl
    · cases h

/-- An entry makes a remark that is an error if it is an object that says so. -/
theorem isError_of_entry_iff {x : Json} :
    (∃ d, Compiler.Diagnostic.ofEntry? x = some d ∧ d.isError = true)
      ↔ ∃ entry, x = .object entry ∧ Table.get? "severity" entry = some (.string "error") := by
  have htext : ∀ (value : Json) (t : Text), value.text? = some t ↔ value = .string t := by
    intro value t
    cases value <;> simp [Json.text?]
  -- a member that is missing counts as null, which is no severity
  have herror : ∀ entry, (∃ d, Compiler.Diagnostic.ofEntry? (.object entry) = some d
      ∧ d.isError = true) ↔ Table.get? "severity" entry = some (.string "error") := by
    intro entry
    rw [← getD_null_eq_iff (x := .string "error") nofun, ← htext]
    constructor
    · rintro ⟨d, hd, herror⟩
      obtain rfl := Option.some.inj hd
      exact of_decide_eq_true herror
    · intro hseverity
      exact ⟨_, rfl, decide_eq_true hseverity⟩
  constructor
  · rintro ⟨d, hd, hd'⟩
    cases x with
    | object entry => exact ⟨entry, rfl, (herror entry).mp ⟨d, hd, hd'⟩⟩
    | _ => cases hd
  · rintro ⟨entry, rfl, hseverity⟩
    exact (herror entry).mpr hseverity

theorem hasError_iff {report : Table Json} {summary : Compiler.Summary}
    (h : Compiler.summarize report = .ok summary) :
    summary.hasError = true ↔ ReportsError report := by
  unfold Compiler.summarize at h
  cases herrors : Compiler.entries ((Table.get? "errors" report).getD .null) with
  | error m =>
    rw [herrors] at h
    cases h
  | ok errors =>
    -- the report is summarized when the errors, the contracts and the artifacts can be read
    have hsummary : summary.hasError
        = (errors.filterMap Compiler.Diagnostic.ofEntry?).any Compiler.Diagnostic.isError := by
      rw [herrors] at h
      simp only [bind, Except.bind] at h
      split at h
      · cases h
      · split at h
        · cases h
        · obtain rfl := Except.ok.inj h
          rfl
    rw [hsummary, List.any_eq_true]
    constructor
    · rintro ⟨d, hd, herror⟩
      obtain ⟨x, hx, hentry⟩ := List.mem_filterMap.mp hd
      obtain ⟨entry, rfl, hseverity⟩ := isError_of_entry_iff.mp ⟨d, hentry, herror⟩
      obtain ⟨items, hvalue, hitem⟩ := (object_mem_entries_iff herrors).mp hx
      exact ⟨items, entry, (getD_null_eq_iff (x := .array items) nofun).mp hvalue, hitem, hseverity⟩
    · rintro ⟨items, entry, hget, hitem, hseverity⟩
      obtain ⟨d, hentry, herror⟩ := isError_of_entry_iff.mpr ⟨entry, rfl, hseverity⟩
      have hvalue := (getD_null_eq_iff (x := .array items) nofun).mpr hget
      have hx := (object_mem_entries_iff herrors).mpr ⟨items, hvalue, hitem⟩
      exact ⟨d, List.mem_filterMap.mpr ⟨_, hx, hentry⟩, herror⟩

section Reply

variable {request : Request} {sources : Table Text} {compiler : Compiler.Installed}
variable {summary : Compiler.Summary}

/-- All members of a reply but the artifacts are always there. -/
theorem get?_result {name : Text} (hname : name ≠ "artifacts") :
    Table.get? name (result request sources compiler summary)
      = Table.get? name [
        ("success", .bool !summary.hasError),
        ("compiler", .object [("version", .string compiler.version)]),
        ("filename", .string request.entryKey),
        ("files", .array (sources.names.map .string)),
        ("diagnostics", .array (summary.diagnostics.map Compiler.Diagnostic.toJson))] := by
  unfold result
  dsimp only
  split
  · rw [Table.get?_insert, if_neg hname]
  · rfl

theorem has_artifacts_result :
    Table.has "artifacts" (result request sources compiler summary)
      = (!summary.hasError && request.returnArtifacts) := by
  unfold result Table.has
  dsimp only
  split
  · rename_i h
    rw [Table.get?_insert_self, h]
    rfl
  · rename_i h
    rw [Bool.not_eq_true] at h
    rw [h]
    rfl

end Reply

/-! ### Whole requests -/

/-- The record of a request that has failed. -/
def failureRecord (S : Stage) (e : Failure τ) : Log.Record :=
  ⟨Log.warning, "solc_gateway.main", "compile request failed",
    [("stage", .string S.name), ("error_kind", .string e.kind), ("error", .string e.message)],
    none⟩

theorem run_eq_of_error {owned : Bool} {config : Config τ} {payload : Json} {w v : World τ}
    {S : Stage} {e : Failure τ} (hw : w.breakdown = none)
    (h : stages owned config payload w = .error ⟨S, e⟩ v) :
    run owned config payload w
      = (([("success", .bool false), ("error", .string e.text), ("stage", .string S.name),
          ("errorKind", .string e.kind)] : Table Json),
        v.record (.logged (failureRecord S e))) := by
  unfold run
  rw [hw]
  dsimp only
  rw [h]
  rfl

theorem run_eq_of_ok {owned : Bool} {config : Config τ} {payload : Json} {w v : World τ}
    {reply : Table Json} (hw : w.breakdown = none)
    (h : stages owned config payload w = .ok reply v) :
    run owned config payload w = (reply, v) := by
  unfold run
  rw [hw]
  dsimp only
  rw [h]

/-- **A request fails at its first failing stage, and nothing of a later stage has happened; or it
is answered, and its sources were compiled once.** -/
theorem run_all_or_nothing (owned : Bool) (config : Config τ) (payload : Json) {w : World τ}
    (hw : w.breakdown = none) :
    (∀ S e v, FailsAt owned config payload w S e v →
        run owned config payload w
          = (([("success", .bool false), ("error", .string e.text), ("stage", .string S.name),
              ("errorKind", .string e.kind)] : Table Json),
            v.record (.logged (failureRecord S e)))
        ∧ (S = .parseRequest → v = w)
        ∧ ∃ entries, Staged config w v entries ∧ (∀ x ∈ entries, x.1 ≤ S)
          ∧ (S < .loadCompiler → ∀ x ∈ entries, ¬ x.2.2.UsesCompiler)
          ∧ (S < .compile → ∀ x ∈ entries, ¬ x.2.2.IsCompilation))
      ∧ (∀ reply v, Reached owned config payload w (.replied reply) v →
        run owned config payload w = (reply, v)
        ∧ (∃ entries, Staged config w v entries)
        ∧ ∃ request document members report success filename files,
          Request.read (τ := τ) payload = .ok request
          ∧ CompilesOnce w v document
          ∧ Table.get? "sources" document = some (.object members)
          ∧ Table.names members = files ∧ files.Nodup ∧ files.head? = some filename
          ∧ Table.get? "files" reply = some (.array (files.map .string))
          ∧ Table.get? "filename" reply = some (.string filename)
          ∧ Json.read w.tools.compile.stdout = .ok (.object report)
          ∧ Table.get? "success" reply = some (.bool success)
          ∧ (success = true ↔ ¬ ReportsError report)
          ∧ (Table.has "artifacts" reply = true
            ↔ success = true ∧ request.returnArtifacts = true))
      ∧ ((∃ S e v, FailsAt owned config payload w S e v)
        ∨ ∃ reply v, Reached owned config payload w (.replied reply) v) := by
  refine ⟨?_, ?_, failsAt_or_reached owned config payload w⟩
  · intro S e v h
    obtain ⟨hparse, entries, hstaged, hbefore⟩ := staged_of_failsAt h
    refine ⟨run_eq_of_error hw (stages_of_failsAt h), hparse, entries, hstaged, hbefore, ?_, ?_⟩
    · -- an effect on a compiler would belong to a stage after `S`
      intro hS x hx huses
      have hx' := loadCompiler_le_of_usesCompiler (hstaged.does x hx) huses
      exact Nat.lt_irrefl _ (hS.trans_le (Nat.le_trans hx' (hbefore x hx)))
    · intro hS x hx hcompilation
      have hx' := hbefore x hx
      rw [compile_eq_of_isCompilation (hstaged.does x hx) hcompilation] at hx'
      exact Nat.lt_irrefl _ (hS.trans_le hx')
  · intro reply v h
    obtain ⟨hknown, -, entries, hstaged, -⟩ := holds_of_reached h
    obtain ⟨request, sources, compiler, report, summary, hcompiled, hsummary, rfl⟩ := hknown
    obtain ⟨rest, hrest⟩ := hcompiled.named.entry
    refine ⟨run_eq_of_ok hw (stages_of_reached h), ⟨entries, hstaged⟩, request,
      Compiler.document sources request.settings, _, report, !summary.hasError,
      request.entryKey, sources.names, hcompiled.read, hcompiled.once, rfl, ?_,
      hcompiled.named.nodup, ?_, ?_, ?_, hcompiled.report, ?_, ?_, ?_⟩
    · simp [Table.names]
    · rw [hrest]
      rfl
    · exact get?_result (by decide)
    · exact get?_result (by decide)
    · exact get?_result (by decide)
    · rw [← hasError_iff hsummary, Bool.not_eq_true', Bool.not_eq_true]
    · rw [has_artifacts_result, Bool.and_eq_true]

/-! ### A request for a source that is not allowed -/

/-- An import that is fetched and one that is not allowed. -/
def astrayPayload : Json := .object [
  ("source", .string "import \"https://unpkg.com/a.sol\"; import \"https://other/b.sol\";"),
  ("filename", .string "e.sol")]

def astrayWorld : World Int where
  now := 0
  routes := [("https://unpkg.com/a.sol", [⟨1, .ok ⟨200, some "OK", [], .whole []⟩⟩])]
  tools := .idle
  room := .usual
  breakdown := none
  trace := []

/-- The request ends with its sources: one of them was requested, and no compiler was touched. -/
theorem astray_import_refused : astrayWorld.breakdown = none
    ∧ ∃ e v, ∃ entries : List (Stage × Int × Event Int),
    FailsAt true Config.builtin astrayPayload astrayWorld .resolveSources e v
      ∧ (Table.get? "stage" (run true Config.builtin astrayPayload astrayWorld).1).bind Json.text?
        = some ("resolve_sources" : Text)
      ∧ v.requestedUrls = ["https://unpkg.com/a.sol"]
      ∧ v.trace = (entries.map Prod.snd).reverse ∧ ∀ x ∈ entries, ¬ x.2.2.UsesCompiler := by
  have hstage : (Table.get? "stage" (run true Config.builtin astrayPayload astrayWorld).1).bind
      Json.text? = some ("resolve_sources" : Text) := by decide +kernel
  have hurls : (run true Config.builtin astrayPayload astrayWorld).2.requestedUrls
      = ["https://unpkg.com/a.sol"] := by decide +kernel
  refine ⟨rfl, ?_⟩
  obtain ⟨hfails, hreplies, hcases⟩ :=
    run_all_or_nothing true Config.builtin astrayPayload (w := astrayWorld) rfl
  rcases hcases with ⟨S, e, v, h⟩ | ⟨reply, v, h⟩
  · obtain ⟨hrun, -, entries, hstaged, -, hquiet, -⟩ := hfails S e v h
    have hname : S.name = "resolve_sources" := by
      rw [hrun] at hstage
      exact Option.some.inj hstage
    -- the reply names the stage, and names tell stages apart
    obtain rfl : S = .resolveSources := by
      cases S with
      | resolveSources => rfl
      | _ => exact absurd hname (by decide)
    refine ⟨e, v, entries, h, hstage, ?_, ?_, hquiet (by decide)⟩
    · rw [hrun, World.requestedUrls_record] at hurls
      simpa [Event.url?] using hurls
    · rw [hstaged.trace_eq]
      exact List.append_nil _
  · -- the compiler writes nothing, so the request cannot have been answered
    obtain ⟨-, -, -, -, -, report, -, -, -, -, -, -, -, -, -, -, -, hreport, -⟩ :=
      hreplies reply v h
    cases hreport

end Pipeline

end CompileGate
