/-
CompileGate/Proofs/FetchCalls.lean

What a walk asks of its fetcher.

The fetcher is any: it may fail at any call, serve new imports for ever, ignore
the limit that it is given, and move the clock as it likes.  To see its calls it
is wrapped (`Fetcher.recorded`): the wrapped one keeps a list of the calls beside
the state, each with the state that it found and what came of it.  Recording
changes nothing else (`mirrors_build`).

Before a call the walk knows the sources that it has accepted, and the call is
determined by them (`Call.IsDue`): it asks for what the first import leads to that
does not lead to one of their keys, and it grants what they leave of the limit on
the bytes.  So a call is never made after something has failed: an import that
does not resolve, or a key that was not accepted, would come before.

The walk is written with a bound on its rounds.  `Loop` is the same loop without
one, and the bound never shows (`loop_walk`).

Main result: `calls_of_build`.
-/
import CompileGate.Proofs.WalkOutcome
import Mathlib.Data.List.Induction

namespace CompileGate

variable {τ σ ρ : Type}

/-! ### A state beside the state -/

namespace Effect

variable {α β : Type}

/-- An outcome without what stands beside the state. -/
def forget : EStateM.Result (Failure τ) (σ × ρ) α → EStateM.Result (Failure τ) σ α
  | .ok a s => .ok a s.1
  | .error e s => .error e s.1

/-- What stands beside the state does not matter to `m`, which is otherwise `m'`. -/
def Mirrors (m : Effect τ (σ × ρ) α) (m' : Effect τ σ α) : Prop := ∀ s, forget (m s) = m' s.1

namespace Mirrors

theorem pure (a : α) : Mirrors (Pure.pure a : Effect τ (σ × ρ) α) (Pure.pure a) := fun _ => rfl

theorem abort (e : GatewayError τ) :
    Mirrors (World.abort e : Effect τ (σ × ρ) α) (World.abort e) := fun _ => rfl

theorem lift (x : Except (Failure τ) α) :
    Mirrors (World.lift x : Effect τ (σ × ρ) α) (World.lift x) := by
  intro s
  cases x with
  | ok a => rfl
  | error e => rfl

theorem bind {m : Effect τ (σ × ρ) α} {m' : Effect τ σ α} {f : α → Effect τ (σ × ρ) β}
    {f' : α → Effect τ σ β} (hm : Mirrors m m') (hf : ∀ a, Mirrors (f a) (f' a)) :
    Mirrors (m >>= f) (m' >>= f') := by
  intro s
  -- the same case on both sides, and then the rest from states that match
  have h := hm s
  cases hms : m s with
  | ok a t =>
    rw [hms] at h
    rw [bind_of_ok hms, bind_of_ok h.symm]
    exact hf a t
  | error e t =>
    rw [hms] at h
    rw [bind_of_error hms, bind_of_error h.symm]
    rfl

/-- The part that does not matter is not looked at when the state is. -/
theorem get_bind {f : σ × ρ → Effect τ (σ × ρ) β} {f' : σ → Effect τ σ β}
    (hf : ∀ s, Mirrors (f s) (f' s.1)) : Mirrors (get >>= f) (get >>= f') :=
  fun s => hf s s

end Mirrors

end Effect

namespace SourceGraph

open Effect

/-! ### Recording -/

/-- A call of a fetcher. -/
structure Call (τ σ : Type) where
  url : Text
  /-- How many bytes are wanted. -/
  limit : Int
  /-- The state in which the fetcher is called. -/
  before : σ
  outcome : Except (Failure τ) Text

/-- The source that a call has fetched. -/
def Call.source? (call : Call τ σ) : Option Source :=
  call.outcome.toOption.map (Source.fetched call.url)

/-- The sources of a walk from `entry` after some calls. -/
def sourcesAfter (entry : Source) (calls : List (Call τ σ)) : List Source :=
  entry :: calls.filterMap Call.source?

/-- A fetcher that keeps its calls, in order. -/
def Fetcher.recorded (fetcher : Fetcher τ σ) : Fetcher τ (σ × List (Call τ σ)) where
  fetch url limit s :=
    match fetcher.fetch url limit s.1 with
    | .ok content t => .ok content (t, s.2 ++ [⟨url, limit, s.1, .ok content⟩])
    | .error e t => .error e (t, s.2 ++ [⟨url, limit, s.1, .error e⟩])
  now s := fetcher.now s.1

theorem Fetcher.mirrors_recorded (fetcher : Fetcher τ σ) (url : Text) (limit : Int) :
    Mirrors (fetcher.recorded.fetch url limit) (fetcher.fetch url limit) := by
  intro s
  unfold Fetcher.recorded
  dsimp only
  cases fetcher.fetch url limit s.1 with
  | ok content t => rfl
  | error e t => rfl

section Mirrors

variable [Seconds τ] (ctx : Context τ) (fetcher : Fetcher τ σ)

theorem mirrors_discover (current child : Text) (w : Walk) :
    Mirrors (discover ctx fetcher.recorded current child w) (discover ctx fetcher current child w)
    := by
  unfold discover
  split
  · exact .abort _
  · -- the clock is that of the state itself
    refine .get_bind fun s => ?_
    show Mirrors (if ctx.isOver (fetcher.now s.1) then _ else _) _
    split
    · exact .abort _
    · refine (fetcher.mirrors_recorded child _).bind fun content => ?_
      refine (Mirrors.lift _).bind fun bytes => ?_
      dsimp only
      split
      · exact .abort _
      · exact .pure _

theorem mirrors_follow (node : SourceNode) (specifiers : List Text) (w : Walk) :
    Mirrors (follow ctx fetcher.recorded node specifiers w) (follow ctx fetcher node specifiers w)
    := by
  induction specifiers generalizing w with
  | nil => exact .pure w
  | cons specifier rest ih =>
    rw [follow, follow]
    refine (Mirrors.lift _).bind fun child => ?_
    dsimp only
    split
    · exact ih _
    · exact (mirrors_discover ctx fetcher node.key child _).bind ih

theorem mirrors_walk (steps : Nat) (w : Walk) :
    Mirrors (walk ctx fetcher.recorded steps w) (walk ctx fetcher steps w) := by
  induction steps generalizing w with
  | zero => exact .pure w
  | succ steps ih =>
    rw [walk, walk]
    split
    · exact .pure w
    · exact (mirrors_follow ctx fetcher _ _ _).bind fun w' => ih _

/-- Recording the calls changes nothing else. -/
theorem mirrors_build (key content : Text) (base : Option Text) :
    Mirrors (build ctx fetcher.recorded key content base) (build ctx fetcher key content base)
    := by
  unfold build
  refine (Mirrors.lift _).bind fun bytes => ?_
  split
  · exact .abort _
  · split
    · exact .abort _
    · exact (mirrors_walk ctx fetcher _ _).bind fun w => .pure _

end Mirrors

/-! ### What is called for -/

/-- The call that is due in a walk that has accepted `sources`. -/
structure Call.IsDue (ctx : Context τ) (sources : List Source) (call : Call τ σ) : Prop where
  /-- The first import that does not lead to an accepted source leads to the URL. -/
  first : ∃ followed x s rest, importsOf sources = followed ++ (x, s) :: rest
    ∧ AllLeadTo ctx followed (sources.map Source.key)
    ∧ Specifier.resolve s x.base ctx (some x.key) = .ok call.url
  fresh : call.url ∉ sources.map Source.key
  room : (sources.length : Int) < ctx.maxSources
  encodable : ∀ x ∈ sources, Utf8.Encodable x.content
  limit_eq : call.limit = ctx.maxTotalBytes - totalSize sources
  limit_nonneg : 0 ≤ call.limit

/-- The calls of a walk: each was due after the ones before it, and these have returned. -/
def InOrder (entry : Source) (ctx : Context τ) (calls : List (Call τ σ)) : Prop :=
  ∀ earlier call later, calls = earlier ++ call :: later →
    call.IsDue ctx (sourcesAfter entry earlier)
      ∧ ∀ c ∈ earlier, ∃ content, c.outcome = .ok content

section InOrder

variable {entry : Source} {ctx : Context τ} {calls : List (Call τ σ)}

theorem inOrder_nil : InOrder entry ctx ([] : List (Call τ σ)) := by
  intro earlier call later h
  simp at h

theorem InOrder.concat {call : Call τ σ} (h : InOrder entry ctx calls)
    (hok : ∀ c ∈ calls, ∃ content, c.outcome = .ok content)
    (hdue : call.IsDue ctx (sourcesAfter entry calls)) : InOrder entry ctx (calls ++ [call]) := by
  intro earlier c later hsplit
  -- the call in question is the new one, or one of those before it
  rcases List.eq_nil_or_concat later with rfl | ⟨later', last, rfl⟩
  · obtain ⟨rfl, hc⟩ := List.append_inj' hsplit rfl
    obtain rfl : call = c := by simpa using hc
    exact ⟨hdue, hok⟩
  · rw [List.concat_eq_append, ← List.cons_append, ← List.append_assoc] at hsplit
    obtain ⟨hcalls, -⟩ := List.append_inj' hsplit rfl
    exact h earlier c later' hcalls

theorem InOrder.last {call : Call τ σ} (h : InOrder entry ctx (calls ++ [call])) :
    call.IsDue ctx (sourcesAfter entry calls) ∧ ∀ c ∈ calls, ∃ content, c.outcome = .ok content :=
  h calls call [] rfl

theorem InOrder.init {call : Call τ σ} (h : InOrder entry ctx (calls ++ [call])) :
    InOrder entry ctx calls := by
  intro earlier c later hcalls
  exact h earlier c (later ++ [call]) (by rw [hcalls]; simp)

/-- Calls that have returned have fetched a source each, at the URL that was asked for. -/
theorem keys_sourcesAfter (entry : Source) (hok : ∀ c ∈ calls, ∃ content, c.outcome = .ok content) :
    (sourcesAfter entry calls).map Source.key = entry.key :: calls.map Call.url := by
  induction calls with
  | nil => rfl
  | cons call calls ih =>
    obtain ⟨content, hcontent⟩ := hok call List.mem_cons_self
    have hsource : call.source? = some (.fetched call.url content) := by
      rw [Call.source?, hcontent]
      rfl
    have ih' := List.cons.inj (ih fun c hc => hok c (List.mem_cons_of_mem _ hc))
    rw [sourcesAfter, List.filterMap_cons_some hsource, List.map_cons, List.map_cons, ih'.2]
    rfl

theorem InOrder.nodup (h : InOrder entry ctx calls) : (entry.key :: calls.map Call.url).Nodup := by
  -- from the end, since a call is due after those before it
  induction calls using List.reverseRecOn with
  | nil => simp
  | append_singleton calls call ih =>
    obtain ⟨hdue, hok⟩ := h.last
    have hfresh := hdue.fresh
    rw [keys_sourcesAfter entry hok] at hfresh
    rw [List.map_append, ← List.cons_append, List.nodup_append]
    refine ⟨ih h.init, by simp, ?_⟩
    intro key hkey url hurl hkey_eq
    obtain rfl := List.mem_singleton.mp hurl
    exact hfresh (hkey_eq ▸ hkey)

theorem InOrder.length_le (h : InOrder entry ctx calls) :
    calls.length ≤ (ctx.maxSources - 1).toNat := by
  -- when the last call was made there was room for its source
  rcases List.eq_nil_or_concat calls with rfl | ⟨earlier, call, rfl⟩
  · exact Nat.zero_le _
  · rw [List.concat_eq_append] at h ⊢
    obtain ⟨hdue, hok⟩ := h.last
    have hlen : (sourcesAfter entry earlier).length = earlier.length + 1 := by
      have hkeys := congrArg List.length (keys_sourcesAfter entry hok)
      simpa using hkeys
    have hroom := hdue.room
    rw [hlen] at hroom
    rw [List.length_append, List.length_singleton]
    omega

end InOrder

/-! ### The calls of a walk -/

section Calls

variable [Seconds τ] {entry : Source} {ctx : Context τ} {fetcher : Fetcher τ σ}

/-- What is known of the calls while nothing has failed: they have fetched the sources found. -/
structure Fetched (entry : Source) (ctx : Context τ) (sources : List Source)
    (s : σ × List (Call τ σ)) : Prop where
  inOrder : InOrder entry ctx s.2
  returned : ∀ c ∈ s.2, ∃ content, c.outcome = .ok content
  sources_eq : sources = sourcesAfter entry s.2

/-- What is known of the calls when the last one has failed. -/
def FailedLast (entry : Source) (ctx : Context τ) (e : Failure τ) (s : σ × List (Call τ σ)) :
    Prop :=
  InOrder entry ctx s.2 ∧ ∃ earlier call, s.2 = earlier ++ [call] ∧ call.outcome = .error e

omit [Seconds τ] in
theorem isDue_of_pending {sources : List Source} {x : Source} {child : Text} {s : σ}
    {outcome : Except (Failure τ) Text} (hp : Pending entry ctx sources x child)
    (hroom : (sources.length : Int) < ctx.maxSources) :
    (⟨child, ctx.maxTotalBytes - totalSize sources, s, outcome⟩ : Call τ σ).IsDue ctx sources := by
  obtain ⟨targets, hd⟩ := hp.discovered
  obtain ⟨followed, specifier, rest, hsplit, hfollowed, hresolve⟩ := hp.first
  have hle := hd.totalSize_le
  exact ⟨⟨followed, x, specifier, rest, hsplit, hfollowed, hresolve⟩, hp.fresh, hroom,
    hd.encodable, rfl, Int.sub_nonneg_of_le hle⟩

/-- A call keeps what is known of the calls. -/
theorem keeps_recorded (fetcher : Fetcher τ σ) :
    fetcher.recorded.Keeps entry ctx (Fetched entry ctx)
      fun _ _ e s => FailedLast entry ctx e s := by
  intro sources x child s hp hroom _ hj
  -- a call is due whatever will come of it
  have hdue : ∀ outcome, (⟨child, ctx.maxTotalBytes - totalSize sources, s.1, outcome⟩
      : Call τ σ).IsDue ctx (sourcesAfter entry s.2) := by
    intro outcome
    rw [← hj.sources_eq]
    exact isDue_of_pending hp hroom
  unfold Ensures Fetcher.recorded
  dsimp only
  cases fetcher.fetch child (ctx.maxTotalBytes - totalSize sources) s.1 with
  | ok content t =>
    refine ⟨hj.inOrder.concat hj.returned (hdue _), ?_, ?_⟩
    · intro c hc
      rcases List.mem_append.mp hc with hc | hc
      · exact hj.returned c hc
      · obtain rfl := List.mem_singleton.mp hc
        exact ⟨content, rfl⟩
    · rw [hj.sources_eq, sourcesAfter, sourcesAfter, List.filterMap_append, List.cons_append]
      rfl
  | error e t =>
    exact ⟨hj.inOrder.concat hj.returned (hdue _), s.2, _, rfl, rfl⟩

/-- Both outcomes of a walk with the calls that it has made. -/
theorem calls_ensures (fetcher : Fetcher τ σ) (entry : Source) (ctx : Context τ) (s : σ) :
    Ensures (build ctx fetcher.recorded entry.key entry.content entry.base) (s, [])
      (fun g t => InOrder entry ctx t.2 ∧ (∀ c ∈ t.2, ∃ content, c.outcome = .ok content)
        ∧ g.nodes.map SourceNode.source = sourcesAfter entry t.2)
      (fun e t => InOrder entry ctx t.2
        ∧ ∀ c ∈ t.2, ∀ e', c.outcome = .error e' → e' = e) := by
  have hstart : Fetched entry ctx [entry] ((s, []) : σ × List (Call τ σ)) :=
    ⟨inOrder_nil, by simp, rfl⟩
  refine (build_ensures (keeps_recorded fetcher) hstart).mono ?_ ?_
  · rintro g t ⟨-, hj⟩
    exact ⟨hj.inOrder, hj.returned, hj.sources_eq⟩
  · intro e t hstopped
    -- only a failure of the fetcher leaves a call behind that has not returned
    have hfetched : ∀ sources, Fetched entry ctx sources t → InOrder entry ctx t.2
        ∧ ∀ c ∈ t.2, ∀ e', c.outcome = .error e' → e' = e := by
      intro sources hj
      refine ⟨hj.inOrder, ?_⟩
      intro c hc e' he'
      obtain ⟨content, hcontent⟩ := hj.returned c hc
      rw [hcontent] at he'
      cases he'
    cases hstopped with
    | entryUnencodable _ hj => exact hfetched _ hj
    | entryTooLarge _ _ hj => exact hfetched _ hj
    | entryTooMany _ _ hj => exact hfetched _ hj
    | unresolved _ _ _ _ hj => exact hfetched _ hj
    | tooMany _ _ hj => exact hfetched _ hj
    | late _ _ hj => exact hfetched _ hj
    | unencodable _ _ _ hj => exact hfetched _ hj
    | tooLarge _ _ _ _ hj => exact hfetched _ hj
    | unfetched _ _ hfailed =>
      obtain ⟨hinOrder, earlier, call, hcalls, hcall⟩ := hfailed
      refine ⟨hinOrder, ?_⟩
      intro c hc e' he'
      rw [hcalls] at hc hinOrder
      rcases List.mem_append.mp hc with hc | hc
      · obtain ⟨content, hcontent⟩ := hinOrder.last.2 c hc
        rw [hcontent] at he'
        cases he'
      · obtain rfl := List.mem_singleton.mp hc
        rw [hcall] at he'
        exact (Except.error.inj he').symm

/-! ### The loop without a bound -/

/-- What the loop over the waiting nodes comes to when nothing bounds its rounds. -/
inductive Loop (ctx : Context τ) (fetcher : Fetcher τ σ) :
    Walk → σ → EStateM.Result (Failure τ) σ Walk → Prop
  | done {w s} : w.waiting = [] → Loop ctx fetcher w s (.ok w s)
  | failed {w node waiting s e t} : w.waiting = node :: waiting →
      follow ctx fetcher node (Import.specifiers node.content)
        { w with edges := node.edges, waiting := waiting } s = .error e t →
      Loop ctx fetcher w s (.error e t)
  | round {w node waiting s w' t r} : w.waiting = node :: waiting →
      follow ctx fetcher node (Import.specifiers node.content)
        { w with edges := node.edges, waiting := waiting } s = .ok w' t →
      Loop ctx fetcher (w'.finish node) t r → Loop ctx fetcher w s r

/-- The bound on the rounds never ends the loop. -/
theorem loop_walk (fetcher : Fetcher τ σ) {steps : Nat} {w : Walk} {s : σ}
    (h : w.Resting entry ctx) (hsteps : ctx.maxSources.toNat ≤ steps + w.scanned.length) :
    Loop ctx fetcher w s (walk ctx fetcher steps w s) := by
  -- every round scans a node, and no more nodes than the limit are ever found
  induction steps generalizing w s with
  | zero => exact .done (h.waiting_eq_nil (by omega))
  | succ steps ih =>
    rw [walk]
    cases hwaiting : w.waiting with
    | nil => exact .done hwaiting
    | cons node waiting =>
      have hround := round_ensures (fetcher.keeps_true entry ctx) hwaiting h (s := s) trivial
      dsimp only
      cases hf : follow ctx fetcher node (Import.specifiers node.content)
          { w with edges := node.edges, waiting := waiting } s with
      | error e t =>
        rw [bind_of_error hf]
        exact .failed hwaiting hf
      | ok w' t =>
        obtain ⟨h', hlen, -⟩ := hround.of_ok hf
        rw [bind_of_ok hf]
        exact .round hwaiting hf (ih h' (by omega))

/-- The graph of a loop that has come to its end. -/
def graphOf (entry : Source) :
    EStateM.Result (Failure τ) σ Walk → EStateM.Result (Failure τ) σ SourceGraph
  | .ok w t => .ok ⟨entry.key, w.scanned, w.totalBytes, w.fetches⟩ t
  | .error e t => .error e t

/-- A walk fails at once, or it is the loop without a bound, which comes to an end. -/
theorem exists_loop (fetcher : Fetcher τ σ) (entry : Source) (ctx : Context τ) (s : σ) :
    (∃ e, build ctx fetcher entry.key entry.content entry.base s = .error e s)
      ∨ ∃ r, Loop ctx fetcher (Walk.start entry) s r
        ∧ build ctx fetcher entry.key entry.content entry.base s = graphOf entry r := by
  -- the entry itself is measured and counted before the loop
  cases hsize : Utf8.size entry.content with
  | error e =>
    left
    refine ⟨.unencodable e, ?_⟩
    rw [build, sizeOf, hsize]
    rfl
  | ok bytes =>
    obtain ⟨hentry, rfl⟩ := Utf8.size_eq_ok_iff.mp hsize
    have hsizeOf : (sizeOf entry.content : Effect τ σ Nat) s
        = .ok (Utf8.byteLength entry.content) s := by
      rw [sizeOf, hsize]
      rfl
    rw [build, bind_of_ok hsizeOf]
    by_cases hbytes : ctx.maxTotalBytes < (Utf8.byteLength entry.content : Int)
    · left
      rw [if_pos hbytes]
      exact ⟨_, rfl⟩
    by_cases hsources : ctx.maxSources < 1
    · left
      rw [if_neg hbytes, if_pos hsources]
      exact ⟨_, rfl⟩
    right
    rw [if_neg hbytes, if_neg hsources]
    refine ⟨walk ctx fetcher ctx.maxSources.toNat (Walk.start entry) s, ?_, ?_⟩
    · exact loop_walk fetcher (Walk.start_resting hentry (by omega) (by omega)) (by simp)
    · show (walk ctx fetcher ctx.maxSources.toNat (Walk.start entry) >>= _) s = _
      cases hwalk : walk ctx fetcher ctx.maxSources.toNat (Walk.start entry) s with
      | ok w t =>
        rw [bind_of_ok hwalk]
        rfl
      | error e t =>
        rw [bind_of_error hwalk]
        rfl

/-- **A walk ends, and never asks for more than it may**, whatever its fetcher does.

It makes fewer calls than there may be sources, for URLs that differ from each other and from the
key of the entry.  Every call is due after the earlier ones, which have all returned: it asks for
the target of the first import that leads to nothing accepted yet, and grants what is left of the
limit on the bytes.  A call that fails is the failure of the walk. -/
theorem calls_of_build (fetcher : Fetcher τ σ) (entry : Source) (ctx : Context τ) (s : σ) :
    ((∃ e, build ctx fetcher entry.key entry.content entry.base s = .error e s)
        ∨ ∃ r, Loop ctx fetcher (Walk.start entry) s r
          ∧ build ctx fetcher entry.key entry.content entry.base s = graphOf entry r)
      ∧ forget (build ctx fetcher.recorded entry.key entry.content entry.base (s, []))
        = build ctx fetcher entry.key entry.content entry.base s
      ∧ ∃ calls,
        (final (build ctx fetcher.recorded entry.key entry.content entry.base) (s, [])).2 = calls
        ∧ calls.length ≤ (ctx.maxSources - 1).toNat
        ∧ (entry.key :: calls.map Call.url).Nodup
        ∧ (∀ earlier call later, calls = earlier ++ call :: later →
          call.IsDue ctx (sourcesAfter entry earlier)
            ∧ ∀ c ∈ earlier, ∃ content, c.outcome = .ok content)
        ∧ ∀ call ∈ calls, ∀ e, call.outcome = .error e →
          ∃ t, build ctx fetcher entry.key entry.content entry.base s = .error e t := by
  have hmirror := mirrors_build ctx fetcher entry.key entry.content entry.base (s, [])
  refine ⟨exists_loop fetcher entry ctx s, hmirror, _, rfl, ?_⟩
  have hcalls := calls_ensures fetcher entry ctx s
  unfold final
  cases hrun : build ctx fetcher.recorded entry.key entry.content entry.base (s, []) with
  | ok g t =>
    obtain ⟨hinOrder, hreturned, -⟩ := hcalls.of_ok hrun
    refine ⟨hinOrder.length_le, hinOrder.nodup, hinOrder, ?_⟩
    intro call hcall e he
    obtain ⟨content, hcontent⟩ := hreturned call hcall
    rw [hcontent] at he
    cases he
  | error e t =>
    obtain ⟨hinOrder, hfailed⟩ := hcalls.of_error hrun
    refine ⟨hinOrder.length_le, hinOrder.nodup, hinOrder, ?_⟩
    intro call hcall e' he'
    obtain rfl := hfailed call hcall e' he'
    rw [hrun] at hmirror
    exact ⟨t.1, hmirror.symm⟩

end Calls

/-! ### Imports without end -/

/-- A web in which every text imports another one. -/
def endless : Fetcher Float Unit where
  fetch _ _ := pure "import './n/x.sol';"
  now _ := 0

def endlessEntry : Source := ⟨"e.sol", "import 'https://host/x.sol';", none⟩

def endlessContext : Context Float where
  maxSources := 3
  maxTotalBytes := 100
  allowedHosts := ["host"]
  packageCdn := "https://host"
  packageVersions := []
  deadline := none
  timeout := none

/-- With room for three sources two texts are fetched, the second one within what the entry and
the first leave of the bytes. -/
theorem endless_calls : ∃ calls : List (Call Float Unit),
    calls.map Call.url = ["https://host/x.sol", "https://host/n/x.sol"]
      ∧ calls.map Call.limit = [72, 53] ∧ calls.length ≤ (endlessContext.maxSources - 1).toNat
      ∧ (endlessEntry.key :: calls.map Call.url).Nodup := by
  obtain ⟨-, -, calls, hcalls, hlength, hnodup, -⟩ :=
    calls_of_build endless endlessEntry endlessContext ()
  refine ⟨calls, ?_, ?_, hlength, hnodup⟩
  · rw [← hcalls]
    decide +kernel
  · rw [← hcalls]
    decide +kernel

end SourceGraph

end CompileGate
