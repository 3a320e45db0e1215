/-
CompileGate/Proofs/WalkOutcome.lean

The walk over imports, taken step by step.

`Walk.Sound` is the invariant: the nodes of a walk were `Discovered`, those whose
imports are followed have the edges of all their specifiers (`EdgesOf`), those
that wait have none yet, and the two counters agree with the sources.  What else
is known, about the texts fetched and about the state behind the fetcher, is left
to a predicate `J` on the sources found and that state; the fetcher must keep it
(`Fetcher.Keeps`).

Main result (`build_ensures`): a walk that returns has a sound graph, no import of
which is left to follow, and one that fails was `Stopped` for one of nine causes,
each with the sources found until then.  In both cases `J` still holds, or the
fetcher's own account `F` of its failure.
-/
import CompileGate.Proofs.Discovery
import CompileGate.Proofs.Outcome

namespace CompileGate
namespace SourceGraph

open Effect

variable {τ σ : Type}

/-! ### Edges -/

/-- The edges of a source after following `specifiers`: each has one, in the order in which they
came first, to what it resolves to, and that is among `keys`. -/
structure EdgesOf (ctx : Context τ) (x : Source) (specifiers keys : List Text)
    (edges : Table Text) : Prop where
  names_eq : Table.names edges = specifiers.eraseDups
  target : ∀ s ∈ specifiers, ∃ t ∈ keys,
    Specifier.resolve s x.base ctx (some x.key) = .ok t ∧ Table.get? s edges = some t

namespace EdgesOf

variable {ctx : Context τ} {x : Source} {specifiers keys : List Text} {edges : Table Text}

theorem nil (ctx : Context τ) (x : Source) (keys : List Text) : EdgesOf ctx x [] keys [] :=
  ⟨rfl, by simp⟩

theorem mono {keys' : List Text} (h : EdgesOf ctx x specifiers keys edges) (hk : keys ⊆ keys') :
    EdgesOf ctx x specifiers keys' edges := by
  refine ⟨h.names_eq, ?_⟩
  intro s hs
  obtain ⟨t, ht, he⟩ := h.target s hs
  exact ⟨t, hk ht, he⟩

theorem insert {s t : Text} (h : EdgesOf ctx x specifiers keys edges)
    (hs : Specifier.resolve s x.base ctx (some x.key) = .ok t) (ht : t ∈ keys) :
    EdgesOf ctx x (specifiers ++ [s]) keys (Table.insert s t edges) := by
  constructor
  · rw [Table.names_insert, h.names_eq]
    -- a specifier that came before keeps its place
    by_cases hm : s ∈ specifiers
    · rw [if_pos (List.mem_eraseDups.mpr hm), eraseDups_concat_of_mem hm]
    · rw [if_neg (fun h => hm (List.mem_eraseDups.mp h)), eraseDups_concat_of_not_mem hm]
  · intro s' hs'
    rw [Table.get?_insert]
    by_cases e : s' = s
    · subst e
      exact ⟨t, ht, hs, if_pos rfl⟩
    · have hm : s' ∈ specifiers := by
        rcases List.mem_append.mp hs' with hm | hm
        · exact hm
        · exact absurd (List.mem_singleton.mp hm) e
      rw [if_neg e]
      exact h.target s' hm

end EdgesOf

/-! ### Found so far -/

/-- The sources found so far; `x` is the one whose imports are being followed. -/
def Walk.sources (w : Walk) (x : Source) : List Source :=
  w.scanned.map SourceNode.source ++ x :: w.waiting.map SourceNode.source

/-- The targets of the sources whose imports are all followed. -/
def Walk.followed (ctx : Context τ) (w : Walk) : List Text :=
  w.scanned.flatMap fun node => node.source.targets ctx

theorem Walk.keys_eq (w : Walk) (x : Source) : w.keys x.key = (w.sources x).map Source.key := by
  simp only [Walk.keys, Walk.sources, List.map_append, List.map_cons, List.map_map]
  rfl

/-- The state of a walk that has found `sources` after following imports to `targets`. -/
structure Walk.Sound (entry : Source) (ctx : Context τ) (w : Walk) (sources : List Source)
    (targets : List Text) : Prop where
  discovered : Discovered entry ctx sources targets
  scanned : ∀ node ∈ w.scanned,
    EdgesOf ctx node.source node.source.specifiers (sources.map Source.key) node.edges
  waiting : ∀ node ∈ w.waiting, node.edges = []
  totalBytes_eq : w.totalBytes = totalSize sources
  fetches_eq : w.fetches + 1 = sources.length

/-- The imports of sources, in the order in which a walk follows them. -/
def importsOf (sources : List Source) : List (Source × Text) :=
  sources.flatMap fun x => x.specifiers.map fun s => (x, s)

/-- All of `imports` lead to some of `keys`. -/
def AllLeadTo (ctx : Context τ) (imports : List (Source × Text)) (keys : List Text) : Prop :=
  ∀ i ∈ imports, ∃ key ∈ keys, Specifier.resolve i.2 i.1.base ctx (some i.1.key) = .ok key

/-- A walk that has found `sources` follows an import of `x` to the new key `child`; the imports
before this one led to keys that were already found. -/
structure Pending (entry : Source) (ctx : Context τ) (sources : List Source) (x : Source)
    (child : Text) : Prop where
  discovered : ∃ targets, Discovered entry ctx sources targets
  importer_mem : x ∈ sources
  target : child ∈ x.targets ctx
  fresh : child ∉ sources.map Source.key
  first : ∃ followed s rest, importsOf sources = followed ++ (x, s) :: rest
    ∧ AllLeadTo ctx followed (sources.map Source.key)
    ∧ Specifier.resolve s x.base ctx (some x.key) = .ok child

/-! ### Fetchers -/

variable [Seconds τ]

/-- Fetching a new key keeps `J`, and a failure to fetch it satisfies `F`. -/
def Fetcher.Keeps (fetcher : Fetcher τ σ) (entry : Source) (ctx : Context τ)
    (J : List Source → σ → Prop) (F : List Source → Text → Failure τ → σ → Prop) : Prop :=
  ∀ {sources x child s}, Pending entry ctx sources x child →
    (sources.length : Int) < ctx.maxSources → ctx.isOver (fetcher.now s) = false → J sources s →
    Ensures (fetcher.fetch child (ctx.maxTotalBytes - totalSize sources)) s
      (fun content t => J (sources ++ [.fetched child content]) t) (F sources child)

/-- Nothing is asked of a fetcher when nothing is to be known of its state. -/
theorem Fetcher.keeps_true (fetcher : Fetcher τ σ) (entry : Source) (ctx : Context τ) :
    fetcher.Keeps entry ctx (fun _ _ => True) fun _ _ _ _ => True := by
  intro sources x child s _ _ _ _
  unfold Ensures
  split
  · trivial
  · trivial

/-- Why a walk from `entry` failed, and in which state it left what is behind its fetcher. -/
inductive Stopped (entry : Source) (ctx : Context τ) (fetcher : Fetcher τ σ)
    (J : List Source → σ → Prop) (F : List Source → Text → Failure τ → σ → Prop) :
    Failure τ → σ → Prop
  | entryUnencodable {e s} : Utf8.size entry.content = .error e → J [entry] s →
      Stopped entry ctx fetcher J F (.unencodable e) s
  | entryTooLarge {s} : Utf8.Encodable entry.content →
      ctx.maxTotalBytes < Utf8.byteLength entry.content → J [entry] s →
      Stopped entry ctx fetcher J F (.gateway
        (.resourceLimitExceeded .totalBytes ctx.maxTotalBytes (some entry.key) none)) s
  | entryTooMany {s} : Utf8.Encodable entry.content → ctx.maxSources < 1 → J [entry] s →
      Stopped entry ctx fetcher J F (.gateway
        (.resourceLimitExceeded .sources ctx.maxSources (some entry.key) none)) s
  | unresolved {sources targets x specifier e s} : Discovered entry ctx sources targets →
      x ∈ sources → specifier ∈ x.specifiers →
      Specifier.resolve specifier x.base ctx (some x.key) = .error e → J sources s →
      Stopped entry ctx fetcher J F e s
  | tooMany {sources x child s} : Pending entry ctx sources x child →
      ctx.maxSources ≤ sources.length → J sources s →
      Stopped entry ctx fetcher J F (.gateway
        (.resourceLimitExceeded .sources ctx.maxSources (some x.key) (some child))) s
  | late {sources x child s} : Pending entry ctx sources x child →
      ctx.isOver (fetcher.now s) = true → J sources s →
      Stopped entry ctx fetcher J F (.gateway
        (.deadlineExceeded ctx.namedTimeout (some child))) s
  | unfetched {sources x child e s} : Pending entry ctx sources x child →
      (sources.length : Int) < ctx.maxSources → F sources child e s →
      Stopped entry ctx fetcher J F e s
  | unencodable {sources x child content e s} : Pending entry ctx sources x child →
      (sources.length : Int) < ctx.maxSources → Utf8.size content = .error e →
      J (sources ++ [.fetched child content]) s →
      Stopped entry ctx fetcher J F (.unencodable e) s
  | tooLarge {sources x child content s} : Pending entry ctx sources x child →
      (sources.length : Int) < ctx.maxSources → Utf8.Encodable content →
      ctx.maxTotalBytes < ((totalSize sources + Utf8.byteLength content : Nat) : Int) →
      J (sources ++ [.fetched child content]) s →
      Stopped entry ctx fetcher J F (.gateway
        (.resourceLimitExceeded .totalBytes ctx.maxTotalBytes (some x.key) (some child))) s

/-- What holds of the state wherever `J` or `F` holds also holds after a failure. -/
theorem Stopped.state {entry : Source} {ctx : Context τ} {fetcher : Fetcher τ σ}
    {J : List Source → σ → Prop} {F : List Source → Text → Failure τ → σ → Prop} {P : σ → Prop}
    (hJ : ∀ sources s, J sources s → P s) (hF : ∀ sources child e s, F sources child e s → P s)
    {e : Failure τ} {s : σ} (h : Stopped entry ctx fetcher J F e s) : P s := by
  cases h with
  | entryUnencodable _ hj => exact hJ _ _ hj
  | entryTooLarge _ _ hj => exact hJ _ _ hj
  | entryTooMany _ _ hj => exact hJ _ _ hj
  | unresolved _ _ _ _ hj => exact hJ _ _ hj
  | tooMany _ _ hj => exact hJ _ _ hj
  | late _ _ hj => exact hJ _ _ hj
  | unfetched _ _ hf => exact hF _ _ _ _ hf
  | unencodable _ _ _ hj => exact hJ _ _ hj
  | tooLarge _ _ _ _ hj => exact hJ _ _ hj

/-! ### One import -/

variable {entry : Source} {ctx : Context τ} {fetcher : Fetcher τ σ}
variable {J : List Source → σ → Prop} {F : List Source → Text → Failure τ → σ → Prop}

omit [Seconds τ] in
theorem ensures_sizeOf {t : Text} {s : σ} {done : Nat → σ → Prop} {failed : Failure τ → σ → Prop} :
    Ensures (sizeOf t) s done failed
      ↔ (Utf8.Encodable t → done (Utf8.byteLength t) s)
        ∧ ∀ e, Utf8.size t = .error e → failed (.unencodable e) s := by
  rw [sizeOf, ensures_lift]
  constructor
  · rintro ⟨hok, herror⟩
    refine ⟨fun ht => hok _ ?_, fun e he => herror _ ?_⟩
    · rw [Utf8.size_eq_ok ht]; rfl
    · rw [he]; rfl
  · rintro ⟨hok, herror⟩
    cases hs : Utf8.size t with
    | ok n =>
      obtain ⟨ht, rfl⟩ := Utf8.size_eq_ok_iff.mp hs
      exact ⟨by rintro _ ⟨⟩; exact hok ht, by rintro _ ⟨⟩⟩
    | error e => exact ⟨by rintro _ ⟨⟩, by rintro _ ⟨⟩; exact herror e hs⟩

theorem Walk.mem_sources (w : Walk) (x : Source) : x ∈ w.sources x :=
  List.mem_append_right _ List.mem_cons_self

/-- Fetching a new key adds its source, and nothing else changes. -/
theorem discover_ensures (hkeeps : fetcher.Keeps entry ctx J F) {w : Walk} {x : Source}
    {child : Text} {targets : List Text} {s : σ} (h : w.Sound entry ctx (w.sources x) targets)
    (hp : Pending entry ctx (w.sources x) x child) (hj : J (w.sources x) s) :
    Ensures (discover ctx fetcher x.key child w) s
      (fun w' t => w'.scanned = w.scanned ∧ w'.edges = w.edges
        ∧ (∃ content, w'.sources x = w.sources x ++ [.fetched child content])
        ∧ w'.Sound entry ctx (w'.sources x) (targets ++ [child]) ∧ J (w'.sources x) t)
      (Stopped entry ctx fetcher J F) := by
  unfold discover
  rw [Walk.keys_eq, List.length_map]
  -- the checks in their order, each with its own cause
  by_cases hmax : ctx.maxSources ≤ (w.sources x).length
  · rw [if_pos hmax]
    exact .tooMany hp hmax hj
  have hlt : ((w.sources x).length : Int) < ctx.maxSources := by omega
  rw [if_neg hmax, ensures_bind, ensures_get]
  by_cases hover : ctx.isOver (fetcher.now s) = true
  · rw [if_pos hover]
    exact .late hp hover hj
  rw [if_neg hover, ensures_bind, h.totalBytes_eq]
  refine (hkeeps hp hlt (by simpa using hover) hj).mono ?_ fun e t he => .unfetched hp hlt he
  intro content t hj'
  rw [ensures_bind, ensures_sizeOf]
  refine ⟨fun hc => ?_, fun e he => .unencodable hp hlt he hj'⟩
  dsimp only
  by_cases hbytes : ctx.maxTotalBytes
      < ((totalSize (w.sources x) + Utf8.byteLength content : Nat) : Int)
  · rw [if_pos hbytes]
    exact .tooLarge hp hlt hc hbytes hj'
  -- the new node waits last, so its source is the last one whichever node is being followed
  have hsources : ∀ bytes fetches, (Walk.mk w.scanned w.edges
      (w.waiting ++ [⟨child, content, some child, []⟩]) bytes fetches).sources x
      = w.sources x ++ [.fetched child content] := by
    intro bytes fetches
    simp [Walk.sources, SourceNode.source, Source.fetched]
  rw [if_neg hbytes, ensures_pure, hsources]
  refine ⟨rfl, rfl, ⟨content, rfl⟩, ⟨?_, ?_, ?_, ?_, ?_⟩, hj'⟩
  · exact .new h.discovered hp.importer_mem hp.target hp.fresh hlt hc (by omega)
  · intro node hnode
    apply (h.scanned node hnode).mono
    rw [List.map_append]
    exact List.subset_append_left _ _
  · intro node hnode
    rcases List.mem_append.mp hnode with hnode | hnode
    · exact h.waiting node hnode
    · rw [List.mem_singleton.mp hnode]
  · rw [totalSize_append]
    simp [totalSize, Source.fetched]
  · rw [List.length_append, ← h.fetches_eq]
    rfl

/-! ### The imports of a source -/

/-- The state of a walk that follows the imports of `x` and has followed those of the specifiers
`done`. -/
structure Walk.Following (entry : Source) (ctx : Context τ) (x : Source) (done : List Text)
    (w : Walk) : Prop where
  sound : w.Sound entry ctx (w.sources x) (w.followed ctx ++ targetsOf ctx x.base done)
  edges : EdgesOf ctx x done ((w.sources x).map Source.key) w.edges

omit [Seconds τ] in
/-- An import of `x` to a new key is pending once those before it are followed. -/
theorem Walk.Following.pending {w : Walk} {x : Source} {done rest : List Text}
    {specifier child : Text} (h : w.Following entry ctx x done)
    (hsplit : x.specifiers = done ++ specifier :: rest)
    (hchild : Specifier.resolve specifier x.base ctx (some x.key) = .ok child)
    (hnew : child ∉ (w.sources x).map Source.key) : Pending entry ctx (w.sources x) x child := by
  refine ⟨⟨_, h.sound.discovered⟩, w.mem_sources x, ?_, hnew,
    importsOf (w.scanned.map SourceNode.source) ++ done.map (fun s => (x, s)), specifier,
    rest.map (fun s => (x, s)) ++ importsOf (w.waiting.map SourceNode.source), ?_, ?_, hchild⟩
  · rw [Source.targets, hsplit, ← List.singleton_append, targetsOf_append, targetsOf_append,
      targetsOf_singleton hchild]
    simp
  · simp [Walk.sources, importsOf, hsplit]
  · intro i hi
    rcases List.mem_append.mp hi with hi | hi
    · obtain ⟨y, hy, hi⟩ := List.mem_flatMap.mp hi
      obtain ⟨node, hnode, rfl⟩ := List.mem_map.mp hy
      obtain ⟨s, hs, rfl⟩ := List.mem_map.mp hi
      obtain ⟨target, hmem, hresolve, -⟩ := (h.sound.scanned node hnode).target s hs
      exact ⟨target, hmem, hresolve⟩
    · obtain ⟨s, hs, rfl⟩ := List.mem_map.mp hi
      obtain ⟨target, hmem, hresolve, -⟩ := h.edges.target s hs
      exact ⟨target, hmem, hresolve⟩

theorem follow_ensures (hkeeps : fetcher.Keeps entry ctx J F) (node : SourceNode)
    {done rest : List Text} {w : Walk} {s : σ} (hsplit : node.source.specifiers = done ++ rest)
    (h : w.Following entry ctx node.source done) (hj : J (w.sources node.source) s) :
    Ensures (follow ctx fetcher node rest w) s
      (fun w' t => w'.scanned = w.scanned ∧ w'.Following entry ctx node.source (done ++ rest)
        ∧ J (w'.sources node.source) t)
      (Stopped entry ctx fetcher J F) := by
  -- along the specifiers left; those followed so far move over to `done`
  induction rest generalizing done w s with
  | nil =>
    rw [follow, ensures_pure, List.append_nil]
    exact ⟨rfl, h, hj⟩
  | cons specifier rest ih =>
    have hmem : specifier ∈ node.source.specifiers := by simp [hsplit]
    have hsplit' : node.source.specifiers = (done ++ [specifier]) ++ rest := by simp [hsplit]
    have happend : done ++ specifier :: rest = (done ++ [specifier]) ++ rest := by simp
    rw [follow, ensures_bind, ensures_lift]
    refine ⟨fun child hchild => ?_, fun e he =>
      .unresolved h.sound.discovered (w.mem_sources node.source) hmem he hj⟩
    have htargets : targetsOf ctx node.source.base [specifier] = [child] :=
      targetsOf_singleton hchild
    -- the edge is entered before the limits are checked; soundness does not look at it
    have hlift : Walk.Sound entry ctx { w with edges := Table.insert specifier child w.edges }
        (w.sources node.source) (w.followed ctx ++ targetsOf ctx node.source.base done) :=
      ⟨h.sound.discovered, h.sound.scanned, h.sound.waiting, h.sound.totalBytes_eq,
        h.sound.fetches_eq⟩
    have hkeys : Walk.keys { w with edges := Table.insert specifier child w.edges } node.key
        = (w.sources node.source).map Source.key := Walk.keys_eq w node.source
    dsimp only
    rw [hkeys, happend]
    by_cases hk : child ∈ (w.sources node.source).map Source.key
    · rw [if_pos (List.contains_iff_mem.mpr hk)]
      refine ih hsplit' ⟨⟨?_, hlift.scanned, hlift.waiting, hlift.totalBytes_eq,
        hlift.fetches_eq⟩, h.edges.insert hchild hk⟩ hj
      rw [targetsOf_append, htargets, ← List.append_assoc]
      exact .known hlift.discovered hk
    · rw [if_neg (fun hc => hk (List.contains_iff_mem.mp hc)), ensures_bind]
      refine (discover_ensures hkeeps hlift (h.pending hsplit hchild hk) hj).mono ?_
        fun _ _ he => he
      rintro w' t ⟨hscanned, hedges, ⟨content, hsources⟩, hsound, hj'⟩
      refine (ih hsplit' ⟨?_, ?_⟩ hj').mono (fun _ _ h' => ⟨h'.1.trans hscanned, h'.2⟩)
        fun _ _ he => he
      · rw [targetsOf_append, htargets, ← List.append_assoc, Walk.followed, hscanned]
        exact hsound
      · rw [hedges, hsources, List.map_append]
        exact (h.edges.mono (List.subset_append_left _ _)).insert hchild
          (List.mem_append_right _ (List.mem_singleton.mpr rfl))

/-! ### The whole walk -/

/-- The state of a walk between the imports of two sources. -/
def Walk.Resting (entry : Source) (ctx : Context τ) (w : Walk) : Prop :=
  w.Sound entry ctx ((w.scanned ++ w.waiting).map SourceNode.source) (w.followed ctx)

/-- The walk after all imports of `node` are followed. -/
def Walk.finish (w : Walk) (node : SourceNode) : Walk :=
  { w with scanned := w.scanned ++ [{ node with edges := w.edges }], edges := [] }

/-- One round of the loop: the first waiting node becomes a scanned one. -/
theorem round_ensures (hkeeps : fetcher.Keeps entry ctx J F) {node : SourceNode}
    {waiting : List SourceNode} {w : Walk} {s : σ} (hwaiting : w.waiting = node :: waiting)
    (h : w.Resting entry ctx) (hj : J ((w.scanned ++ w.waiting).map SourceNode.source) s) :
    Ensures (follow ctx fetcher node (Import.specifiers node.content)
        { w with edges := node.edges, waiting := waiting }) s
      (fun w' t => (w'.finish node).Resting entry ctx
        ∧ (w'.finish node).scanned.length = w.scanned.length + 1
        ∧ J (((w'.finish node).scanned ++ (w'.finish node).waiting).map SourceNode.source) t)
      (Stopped entry ctx fetcher J F) := by
  have hnode : node.edges = [] := h.waiting node (by simp [hwaiting])
  -- the first waiting node becomes the one in the middle, and nothing is found by that
  have hsources : (w.scanned ++ w.waiting).map SourceNode.source
      = Walk.sources { w with edges := node.edges, waiting := waiting } node.source := by
    simp [Walk.sources, hwaiting]
  rw [Walk.Resting, hsources] at h
  rw [hsources] at hj
  have hfollowing : Walk.Following entry ctx node.source []
      { w with edges := node.edges, waiting := waiting } := by
    refine ⟨⟨?_, h.scanned, ?_, h.totalBytes_eq, h.fetches_eq⟩, ?_⟩
    · rw [targetsOf, List.filterMap_nil, List.append_nil]
      exact h.discovered
    · intro n hn
      exact h.waiting n (by simp [hwaiting, hn])
    · rw [hnode]
      exact .nil ctx node.source _
  refine (follow_ensures hkeeps node rfl hfollowing hj).mono ?_ fun _ _ he => he
  rintro w' t ⟨hscanned, h', hj'⟩
  rw [List.nil_append] at h'
  have hmap : ((w'.finish node).scanned ++ (w'.finish node).waiting).map SourceNode.source
      = w'.sources node.source := by
    simp [Walk.finish, Walk.sources, SourceNode.source]
  refine ⟨?_, ?_, ?_⟩
  · rw [Walk.Resting, hmap]
    refine ⟨?_, ?_, h'.sound.waiting, h'.sound.totalBytes_eq, h'.sound.fetches_eq⟩
    · rw [Walk.followed, Walk.finish, List.flatMap_append, List.flatMap_singleton]
      exact h'.sound.discovered
    · intro n hn
      rcases List.mem_append.mp hn with hn | hn
      · exact h'.sound.scanned n hn
      · rw [List.mem_singleton.mp hn]
        exact h'.edges
  · rw [Walk.finish, List.length_append, List.length_singleton]
    exact congrArg (fun l => List.length l + 1) hscanned
  · rw [hmap]
    exact hj'

omit [Seconds τ] in
/-- When as many nodes as the limit allows are scanned, none is waiting. -/
theorem Walk.Resting.waiting_eq_nil {w : Walk} (h : w.Resting entry ctx)
    (hscanned : ctx.maxSources.toNat ≤ w.scanned.length) : w.waiting = [] := by
  have hlen := h.discovered.length_le
  rw [List.length_map, List.length_append] at hlen
  exact List.eq_nil_of_length_eq_zero (by omega)

theorem walk_ensures (hkeeps : fetcher.Keeps entry ctx J F) {steps : Nat} {w : Walk} {s : σ}
    (h : w.Resting entry ctx) (hsteps : ctx.maxSources.toNat ≤ steps + w.scanned.length)
    (hj : J ((w.scanned ++ w.waiting).map SourceNode.source) s) :
    Ensures (walk ctx fetcher steps w) s
      (fun w' t => w'.Resting entry ctx ∧ w'.waiting = [] ∧ J (w'.scanned.map SourceNode.source) t)
      (Stopped entry ctx fetcher J F) := by
  -- on the rounds; the bound leaves enough of them for all nodes that can be found
  induction steps generalizing w s with
  | zero =>
    have hwaiting : w.waiting = [] := h.waiting_eq_nil (by omega)
    rw [walk, ensures_pure]
    rw [hwaiting, List.append_nil] at hj
    exact ⟨h, hwaiting, hj⟩
  | succ steps ih =>
    rw [walk]
    split
    case h_1 hwaiting =>
      rw [ensures_pure]
      rw [hwaiting, List.append_nil] at hj
      exact ⟨h, hwaiting, hj⟩
    case h_2 node waiting hwaiting =>
      rw [ensures_bind]
      refine (round_ensures hkeeps hwaiting h hj).mono ?_ fun _ _ he => he
      rintro w' t ⟨h', hlen, hj'⟩
      show Ensures (walk ctx fetcher steps (w'.finish node)) t _ _
      exact ih h' (by omega) hj'

/-- The walk before anything is followed. -/
def Walk.start (entry : Source) : Walk :=
  ⟨[], [], [⟨entry.key, entry.content, entry.base, []⟩], Utf8.byteLength entry.content, 0⟩

omit [Seconds τ] in
theorem Walk.start_resting (hentry : Utf8.Encodable entry.content) (hsources : 1 ≤ ctx.maxSources)
    (hbytes : (Utf8.byteLength entry.content : Int) ≤ ctx.maxTotalBytes) :
    (Walk.start entry).Resting entry ctx := by
  refine ⟨.start hentry hsources hbytes, by simp [Walk.start], by simp [Walk.start], ?_, rfl⟩
  simp [Walk.start, totalSize, SourceNode.source]

/-- A graph with nothing left to follow. -/
structure Finished (entry : Source) (ctx : Context τ) (g : SourceGraph) : Prop where
  entryKey_eq : g.entryKey = entry.key
  discovered : Discovered entry ctx (g.nodes.map SourceNode.source)
    ((g.nodes.map SourceNode.source).flatMap (Source.targets ctx))
  edges : ∀ node ∈ g.nodes, EdgesOf ctx node.source node.source.specifiers g.keys node.edges
  totalBytes_eq : g.totalBytes = totalSize (g.nodes.map SourceNode.source)
  fetches_eq : g.fetches + 1 = g.nodes.length

/-- Both outcomes of a walk: a finished graph, or a cause for which it stopped. -/
theorem build_ensures (hkeeps : fetcher.Keeps entry ctx J F) {s : σ} (hj : J [entry] s) :
    Ensures (build ctx fetcher entry.key entry.content entry.base) s
      (fun g t => Finished entry ctx g ∧ J (g.nodes.map SourceNode.source) t)
      (Stopped entry ctx fetcher J F) := by
  rw [build, ensures_bind, ensures_sizeOf]
  refine ⟨fun hentry => ?_, fun e he => .entryUnencodable he hj⟩
  by_cases hbytes : ctx.maxTotalBytes < (Utf8.byteLength entry.content : Int)
  · rw [if_pos hbytes]
    exact .entryTooLarge hentry hbytes hj
  rw [if_neg hbytes]
  by_cases hsources : ctx.maxSources < 1
  · rw [if_pos hsources]
    exact .entryTooMany hentry hsources hj
  rw [if_neg hsources, ensures_bind]
  have hstart : (Walk.start entry).Resting entry ctx :=
    Walk.start_resting hentry (by omega) (by omega)
  refine (walk_ensures hkeeps hstart (by simp) hj).mono ?_ fun _ _ he => he
  rintro w t ⟨h, hwaiting, hj'⟩
  rw [Walk.Resting, hwaiting, List.append_nil] at h
  rw [ensures_pure]
  refine ⟨⟨rfl, ?_, ?_, h.totalBytes_eq, ?_⟩, hj'⟩
  · rw [List.flatMap_map]
    exact h.discovered
  · have hkeys : keys ⟨entry.key, w.scanned, w.totalBytes, w.fetches⟩
        = (w.scanned.map SourceNode.source).map Source.key := by
      rw [List.map_map]
      rfl
    rw [hkeys]
    exact h.scanned
  · rw [h.fetches_eq, List.length_map]

end SourceGraph

end CompileGate
