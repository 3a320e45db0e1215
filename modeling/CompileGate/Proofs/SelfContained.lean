/-
CompileGate/Proofs/SelfContained.lean

Whether the sources that are handed to the compiler refer only to each other.

In a rewritten source every specifier has given way to the key that it resolved
to (`SourceNode.target`).  A key has no line end and starts no tail, so it scans
back as one specifier, unless it holds a quote; a specifier never holds one.
Hence a rewritten source scans to its targets if and only if no target holds a
quote (`specifiers_rewritten_iff`), and then the whole document is closed.

Where could a quote come from?  Not from a specifier, nor from the base, which is
a key itself; so it comes from the package source or from a pinned version
(`quoteFree_of_versions`).  Pinned versions are not checked by anything, and a
quote in one of them breaks the statement that it gets into, or makes it several.
-/
import CompileGate.Proofs.ResolvedUrl
import CompileGate.Proofs.Scanning
import CompileGate.Proofs.SessionWalk

namespace CompileGate

open SourceGraph Effect

variable {τ : Type}

/-- A text without quotes. -/
def QuoteFree (t : Text) : Prop := ∀ c ∈ t, Import.isQuote c = false

instance (t : Text) : Decidable (QuoteFree t) :=
  inferInstanceAs (Decidable (∀ c ∈ t, Import.isQuote c = false))

/-! ### Targets -/

/-- What stands in place of a specifier after rewriting. -/
def SourceNode.target (node : SourceNode) (s : Text) : Text := (Table.get? s node.edges).getD s

/-- The source of a node after rewriting. -/
def SourceNode.rewritten (node : SourceNode) : Text := Import.rewrite node.content node.edges

/-- A resolved URL without quotes can stand in an import statement. -/
theorem pastable_of_resolve {raw target : Text} {base : Option Text} {ctx : Context τ}
    {referrer : Option Text} (h : Specifier.resolve raw base ctx referrer = .ok target)
    (hfree : QuoteFree target) : Import.Pastable target := by
  obtain ⟨hline, hslash⟩ := Specifier.points_of_resolve h
  refine ⟨?_, ?_, ?_⟩
  · rintro rfl
    cases hslash
  · intro c hc
    have hc' := hline c hc
    simp [Import.isSpecifierPoint, hfree c hc, hc'.1, hc'.2]
  · intro quote rest
    cases htail : Import.takeTail? quote (quote :: (target ++ rest)) with
    | none => rfl
    | some tail =>
      -- the first mark of a tail is its `;`, and the first one of the target is a `/`
      obtain ⟨hIsTail, after, hafter⟩ := Import.takeTail?_eq_some_iff.mp htail
      obtain ⟨points, rfl, hpoints⟩ := hIsTail.exists_points
      have hnone : points.find? isSlashOrSemicolon = none :=
        find?_isSlashOrSemicolon_eq_none rfl rfl hpoints
      have heq : target ++ rest = points ++ (';' : CodePoint) :: after := by
        have h := (List.cons.inj hafter).2
        simpa using h
      have hfirst := congrArg (List.find? isSlashOrSemicolon) heq
      rw [List.find?_append, List.find?_append, hslash, hnone,
        List.find?_cons_of_pos (by decide)] at hfirst
      exact absurd (Option.some.inj hfirst) (by decide)

section Finished

variable {entry : Source} {ctx : Context τ} {g : SourceGraph}

theorem target_of_finished (h : Finished entry ctx g) {node : SourceNode} (hnode : node ∈ g.nodes)
    {s : Text} (hs : s ∈ Import.specifiers node.content) :
    node.target s ∈ g.keys
      ∧ Specifier.resolve s node.base ctx (some node.key) = .ok (node.target s)
      ∧ Table.get? s node.edges = some (node.target s) := by
  obtain ⟨target, hmem, hresolve, hget⟩ := (h.edges node hnode).target s hs
  have htarget : node.target s = target := by
    rw [SourceNode.target, hget]
    rfl
  rw [htarget]
  exact ⟨hmem, hresolve, hget⟩

/-- A rewritten source scans to the targets of its imports if and only if none of them holds a
quote. -/
theorem specifiers_rewritten_iff (h : Finished entry ctx g) {node : SourceNode}
    (hnode : node ∈ g.nodes) :
    Import.specifiers node.rewritten = (Import.specifiers node.content).map node.target
      ↔ ∀ s ∈ Import.specifiers node.content, QuoteFree (node.target s) := by
  constructor
  · intro hscan s hs c hc
    have hmem : node.target s ∈ Import.specifiers node.rewritten := by
      rw [hscan]
      exact List.mem_map_of_mem hs
    exact Import.not_isQuote_of_mem_specifiers hmem c hc
  · intro hfree
    apply Import.specifiers_rewrite
    intro s hs target hget
    obtain ⟨-, hresolve, hget'⟩ := target_of_finished h hnode hs
    rw [hget] at hget'
    obtain rfl := Option.some.inj hget'
    exact pastable_of_resolve hresolve (hfree s hs)

/-- The bases of what is discovered stay in a class of code points that holds the specifiers, the
package source and the pinned versions. -/
theorem forall_mem_base {p : CodePoint → Prop} (hp : Url.Closed p)
    (hentry : ∀ c ∈ entry.base.getD [], p c) (hcdn : ∀ c ∈ ctx.packageCdn, p c)
    (hversions : ∀ pinned ∈ ctx.packageVersions, ∀ c ∈ pinned.2, p c) {sources : List Source}
    {targets : List Text} (h : Discovered entry ctx sources targets)
    (hspecifiers : ∀ x ∈ sources, ∀ s ∈ x.specifiers, ∀ c ∈ s, p c) :
    ∀ x ∈ sources, ∀ c ∈ x.base.getD [], p c := by
  induction h with
  | start =>
    intro x hx
    obtain rfl := List.mem_singleton.mp hx
    exact hentry
  | known _ _ ih => exact ih hspecifiers
  | @new sources targets importer child content _ himporter hchild _ _ _ _ ih =>
    have hold : ∀ x ∈ sources, ∀ s ∈ x.specifiers, ∀ c ∈ s, p c := fun x hx =>
      hspecifiers x (List.mem_append_left _ hx)
    -- the base of a new source is the key that an import of an older one resolved to
    intro x hx
    rcases List.mem_append.mp hx with hx | hx
    · exact ih hold x hx
    · obtain rfl := List.mem_singleton.mp hx
      obtain ⟨s, hs, hresolve⟩ := exists_resolve_of_mem_targetsOf hchild
      exact Specifier.forall_mem_resolve hp hresolve (hold importer himporter s hs)
        (ih hold importer himporter) hcdn hversions

theorem quoteFree_of_versions (h : Finished entry ctx g) (hentry : QuoteFree (entry.base.getD []))
    (hcdn : QuoteFree ctx.packageCdn)
    (hversions : ∀ pinned ∈ ctx.packageVersions, QuoteFree pinned.2) {node : SourceNode}
    (hnode : node ∈ g.nodes) {s : Text} (hs : s ∈ Import.specifiers node.content) :
    QuoteFree (node.target s) := by
  obtain ⟨-, hresolve, -⟩ := target_of_finished h hnode hs
  have hbase := forall_mem_base Url.closed_notQuote hentry hcdn hversions h.discovered
    (fun _ _ _ hs => Import.not_isQuote_of_mem_specifiers hs) node.source (List.mem_map_of_mem hnode)
  exact Specifier.forall_mem_resolve Url.closed_notQuote hresolve
    (Import.not_isQuote_of_mem_specifiers hs) hbase hcdn hversions

end Finished

/-! ### The document of a request -/

namespace Pipeline

variable [Seconds τ]

/-- **When the sources of a request refer only to each other.**  A rewritten source scans to the
targets of its imports exactly if none of these holds a quote.  Where that is so for all sources,
every import names one of them and none is lost or made; and it is so if no pinned version holds
a quote. -/
theorem selfContained_of_resolveSources {owned : Bool} {config : Config τ} {payload : Json}
    {w w₁ w₂ w₃ : World τ} {request : Request} {ctx : Context τ} {g : SourceGraph}
    {sources : Table Text} (hparse : parseRequest config payload w = .ok (request, ctx) w₁)
    (hcdn : QuoteFree config.packageCdn)
    (hresolve : resolveSources owned config request ctx w₁ = .ok g w₂)
    (hrewrite : rewriteImports g w₂ = .ok sources w₃) :
    (∀ node ∈ g.nodes,
        Import.specifiers node.rewritten = (Import.specifiers node.content).map node.target
          ↔ ∀ s ∈ Import.specifiers node.content, QuoteFree (node.target s))
      ∧ ((∀ node ∈ g.nodes, ∀ s ∈ Import.specifiers node.content, QuoteFree (node.target s)) →
        sources = g.nodes.map (fun node => (node.key, node.rewritten))
          ∧ (∀ source ∈ sources, ∀ s ∈ Import.specifiers source.2, s ∈ sources.names)
          ∧ ∀ node ∈ g.nodes, (Import.specifiers node.rewritten).length
            = (Import.specifiers node.content).length)
      ∧ ((∀ pinned ∈ request.packageVersions, QuoteFree pinned.2) →
        ∀ node ∈ g.nodes, ∀ s ∈ Import.specifiers node.content, QuoteFree (node.target s)) := by
  have hfin := finished_of_resolveSources hresolve
  have hctx := context_of_parseRequest hparse
  have hsources : sources = g.nodes.map fun node => (node.key, node.rewritten) := by
    cases hrewrite
    rfl
  refine ⟨fun node hnode => specifiers_rewritten_iff hfin hnode, ?_, ?_⟩
  · intro hfree
    have hscan : ∀ node ∈ g.nodes,
        Import.specifiers node.rewritten = (Import.specifiers node.content).map node.target :=
      fun node hnode => (specifiers_rewritten_iff hfin hnode).mpr (hfree node hnode)
    refine ⟨hsources, ?_, ?_⟩
    · have hnames : sources.names = g.keys := by
        rw [hsources, Table.names, List.map_map]
        rfl
      intro source hsource s hs
      rw [hsources] at hsource
      obtain ⟨node, hnode, rfl⟩ := List.mem_map.mp hsource
      rw [hscan node hnode] at hs
      obtain ⟨s', hs', rfl⟩ := List.mem_map.mp hs
      rw [hnames]
      exact (target_of_finished hfin hnode hs').1
    · intro node hnode
      rw [hscan node hnode, List.length_map]
  · intro hversions node hnode s hs
    rw [hctx] at hfin
    refine quoteFree_of_versions hfin ?_ hcdn hversions hnode hs
    intro c hc
    cases hc

/-! ### A package at a pinned version -/

/-- A request that imports a file of a package. -/
def packagePayload (version : Text) : Json := .object [
  ("source", .string "import \"pkg/a.sol\";"), ("filename", .string "e.sol"),
  ("packageVersions", .object [("pkg", .string version)])]

/-- The web that serves this file. -/
def packageWorld (version : Text) : World Int where
  now := 0
  routes := [("https://unpkg.com/pkg@" ++ version ++ "/a.sol",
    [⟨0, .ok ⟨200, some "OK", [], .whole (Utf8.encodeLenient "contract A \x7b\x7d")⟩⟩])]
  tools := .idle
  room := .usual
  breakdown := none
  trace := []

/-- Checks the graph of that request. -/
def packageCheck (version : Text) (check : SourceGraph → Bool) : Bool :=
  match parseRequest Config.builtin (packagePayload version) (packageWorld version) with
  | .ok (request, ctx) w =>
    match resolveSources true Config.builtin request ctx w with
    | .ok g _ => request.packageVersions = [(("pkg" : Text), version)] && check g
    | .error _ _ => false
  | .error _ _ => false

theorem exists_of_packageCheck {version : Text} {check : SourceGraph → Bool}
    (h : packageCheck version check = true) :
    ∃ request ctx g w₁ w₂,
      parseRequest Config.builtin (packagePayload version) (packageWorld version)
        = .ok (request, ctx) w₁
      ∧ resolveSources true Config.builtin request ctx w₁ = .ok g w₂
      ∧ request.packageVersions = [(("pkg" : Text), version)] ∧ check g = true := by
  unfold packageCheck at h
  split at h
  case h_1 request ctx w₁ hparse =>
    split at h
    case h_1 g w₂ hresolve =>
      rw [Bool.and_eq_true, decide_eq_true_iff] at h
      exact ⟨request, ctx, g, w₁, w₂, hparse, hresolve, h⟩
    case h_2 => cases h
  case h_2 => cases h

theorem selfContained_plain_version : ∃ request ctx g w₁ w₂ w₃,
    parseRequest Config.builtin (packagePayload "1") (packageWorld "1") = .ok (request, ctx) w₁
      ∧ QuoteFree (Config.builtin : Config Int).packageCdn
      ∧ resolveSources true Config.builtin request ctx w₁ = .ok g w₂
      ∧ rewriteImports g w₂ = .ok g.rewritten w₃
      ∧ g.keys.length = 2
      ∧ ∀ source ∈ g.rewritten, ∀ s ∈ Import.specifiers source.2, s ∈ g.rewritten.names := by
  have hcheck : packageCheck "1" (fun g => g.keys.length = 2) = true := by decide +kernel
  obtain ⟨request, ctx, g, w₁, w₂, hparse, hresolve, hversions, hlength⟩ :=
    exists_of_packageCheck hcheck
  have hcdn : QuoteFree (Config.builtin : Config Int).packageCdn := by decide
  have hrewrite : rewriteImports g w₂ = .ok g.rewritten w₂ := rfl
  obtain ⟨-, hclosed, hfree⟩ := selfContained_of_resolveSources hparse hcdn hresolve hrewrite
  refine ⟨request, ctx, g, w₁, w₂, w₂, hparse, hcdn, hresolve, hrewrite,
    of_decide_eq_true hlength, ?_⟩
  refine (hclosed (hfree ?_)).2.1
  rw [hversions]
  decide

/-- A pinned version with a quote and a statement in it: one import becomes two, and neither names
a source. -/
theorem open_injected_version : ∃ request ctx g w₁ w₂ w₃,
    parseRequest Config.builtin (packagePayload "1\"; import \"x")
        (packageWorld "1\"; import \"x") = .ok (request, ctx) w₁
      ∧ QuoteFree (Config.builtin : Config Int).packageCdn
      ∧ resolveSources true Config.builtin request ctx w₁ = .ok g w₂
      ∧ rewriteImports g w₂ = .ok g.rewritten w₃
      ∧ (¬ ∀ source ∈ g.rewritten, ∀ s ∈ Import.specifiers source.2, s ∈ g.rewritten.names)
      ∧ ¬ ∀ node ∈ g.nodes, (Import.specifiers node.rewritten).length
        = (Import.specifiers node.content).length := by
  have hcheck : packageCheck "1\"; import \"x" (fun g =>
      (¬ ∀ source ∈ g.rewritten, ∀ s ∈ Import.specifiers source.2, s ∈ g.rewritten.names)
        ∧ ¬ ∀ node ∈ g.nodes, (Import.specifiers node.rewritten).length
          = (Import.specifiers node.content).length) = true := by decide +kernel
  obtain ⟨request, ctx, g, w₁, w₂, hparse, hresolve, -, hopen⟩ := exists_of_packageCheck hcheck
  have hcdn : QuoteFree (Config.builtin : Config Int).packageCdn := by decide
  exact ⟨request, ctx, g, w₁, w₂, w₂, hparse, hcdn, hresolve, rfl, of_decide_eq_true hopen⟩

end Pipeline

end CompileGate
