/-
CompileGate/Proofs/Reachability.lean

A walk finds what can be reached, and nothing else.

The fetcher is any that never returns another text for a URL than the one of a
`SourceSpace` (`Fetcher.Serves`); it may keep a state and it may fail.  Whatever
graph a walk then returns is the part of that space that the entry reaches:
cycles, diamonds, repeated specifiers, imports of the importing file and imports
of the entry itself all end in one node per key.

The limits and the deadline are not mentioned: they only decide whether a walk
returns.
-/
import CompileGate.Proofs.WalkOutcome

namespace CompileGate

open SourceGraph

variable {τ σ : Type} [Seconds τ]

/-- No text of a URL but the given one is ever returned. -/
def SourceGraph.Fetcher.Serves (fetcher : Fetcher τ σ) (text : Text → Text) : Prop :=
  ∀ url limit s content t, fetcher.fetch url limit s = .ok content t → content = text url

namespace SourceSpace

variable {S : SourceSpace} {ctx : Context τ}

/-- `g` is the part of the space that the entry reaches. -/
structure IsReachedBy (S : SourceSpace) (ctx : Context τ) (g : SourceGraph) : Prop where
  entryKey_eq : g.entryKey = S.entry.key
  mem_keys : ∀ key, key ∈ g.keys ↔ S.Reaches ctx key
  nodup : g.keys.Nodup
  /-- The keys are those of some round of the breadth-first order ... -/
  order : ∃ n, g.keys = S.within ctx n
  /-- ... and those of every round come before the others. -/
  nearest_first : ∀ n, S.within ctx n <+: g.keys
  /-- A node other than the entry has the text of its key and stands at its key. -/
  source : ∀ node ∈ g.nodes, node.source = S.sourceAt node.key
  edge_names : ∀ node ∈ g.nodes,
    node.edges.names = (Import.specifiers node.content).eraseDups
  edge : ∀ node ∈ g.nodes, ∀ s ∈ Import.specifiers node.content, ∃ target ∈ g.keys,
    Table.get? s node.edges = some target
      ∧ ∀ referrer, Specifier.resolve s node.base ctx referrer = .ok target
  fetches : g.fetches + 1 = g.nodes.length
  totalBytes : ∃ forms : List (List UInt8),
    g.nodes.map (fun node => Utf8.encode node.content) = forms.map .ok
      ∧ g.totalBytes = (forms.map List.length).sum

/-- The invariant of a walk through the space: every source found is the one of its key. -/
def Holds (S : SourceSpace) (sources : List Source) : Prop := ∀ x ∈ sources, x = S.sourceAt x.key

omit [Seconds τ] in
theorem holds_entry : S.Holds [S.entry] := by
  intro x hx
  obtain rfl := List.mem_singleton.mp hx
  exact sourceAt_entry.symm

omit [Seconds τ] in
theorem holds_append {sources : List Source} {child : Text} (h : S.Holds sources)
    (hentry : S.entry ∈ sources) (hnew : child ∉ sources.map Source.key) :
    S.Holds (sources ++ [.fetched child (S.text child)]) := by
  intro x hx
  rcases List.mem_append.mp hx with hx | hx
  · exact h x hx
  · obtain rfl := List.mem_singleton.mp hx
    have hne : child ≠ S.entry.key := by
      rintro rfl
      exact hnew (List.mem_map_of_mem hentry)
    exact (if_neg hne).symm

theorem keeps_of_serves {fetcher : Fetcher τ σ} (hserves : fetcher.Serves S.text) :
    fetcher.Keeps S.entry ctx (fun sources _ => S.Holds sources) fun _ _ _ _ => True := by
  intro sources x child s hp _ _ hj
  obtain ⟨targets, hd⟩ := hp.discovered
  unfold Effect.Ensures
  cases hf : fetcher.fetch child (ctx.maxTotalBytes - totalSize sources) s with
  | error e t => trivial
  | ok content t =>
    obtain rfl := hserves _ _ _ _ _ hf
    exact holds_append hj hd.entry_mem hp.fresh

/-- The total of a finished walk counts the bytes of the UTF-8 forms of all contents. -/
theorem exists_forms {sources : List Source} (h : ∀ x ∈ sources, Utf8.Encodable x.content) :
    ∃ forms : List (List UInt8), sources.map (fun x => Utf8.encode x.content) = forms.map .ok
      ∧ totalSize sources = (forms.map List.length).sum := by
  refine ⟨sources.map fun x => x.content.flatMap Utf8.encodePoint, ?_, ?_⟩
  · rw [List.map_map]
    apply List.map_congr_left
    intro x hx
    exact Utf8.encode_eq_ok (h x hx)
  · rw [List.map_map]
    rfl

/-- **A returned graph is exactly what the entry reaches**, whatever the fetcher's state is and
whatever else it might have done. -/
theorem isReachedBy_of_build (S : SourceSpace) (ctx : Context τ) (fetcher : Fetcher τ σ)
    (hserves : fetcher.Serves S.text) {s t : σ} {g : SourceGraph}
    (h : build ctx fetcher S.entry.key S.entry.content S.entry.base s = .ok g t) :
    S.IsReachedBy ctx g := by
  obtain ⟨hfin, hholds⟩ := (build_ensures (keeps_of_serves hserves) holds_entry).of_ok h
  have hkeys : g.keys = (g.nodes.map SourceNode.source).map Source.key := by
    rw [List.map_map]
    rfl
  have hmem : ∀ node ∈ g.nodes, node.source ∈ g.nodes.map SourceNode.source :=
    fun node => List.mem_map_of_mem
  obtain ⟨n, hn⟩ := exists_within_eq hfin.discovered hholds
  refine ⟨hfin.entryKey_eq, ?_, ?_, ⟨n, ?_⟩, ?_, ?_, ?_, ?_, hfin.fetches_eq, ?_⟩
  · rw [hkeys]
    exact mem_keys_iff_reaches hfin.discovered hholds
  · rw [hkeys]
    exact hfin.discovered.nodup_keys
  · rw [hkeys, hn]
  · rw [hkeys]
    exact within_isPrefix_keys hfin.discovered hholds
  · intro node hnode
    exact hholds _ (hmem node hnode)
  · intro node hnode
    exact (hfin.edges node hnode).names_eq
  · intro node hnode specifier hs
    obtain ⟨target, ht, hr, hget⟩ := (hfin.edges node hnode).target specifier hs
    exact ⟨target, ht, hget, fun r => Specifier.resolve_ok_congr hr r⟩
  · obtain ⟨forms, hforms, hsum⟩ := exists_forms hfin.discovered.encodable
    refine ⟨forms, ?_, ?_⟩
    · rw [← hforms, List.map_map]
      rfl
    · rw [hfin.totalBytes_eq, hsum]

/-! ### A ring of sources -/

/-- Three sources that import each other and themselves, the entry among them. -/
def ring : SourceSpace where
  entry := ⟨"https://host/E.sol", "import './A.sol'; import './B.sol'; import './A.sol';",
    some "https://host/E.sol"⟩
  text url :=
    if url = Text.ofString "https://host/A.sol" then "import './B.sol'; import './E.sol';"
    else "import 'https://host/A.sol'; import './B.sol';"

def ringContext : Context Float where
  maxSources := 3
  maxTotalBytes := 200
  allowedHosts := ["host"]
  packageCdn := "https://host"
  packageVersions := []
  deadline := none
  timeout := none

def ringFetcher : Fetcher Float Unit where
  fetch url _ := pure (ring.text url)
  now _ := 0

def ringKeys : List Text := ["https://host/E.sol", "https://host/A.sol", "https://host/B.sol"]

theorem isReachedBy_ring : ∃ g t, ringFetcher.Serves ring.text
    ∧ build ringContext ringFetcher ring.entry.key ring.entry.content ring.entry.base () = .ok g t
    ∧ ring.IsReachedBy ringContext g ∧ g.keys = ringKeys := by
  have hserves : ringFetcher.Serves ring.text := by
    rintro url limit s content t ⟨⟩
    rfl
  have hrun : (match build ringContext ringFetcher ring.entry.key ring.entry.content
      ring.entry.base () with
      | .ok g _ => decide (g.keys = ringKeys)
      | .error _ _ => false) = true := by decide +kernel
  cases h : build ringContext ringFetcher ring.entry.key ring.entry.content ring.entry.base () with
  | ok g t =>
    rw [h] at hrun
    exact ⟨g, t, hserves, rfl, isReachedBy_of_build ring ringContext ringFetcher hserves h,
      of_decide_eq_true hrun⟩
  | error e t =>
    rw [h] at hrun
    cases hrun

end SourceSpace

end CompileGate
