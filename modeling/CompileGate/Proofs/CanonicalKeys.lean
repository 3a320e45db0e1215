/-
CompileGate/Proofs/CanonicalKeys.lean

Whether a graph can hold one source twice, under two spellings.

The key of an imported source is the canonical form of what an import names
(`exists_names_of_imported`), and different sources have different keys.  So no source
is held twice if every key is its own canonical form, and that is a question about
single keys (`canonical_keys_of_build`): a key is one exactly if it is in canonical
form, and if the import names a URL with a host, exactly if the default port and
the `//` of its path do not come back.

They can come back, as `one_source_twice` shows for both: canonicalisation drops
one port and one `//`, and leaves what was behind them.
-/
import CompileGate.Proofs.CanonicalForm
import CompileGate.Proofs.Reachability
import CompileGate.Proofs.ResolvedUrl
import Mathlib.Data.List.Nodup

namespace CompileGate
namespace SourceGraph

open Effect

variable {τ σ : Type}

/-- The sources other than the entry. -/
def imported (g : SourceGraph) : List SourceNode := g.nodes.tail

/-- A discovered source other than the entry is what an import of a discovered one names. -/
theorem exists_target_of_mem_tail {entry : Source} {ctx : Context τ} {sources : List Source}
    {targets : List Text} (h : Discovered entry ctx sources targets) :
    ∀ x ∈ sources.tail, ∃ importer ∈ sources, x.key ∈ importer.targets ctx := by
  induction h with
  | start => exact fun x hx => absurd hx List.not_mem_nil
  | known _ _ ih => exact ih
  | @new sources targets importer child content h himporter hchild _ _ _ _ ih =>
    obtain ⟨rest, rfl⟩ := h.exists_eq_cons
    intro x hx
    rcases List.mem_append.mp hx with hx | hx
    · obtain ⟨y, hy, htarget⟩ := ih x hx
      exact ⟨y, List.mem_append_left _ hy, htarget⟩
    · obtain rfl := List.mem_singleton.mp hx
      exact ⟨importer, List.mem_append_left _ himporter, hchild⟩

/-- The key of an imported source is the canonical form of what an import names. -/
theorem exists_names_of_imported {entry : Source} {ctx : Context τ} {g : SourceGraph}
    (h : Finished entry ctx g) {node : SourceNode} (hnode : node ∈ g.imported) :
    ∃ importer ∈ g.nodes, ∃ s ∈ Import.specifiers importer.content, ∃ t,
      Specifier.Names (Text.strip s) (importer.base.getD []) ctx none t
        ∧ Url.canonical t = .ok node.key ∧ Allowed ctx node.key := by
  have htail : node.source ∈ (g.nodes.map SourceNode.source).tail := by
    rw [← List.map_tail]
    exact List.mem_map_of_mem hnode
  obtain ⟨x, hx, htarget⟩ := exists_target_of_mem_tail h.discovered _ htail
  obtain ⟨importer, himporter, rfl⟩ := List.mem_map.mp hx
  obtain ⟨s, hs, hresolve⟩ := exists_resolve_of_mem_targetsOf htarget
  obtain ⟨t, hnames, hcanonical, hallowed⟩ := Specifier.exists_names_of_resolve hresolve
  exact ⟨importer, himporter, s, hs, t, hnames, hcanonical, hallowed⟩

variable [Seconds τ]

/-- **When a graph holds no source twice.**  The key of an imported source is its own canonical
form exactly if it is in canonical form; where the import names a URL with a host, exactly if its
authority does not end in the default port once more and the `//` at the front of its path, if
any, stays.  If all keys are in canonical form, no two sources have the same one. -/
theorem canonical_keys_of_build {ctx : Context τ} {fetcher : Fetcher τ σ} {key content : Text}
    {base : Option Text} {s t : σ} {g : SourceGraph}
    (h : build ctx fetcher key content base s = .ok g t) :
    (∀ node ∈ g.imported,
        Url.canonical node.key = .ok node.key ↔ Url.InCanonicalForm node.key)
      ∧ (∀ node ∈ g.imported, ∃ importer ∈ g.nodes, ∃ s ∈ Import.specifiers importer.content,
        ∃ text, Specifier.Names (Text.strip s) (importer.base.getD []) ctx none text
          ∧ Url.canonical text = .ok node.key
          ∧ (Url.hostOf text ≠ [] → (Url.canonical node.key = .ok node.key
            ↔ ∀ url, Url.split node.key = .ok url →
              url.spellsPort = false ∧ Url.KeepsSlashes url.path)))
      ∧ ((∀ node ∈ g.imported, Url.InCanonicalForm node.key) →
        (g.imported.map fun node => Url.canonical node.key).Nodup) := by
  obtain ⟨hfin, -⟩ := (build_ensures (fetcher.keeps_true ⟨key, content, base⟩ ctx) (s := s)
    trivial).of_ok h
  have hfixed : ∀ node ∈ g.imported,
      Url.canonical node.key = .ok node.key ↔ Url.InCanonicalForm node.key := by
    intro node hnode
    obtain ⟨-, -, -, -, -, -, -, hallowed⟩ := exists_names_of_imported hfin hnode
    exact Url.canonical_eq_self_iff hallowed.1
  refine ⟨hfixed, ?_, ?_⟩
  · intro node hnode
    obtain ⟨importer, himporter, s, hs, text, hnames, hcanonical, hallowed⟩ :=
      exists_names_of_imported hfin hnode
    exact ⟨importer, himporter, s, hs, text, hnames, hcanonical, fun hhost =>
      Url.canonical_fixed_iff hhost hcanonical hallowed.1⟩
  · intro hall
    -- the canonical forms are the keys themselves, and these are different
    have hmap : (g.imported.map fun node => Url.canonical node.key)
        = (g.imported.map SourceNode.key).map Except.ok := by
      rw [List.map_map]
      exact List.map_congr_left fun node hnode => (hfixed node hnode).mpr (hall node hnode)
    have hkeys : (g.imported.map SourceNode.key).Nodup := by
      have hnodup := hfin.discovered.nodup_keys
      rw [List.map_map] at hnodup
      rw [imported, List.map_tail]
      exact hnodup.sublist (List.tail_sublist _)
    rw [hmap]
    exact List.Nodup.map (fun _ _ heq => Except.ok.inj heq) hkeys

/-! ### Ports and slashes that come back -/

/-- The context of the ring, with room for more sources. -/
def hostContext : Context Float := { SourceSpace.ringContext with maxSources := 8 }

/-- A place where every text is empty. -/
def blankFetcher : Fetcher Float Unit where
  fetch _ _ := pure []
  now _ := 0

/-- Whether an entry without a base has a graph for which a check succeeds. -/
def graphCheck (content : Text) (check : SourceGraph → Bool) : Bool :=
  (EStateM.run' (build hostContext blankFetcher "e.sol" content none) ()).any check

theorem exists_of_graphCheck {content : Text} {check : SourceGraph → Bool}
    (h : graphCheck content check = true) : ∃ g t,
      build hostContext blankFetcher "e.sol" content none () = .ok g t ∧ check g = true := by
  unfold graphCheck EStateM.run' EStateM.run at h
  cases hbuild : build hostContext blankFetcher "e.sol" content none () with
  | ok g t =>
    rw [hbuild] at h
    exact ⟨g, t, rfl, h⟩
  | error e t =>
    rw [hbuild] at h
    cases h

/-- An entry whose imports name a port and an authority in the path once. -/
def plainEntry : Text := "import 'http://host:80/a.sol'; import 'http://host//x/b.sol';"

def plainKeys : List Text := ["http://host/a.sol", "http://host//x/b.sol"]

theorem canonical_keys_plain : ∃ g t,
    build hostContext blankFetcher "e.sol" plainEntry none () = .ok g t
      ∧ g.imported.map SourceNode.key = plainKeys
      ∧ (∀ node ∈ g.imported, Url.InCanonicalForm node.key)
      ∧ (g.imported.map fun node => Url.canonical node.key).Nodup := by
  have hcheck : graphCheck plainEntry (fun g => g.imported.map SourceNode.key = plainKeys
      ∧ ∀ node ∈ g.imported, Url.canonical node.key = .ok node.key) = true := by decide +kernel
  obtain ⟨g, t, hbuild, hg⟩ := exists_of_graphCheck hcheck
  obtain ⟨hkeys, hself⟩ := of_decide_eq_true hg
  obtain ⟨hfixed, -, hnodup⟩ := canonical_keys_of_build hbuild
  have hform : ∀ node ∈ g.imported, Url.InCanonicalForm node.key := fun node hnode =>
    (hfixed node hnode).mp (hself node hnode)
  exact ⟨g, t, hbuild, hkeys, hform, hnodup hform⟩

/-- An entry whose imports name a port twice, and slashes with nothing between them. -/
def repeatedEntry : Text :=
  "import 'http://host:80:80/a.sol'; import 'http://host/a.sol'; " ++
    "import 'http://host/////b.sol'; import 'http://host/b.sol';"

def repeatedKeys : List Text := [
  "http://host:80/a.sol", "http://host/a.sol", "http://host///b.sol", "http://host/b.sol"]

/-- What is left after one port or two slashes is not canonical, and its canonical form is the key
of another source. -/
theorem one_source_twice : ∃ g t,
    build hostContext blankFetcher "e.sol" repeatedEntry none () = .ok g t
      ∧ g.imported.map SourceNode.key = repeatedKeys
      ∧ (¬ ∀ node ∈ g.imported, Url.canonical node.key = .ok node.key)
      ∧ ¬ (g.imported.map fun node => Url.canonical node.key).Nodup := by
  have hcheck : graphCheck repeatedEntry (fun g => g.imported.map SourceNode.key = repeatedKeys
      ∧ (¬ ∀ node ∈ g.imported, Url.canonical node.key = .ok node.key)
      ∧ ¬ (g.imported.map fun node => Url.canonical node.key).Nodup) = true := by decide +kernel
  obtain ⟨g, t, hbuild, hg⟩ := exists_of_graphCheck hcheck
  exact ⟨g, t, hbuild, of_decide_eq_true hg⟩

end SourceGraph

end CompileGate
