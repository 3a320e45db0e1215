/-
CompileGate/SourceGraph.lean

The graph of sources that an entry source reaches through its imports.

The walk goes breadth first.  Every key is fetched once; an import of a known
key is recorded as an edge and not followed again, which is also what ends
cycles.  The number of sources is checked before a new key is fetched and the
number of bytes right after, and the first failure ends the walk.

Each step of the walk takes a node off the waiting list, and there are never
more nodes than the limit allows, so the limit bounds the number of steps.
-/
import CompileGate.Import.Rewrite
import CompileGate.Specifier.Resolve
import CompileGate.World

namespace CompileGate

/-- A source of the graph. -/
structure SourceNode where
  /-- The name of the entry, or a canonical URL. -/
  key : Text
  content : Text
  /-- The URL that relative imports are resolved against. -/
  base : Option Text
  /-- The keys that the specifiers of the source resolved to. -/
  edges : Table Text

/-- A walked graph. -/
structure SourceGraph where
  entryKey : Text
  /-- The entry first, then the others in the order in which they were found. -/
  nodes : List SourceNode
  totalBytes : Nat
  fetches : Nat

namespace SourceGraph

def keys (g : SourceGraph) : List Text := g.nodes.map SourceNode.key

/-- The rewritten sources by key, in the order of the nodes. -/
def rewritten (g : SourceGraph) : Table Text :=
  g.nodes.map fun node => (node.key, Import.rewrite node.content node.edges)

variable {τ σ : Type}

/-- Where texts come from, and the clock of that place. -/
structure Fetcher (τ σ : Type) where
  /-- The text of a URL, of which no more than a number of bytes are wanted. -/
  fetch : Text → Int → Effect τ σ Text
  now : σ → τ

/-- The state of a walk between two imports. -/
structure Walk where
  /-- The nodes whose imports are followed, in order. -/
  scanned : List SourceNode
  /-- The edges of the node whose imports are being followed. -/
  edges : Table Text
  /-- The nodes whose imports are still to be followed, in order. -/
  waiting : List SourceNode
  totalBytes : Nat
  fetches : Nat

/-- The keys of the nodes found so far; `current` is the node whose imports are being followed. -/
def Walk.keys (w : Walk) (current : Text) : List Text :=
  w.scanned.map SourceNode.key ++ current :: w.waiting.map SourceNode.key

/-- The number of bytes of a text, as an effect. -/
def sizeOf (t : Text) : Effect τ σ Nat := World.lift (Failure.ofEncoding (Utf8.size t))

/-- Fetches a new key that `current` imports. -/
def discover [Seconds τ] (ctx : Context τ) (fetcher : Fetcher τ σ) (current child : Text)
    (w : Walk) : Effect τ σ Walk := do
  if ctx.maxSources ≤ (w.keys current).length then
    World.abort (.resourceLimitExceeded .sources ctx.maxSources (some current) (some child))
  else if ctx.isOver (fetcher.now (← get)) then
    World.abort (.deadlineExceeded ctx.namedTimeout (some child))
  else
    let content ← fetcher.fetch child (ctx.maxTotalBytes - w.totalBytes)
    let totalBytes := w.totalBytes + (← sizeOf content)
    if ctx.maxTotalBytes < totalBytes then
      World.abort (.resourceLimitExceeded .totalBytes ctx.maxTotalBytes (some current)
        (some child))
    else
      return { w with
        waiting := w.waiting ++ [⟨child, content, some child, []⟩]
        totalBytes := totalBytes
        fetches := w.fetches + 1 }

/-- Follows the imports of a node, one after the other. -/
def follow [Seconds τ] (ctx : Context τ) (fetcher : Fetcher τ σ) (node : SourceNode) :
    List Text → Walk → Effect τ σ Walk
  | [], w => return w
  | specifier :: rest, w => do
    let child ← World.lift (Specifier.resolve specifier node.base ctx (some node.key))
    let w := { w with edges := Table.insert specifier child w.edges }
    if (w.keys node.key).contains child then follow ctx fetcher node rest w
    else do
      let w ← discover ctx fetcher node.key child w
      follow ctx fetcher node rest w

/-- Follows the imports of the waiting nodes, of at most `steps` of them. -/
def walk [Seconds τ] (ctx : Context τ) (fetcher : Fetcher τ σ) : (steps : Nat) → Walk →
    Effect τ σ Walk
  | 0, w => return w
  | steps + 1, w =>
    match w.waiting with
    | [] => return w
    | node :: waiting => do
      let w ← follow ctx fetcher node (Import.specifiers node.content)
        { w with edges := node.edges, waiting := waiting }
      walk ctx fetcher steps
        { w with scanned := w.scanned ++ [{ node with edges := w.edges }], edges := [] }

/-- The graph of the sources that an entry reaches. -/
def build [Seconds τ] (ctx : Context τ) (fetcher : Fetcher τ σ) (key content : Text)
    (base : Option Text) : Effect τ σ SourceGraph := do
  let bytes ← sizeOf content
  if ctx.maxTotalBytes < bytes then
    World.abort (.resourceLimitExceeded .totalBytes ctx.maxTotalBytes (some key) none)
  else if ctx.maxSources < 1 then
    World.abort (.resourceLimitExceeded .sources ctx.maxSources (some key) none)
  else
    let w ← walk ctx fetcher ctx.maxSources.toNat ⟨[], [], [⟨key, content, base, []⟩], bytes, 0⟩
    return ⟨key, w.scanned, w.totalBytes, w.fetches⟩

end SourceGraph

end CompileGate
