/-
CompileGate/Proofs/EntryKeys.lean

The key of the entry among the keys of its imports.

The two kinds of keys stand in one graph.  The key of the entry is a name (`EntryKey.IsName`):
what is safe in the file name, or the digest of the source between two fixed words.  The keys
of imports are resolved URLs.  A URL with a host has a slash, which is not safe in a name, so
no import resolves to the key of the entry, whatever a request asks for.

Main result: `entry_key_apart`.
-/
import CompileGate.Proofs.CanonicalKeys
import CompileGate.Proofs.PayloadFailures
import CompileGate.Proofs.SelfContained
import CompileGate.Proofs.WrittenNumber

namespace CompileGate

theorem Table.get?_of_mem {α : Type u} {t : Table α} (hnames : t.names.Nodup) {name : Text}
    {value : α} (h : (name, value) ∈ t) : get? name t = some value := by
  induction t with
  | nil => cases h
  | cons entry rest ih =>
    obtain ⟨key, first⟩ := entry
    obtain ⟨hnew, hrest⟩ := List.nodup_cons.mp hnames
    rcases List.mem_cons.mp h with heq | h
    · cases heq
      rw [get?, if_pos rfl]
    · have hmem : name ∈ names rest := List.mem_map_of_mem h
      have hne : key ≠ name := fun heq => hnew (heq ▸ hmem)
      rw [get?, if_neg hne, ih hrest h]

/-! ### Digests in hexadecimal -/

theorem Text.forall_mem_hex {p : CodePoint → Prop} (hp : ∀ n < 16, p (hexDigit n)) (n : Nat) :
    ∀ c ∈ hex n, p c := by
  induction n using Nat.strongRecOn with
  | ind n ih =>
    by_cases h : n < 16
    · rw [hex_of_lt h]
      intro c hc
      rw [List.mem_singleton.mp hc]
      exact hp n h
    · rw [hex_of_le (by omega)]
      intro c hc
      rcases List.mem_append.mp hc with hc | hc
      · exact ih (n / 16) (by omega) c hc
      · rw [List.mem_singleton.mp hc]
        exact hp _ (Nat.mod_lt n (by decide))

/-- A digest is written in hexadecimal digits. -/
theorem Sha256.forall_mem_hexDigest {p : CodePoint → Prop} (hp : ∀ n < 16, p (Text.hexDigit n))
    (bytes : List UInt8) : ∀ c ∈ hexDigest bytes, p c := by
  intro c hc
  rw [hexDigest, List.mem_flatMap] at hc
  obtain ⟨word, -, hc⟩ := hc
  rcases List.mem_append.mp hc with hc | hc
  · rw [List.eq_of_mem_replicate hc]
    exact hp 0 (by decide)
  · exact Text.forall_mem_hex hp _ c hc

/-! ### Names -/

namespace EntryKey

variable {name : Option Text} {source key : Text}

/-- A text of safe code points, and not the empty one. -/
structure IsName (key : Text) : Prop where
  ne_nil : key ≠ []
  safe : ∀ c ∈ key, isSafe c = true

theorem isName_sanitize {t : Text} (h : sanitize t ≠ []) : IsName (sanitize t) :=
  ⟨h, fun _ hc => (List.mem_filter.mp hc).2⟩

/-- A name made from a digest is one. -/
theorem isName_digest (bytes : List UInt8) :
    IsName ("Contract_" ++ (Sha256.hexDigest bytes).take 8 ++ ".sol") := by
  have hdigit : ∀ n < 16, isSafe (Text.hexDigit n) = true := by decide
  have hwords : ∀ word ∈ (["Contract_", ".sol"] : List Text), ∀ c ∈ word, isSafe c = true := by
    decide
  have hdigest := Sha256.forall_mem_hexDigest (p := fun c => isSafe c = true) hdigit bytes
  refine ⟨?_, fun c hc => ?_⟩
  · exact List.append_ne_nil_of_left_ne_nil
      (List.append_ne_nil_of_left_ne_nil (by decide) _) _
  · rcases List.mem_append.mp hc with hc | hc
    · rcases List.mem_append.mp hc with hc | hc
      · exact hwords _ (by simp) c hc
      · exact hdigest c (List.mem_of_mem_take hc)
    · exact hwords _ (by simp) c hc

/-- The key of an entry is a name, and the one that was given if anything is left of that. -/
theorem isName_of_choose (h : choose name source = .ok key) :
    IsName key ∧ (sanitize (name.getD []) ≠ [] → key = sanitize (name.getD [])) := by
  by_cases hname : sanitize (name.getD []) = []
  · refine ⟨?_, fun hne => absurd hname hne⟩
    rw [choose_of_sanitize_eq_nil hname] at h
    by_cases hsource : Utf8.Encodable source
    · rw [ofSource_eq_ok hsource] at h
      obtain rfl := Except.ok.inj h
      exact isName_digest _
    · obtain ⟨e, he⟩ := ofSource_eq_error hsource
      cases he.symm.trans h
  · rw [choose_of_sanitize_ne_nil hname] at h
    obtain rfl := Except.ok.inj h
    exact ⟨isName_sanitize hname, fun _ => rfl⟩

/-- A name names no host. -/
theorem IsName.hostOf_eq_nil (h : IsName key) : Url.hostOf key = [] := by
  by_contra hhost
  have hslash := List.mem_of_find?_eq_some (find?_slash_of_hostOf hhost)
  exact absurd (h.safe _ hslash) (by decide)

end EntryKey

theorem Request.choose_of_read {τ : Type} {payload : Json} {request : Request}
    (h : read (τ := τ) payload = .ok request) :
    EntryKey.choose request.filename request.source = .ok request.entryKey := by
  cases payload with
  | object members =>
    cases hcheck : check members with
    | error cs =>
      rw [read_of_check_error hcheck] at h
      cases h
    | ok checked =>
      rw [read_of_check_ok hcheck] at h
      cases hkey : EntryKey.choose checked.filename checked.source with
      | error e =>
        rw [hkey] at h
        cases h
      | ok key =>
        rw [hkey] at h
        obtain rfl := Except.ok.inj h
        exact hkey
  | _ => cases h

/-! ### Graphs -/

namespace SourceGraph

open EntryKey (IsName)

variable {τ : Type} {entry : Source} {ctx : Context τ} {g : SourceGraph}

/-- A resolved URL is no name. -/
theorem ne_of_resolve {raw url key : Text} {base referrer : Option Text} (hkey : IsName key)
    (h : Specifier.resolve raw base ctx referrer = .ok url) : url ≠ key := by
  rintro rfl
  obtain ⟨t, -, -, hallowed⟩ := Specifier.exists_names_of_resolve h
  exact hallowed.1 hkey.hostOf_eq_nil

/-- No import leads to an entry with a name. -/
theorem edge_ne_of_finished (h : Finished entry ctx g) (hkey : IsName entry.key)
    {node : SourceNode} (hnode : node ∈ g.nodes) : ∀ edge ∈ node.edges, edge.2 ≠ g.entryKey := by
  rintro ⟨s, target⟩ hedge
  have hedges := h.edges node hnode
  have hs : s ∈ node.source.specifiers := by
    rw [← List.mem_eraseDups, ← hedges.names_eq]
    exact List.mem_map_of_mem hedge
  have hnodup : (Table.names node.edges).Nodup := by
    rw [hedges.names_eq]
    exact nodup_eraseDups _
  obtain ⟨target', -, hresolve, hget⟩ := hedges.target s hs
  obtain rfl := Option.some.inj ((Table.get?_of_mem hnodup hedge).symm.trans hget)
  rw [h.entryKey_eq]
  exact ne_of_resolve hkey hresolve

/-- The entry comes first, and its key is the only one without a host. -/
theorem names_rewritten_of_finished (h : Finished entry ctx g) (hkey : IsName entry.key) :
    g.rewritten.names.head? = some entry.key
      ∧ g.rewritten.names.filter (fun key => (Url.hostOf key).isEmpty) = [entry.key] := by
  obtain ⟨rest, hrest⟩ := h.discovered.exists_eq_cons
  have hnames : g.rewritten.names = (g.nodes.map SourceNode.source).map Source.key := by
    simp [Table.names, rewritten]
  have hhosts : ∀ x ∈ rest, Url.hostOf x.key ≠ [] := by
    -- behind the entry all sources are imported ones
    intro x hx
    have hmem : x ∈ g.imported.map SourceNode.source := by
      rw [imported, List.map_tail, hrest]
      exact hx
    obtain ⟨node, hnode, rfl⟩ := List.mem_map.mp hmem
    obtain ⟨-, -, -, -, -, -, -, hallowed⟩ := exists_names_of_imported h hnode
    exact hallowed.1
  have hnone : (rest.map Source.key).filter (fun key => (Url.hostOf key).isEmpty) = [] := by
    rw [List.filter_eq_nil_iff]
    intro key hmem
    obtain ⟨x, hx, rfl⟩ := List.mem_map.mp hmem
    rw [List.isEmpty_iff]
    exact hhosts x hx
  rw [hnames, hrest, List.map_cons]
  refine ⟨rfl, ?_⟩
  have hentry : (Url.hostOf entry.key).isEmpty = true := List.isEmpty_iff.mpr hkey.hostOf_eq_nil
  rw [List.filter_cons_of_pos (p := fun key => (Url.hostOf key).isEmpty) hentry, hnone]

end SourceGraph

/-! ### Requests -/

namespace Pipeline

open EntryKey (IsName)

variable {τ : Type}

/-- Two steps that succeed. -/
theorem exists_of_bind_eq_ok {ε σ α β : Type} {m : EStateM ε σ α} {f : α → EStateM ε σ β} {s t : σ}
    {b : β} (h : (m >>= f) s = .ok b t) : ∃ a u, m s = .ok a u ∧ f a u = .ok b t := by
  simp only [bind, EStateM.bind] at h
  cases hm : m s with
  | ok a u =>
    rw [hm] at h
    exact ⟨a, u, rfl, h⟩
  | error e u =>
    rw [hm] at h
    cases h

theorem eq_ok_of_inStage {α : Type} {stage : Stage} {effect : Effect τ (World τ) α}
    {w v : World τ} {a : α} (h : inStage stage effect w = .ok a v) : effect w = .ok a v := by
  unfold inStage at h
  split at h
  · rename_i hrun
    cases h
    exact hrun
  · cases h

variable [Seconds τ] {owned : Bool} {config : Config τ} {payload : Json}

/-- A reply lists the rewritten sources of a graph. -/
theorem exists_of_stages_eq_ok {w v : World τ} {reply : Table Json}
    (h : stages owned config payload w = .ok reply v) :
    ∃ request ctx w₁ g w₂ compiler summary,
      parseRequest config payload w = .ok (request, ctx) w₁
        ∧ resolveSources owned config request ctx w₁ = .ok g w₂
        ∧ reply = result request g.rewritten compiler summary := by
  obtain ⟨⟨request, ctx⟩, w₁, hparse, h⟩ := exists_of_bind_eq_ok h
  obtain ⟨g, w₂, hresolve, h⟩ := exists_of_bind_eq_ok h
  obtain ⟨sources, w₃, hrewrite, h⟩ := exists_of_bind_eq_ok h
  obtain ⟨document, w₄, -, h⟩ := exists_of_bind_eq_ok h
  obtain ⟨compiler, w₅, -, h⟩ := exists_of_bind_eq_ok h
  obtain ⟨report, w₆, -, h⟩ := exists_of_bind_eq_ok h
  obtain ⟨-, summary, -, rfl⟩ :=
    (emitResult_ensures request sources compiler report w₆).of_ok (eq_ok_of_inStage h)
  cases eq_ok_of_inStage hrewrite
  exact ⟨request, ctx, w₁, g, w₂, compiler, summary, eq_ok_of_inStage hparse,
    eq_ok_of_inStage hresolve, rfl⟩

/-- **The key of the entry is a safe name, made from the file name if anything is left of that, and
no import names it**: no specifier resolves to it, no edge of the graph leads to it, and in a reply
it is the first of the files and the only one without a host. -/
theorem entry_key_apart {w w₁ : World τ} {request : Request} {ctx : Context τ}
    (hparse : parseRequest config payload w = .ok (request, ctx) w₁) :
    request.entryKey ≠ [] ∧ (∀ c ∈ request.entryKey, EntryKey.isSafe c = true)
      ∧ (EntryKey.sanitize (request.filename.getD []) ≠ [] →
        request.entryKey = EntryKey.sanitize (request.filename.getD []))
      ∧ (∀ raw base referrer url, Specifier.resolve raw base ctx referrer = .ok url →
        url ≠ request.entryKey)
      ∧ (∀ v v' g, resolveSources owned config request ctx v = .ok g v' →
        g.entryKey = request.entryKey
          ∧ ∀ node ∈ g.nodes, ∀ edge ∈ node.edges, edge.2 ≠ g.entryKey)
      ∧ ∀ files, Table.get? "files" (run owned config payload w).1 = some files →
        ∃ keys : List Text, files = .array (keys.map .string)
          ∧ keys.head? = some request.entryKey
          ∧ keys.filter (fun key => (Url.hostOf key).isEmpty) = [request.entryKey] := by
  have hread := ((parseRequest_ensures config payload w).of_ok hparse).2.1
  obtain ⟨hname, hgiven⟩ := EntryKey.isName_of_choose (Request.choose_of_read hread)
  refine ⟨hname.ne_nil, hname.safe, hgiven, ?_, ?_, ?_⟩
  · intro raw base referrer url hresolve
    exact SourceGraph.ne_of_resolve hname hresolve
  · intro v v' g hgraph
    have hfinished := finished_of_resolveSources hgraph
    exact ⟨hfinished.entryKey_eq, fun node hnode =>
      SourceGraph.edge_ne_of_finished hfinished hname hnode⟩
  · intro files hfiles
    -- only a run through all stages replies with files
    cases hw : w.breakdown with
    | some f =>
      rw [run, hw] at hfiles
      cases hfiles
    | none =>
      cases hstages : stages owned config payload w with
      | error e v =>
        rw [run_eq_of_error hw hstages] at hfiles
        cases hfiles
      | ok reply v =>
        obtain ⟨request', ctx', w₁', g, w₂, compiler, summary, hparse', hgraph, rfl⟩ :=
          exists_of_stages_eq_ok hstages
        obtain ⟨⟨rfl, rfl⟩, rfl⟩ := EStateM.Result.ok.inj (hparse.symm.trans hparse')
        rw [run_eq_of_ok hw hstages, get?_result (by decide)] at hfiles
        obtain rfl := Option.some.inj hfiles
        exact ⟨_, rfl, SourceGraph.names_rewritten_of_finished
          (finished_of_resolveSources hgraph) hname⟩

/-- The graph of a request that imports a file of a package. -/
theorem package_import_apart : ∃ request ctx g w₁ w₂,
    parseRequest Config.builtin (packagePayload "1") (packageWorld "1") = .ok (request, ctx) w₁
      ∧ resolveSources true Config.builtin request ctx w₁ = .ok g w₂
      ∧ request.entryKey = "e.sol" ∧ g.keys.length = 2
      ∧ ∀ node ∈ g.nodes, ∀ edge ∈ node.edges, edge.2 ≠ ("e.sol" : Text) := by
  have hcheck : packageCheck "1" (fun g => g.keys.length = 2 && g.entryKey = "e.sol") = true := by
    decide +kernel
  obtain ⟨request, ctx, g, w₁, w₂, hparse, hresolve, -, hgraph⟩ := exists_of_packageCheck hcheck
  rw [Bool.and_eq_true, decide_eq_true_iff, decide_eq_true_iff] at hgraph
  obtain ⟨hentry, hapart⟩ := (entry_key_apart hparse).2.2.2.2.1 _ _ _ hresolve
  rw [hgraph.2] at hentry hapart
  exact ⟨request, ctx, g, w₁, w₂, hparse, hresolve, hentry.symm, hgraph.1, hapart⟩

end Pipeline

end CompileGate
