/-
CompileGate/Proofs/WritableDocument.lean

What can fail between the sources of a request and its compiler.

Rewriting the imports never fails.  Building the document fails in two places.  All settings
are copied, and settings that are nested too deep leave no room on the call stack for that
(`Compiler.IsCopyable`).  Then the canonical text of the document is digested for a log record,
and a text with a surrogate has no bytes to digest.  So the document is built exactly if its
settings can be copied and no key, no rewritten text and no setting holds a surrogate
(`IsWritable`).

To copy a value takes two calls for each container that is inside another, and one or two more
(`copyCalls_bounds`); so half of the room is about the depth that settings may have.

Fetched texts are read from bytes and hold none, and the keys of imports are made of them, of
the package source and of the pinned versions.  If these two are free of surrogates, only the
settings matter: any surrogate in them fails a request whose sources are all there.

Main result: `pure_stages_of_resolveSources`.
-/
import CompileGate.Proofs.EncodableJson
import CompileGate.Proofs.EntryKeys

namespace CompileGate

open Utf8 (Encodable)
open Json (IsEncodable isEncodable_string_iff isEncodable_array_iff isEncodable_object_iff)

/-! ### Rewritten texts -/

namespace Import

variable {t : Text} {c : CodePoint}

theorem mem_of_mem_specifiers {s : Text} (h : s ∈ specifiers t) : ∀ c ∈ s, c ∈ t := by
  obtain ⟨pieces, hp, rfl⟩ := exists_scanned false t
  rw [specifiers_eq hp] at h
  obtain ⟨piece, hpiece, hs⟩ := List.mem_filterMap.mp h
  cases piece with
  | point c => cases hs
  | statement statement =>
    obtain rfl := Option.some.inj hs
    intro c hc
    exact List.mem_flatMap.mpr ⟨_, hpiece, by simp [Piece.text, Statement.text, hc]⟩

/-- A rewritten text is made of the text and of the targets of its specifiers. -/
theorem mem_rewrite {edges : Table Text} (h : c ∈ rewrite t edges) :
    c ∈ t ∨ ∃ s ∈ specifiers t, ∃ target, Table.get? s edges = some target ∧ c ∈ target := by
  obtain ⟨pieces, hp, rfl⟩ := exists_scanned false t
  rw [rewrite_eq hp] at h
  rw [specifiers_eq hp]
  -- the code point stands in a renewed piece: a free one, or a statement with its target or without
  obtain ⟨renewed, hrenewed, hc⟩ := List.mem_flatMap.mp h
  obtain ⟨piece, hpiece, rfl⟩ := List.mem_map.mp hrenewed
  cases piece with
  | point d => exact .inl (List.mem_flatMap.mpr ⟨_, hpiece, hc⟩)
  | statement statement =>
    cases hget : Table.get? statement.specifier edges with
    | none =>
      refine .inl (List.mem_flatMap.mpr ⟨_, hpiece, ?_⟩)
      simpa [Piece.renew, hget] using hc
    | some target =>
      have hparts : c ∈ statement.lead ∨ c ∈ target ∨ c ∈ statement.tail := by
        simpa [Piece.renew, hget, Piece.text, Statement.text] using hc
      have htext : c ∈ statement.lead ∨ c ∈ statement.tail → c ∈ textOf pieces := by
        intro hmem
        refine List.mem_flatMap.mpr ⟨_, hpiece, ?_⟩
        simp only [Piece.text, Statement.text, List.mem_append]
        rcases hmem with hmem | hmem
        · exact .inl (.inl hmem)
        · exact .inr hmem
      rcases hparts with hmem | hmem | hmem
      · exact .inl (htext (.inl hmem))
      · exact .inr ⟨statement.specifier, List.mem_filterMap.mpr ⟨_, hpiece, rfl⟩, target, hget, hmem⟩
      · exact .inl (htext (.inr hmem))

end Import

/-! ### Keys and sources -/

theorem EntryKey.IsName.encodable {key : Text} (h : IsName key) : Encodable key := by
  refine Utf8.encodable_of_lt fun c hc => ?_
  have hsafe := h.safe c hc
  simp only [isSafe, CodePoint.isAsciiLetter, CodePoint.isAsciiUpper, CodePoint.isAsciiLower,
    CodePoint.isAsciiDigit, Bool.or_eq_true, Bool.and_eq_true, decide_eq_true_eq] at hsafe
  rcases hsafe with (((hletter | hdigit) | rfl) | rfl) | rfl
  · omega
  · omega
  · decide
  · decide
  · decide

namespace SourceGraph

variable {τ : Type} {entry : Source} {ctx : Context τ} {g : SourceGraph}

/-- Surrogates come into keys with the package source and the pinned versions only. -/
theorem encodable_keys_of_finished (h : Finished entry ctx g) (hkey : Encodable entry.key)
    (hbase : Encodable (entry.base.getD [])) (hcdn : Encodable ctx.packageCdn)
    (hversions : ∀ pinned ∈ ctx.packageVersions, Encodable pinned.2) :
    ∀ key ∈ g.keys, Encodable key := by
  have hcontents := h.discovered.encodable
  have hspecifiers : ∀ x ∈ g.nodes.map SourceNode.source, ∀ s ∈ x.specifiers, Encodable s :=
    fun x hx s hs c hc => hcontents x hx c (Import.mem_of_mem_specifiers hs c hc)
  -- resolving makes no surrogates, so bases have none
  have hbases := forall_mem_base Url.closed_notSurrogate hbase hcdn hversions h.discovered
    hspecifiers
  intro key hkeys
  obtain ⟨node, hnode, rfl⟩ := List.mem_map.mp hkeys
  have hsource : node.source ∈ g.nodes.map SourceNode.source := List.mem_map_of_mem hnode
  rcases h.discovered.eq_entry_or_base_eq node.source hsource with hentry | hown
  · rw [← SourceNode.source_key, hentry]
    exact hkey
  · -- its key is its base
    have hmem := hbases node.source hsource
    rw [hown] at hmem
    exact hmem

/-- A rewritten source can be written if the keys can. -/
theorem encodable_rewritten_of_finished (h : Finished entry ctx g)
    (hkeys : ∀ key ∈ g.keys, Encodable key) {node : SourceNode} (hnode : node ∈ g.nodes) :
    Encodable node.rewritten := by
  intro c hc
  -- from the text that was fetched, or from the key that an edge leads to
  rcases Import.mem_rewrite hc with hc | ⟨s, hs, target, hget, hc⟩
  · exact h.discovered.encodable node.source (List.mem_map_of_mem hnode) c hc
  · obtain ⟨hmem, -, hget'⟩ := target_of_finished h hnode hs
    rw [hget] at hget'
    exact hkeys _ hmem c (Option.some.inj hget' ▸ hc)

end SourceGraph

/-! ### Settings -/

namespace Compiler

mutual

/-- Copying takes two calls for each level of containers, and one or two for what is innermost. -/
theorem copyCalls_bounds : ∀ v : Json,
    2 * v.depth + 1 ≤ copyCalls v ∧ copyCalls v ≤ 2 * v.depth + 2
  | .null | .bool _ | .int _ | .float _ | .string _ => ⟨Nat.le_succ 1, le_rfl⟩
  | .array items => by
    have hitems := copyCallsOfItems_bounds items
    rw [copyCalls, Json.depth]
    omega
  | .object members => by
    have hmembers := copyCallsOfMembers_bounds members
    rw [copyCalls, Json.depth]
    omega

/-- An array without items counts as one with a single call inside. -/
theorem copyCallsOfItems_bounds : ∀ items : List Json,
    2 * Json.depthOfItems items + 1 ≤ max 1 (copyCallsOfItems items)
      ∧ copyCallsOfItems items ≤ 2 * Json.depthOfItems items + 2
  | [] => ⟨le_rfl, Nat.zero_le 2⟩
  | item :: items => by
    have hitem := copyCalls_bounds item
    have hitems := copyCallsOfItems_bounds items
    rw [copyCallsOfItems, Json.depthOfItems]
    omega

theorem copyCallsOfMembers_bounds : ∀ members : List (Text × Json),
    2 * Json.depthOfMembers members + 1 ≤ max 1 (copyCallsOfMembers members)
      ∧ copyCallsOfMembers members ≤ 2 * Json.depthOfMembers members + 2
  | [] => ⟨le_rfl, Nat.zero_le 2⟩
  | (_, value) :: members => by
    have hvalue := copyCalls_bounds value
    have hmembers := copyCallsOfMembers_bounds members
    rw [copyCallsOfMembers, Json.depthOfMembers]
    omega

end

/-- Settings whose depth is well below half of the room can be copied; the default settings need a
little room themselves. -/
theorem isCopyable_of_depth_le {room : Nat} {settings : Table Json} (hroom : 10 ≤ room)
    (h : 2 * (Json.object settings).depth + 2 ≤ room) : IsCopyable room settings := by
  have hdefaults : copyCalls (.object defaultSettings) = 10 := by decide
  exact ⟨hdefaults ▸ hroom, (copyCalls_bounds _).2.trans h⟩

theorem isEncodable_defaultSettings : IsEncodable (.object defaultSettings) := by
  have htexts : ∀ t ∈ (["optimizer", "enabled", "runs", "outputSelection", "*", "abi",
      "evm.bytecode.object"] : List Text), Encodable t := by decide
  simp only [List.forall_mem_cons] at htexts
  simp only [defaultSettings, isEncodable_object_iff, isEncodable_array_iff,
    isEncodable_string_iff, List.forall_mem_cons, htexts, IsEncodable.bool, IsEncodable.int,
    List.not_mem_nil, false_implies, implies_true, and_self]

theorem isEncodable_mergeSettings {settings : Table Json} (h : IsEncodable (.object settings)) :
    IsEncodable (.object (mergeSettings settings)) :=
  isEncodable_object_iff.mpr (Table.forall_mem_insertAll (isEncodable_object_iff.mp h)
    (isEncodable_object_iff.mp isEncodable_defaultSettings))

/-- A setting of a request wins over the default of its name, so all of them are in the result. -/
theorem isEncodable_mergeSettings_iff {settings : Table Json} (hnames : settings.names.Nodup) :
    IsEncodable (.object (mergeSettings settings)) ↔ IsEncodable (.object settings) := by
  refine ⟨fun h => isEncodable_object_iff.mpr fun m hm => ?_, isEncodable_mergeSettings⟩
  have hget : Table.get? m.1 (mergeSettings settings) = some m.2 :=
    Table.get?_insertAll hnames (Table.get?_of_mem hnames hm)
  exact isEncodable_object_iff.mp h m (Table.mem_of_get? hget)

/-- The document holds the keys, the texts and the settings, and nothing else that matters. -/
theorem isEncodable_document_iff {sources : Table Text} {settings : Table Json} :
    IsEncodable (.object (document sources settings))
      ↔ (∀ s ∈ sources, Encodable s.1 ∧ Encodable s.2)
        ∧ IsEncodable (.object (mergeSettings settings)) := by
  have htexts : ∀ t ∈ (["language", "sources", "settings", "Solidity", "content"] : List Text),
      Encodable t := by decide
  simp only [List.forall_mem_cons] at htexts
  simp only [document, isEncodable_object_iff, isEncodable_string_iff, List.forall_mem_cons,
    List.forall_mem_map, htexts, List.not_mem_nil, false_implies, implies_true, and_true, true_and]

end Compiler

/-! ### The stages -/

namespace Pipeline

variable {τ : Type}

/-- No key of the graph and nothing in the settings of the document holds a surrogate. -/
def IsWritable (g : SourceGraph) (request : Request) : Prop :=
  (∀ key ∈ g.keys, Encodable key)
    ∧ IsEncodable (.object (Compiler.mergeSettings request.settings))

theorem isEncodable_document_iff_isWritable {entry : Source} {ctx : Context τ} {g : SourceGraph}
    (h : SourceGraph.Finished entry ctx g) (request : Request) :
    IsEncodable (.object (Compiler.document g.rewritten request.settings))
      ↔ IsWritable g request := by
  rw [Compiler.isEncodable_document_iff, IsWritable, SourceGraph.rewritten, SourceGraph.keys,
    List.forall_mem_map, List.forall_mem_map]
  refine and_congr_left fun _ => ⟨fun hall node hnode => (hall node hnode).1, fun hkeys node hnode =>
    ⟨hkeys node hnode, ?_⟩⟩
  exact SourceGraph.encodable_rewritten_of_finished h (List.forall_mem_map.mpr hkeys) hnode

/-- The record of a document that was built. -/
def inputRecord (digest : Text) (files : Nat) : Log.Record :=
  ⟨Log.debug, "solc_gateway.graph", "compiler input built",
    [("input_sha256", .string digest), ("files", .int files)], none⟩

/-- The settings are copied before anything else, so what cannot be copied fails first. -/
theorem buildInput_of_not_isCopyable {sources : Table Text} {request : Request} {w : World τ}
    (h : ¬ Compiler.IsCopyable w.room.copy request.settings) :
    buildInput sources request w = .error .uncopied w := by
  have hcopied : Compiler.copiedDocument w.room.copy sources request.settings
      = .error (.uncopied : Failure τ) := Compiler.copiedDocument_eq_error h
  have hlift : World.lift (Compiler.copiedDocument w.room.copy sources request.settings) w
      = .error (.uncopied : Failure τ) w := by rw [hcopied]; rfl
  exact (Effect.bind_of_ok (m := get) rfl).trans (Effect.bind_of_error hlift)

/-- What is left to do with copied settings: the digest and its record. -/
theorem buildInput_of_isCopyable {sources : Table Text} {request : Request} {w : World τ}
    (h : Compiler.IsCopyable w.room.copy request.settings) :
    buildInput sources request w = (do
      let document := Json.object (Compiler.document sources request.settings)
      let digest ← World.lift (Failure.ofEncoding (EntryKey.digest (Json.print .canonical document)))
      World.log Log.debug "solc_gateway.graph" "compiler input built"
        [("input_sha256", .string digest), ("files", .int sources.length)]
      return document : Effect τ (World τ) Json) w := by
  have hcopied : Compiler.copiedDocument (τ := τ) w.room.copy sources request.settings
      = .ok (Compiler.document sources request.settings) :=
    Compiler.copiedDocument_eq_ok_iff.mpr ⟨h, rfl⟩
  have hlift : World.lift (Compiler.copiedDocument (τ := τ) w.room.copy sources request.settings) w
      = .ok (Compiler.document sources request.settings) w := by rw [hcopied]; rfl
  exact (Effect.bind_of_ok (m := get) rfl).trans (Effect.bind_of_ok hlift)

theorem buildInput_of_isEncodable {sources : Table Text} {request : Request} {w : World τ}
    (hcopy : Compiler.IsCopyable w.room.copy request.settings)
    (h : IsEncodable (.object (Compiler.document sources request.settings))) :
    ∃ digest, buildInput sources request w
      = .ok (.object (Compiler.document sources request.settings))
        (w.record (.logged (inputRecord digest sources.length))) := by
  obtain ⟨bytes, hencode⟩ : ∃ bytes, Utf8.encode (Json.print .canonical
      (.object (Compiler.document sources request.settings))) = .ok bytes :=
    ⟨_, Utf8.encode_eq_ok ((Json.encodable_print_iff _).mpr h)⟩
  refine ⟨Sha256.hexDigest bytes, ?_⟩
  simp only [buildInput_of_isCopyable hcopy, EntryKey.digest, hencode]
  rfl

theorem buildInput_of_not_isEncodable {sources : Table Text} {request : Request} {w : World τ}
    (hcopy : Compiler.IsCopyable w.room.copy request.settings)
    (h : ¬ IsEncodable (.object (Compiler.document sources request.settings))) :
    ∃ error, buildInput sources request w = .error (.unencodable error) w := by
  obtain ⟨error, herror⟩ := Utf8.encode_eq_error (mt (Json.encodable_print_iff _).mp h)
  refine ⟨error, ?_⟩
  simp only [buildInput_of_isCopyable hcopy, EntryKey.digest, herror]
  rfl

variable [Seconds τ] {owned : Bool} {config : Config τ} {payload : Json}

/-- The sources of a request are rewritten in the world that they were resolved in. -/
theorem reached_rewritten {w w₁ w₂ : World τ} {request : Request} {ctx : Context τ}
    {g : SourceGraph} (hparse : parseRequest config payload w = .ok (request, ctx) w₁)
    (hresolve : resolveSources owned config request ctx w₁ = .ok g w₂) :
    Reached owned config payload w (.rewritten request ctx g.rewritten) w₂ := by
  have hparsed : Reached owned config payload w (.parsed request ctx) w₁ :=
    .step .start rfl (Effect.bind_of_ok hparse)
  have hresolved : Reached owned config payload w (.resolved request ctx g) w₂ :=
    hparsed.step rfl (Effect.bind_of_ok hresolve)
  exact hresolved.step rfl rfl

/-- Neither parsing the request nor resolving its sources changes the room on the call stack. -/
theorem room_of_resolveSources {w w₁ w₂ : World τ} {request : Request} {ctx : Context τ}
    {g : SourceGraph} (hparse : parseRequest config payload w = .ok (request, ctx) w₁)
    (hresolve : resolveSources owned config request ctx w₁ = .ok g w₂) : w₂.room = w.room := by
  obtain ⟨rfl, -⟩ := (parseRequest_ensures config payload w).of_ok hparse
  exact ((resolveSources_ensures owned config request ctx w₁).of_ok hresolve).1.room_eq

/-- **Once the sources of a request are there, its imports are rewritten, and the document is built
exactly if there is room to copy the settings and no key and no setting holds a surrogate**;
otherwise the request fails there, for want of room or as a text that cannot be written.  Without
surrogates in the package source and the pinned versions only the settings of the request matter. -/
theorem pure_stages_of_resolveSources {w w₁ w₂ : World τ} {request : Request} {ctx : Context τ}
    {g : SourceGraph} (hparse : parseRequest config payload w = .ok (request, ctx) w₁)
    (hresolve : resolveSources owned config request ctx w₁ = .ok g w₂) :
    rewriteImports g w₂ = .ok g.rewritten w₂
      ∧ (Compiler.IsCopyable w.room.copy request.settings → IsWritable g request →
        ∃ document v, buildInput g.rewritten request w₂ = .ok document v
          ∧ Reached owned config payload w (.built request ctx g.rewritten document) v)
      ∧ (¬ Compiler.IsCopyable w.room.copy request.settings →
        FailsAt owned config payload w .buildInput .uncopied w₂)
      ∧ (Compiler.IsCopyable w.room.copy request.settings → ¬ IsWritable g request → ∃ error,
        FailsAt owned config payload w .buildInput (.unencodable error) w₂)
      ∧ (Encodable config.packageCdn → (∀ pinned ∈ request.packageVersions, Encodable pinned.2) →
        request.settings.names.Nodup →
        (IsWritable g request ↔ IsEncodable (.object request.settings))) := by
  have hfinished := finished_of_resolveSources hresolve
  have hreached := reached_rewritten hparse hresolve
  -- the room is the one that the request began with
  rw [← room_of_resolveSources hparse hresolve]
  refine ⟨rfl, ?_, ?_, ?_, ?_⟩
  · intro hcopy hwritable
    obtain ⟨digest, hbuild⟩ := buildInput_of_isEncodable hcopy
      ((isEncodable_document_iff_isWritable hfinished request).mpr hwritable)
    exact ⟨_, _, hbuild, hreached.step rfl (Effect.bind_of_ok hbuild)⟩
  · intro hcopy
    exact ⟨_, _, _, hreached, rfl, Effect.bind_of_error (buildInput_of_not_isCopyable hcopy)⟩
  · intro hcopy hwritable
    obtain ⟨error, hbuild⟩ := buildInput_of_not_isEncodable hcopy
      (mt (isEncodable_document_iff_isWritable hfinished request).mp hwritable)
    exact ⟨error, _, _, _, hreached, rfl, Effect.bind_of_error hbuild⟩
  · intro hcdn hversions hnames
    have hread := ((parseRequest_ensures config payload w).of_ok hparse).2.1
    have hkey := (EntryKey.isName_of_choose (Request.choose_of_read hread)).1
    have hctx := context_of_parseRequest hparse
    rw [IsWritable, Compiler.isEncodable_mergeSettings_iff hnames, and_iff_right]
    exact SourceGraph.encodable_keys_of_finished hfinished hkey.encodable (List.forall_mem_nil _)
      (hctx ▸ hcdn) (hctx ▸ hversions)

/-! ### A setting that cannot be written -/

open Http.Exchange (stillWorld)

/-- A request with one setting. -/
def settingRequest (value : Json) : Request :=
  ⟨"x", some "e.sol", none, false, [], [("k", value)], "e.sol"⟩

def settingPayload (value : Json) : Json := .object [
  ("source", .string "x"), ("filename", .string "e.sol"), ("settings", .object [("k", value)])]

/-- Its policy. -/
def settingContext : Context Int := Context.ofConfig Config.builtin [] 0

theorem parseRequest_settingPayload (value : Json) :
    parseRequest Config.builtin (settingPayload value) stillWorld
      = .ok (settingRequest value, settingContext) stillWorld :=
  parseRequest_of_read_ok rfl

theorem exists_of_isSome_run' {ε σ α : Type} {m : EStateM ε σ α} {s : σ}
    (h : (EStateM.run' m s).isSome = true) : ∃ a t, m s = .ok a t := by
  unfold EStateM.run' EStateM.run at h
  cases hm : m s with
  | ok a t => exact ⟨a, t, rfl⟩
  | error e t =>
    rw [hm] at h
    cases h

/-- Its source is there, whatever the setting is. -/
theorem exists_resolveSources_settingRequest (value : Json) : ∃ g w,
    resolveSources true Config.builtin (settingRequest value) settingContext stillWorld
      = .ok g w := by
  -- no stage before the document looks at the settings
  have hsame : resolveSources true Config.builtin (settingRequest value) settingContext stillWorld
      = resolveSources true Config.builtin (settingRequest .null) settingContext stillWorld := rfl
  have hruns : (EStateM.run' (resolveSources true Config.builtin (settingRequest .null)
      settingContext) stillWorld).isSome = true := by decide +kernel
  rw [hsame]
  exact exists_of_isSome_run' hruns

theorem plain_setting_built : ∃ g w,
    parseRequest Config.builtin (settingPayload (.string "v")) stillWorld
        = .ok (settingRequest (.string "v"), settingContext) stillWorld
      ∧ resolveSources true Config.builtin (settingRequest (.string "v")) settingContext stillWorld
        = .ok g w
      ∧ ∃ document v, Reached true Config.builtin (settingPayload (.string "v")) stillWorld
        (.built (settingRequest (.string "v")) settingContext g.rewritten document) v := by
  obtain ⟨g, w, hresolve⟩ := exists_resolveSources_settingRequest (.string "v")
  have hparse := parseRequest_settingPayload (.string "v")
  obtain ⟨-, hbuilt, -, -, hsettings⟩ := pure_stages_of_resolveSources hparse hresolve
  have hplain : IsEncodable (.object (settingRequest (.string "v")).settings) := by
    refine isEncodable_object_iff.mpr fun m hm => ?_
    obtain rfl := List.mem_singleton.mp hm
    exact ⟨by decide, .string (by decide)⟩
  have hversions : ∀ pinned ∈ (settingRequest (.string "v")).packageVersions, Encodable pinned.2 :=
    List.forall_mem_nil _
  have hwritable := (hsettings (by decide) hversions (List.nodup_singleton _)).mpr hplain
  have hcopy : Compiler.IsCopyable stillWorld.room.copy (settingRequest (.string "v")).settings :=
    Compiler.isCopyable_of_depth_le (by decide) (by decide)
  obtain ⟨document, v, -, hreached⟩ := hbuilt hcopy hwritable
  exact ⟨g, w, hparse, hresolve, document, v, hreached⟩

/-- Half of a pair in a setting fails the request after its sources were resolved. -/
theorem unpaired_setting_fails : ∃ g w error,
    parseRequest Config.builtin (settingPayload (.string [.ofNat 0xD800])) stillWorld
        = .ok (settingRequest (.string [.ofNat 0xD800]), settingContext) stillWorld
      ∧ resolveSources true Config.builtin (settingRequest (.string [.ofNat 0xD800])) settingContext
        stillWorld = .ok g w
      ∧ buildInput g.rewritten (settingRequest (.string [.ofNat 0xD800])) w
        = .error (.unencodable error) w := by
  obtain ⟨g, w, hresolve⟩ := exists_resolveSources_settingRequest (.string [.ofNat 0xD800])
  have hunpaired : ¬ IsEncodable (.object (settingRequest (.string [.ofNat 0xD800])).settings) := by
    intro h
    have hvalue := (isEncodable_object_iff.mp h _ List.mem_cons_self).2
    exact absurd (isEncodable_string_iff.mp hvalue) (by decide)
  have hnames : (settingRequest (.string [.ofNat 0xD800])).settings.names.Nodup :=
    List.nodup_singleton _
  have hdocument : ¬ IsEncodable (.object (Compiler.document g.rewritten
      (settingRequest (.string [.ofNat 0xD800])).settings)) := by
    intro h
    have hmerged := (Compiler.isEncodable_document_iff.mp h).2
    exact hunpaired ((Compiler.isEncodable_mergeSettings_iff hnames).mp hmerged)
  have hcopy : Compiler.IsCopyable w.room.copy
      (settingRequest (.string [.ofNat 0xD800])).settings := by
    rw [room_of_resolveSources (parseRequest_settingPayload _) hresolve]
    exact Compiler.isCopyable_of_depth_le (by decide) (by decide)
  obtain ⟨error, hbuild⟩ := buildInput_of_not_isEncodable hcopy hdocument
  exact ⟨g, w, error, parseRequest_settingPayload _, hresolve, hbuild⟩

end Pipeline

end CompileGate
