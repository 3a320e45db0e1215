/-
CompileGate/Proofs/ReadableReplies.lean

Replies are JSON objects that can be read.

A reply says whether the request succeeded, its members have different names, and its
values can be printed and read again (`IsReply`).  The values are texts and truth values,
except for those that are passed on from the report of the compiler: they were read from
what the compiler wrote, and what is read is readable.

So the line that shows a reply is read as an object with the same members
(`IsReply.read_print`), and it is one line, in ASCII (`IsReply.isShown_print`); so are the
bytes of an HTTP reply, which are its characters (`Utf8.decode_latin1Bytes`).

Main result: `Pipeline.isReply_run`.
-/
import CompileGate.Http.Reply
import CompileGate.Proofs.PrintedJson
import CompileGate.Proofs.StageOrder

namespace CompileGate

open Json (IsReadable exists_of_bind_eq_ok)

/-! ### What the report of a compiler passes on -/

namespace Compiler

theorem isReadable_getD {members : Table Json} (h : ∀ m ∈ members, IsReadable m.2) (name : Text) :
    IsReadable ((Table.get? name members).getD .null) := by
  cases hget : Table.get? name members with
  | none => exact .null
  | some value => exact h _ (Table.mem_of_get? hget)

theorem isReadable_of_mem_entries {value : Json} {items : List Json} (hvalue : IsReadable value)
    (h : entries value = .ok items) : ∀ item ∈ items, IsReadable item := by
  unfold entries at h
  split at h
  · obtain rfl := Except.ok.inj h
    cases hvalue with
    | array hitems => exact hitems
  · obtain rfl := Except.ok.inj h
    simp
  · obtain rfl := Except.ok.inj h
    simp
  · split at h
    · obtain rfl := Except.ok.inj h
      simp
    · cases h

theorem isReadable_of_mem_namedEntries {value : Json} {members : Table Json}
    (hvalue : IsReadable value) (h : namedEntries value = .ok members) :
    ∀ m ∈ members, IsReadable m.2 := by
  unfold namedEntries at h
  split at h
  · obtain rfl := Except.ok.inj h
    cases hvalue with
    | object hmembers => exact hmembers
  · split at h
    · obtain rfl := Except.ok.inj h
      simp
    · cases h

theorem isReadable_of_member {name : Text} {value x : Json} (hvalue : IsReadable value)
    (h : member name value = .ok x) : IsReadable x := by
  unfold member at h
  split at h
  · obtain rfl := Except.ok.inj h
    cases hvalue with
    | object hmembers => exact isReadable_getD hmembers name
  · cases h

theorem isReadable_of_memberOrNull {name : Text} {value x : Json} (hvalue : IsReadable value)
    (h : memberOrNull name value = .ok x) : IsReadable x := by
  unfold memberOrNull at h
  split at h
  · obtain rfl := Except.ok.inj h
    exact .null
  · exact isReadable_of_member hvalue h

theorem Diagnostic.isReadable_toJson {value : Json} {d : Diagnostic} (hvalue : IsReadable value)
    (h : ofEntry? value = some d) : IsReadable d.toJson := by
  unfold ofEntry? at h
  split at h
  · cases hvalue with
    | object hmembers =>
      obtain rfl := Option.some.inj h
      refine .object (List.forall_mem_cons.mpr ⟨isReadable_getD hmembers _,
        List.forall_mem_cons.mpr ⟨isReadable_getD hmembers _,
        List.forall_mem_cons.mpr ⟨?_, List.forall_mem_singleton.mpr ?_⟩⟩⟩)
      · dsimp only
        split_ifs
        · exact isReadable_getD hmembers _
        · exact isReadable_getD hmembers _
      · dsimp only
        split_ifs
        · exact .null
        · exact isReadable_getD hmembers _
  · cases h

theorem Artifact.isReadable_toJson {file contract : Text} {value : Json} {a : Artifact}
    (hvalue : IsReadable value) (h : ofEntry file contract value = .ok a) :
    IsReadable a.toJson := by
  unfold ofEntry at h
  obtain ⟨evm, hevm, h⟩ := exists_of_bind_eq_ok h
  obtain ⟨bytecode, hbytecode, h⟩ := exists_of_bind_eq_ok h
  obtain ⟨code, hcode, h⟩ := exists_of_bind_eq_ok h
  obtain ⟨abi, habi, h⟩ := exists_of_bind_eq_ok h
  obtain rfl := Except.ok.inj h
  have hcode' := isReadable_of_memberOrNull
    (isReadable_of_memberOrNull (isReadable_of_member hvalue hevm) hbytecode) hcode
  refine .object (List.forall_mem_cons.mpr ⟨.string _, List.forall_mem_cons.mpr ⟨.string _,
    List.forall_mem_cons.mpr ⟨isReadable_of_member hvalue habi,
    List.forall_mem_singleton.mpr ?_⟩⟩⟩)
  dsimp only
  split_ifs
  · exact .string _
  · exact hcode'

/-- What all results of a function satisfy holds of the results over a list. -/
theorem forall_mem_of_mapM {ε α β : Type} {f : α → Except ε β} {P : β → Prop} {xs : List α}
    {ys : List β} (hf : ∀ x ∈ xs, ∀ y, f x = .ok y → P y) (h : xs.mapM f = .ok ys) :
    ∀ y ∈ ys, P y := by
  induction xs generalizing ys with
  | nil =>
    rw [List.mapM_nil] at h
    obtain rfl := Except.ok.inj h
    simp
  | cons x xs ih =>
    rw [List.mapM_cons] at h
    obtain ⟨y, hy, h⟩ := exists_of_bind_eq_ok h
    obtain ⟨ys', hys, h⟩ := exists_of_bind_eq_ok h
    obtain rfl := Except.ok.inj h
    exact List.forall_mem_cons.mpr ⟨hf x List.mem_cons_self y hy,
      ih (fun x' hx' => hf x' (List.mem_cons_of_mem x hx')) hys⟩

theorem isReadable_of_artifactsOfFile {file : Text} {contracts : Json} {artifacts : List Artifact}
    (hcontracts : IsReadable contracts) (h : artifactsOfFile file contracts = .ok artifacts) :
    ∀ a ∈ artifacts, IsReadable a.toJson := by
  unfold artifactsOfFile at h
  obtain ⟨members, hmembers, h⟩ := exists_of_bind_eq_ok h
  have hreadable := isReadable_of_mem_namedEntries hcontracts hmembers
  exact forall_mem_of_mapM (fun m hm a ha => Artifact.isReadable_toJson (hreadable m hm) ha) h

/-- What a summary passes on is readable. -/
theorem isReadable_of_summarize {report : Table Json} {summary : Summary}
    (hreport : ∀ m ∈ report, IsReadable m.2) (h : summarize report = .ok summary) :
    (∀ d ∈ summary.diagnostics, IsReadable d.toJson)
      ∧ ∀ a ∈ summary.artifacts, IsReadable a.toJson := by
  unfold summarize at h
  obtain ⟨errors, herrors, h⟩ := exists_of_bind_eq_ok h
  obtain ⟨files, hfiles, h⟩ := exists_of_bind_eq_ok h
  obtain ⟨artifacts, hartifacts, h⟩ := exists_of_bind_eq_ok h
  obtain rfl := Except.ok.inj h
  constructor
  · intro d hd
    obtain ⟨entry, hentry, hd⟩ := List.mem_filterMap.mp hd
    exact Diagnostic.isReadable_toJson
      (isReadable_of_mem_entries (isReadable_getD hreport "errors") herrors entry hentry) hd
  · intro a ha
    obtain ⟨ofFile, hofFile, ha⟩ := List.mem_flatten.mp ha
    have hmembers := isReadable_of_mem_namedEntries (isReadable_getD hreport "contracts") hfiles
    have hall := forall_mem_of_mapM
      (P := fun artifacts : List Artifact => ∀ a ∈ artifacts, IsReadable a.toJson)
      (fun m hm artifacts hartifacts =>
        isReadable_of_artifactsOfFile (hmembers m hm) hartifacts) hartifacts
    exact hall ofFile hofFile a ha

end Compiler

/-! ### Replies -/

/-- A reply: it says whether the request succeeded, and it can be printed and read again. -/
structure IsReply (members : Table Json) : Prop where
  nodup : (Table.names members).Nodup
  plain : ∀ name ∈ Table.names members, ∀ c ∈ name, c.isSurrogate = false
  readable : ∀ m ∈ members, IsReadable m.2
  success : ∃ b, Table.get? "success" members = some (.bool b)

namespace IsReply

variable {members : Table Json}

theorem isReadable (h : IsReply members) : IsReadable (.object members) := .object h.readable

/-- A reply is read as an object with its members, and it says the same of the request. -/
theorem read_print (h : IsReply members) :
    ∃ object, Json.read (Json.print .compact (.object members)) = .ok (.object object)
      ∧ ∀ b, Table.get? "success" members = some (.bool b) →
        Table.get? "success" object = some (.bool b) := by
  obtain ⟨object, hobject, hget⟩ := Json.get?_reread .compact h.nodup h.plain
  refine ⟨object, ?_, ?_⟩
  · rw [Json.read_print Json.Style.isPlain_compact h.isReadable, hobject]
  · intro b hb
    rw [hget, hb]
    rfl

/-- A reply is shown in one line, and in ASCII. -/
theorem isShown_print (h : IsReply members) :
    ∀ c ∈ Json.print .compact (.object members), 0x20 ≤ c.toNat ∧ c.toNat < 0x7F := by
  intro c hc
  have hshown := Json.isShown_print Json.Style.isPlain_compact h.isReadable c hc
  exact ⟨hshown.1, hshown.2 rfl⟩

/-- One more member. -/
theorem insert (h : IsReply members) {name : Text} {value : Json}
    (hname : ∀ c ∈ name, c.isSurrogate = false) (hvalue : IsReadable value)
    (hsuccess : name ≠ "success") : IsReply (Table.insert name value members) := by
  refine ⟨Table.nodup_names_insert h.nodup, ?_, ?_, ?_⟩
  · intro other hother
    rw [Table.names_insert] at hother
    split_ifs at hother
    · exact h.plain other hother
    · rcases List.mem_append.mp hother with hother | hother
      · exact h.plain other hother
      · rw [List.mem_singleton.mp hother]
        exact hname
  · intro m hm
    rcases Table.mem_of_mem_insert hm with hm | hm
    · rw [hm]
      exact hvalue
    · exact h.readable m hm
  · obtain ⟨b, hb⟩ := h.success
    exact ⟨b, by rw [Table.get?_insert, if_neg (Ne.symm hsuccess), hb]⟩

end IsReply

theorem isReply_failure (message : Text) :
    IsReply [("success", .bool false), ("error", .string message)] := by
  refine ⟨?_, ?_, by simp [IsReadable.bool, IsReadable.string], false, rfl⟩
  · exact of_decide_eq_true rfl
  · exact of_decide_eq_true rfl

namespace Pipeline

theorem isReply_failureReply (stage kind message : Text) :
    IsReply (failureReply stage kind message) := by
  refine ⟨?_, ?_, by simp [failureReply, IsReadable.bool, IsReadable.string], false, rfl⟩
  · exact of_decide_eq_true rfl
  · exact of_decide_eq_true rfl

theorem isReply_breakdownReply (f : Fault) : IsReply (breakdownReply f) :=
  (isReply_failureReply _ _ _).insert (by decide) (.string _) (by decide)

theorem isReply_result {request : Request} {sources : Table Text} {compiler : Compiler.Installed}
    {summary : Compiler.Summary} (hdiagnostics : ∀ d ∈ summary.diagnostics, IsReadable d.toJson)
    (hartifacts : ∀ a ∈ summary.artifacts, IsReadable a.toJson) :
    IsReply (result request sources compiler summary) := by
  have hbase : IsReply [
      ("success", .bool !summary.hasError),
      ("compiler", .object [("version", .string compiler.version)]),
      ("filename", .string request.entryKey),
      ("files", .array (sources.names.map .string)),
      ("diagnostics", .array (summary.diagnostics.map Compiler.Diagnostic.toJson))] := by
    refine ⟨of_decide_eq_true rfl, of_decide_eq_true rfl, ?_, _, rfl⟩
    have hversion : IsReadable (.object [("version", .string compiler.version)]) :=
      .object (List.forall_mem_singleton.mpr (.string _))
    have hfiles : IsReadable (.array (sources.names.map .string)) :=
      .array (List.forall_mem_map.mpr fun _ _ => .string _)
    exact List.forall_mem_cons.mpr ⟨.bool _, List.forall_mem_cons.mpr ⟨hversion,
      List.forall_mem_cons.mpr ⟨.string _, List.forall_mem_cons.mpr ⟨hfiles,
      List.forall_mem_singleton.mpr (.array (List.forall_mem_map.mpr hdiagnostics))⟩⟩⟩⟩
  unfold result
  dsimp only
  split_ifs
  · exact hbase.insert (by decide) (.array (List.forall_mem_map.mpr hartifacts)) (by decide)
  · exact hbase

/-- **Every request is answered with a reply that can be read.** -/
theorem isReply_run {τ : Type} [Seconds τ] (owned : Bool) (config : Config τ) (payload : Json)
    (w : World τ) : IsReply (run owned config payload w).1 := by
  cases hw : w.breakdown with
  | some f =>
    have hrun : (run owned config payload w).1 = breakdownReply f := by
      rw [run, hw]
    rw [hrun]
    exact isReply_breakdownReply f
  | none =>
    rcases failsAt_or_reached owned config payload w with ⟨S, e, v, h⟩ | ⟨reply, v, h⟩
    · have hrun : (run owned config payload w).1
          = failureReply S.name e.kind e.message := by
        rw [run, hw]
        dsimp only
        rw [stages_of_failsAt h]
      rw [hrun]
      exact isReply_failureReply _ _ _
    · obtain ⟨request, sources, compiler, report, summary, hcompiled, hsummary, rfl⟩ :=
        (holds_of_reached h).known
      rw [run_eq_of_ok hw (stages_of_reached h)]
      -- the report was read from what the compiler wrote
      have hreport : ∀ m ∈ report, IsReadable m.2 := by
        cases Json.isReadable_of_read hcompiled.report with
        | object hmembers => exact hmembers
      obtain ⟨hdiagnostics, hartifacts⟩ := Compiler.isReadable_of_summarize hreport hsummary
      exact isReply_result hdiagnostics hartifacts

end Pipeline

/-! ### Bytes of ASCII -/

namespace Utf8

variable {t : Text}

theorem pieces_latin1Bytes (h : ∀ c ∈ t, c.toNat < 0x80) :
    pieces (Http.latin1Bytes t) = t.map fun c => .point c 1 := by
  induction t with
  | nil => rfl
  | cons c t ih =>
    obtain ⟨hc, ht⟩ := List.forall_mem_cons.mp h
    have hbyte : c.toNat.toUInt8.toNat = c.toNat := Nat.mod_eq_of_lt (by omega)
    have hlead : lead c.toNat.toUInt8 = .inl (.point c 1) := by
      rw [lead]
      rw [hbyte, if_pos hc, CodePoint.ofNat_toNat]
    have hrest : piecesFrom none (Http.latin1Bytes t) = t.map fun c => .point c 1 := ih ht
    rw [pieces, Http.latin1Bytes, List.map_cons, piecesFrom, hlead, List.map_cons, ← hrest]
    rfl

theorem textOfPieces_points (bytes : List UInt8) (offset : Nat) :
    textOfPieces bytes offset (t.map fun c => .point c 1) = .ok t := by
  induction t generalizing offset with
  | nil => rfl
  | cons c t ih =>
    rw [List.map_cons, textOfPieces, ih]
    rfl

/-- The bytes of an ASCII text are read as the text. -/
theorem decode_latin1Bytes (h : ∀ c ∈ t, c.toNat < 0x80) :
    decode (Http.latin1Bytes t) = .ok t := by
  rw [decode, pieces_latin1Bytes h, textOfPieces_points]

end Utf8

end CompileGate
