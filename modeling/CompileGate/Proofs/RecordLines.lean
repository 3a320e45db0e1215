/-
CompileGate/Proofs/RecordLines.lean

The line of a record says what the record says, whatever texts it holds.

A line is the JSON text of a table, so it is one line and is read as one object.  That
the table comes back as it was needs two things of it (`IsExact`): its values are read as
they were printed, which is asked of the extra fields, and no name stands in it twice.
The second is the work of the table: an extra field is added only under a name that is
free, and the text of an exception replaces what stands under its name
(`isExact_fields`).  The same two rules give the order in which the parts of a record are
looked up: the exception, the four fields that every line has, the extra fields
(`get?_fields`).

An extra field can do one thing only.  The message is asked for under a name that no
field has, and which is free for that reason; an extra field of this name is found
instead of the message, and the entry leaves no line at all (`toRecord?_eq`).

Main result: `lines_tell_records`.
-/
import CompileGate.Log.Entry
import CompileGate.Log.Timestamp
import CompileGate.Proofs.ReorderedJson

namespace CompileGate

namespace Json

/-- A table stays exact when an exact value is put into it. -/
theorem isExact_insert {members : Table Json} (h : IsExact (.object members)) {v : Json}
    (hv : IsExact v) (name : Text) : IsExact (.object (Table.insert name v members)) := by
  cases h with
  | object hnames hmembers =>
    refine .object (Table.nodup_names_insert hnames) fun m hm => ?_
    rcases Table.mem_of_mem_insert hm with hvalue | hm
    · exact hvalue ▸ hv
    · exact hmembers m hm

end Json

namespace Log

open Json (IsExact IsFloatFree)

/-! ### The fields of a record -/

/-- The names of the fields that every line has. -/
def headNames : List Text := ["ts", "lvl", "logger", "message"]

/-- The fields that every line has. -/
def headFields (timestamp : Text) (r : Record) : Table Json := [
  ("ts", .string timestamp), ("lvl", .string (levelName r.level)), ("logger", .string r.logger),
  ("message", .string r.message)]

/-- The field of an exception, if there is one. -/
def exceptionFields (r : Record) : Table Json :=
  match r.exception with
  | none => []
  | some text => [("exc", .string text)]

variable {r : Record}

theorem get?_addField (name : Text) (fields : Table Json) (field : Text × Json) :
    Table.get? name (addField fields field)
      = (Table.get? name fields).or (Table.get? name [field]) := by
  obtain ⟨key, value⟩ := field
  rw [addField]
  split
  · rename_i htaken
    exact (Table.get?_or_of_has htaken name value).symm
  · rename_i hfree
    exact Table.get?_insert_of_new hfree name value

theorem get?_foldl_addField (name : Text) (extras fields : Table Json) :
    Table.get? name (extras.foldl addField fields)
      = (Table.get? name fields).or (Table.get? name extras) := by
  induction extras generalizing fields with
  | nil => exact Option.or_none.symm
  | cons extra extras ih =>
    rw [List.foldl_cons, ih, get?_addField, Option.or_assoc, ← Table.get?_append]
    rfl

/-- Extra fields whose names are not those of a record's own are all written. -/
theorem fields_eq (hnames : ∀ name ∈ Table.names r.extras, name ∉ ownFields) (timestamp : Text) :
    r.fields timestamp = (exceptionFields r).foldl (fun fields e => Table.insert e.1 e.2 fields)
      (r.extras.foldl addField (headFields timestamp r)) := by
  have hkept : (r.extras.filter fun e => !ownFields.contains e.1) = r.extras := by
    rw [List.filter_eq_self]
    intro e he
    simpa using hnames e.1 (List.mem_map_of_mem he)
  rw [Record.fields, hkept, exceptionFields]
  cases r.exception with
  | none => rfl
  | some text => rfl

/-- Where the fields of a record come from. -/
theorem get?_fields (hnames : ∀ name ∈ Table.names r.extras, name ∉ ownFields)
    (timestamp name : Text) :
    Table.get? name (r.fields timestamp) = (Table.get? name (exceptionFields r)).or
      ((Table.get? name (headFields timestamp r)).or (Table.get? name r.extras)) := by
  rw [fields_eq hnames, exceptionFields, ← get?_foldl_addField]
  cases r.exception with
  | none => rfl
  | some text => exact Table.get?_insert_eq_or name "exc" _ _

theorem get?_exceptionFields {name : Text} (h : name = "exc" → r.exception = none) :
    Table.get? name (exceptionFields r) = none := by
  rw [Table.get?_eq_none_iff, exceptionFields]
  cases hexception : r.exception with
  | none => exact List.not_mem_nil
  | some text =>
    intro hmem
    rw [h (List.mem_singleton.mp hmem)] at hexception
    cases hexception

theorem isExact_addField {fields : Table Json} (h : IsExact (.object fields)) {field : Text × Json}
    (hfield : IsExact field.2) : IsExact (.object (addField fields field)) := by
  rw [addField]
  split
  · exact h
  · exact Json.isExact_insert h hfield field.1

theorem isExact_foldl_addField {extras fields : Table Json}
    (hextras : ∀ extra ∈ extras, IsExact extra.2) (h : IsExact (.object fields)) :
    IsExact (.object (extras.foldl addField fields)) := by
  induction extras generalizing fields with
  | nil => exact h
  | cons extra extras ih =>
    obtain ⟨hextra, hextras⟩ := List.forall_mem_cons.mp hextras
    rw [List.foldl_cons]
    exact ih hextras (isExact_addField h hextra)

theorem isExact_headFields (timestamp : Text) (r : Record) :
    IsExact (.object (headFields timestamp r)) := by
  refine .object (show headNames.Nodup by decide) fun m hm => ?_
  simp only [headFields, List.mem_cons, List.not_mem_nil, or_false] at hm
  rcases hm with rfl | rfl | rfl | rfl
  all_goals exact .string _

theorem isExact_fields (hnames : ∀ name ∈ Table.names r.extras, name ∉ ownFields)
    (hextras : ∀ extra ∈ r.extras, IsExact extra.2) (timestamp : Text) :
    IsExact (.object (r.fields timestamp)) := by
  have hadded := isExact_foldl_addField hextras (isExact_headFields timestamp r)
  rw [fields_eq hnames, exceptionFields]
  cases r.exception with
  | none => exact hadded
  | some text => exact Json.isExact_insert hadded (.string text) "exc"

/-! ### The line of a record -/

/-- The line of a record is read as its fields. -/
theorem read_line (hnames : ∀ name ∈ Table.names r.extras, name ∉ ownFields)
    (hextras : ∀ extra ∈ r.extras, IsExact extra.2) (timestamp : Text) :
    Json.read (r.line timestamp) = .ok (.object (r.fields timestamp)) := by
  have hexact := isExact_fields hnames hextras timestamp
  rw [Record.line, Json.read_print Json.Style.isPlain_logLine hexact.isReadable,
    Json.reread_eq_self rfl hexact]

theorem line_isShown (hnames : ∀ name ∈ Table.names r.extras, name ∉ ownFields)
    (hextras : ∀ extra ∈ r.extras, IsExact extra.2) (timestamp : Text) :
    ∀ c ∈ r.line timestamp, 0x20 ≤ c.toNat := fun c hc =>
  (Json.isShown_print Json.Style.isPlain_logLine
    (isExact_fields hnames hextras timestamp).isReadable c hc).1

/-- An object that holds what a record says, and nothing else. -/
structure Tells (object : Table Json) (r : Record) : Prop where
  /-- The level by its name. -/
  level : Table.get? "lvl" object = some (.string (levelName r.level))
  logger : Table.get? "logger" object = some (.string r.logger)
  message : Table.get? "message" object = some (.string r.message)
  exception : ∀ text, r.exception = some text → Table.get? "exc" object = some (.string text)
  /-- An extra field is there unless its name is that of another field of the line. -/
  extra : ∀ name value, Table.get? name r.extras = some value → name ∉ headNames →
    (name = "exc" → r.exception = none) → Table.get? name object = some value
  /-- There is no field but these. -/
  only : ∀ name ∈ Table.names object,
    name ∈ headNames ∨ name ∈ Table.names r.extras ∨ name = "exc" ∧ r.exception ≠ none

theorem tells_fields (hnames : ∀ name ∈ Table.names r.extras, name ∉ ownFields)
    (timestamp : Text) : Tells (r.fields timestamp) r := by
  have hget := get?_fields hnames timestamp
  have hhead : ∀ name, name ∉ headNames → Table.get? name (headFields timestamp r) = none :=
    fun name hname => Table.get?_eq_none_iff.mpr hname
  -- of the fields that every line has, none can be replaced by an exception
  have hown : ∀ (name : Text) (value : Json), name ≠ "exc" →
      Table.get? name (headFields timestamp r) = some value →
      Table.get? name (r.fields timestamp) = some value := by
    intro name value hname hvalue
    rw [hget, get?_exceptionFields (fun h => absurd h hname), hvalue]
    rfl
  refine ⟨hown _ _ (by decide) rfl, hown _ _ (by decide) rfl, hown _ _ (by decide) rfl,
    ?_, ?_, ?_⟩
  · intro text htext
    rw [hget, exceptionFields, htext]
    rfl
  · intro name value hvalue hname hexc
    rw [hget, get?_exceptionFields hexc, hhead name hname, hvalue]
    rfl
  · -- a name that none of the three parts has is not found
    intro name hmem
    by_contra hnone
    simp only [not_or, not_and, not_not] at hnone
    obtain ⟨hname, hextra, hexc⟩ := hnone
    apply Table.get?_eq_none_iff.mp ?_ hmem
    rw [hget, get?_exceptionFields hexc, hhead name hname, Table.get?_eq_none_iff.mpr hextra]
    rfl

/-! ### The record of an entry -/

variable {e : Entry} {message : Text}

theorem toRecord?_eq (hmessage : fillTemplate e.template e.values = some message) :
    e.toRecord? = if messageAccess ∈ Table.names e.extras then none
      else some ⟨e.level, loggerName e.logger, message, e.extras, e.exception⟩ := by
  rw [Entry.toRecord?, Entry.message?, hmessage]
  by_cases hhidden : messageAccess ∈ Table.names e.extras
  · rw [if_pos (Table.has_iff_mem.mpr hhidden), if_pos hhidden]
    rfl
  · rw [if_neg (mt Table.has_iff_mem.mp hhidden), if_neg hhidden]
    rfl

/-- **A line tells its record**: it is one line without control characters, and it is read as an
object with the level, the logger, the message and the extra fields of what was logged.  There is
one exactly if no extra field hides the message. -/
theorem lines_tell_records (hmessage : fillTemplate e.template e.values = some message)
    (hnames : ∀ name ∈ Table.names e.extras, name ∉ ownFields)
    (hextras : ∀ extra ∈ e.extras, IsFloatFree extra.2 ∧ ∃ t, Json.read t = .ok extra.2)
    (timestamp : Text) :
    (messageAccess ∈ Table.names e.extras → e.toRecord? = none)
      ∧ (messageAccess ∉ Table.names e.extras → ∃ r, e.toRecord? = some r
        ∧ r = ⟨e.level, loggerName e.logger, message, e.extras, e.exception⟩
        ∧ (∀ c ∈ r.line timestamp, 0x20 ≤ c.toNat)
        ∧ ∃ object, Json.read (r.line timestamp) = .ok (.object object) ∧ Tells object r) := by
  have hexact : ∀ extra ∈ e.extras, IsExact extra.2 := by
    intro extra hextra
    obtain ⟨hfree, t, hread⟩ := hextras extra hextra
    exact Json.isExact_of_read hread hfree
  constructor
  · intro hhidden
    rw [toRecord?_eq hmessage, if_pos hhidden]
  · intro hfree
    have hrecord := toRecord?_eq hmessage
    rw [if_neg hfree] at hrecord
    refine ⟨_, hrecord, rfl, ?_⟩
    exact ⟨line_isShown hnames hexact timestamp, _, read_line hnames hexact timestamp,
      tells_fields hnames timestamp⟩

/-- An entry whose texts hold line ends, quotes and brackets, and whose extra fields ask for names
that are taken. -/
def forgingEntry : Entry where
  level := 25
  logger := ""
  template := "GET %s\n"
  values := [.string "/\" 200\n\x7b\"lvl\": \"INFO\"\x7d"]
  extras := [("lvl", .string "INFO"), ("exc", .null), ("url\n", .array [.int (-1), .object []])]
  exception := some "Fault\n  at: \\"

/-- The message of the entry. -/
def forgingMessage : Text := "GET /\" 200\n\x7b\"lvl\": \"INFO\"\x7d\n"

/-- The line of the entry is one line under its own level, and holds the extra field whose name is
free. -/
theorem lines_tell_forging : ∃ r, forgingEntry.toRecord? = some r
    ∧ (∀ c ∈ r.line (timestamp 0), 0x20 ≤ c.toNat)
    ∧ ∃ object, Json.read (r.line (timestamp 0)) = .ok (.object object)
      ∧ Table.get? "lvl" object = some (.string "Level 25")
      ∧ Table.get? "logger" object = some (.string "root")
      ∧ Table.get? "message" object = some (.string forgingMessage)
      ∧ Table.get? "exc" object = some (.string "Fault\n  at: \\")
      ∧ Table.get? "url\n" object = some (.array [.int (-1), .object []]) := by
  have hmessage : fillTemplate forgingEntry.template forgingEntry.values = some forgingMessage := by
    decide +kernel
  have hnames : ∀ name ∈ Table.names forgingEntry.extras, name ∉ ownFields := by decide
  have hexact : ∀ extra ∈ forgingEntry.extras, IsExact extra.2 := by
    have hone : Json.IsShort (-1) := show (Text.ofNat 1).length ≤ Integer.maxDigits by decide
    have hitems : ∀ item ∈ ([.int (-1), .object []] : List Json), IsExact item :=
      List.forall_mem_cons.mpr ⟨.int hone, List.forall_mem_singleton.mpr
        (.object List.nodup_nil (List.forall_mem_nil _))⟩
    exact List.forall_mem_cons.mpr ⟨.string _, List.forall_mem_cons.mpr
      ⟨.null, List.forall_mem_singleton.mpr (.array hitems)⟩⟩
  have hextras : ∀ extra ∈ forgingEntry.extras,
      IsFloatFree extra.2 ∧ ∃ t, Json.read t = .ok extra.2 := fun extra hextra =>
    ⟨(hexact extra hextra).isFloatFree, (hexact extra hextra).exists_read⟩
  obtain ⟨r, hrecord, rfl, hshown, object, hread, htells⟩ :=
    (lines_tell_records hmessage hnames hextras (timestamp 0)).2 (by decide)
  exact ⟨_, hrecord, hshown, object, hread, htells.level, htells.logger, htells.message,
    htells.exception _ rfl, htells.extra "url\n" _ rfl (by decide) (fun h => absurd h (by decide))⟩

/-- An entry whose extra field has the name under which the message is asked for. -/
def hidingEntry : Entry where
  level := info
  logger := "solc_gateway.x"
  template := "hello"
  values := []
  extras := [("getMessage", .int 1)]
  exception := none

/-- The entry has a message, and its extra field has a name that is free and a value that can be
written, but no log shows it. -/
theorem hidden_message_unwritten :
    fillTemplate hidingEntry.template hidingEntry.values = some "hello"
      ∧ (∀ name ∈ Table.names hidingEntry.extras, name ∉ ownFields)
      ∧ (∀ extra ∈ hidingEntry.extras, IsFloatFree extra.2 ∧ ∃ t, Json.read t = .ok extra.2)
      ∧ hidingEntry.toRecord? = none ∧ hidingEntry.record? info = .ok none :=
  ⟨rfl, by decide, List.forall_mem_singleton.mpr ⟨.int 1, "1", rfl⟩, rfl, rfl⟩

end Log

end CompileGate
