/-
CompileGate/Log/Record.lean

Log records and their JSON form.  A record has a level, the name of its logger, a
message and extra fields.  The form lists level, logger and message first; an
extra field never replaces one of these, and fields that belong to the record
itself are left out.  The text of an exception comes last and replaces an extra
field of its name.
-/
import CompileGate.Json.Printer
import CompileGate.Log.Level

namespace CompileGate
namespace Log

/-- A log record, without the time it was made at. -/
structure Record where
  level : Int
  logger : Text
  message : Text
  extras : Table Json
  exception : Option Text

/-- The names of the fields that every record has by itself. -/
def ownFields : List Text := [
  "msg", "args", "levelname", "levelno", "pathname", "filename", "module", "exc_info", "exc_text",
  "stack_info", "lineno", "funcName", "created", "msecs", "relativeCreated", "thread",
  "threadName", "processName", "process", "name", "message", "taskName"]

/-- Adds a field unless its name is taken. -/
def addField (fields : Table Json) (field : Text × Json) : Table Json :=
  if Table.has field.1 fields then fields else Table.insert field.1 field.2 fields

/-- The fields of a record, after the time it was made at. -/
def Record.fields (timestamp : Text) (r : Record) : Table Json :=
  let base : Table Json := [
    ("ts", .string timestamp), ("lvl", .string (levelName r.level)),
    ("logger", .string r.logger), ("message", .string r.message)]
  let extras := r.extras.filter fun e => !ownFields.contains e.1
  let fields := extras.foldl addField base
  match r.exception with
  | none => fields
  | some text => Table.insert "exc" (.string text) fields

/-- The line of a record. -/
def Record.line (timestamp : Text) (r : Record) : Text :=
  Json.print .logLine (.object (r.fields timestamp))

/-- Whether a log of a level shows records of another; levels below one are never shown. -/
def shows (level other : Int) : Bool := 0 < other && level ≤ other

/-- Whether a record is shown in a log of a level. -/
def Record.isVisible (level : Int) (r : Record) : Bool := shows level r.level

end Log

end CompileGate
