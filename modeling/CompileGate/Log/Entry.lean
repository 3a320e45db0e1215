/-
CompileGate/Log/Entry.lean

From what is logged to the record that is written.  Nothing is written when the
level of the log hides the entry or when the entry has no message: the values do
not fit its template, or an extra field hides it.  Extra fields may not take the
names of fields that the record has by itself.
-/
import CompileGate.Log.Record
import CompileGate.Log.Template

namespace CompileGate
namespace Log

/-- What is logged: the parts of a record, with the message still a template. -/
structure Entry where
  level : Int
  logger : Text
  template : Text
  values : List Json
  extras : Table Json
  exception : Option Text

/-- The names that extra fields may not take. -/
def takenNames : List Text := "asctime" :: ownFields.erase "taskName"

/-- The first extra field whose name is taken, as a fault. -/
def clash? (extras : Table Json) : Option Fault :=
  (extras.find? fun e => takenNames.contains e.1).map fun e =>
    ⟨.keyError, "Attempt to overwrite " ++ Text.quoted e.1 ++ " in LogRecord"⟩

/-- The name of a logger; the one without a name is the root of all. -/
def loggerName (name : Text) : Text := if name.isEmpty then "root" else name

/-- The name under which a record is asked for its message.  It is not taken, but an extra field
of this name is found in place of the message. -/
def messageAccess : Text := "getMessage"

/-- The message of an entry, if it has one. -/
def Entry.message? (e : Entry) : Option Text :=
  if Table.has messageAccess e.extras then none else fillTemplate e.template e.values

/-- The record of an entry that has a message. -/
def Entry.toRecord? (e : Entry) : Option Record :=
  e.message?.map fun message => ⟨e.level, loggerName e.logger, message, e.extras, e.exception⟩

/-- The record that an entry leaves in a log of a level, if it leaves one. -/
def Entry.record? (level : Int) (e : Entry) : Except Fault (Option Record) :=
  if !shows level e.level then .ok none
  else
    match clash? e.extras with
    | some fault => .error fault
    | none => .ok e.toRecord?

/-! ### The log of a run -/

/-- How a run writes its log: from which level on, and how many writers it has. -/
structure Setup where
  level : Int
  writers : Nat

/-- The setup before logging was started. -/
def Setup.initial : Setup := ⟨warning, 0⟩

/-- Starts logging at a level.  The writer of an earlier start is replaced. -/
def Setup.start (default : Text) (level : Option Text) : Except Fault Setup :=
  (chooseLevel default level).map fun level => ⟨level, 1⟩

/-- Starts logging some times, one after the other. -/
def Setup.startTimes (default : Text) (level : Option Text) : (times : Nat) → Except Fault Setup
  | 0 => .ok .initial
  | _ + 1 => Setup.start default level

end Log

end CompileGate
