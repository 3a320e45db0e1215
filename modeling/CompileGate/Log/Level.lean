/-
CompileGate/Log/Level.lean

The levels of log records.  A greater level is graver, and a log shows the
records that are at least as grave as its own level.  A level is chosen by name,
in any case; a name that stands for none chooses `INFO`.  Where no name is given,
a variable of the environment gives it.
-/
import CompileGate.Failure

namespace CompileGate
namespace Log

def debug : Int := 10
def info : Int := 20
def warning : Int := 30
def error : Int := 40
def critical : Int := 50

/-- The name that a level is written under. -/
def levelName (level : Int) : Text :=
  if level = critical then "CRITICAL"
  else if level = error then "ERROR"
  else if level = warning then "WARNING"
  else if level = info then "INFO"
  else if level = debug then "DEBUG"
  else if level = 0 then "NOTSET"
  else "Level " ++ Text.ofInt level

/-! ### Choosing a level -/

/-- A code point in capitals, as far as names of levels go: the letters of ASCII, the dotless i,
the long s and the two ligatures of s and t. -/
def capitals (c : CodePoint) : Text :=
  if c.isAsciiLower then [CodePoint.ofNat (c.toNat - 32)]
  else if c.toNat = 0x131 then "I"
  else if c.toNat = 0x17F then "S"
  else if c.toNat = 0xFB05 || c.toNat = 0xFB06 then "ST"
  else [c]

/-- The names of the levels. -/
def levelNames : Table Int := [
  ("CRITICAL", critical), ("FATAL", critical), ("ERROR", error), ("WARNING", warning),
  ("WARN", warning), ("INFO", info), ("DEBUG", debug), ("NOTSET", 0)]

/-- The names that are taken for something else than a level, and what choosing one leads to. -/
def reservedNames : Table Fault := [
  ("BASIC_FORMAT", ⟨.valueError, "Unknown level: '%(levelname)s:%(name)s:%(message)s'"⟩),
  ("_STYLES", ⟨.other "TypeError", "Level not an integer or a valid string"⟩)]

/-- The variable that names the level of a log for which none is named otherwise. -/
def levelVariable : Text := "SOLC_GATEWAY_LOG_LEVEL"

/-- The name that is used when none is given. -/
def defaultName (env : Table Text) : Text := (Table.get? levelVariable env).getD "INFO"

/-- The level that a name chooses; no name and an empty one choose the default. -/
def chooseLevel (default : Text) (name : Option Text) : Except Fault Int :=
  let given :=
    match name with
    | none | some [] => default
    | some name => name
  let chosen := given.flatMap capitals
  match Table.get? chosen reservedNames with
  | some fault => .error fault
  | none => .ok ((Table.get? chosen levelNames).getD info)

end Log

end CompileGate
