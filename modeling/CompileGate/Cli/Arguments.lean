/-
CompileGate/Cli/Arguments.lean

Reading the command line.

Words that start with a dash are options, unless they are a dash alone, a
negative number, or hold a space and are no option's beginning.  An option may
be shortened to any beginning that no other option shares, and its value may
stand in the same word after `=`.  All words after `--` are plain.

The words of a scope are told apart before any of them is acted on, so that an
ambiguous one is reported first.  Options that a scope does not know, and plain
words that nothing takes, are collected and reported together at the end.
-/
import CompileGate.Cli.Option
import CompileGate.Text.Integer
import CompileGate.Text.Quoted

namespace CompileGate
namespace Cli

/-! ### What can be wrong -/

/-- Why a command line is refused. -/
inductive UsageError
  | ambiguous (word : Text) (candidates : List Text)
  | ignoredValue (s : Switch) (value : Text)
  | missingValue (s : Switch)
  | badNumber (s : Switch) (value : Text)
  | badCommand (word : Text)
  | missingCommand
  | unrecognized (words : List Text)
deriving DecidableEq

def UsageError.message : UsageError → Text
  | .ambiguous word candidates =>
    "ambiguous option: " ++ word ++ " could match " ++ Text.join ", " candidates
  | .ignoredValue s value =>
    "argument " ++ s.name ++ ": ignored explicit argument " ++ Text.quoted value
  | .missingValue s => "argument " ++ s.name ++ ": expected one argument"
  | .badNumber s value => "argument " ++ s.name ++ ": invalid int value: " ++ Text.quoted value
  | .badCommand word =>
    "argument command: invalid choice: " ++ Text.quoted word ++ " (choose from "
      ++ Text.join ", " (Command.all.map fun c => Text.quoted c.name) ++ ")"
  | .missingCommand => "the following arguments are required: command"
  | .unrecognized words => "unrecognized arguments: " ++ Text.join " " words

/-- Why no command is run. -/
inductive Stop
  | help (scope : Scope)
  | version
  | misuse (scope : Scope) (error : UsageError)
  /-- A value that must not be missing was `--`, which is dropped where it stands. -/
  | droppedValue
deriving DecidableEq

/-! ### Telling words apart -/

/-- An option as it was written. -/
structure Written where
  switch : Switch
  spelling : Text
  /-- The value in the same word. -/
  attached : Option Text
deriving DecidableEq

/-- The role of a word. -/
inductive Role
  | option (o : Written)
  | unknownOption
  | separator
  | plain
deriving DecidableEq

/-- The text after the digits at its front, and whether there were any. -/
def dropDigits (t : Text) : Bool × Text :=
  ((t.takeWhile CodePoint.isDigit) ≠ [], t.dropWhile CodePoint.isDigit)

/-- Whether a word is a negative number: digits, or a point with digits after it and perhaps
before it; a line feed may follow. -/
def isNegativeNumber (word : Text) : Bool :=
  match word with
  | c :: rest =>
    c = '-' &&
      let (whole, rest) := dropDigits rest
      let atEnd (t : Text) : Bool := t = [] || t = ("\n" : Text)
      if whole && atEnd rest then true
      else match rest with
        | d :: rest =>
          d = '.' &&
            let (fraction, rest) := dropDigits rest
            fraction && atEnd rest
        | [] => false
  | [] => false

/-- The options that a word may be short for. -/
def candidates (scope : Scope) (word : Text) : List Written :=
  match word with
  | a :: b :: tail =>
    if b = '-' then
      let (stem, attached) :=
        match Text.cutFirst? '=' word with
        | some (stem, value) => (stem, some value)
        | none => (word, none)
      scope.spelled.filterMap fun (spelling, s) =>
        if Text.startsWith stem spelling then some ⟨s, spelling, attached⟩ else none
    else
      scope.spelled.filterMap fun (spelling, s) =>
        if spelling = [a, b] then some ⟨s, spelling, some tail⟩
        else if Text.startsWith word spelling then some ⟨s, spelling, none⟩
        else none
  | _ => []

/-- The role of a word before any `--`. -/
def roleOf (scope : Scope) (word : Text) : Except UsageError Role :=
  match word with
  | [] => .ok .plain
  | c :: rest =>
    if c ≠ '-' then .ok .plain
    else match scope.find? word with
      | some s => .ok (.option ⟨s, word, none⟩)
      | none =>
        if rest.isEmpty then .ok .plain
        else
          let whole : Option Written := do
            let (spelling, value) ← Text.cutFirst? '=' word
            return ⟨← scope.find? spelling, spelling, some value⟩
          match whole with
          | some o => .ok (.option o)
          | none =>
            match candidates scope word with
            | [o] => .ok (.option o)
            | [] =>
              if isNegativeNumber word || word.contains (' ' : CodePoint) then .ok .plain
              else .ok .unknownOption
            | several => .error (.ambiguous word (several.map Written.spelling))

/-- The words of a scope with their roles. -/
def roles (scope : Scope) : List Text → Except UsageError (List (Text × Role))
  | [] => .ok []
  | word :: words =>
    if word = "--" then .ok ((word, .separator) :: words.map fun w => (w, .plain))
    else do
      let role ← roleOf scope word
      return (word, role) :: (← roles scope words)

/-! ### Options and their values -/

/-- The values that options gave. -/
structure Settings where
  dotenv : Option Text
  dotenvOverride : Bool
  logLevel : Option Text
  host : Option Text
  port : Option Int
deriving DecidableEq

def Settings.none : Settings := ⟨.none, false, .none, .none, .none⟩

/-- The file that is read when none is named. -/
def defaultDotenv : Text := ".env"

/-- Acts on an option with the value it was given. -/
def act (scope : Scope) (s : Switch) (value : Option Text) (settings : Settings) :
    Except Stop Settings :=
  -- a value that is the separator is dropped
  let value := value.filter fun v => v ≠ ("--" : Text)
  match s, value with
  | .help, _ => .error (.help scope)
  | .version, _ => .error .version
  | .dotenv, value => .ok { settings with dotenv := some (value.getD defaultDotenv) }
  | .dotenvOverride, _ => .ok { settings with dotenvOverride := true }
  | _, none => .error .droppedValue
  | .logLevel, some level => .ok { settings with logLevel := some level }
  | .host, some host => .ok { settings with host := some host }
  | .port, some port =>
    match Integer.read? port with
    | some n => .ok { settings with port := some n }
    | none => .error (.misuse scope (.badNumber s port))

/-- Acts on an option that takes no value but has text in its word.  Only a single dash lets the
text be further options of one letter. -/
def actTogether (scope : Scope) (o : Written) (tail : Text) (settings : Settings) :
    Except Stop Settings :=
  match tail with
  | c :: rest =>
    if o.spelling.length = 2 ∧ scope.find? ['-', c] = some o.switch then
      if rest.all (· = c) then act scope o.switch none settings
      else .error (.misuse scope (.ignoredValue o.switch (rest.dropWhile (· = c))))
    else .error (.misuse scope (.ignoredValue o.switch tail))
  | [] => .error (.misuse scope (.ignoredValue o.switch []))

/-- Acts on an option; `rest` are the words after it.  Gives the words that are left. -/
def actWritten (scope : Scope) (o : Written) (rest : List (Text × Role)) (settings : Settings) :
    Except Stop (Settings × List (Text × Role)) :=
  match o.attached with
  | some value =>
    match o.switch.arity with
    | .none => do return (← actTogether scope o value settings, rest)
    | _ => do return (← act scope o.switch (some value) settings, rest)
  | none =>
    match o.switch.arity, rest with
    | .none, rest => do return (← act scope o.switch none settings, rest)
    | _, (value, .plain) :: rest => do return (← act scope o.switch (some value) settings, rest)
    | .atMostOne, rest => do return (← act scope o.switch none settings, rest)
    | .one, _ => .error (.misuse scope (.missingValue o.switch))

/-- Acts on the words after a command's name; `fuel` bounds their number.  Gives the words that
nothing took. -/
def actAll (scope : Scope) :
    (fuel : Nat) → List (Text × Role) → Settings → Except Stop (Settings × List Text)
  | 0, _, settings => .ok (settings, [])
  | _, [], settings => .ok (settings, [])
  | fuel + 1, (word, role) :: rest, settings =>
    match role with
    | .option o => do
      let (settings, rest) ← actWritten scope o rest settings
      actAll scope fuel rest settings
    | _ => do
      let (settings, extra) ← actAll scope fuel rest settings
      return (settings, word :: extra)

/-! ### The whole command line -/

/-- A command with its options. -/
structure Invocation where
  command : Command
  settings : Settings
deriving DecidableEq

/-- Tells the words of a scope apart. -/
def rolesOrStop (scope : Scope) (words : List Text) : Except Stop (List (Text × Role)) :=
  match roles scope words with
  | .ok roles => .ok roles
  | .error e => .error (.misuse scope e)

/-- Reads a command's name and the words after it; `extra` are the words before it that nothing
took. -/
def readCommand (extra : List Text) (name : Text) (words : List Text) : Except Stop Invocation :=
  match Command.ofName? name with
  | none => .error (.misuse .top (.badCommand name))
  | some command => do
    let roles ← rolesOrStop (.command command) words
    let (settings, more) ← actAll (.command command) roles.length roles .none
    let extra := extra ++ more
    if extra.isEmpty then return ⟨command, settings⟩
    else .error (.misuse .top (.unrecognized extra))

/-- Reads the words before the command's name, and then the command; `extra` are the words that
nothing took, last first. -/
def readTop (extra : List Text) : List (Text × Role) → Except Stop Invocation
  | [] => .error (.misuse .top .missingCommand)
  | (word, role) :: rest =>
    match role with
    | .option o => do
      let _ ← actWritten .top o rest .none
      readTop extra rest
    | .unknownOption => readTop (word :: extra) rest
    | .separator => if rest.isEmpty then .error (.misuse .top .missingCommand)
        else .error (.misuse .top (.badCommand word))
    | .plain => readCommand extra.reverse word (rest.map Prod.fst)

/-- Reads a command line. -/
def read (words : List Text) : Except Stop Invocation := do
  readTop [] (← rolesOrStop .top words)

end Cli

end CompileGate
