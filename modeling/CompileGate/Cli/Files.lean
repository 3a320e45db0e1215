/-
CompileGate/Cli/Files.lean

The files that a run can read.  A path under which a file is listed names that
file.  Any other path is followed from the working directory: empty steps and `.`
stay, `..` leaves a directory, and what lies above the working directory is not
there.
-/
import CompileGate.Table

namespace CompileGate

/-- Files with their bytes and directories without, under their paths. -/
abbrev Files := Table (Option (List UInt8))

namespace Files

/-- Whether there is a directory at a path. -/
def isDirectory (files : Files) (path : Text) : Bool :=
  path.isEmpty || Table.get? path files = some none
    || (Table.names files).any (Text.startsWith (path ++ "/"))

/-- Follows steps from the directory that the steps `done` lead to, the last one first. -/
def follow? (files : Files) (done : List Text) : List Text → Option (List Text)
  | [] => some done
  | step :: steps =>
    if step.isEmpty ∨ step = "." then follow? files done steps
    else if files.isDirectory (Text.join "/" done.reverse) then
      if step = ".." then
        match done with
        | [] => none
        | _ :: done => follow? files done steps
      else follow? files (step :: done) steps
    else none

/-- The bytes of the file that a path leads to from the working directory. -/
def reach? (files : Files) (path : Text) : Option (List UInt8) := do
  if Text.startsWith "/" path then none
  else
    let steps ← files.follow? [] (Text.splitOn '/' path)
    (← Table.get? (Text.join "/" steps.reverse) files)

/-- The bytes of the file at a path. -/
def read? (files : Files) (path : Text) : Option (List UInt8) :=
  match Table.get? path files with
  | some (some bytes) => some bytes
  | _ => files.reach? path

end Files

end CompileGate
