/-
CompileGate/Compiler/Document.lean

The document that a compiler is given: the language, the sources by key and the
settings.  A setting of the request replaces the default of its name and keeps
its place; the others come after.

All settings are copied.  A copy is the value itself, but to make one takes calls
inside calls, so the document can be made only where the call stack has room for
them.
-/
import CompileGate.Failure

namespace CompileGate
namespace Compiler

/-- The settings that hold unless a request replaces them. -/
def defaultSettings : Table Json := [
  ("optimizer", .object [("enabled", .bool false), ("runs", .int 200)]),
  ("outputSelection", .object [("*", .object [("*",
    .array [.string "abi", .string "evm.bytecode.object"])])])]

/-- The default settings with those of a request in their place. -/
def mergeSettings (settings : Table Json) : Table Json :=
  Table.insertAll settings defaultSettings

/-- The members of the document. -/
def document (sources : Table Text) (settings : Table Json) : Table Json := [
  ("language", .string "Solidity"),
  ("sources", .object (sources.map fun s => (s.1, .object [("content", .string s.2)]))),
  ("settings", .object (mergeSettings settings))]

/-! ### Copies -/

mutual

/-- How many calls are under way at once, at the most, while a value is copied: two for each
container and two for what lies in the innermost one, or one where it is empty. -/
def copyCalls : Json → Nat
  | .array items => max 3 (2 + copyCallsOfItems items)
  | .object members => max 3 (2 + copyCallsOfMembers members)
  | _ => 2

def copyCallsOfItems : List Json → Nat
  | [] => 0
  | item :: items => max (copyCalls item) (copyCallsOfItems items)

def copyCallsOfMembers : List (Text × Json) → Nat
  | [] => 0
  | (_, value) :: members => max (copyCalls value) (copyCallsOfMembers members)

end

/-- There is room for the calls that copy the default settings and those of a request. -/
def IsCopyable (room : Nat) (settings : Table Json) : Prop :=
  copyCalls (.object defaultSettings) ≤ room ∧ copyCalls (.object settings) ≤ room

instance (room : Nat) (settings : Table Json) : Decidable (IsCopyable room settings) :=
  inferInstanceAs (Decidable (_ ∧ _))

/-- The members of the document, with copies of all settings. -/
def copiedDocument {τ : Type} (room : Nat) (sources : Table Text) (settings : Table Json) :
    Except (Failure τ) (Table Json) :=
  if IsCopyable room settings then .ok (document sources settings) else .error .uncopied

section

variable {τ : Type} {room : Nat} {sources : Table Text} {settings members : Table Json}

theorem copiedDocument_eq_ok_iff : copiedDocument (τ := τ) room sources settings = .ok members
    ↔ IsCopyable room settings ∧ members = document sources settings := by
  unfold copiedDocument
  split
  · rename_i h
    simp [h, eq_comm]
  · rename_i h
    simp [h]

theorem copiedDocument_eq_error (h : ¬ IsCopyable room settings) :
    copiedDocument (τ := τ) room sources settings = .error .uncopied := if_neg h

end

end Compiler

end CompileGate
