/-
CompileGate/Import/Rewrite.lean

Replaces import specifiers by the keys that they resolved to.  Everything between
the specifiers is copied, so quotes, names, braces and `;` stay as they are.
-/
import CompileGate.Import.Span
import CompileGate.Table

namespace CompileGate
namespace Import

/-- The rest of a text from `position` on, with the specifiers of `spans` replaced. -/
def rewriteFrom (edges : Table Text) : (position : Nat) → Text → List Span → Text
  | _, t, [] => t
  | position, t, span :: spans =>
    match Table.get? span.specifier edges with
    | none => rewriteFrom edges position t spans
    | some target =>
      t.take (span.start - position) ++ target
        ++ rewriteFrom edges span.stop (t.drop (span.stop - position)) spans

/-- The text with each import specifier that has an edge replaced by its target. -/
def rewrite (t : Text) (edges : Table Text) : Text := rewriteFrom edges 0 t (spans t)

end Import

end CompileGate
