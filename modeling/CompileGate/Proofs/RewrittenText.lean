/-
CompileGate/Proofs/RewrittenText.lean

A rewritten text differs from the text in its specifiers, and in nothing else.

What is outside the specifiers of a text is found by scanning it and leaving them
out (`withoutSpecifiers`).  That is the same as rewriting them to nothing, so it is
read off the pieces as well: `Piece.hollow` empties a piece, and a piece is as empty
after it is renewed as it was before.

Main result (`rewrite_faithful`).  A target must be one that can stand between two
quotes, and it must not look like the end of a statement: that it does not start
with a blank or `;` is what makes it `Pastable`.
-/
import CompileGate.Proofs.Scanning

namespace CompileGate
namespace Import

/-! ### Outside the specifiers -/

/-- The rest of a text from `position` on, without the specifiers of `spans`. -/
def withoutFrom : (position : Nat) → Text → List Span → Text
  | _, t, [] => t
  | position, t, span :: spans =>
    t.take (span.start - position)
      ++ withoutFrom span.stop (t.drop (span.stop - position)) spans

/-- A text without the specifiers that its scan finds. -/
def withoutSpecifiers (t : Text) : Text := withoutFrom 0 t (spans t)

/-- A piece without its specifier. -/
def Piece.hollow : Piece → Piece
  | point c => point c
  | statement s => statement { s with specifier := [] }

@[simp] theorem Piece.hollow_renew (edges : Table Text) (piece : Piece) :
    (piece.renew edges).hollow = piece.hollow := by
  cases piece with
  | point c => rfl
  | statement s => rfl

/-- Leaving specifiers out is rewriting them to nothing. -/
theorem withoutFrom_eq_rewriteFrom {edges : Table Text} {spans : List Span}
    (h : ∀ s ∈ spans, Table.get? s.specifier edges = some []) (position : Nat) (t : Text) :
    withoutFrom position t spans = rewriteFrom edges position t spans := by
  induction spans generalizing position t with
  | nil => rfl
  | cons s spans ih =>
    obtain ⟨hs, hspans⟩ := List.forall_mem_cons.mp h
    rw [withoutFrom, rewriteFrom, hs, ih hspans]
    simp

/-- Every name of a table of blanks has the blank entry. -/
theorem get?_map_nil {names : List Text} {name : Text} (h : name ∈ names) :
    Table.get? name (names.map fun n => (n, ([] : Text))) = some [] := by
  cases hget : Table.get? name (names.map fun n => (n, ([] : Text))) with
  | none =>
    rw [Table.get?_eq_none_iff, Table.names, List.map_map] at hget
    exact absurd (List.mem_map_of_mem h) hget
  | some value =>
    obtain ⟨n, -, heq⟩ := List.mem_map.mp (Table.mem_of_get? hget)
    rw [(Prod.mk.inj heq).2]

theorem withoutSpecifiers_eq {pieces : List Piece} (h : Scanned false pieces) :
    withoutSpecifiers (textOf pieces) = textOf (pieces.map Piece.hollow) := by
  let blanks : Table Text := (pieces.filterMap Piece.specifier?).map fun s => (s, [])
  have hspans : ∀ s ∈ spans (textOf pieces), Table.get? s.specifier blanks = some [] := by
    intro s hs
    apply get?_map_nil
    rw [← specifiers_eq h, specifiers]
    exact List.mem_map_of_mem hs
  have hrenew : pieces.map (Piece.renew blanks) = pieces.map Piece.hollow := by
    apply List.map_congr_left
    intro piece hpiece
    cases piece with
    | point c => rfl
    | statement s =>
      have hs : s.specifier ∈ pieces.filterMap Piece.specifier? :=
        List.mem_filterMap.mpr ⟨_, hpiece, rfl⟩
      rw [Piece.renew, get?_map_nil hs]
      rfl
  rw [withoutSpecifiers, withoutFrom_eq_rewriteFrom hspans, ← hrenew]
  exact rewrite_eq h blanks

/-! ### What may be put in -/

/-- A text that may replace a specifier: it is one itself, and starts with no code point that could
come between a closing quote and the end of a statement. -/
structure IsTarget (target : Text) : Prop where
  ne_nil : target ≠ []
  points : ∀ c ∈ target, isSpecifierPoint c = true
  front : ∀ c ∈ target.head?, c.isBlank = false ∧ c ≠ ';'

/-- After its closing quote, a tail goes on with a blank or `;`. -/
theorem IsTail.exists_front {quote : CodePoint} {tail : Text} (h : IsTail quote tail) :
    ∃ c rest, tail = quote :: c :: rest ∧ (c.isBlank = true ∨ c = ';') := by
  obtain ⟨naming, blanks, rfl, hnaming, hblank⟩ := h
  rcases hnaming with rfl | ⟨outer, inner, first, more, hnaming⟩
  · cases blanks with
    | nil => exact ⟨_, _, rfl, Or.inr rfl⟩
    | cons c blanks => exact ⟨c, _, rfl, Or.inl (hblank c List.mem_cons_self)⟩
  · obtain ⟨c, outer, rfl⟩ := List.exists_cons_of_ne_nil hnaming.blanks_ne
    obtain ⟨more', rfl⟩ : ∃ more', naming = c :: more' := ⟨_, hnaming.eq⟩
    exact ⟨c, _, rfl, Or.inl (hnaming.blank c List.mem_cons_self)⟩

theorem IsTarget.pastable {target : Text} (h : IsTarget target) : Pastable target := by
  refine ⟨h.ne_nil, h.points, fun quote rest => ?_⟩
  cases htake : takeTail? quote (quote :: (target ++ rest)) with
  | none => rfl
  | some tail =>
    obtain ⟨htail, after, htext⟩ := takeTail?_eq_some_iff.mp htake
    obtain ⟨c, more, rfl, hc⟩ := htail.exists_front
    obtain ⟨d, target, rfl⟩ := List.exists_cons_of_ne_nil h.ne_nil
    obtain ⟨rfl, -⟩ := List.cons.inj (List.cons.inj htext).2
    obtain ⟨hblank, hmark⟩ := h.front d rfl
    rcases hc with hc | hc
    · rw [hblank] at hc
      cases hc
    · exact absurd hc hmark

/-- **Rewriting replaces specifiers and nothing else**: the rewritten text scans to the targets of
the specifiers, in the same order, and is the same text outside of them. -/
theorem rewrite_faithful (t : Text) (edges : Table Text) (h : ∀ e ∈ edges, IsTarget e.2) :
    specifiers (rewrite t edges) = (specifiers t).map (fun s => (Table.get? s edges).getD s)
      ∧ withoutSpecifiers (rewrite t edges) = withoutSpecifiers t := by
  have hpastable : ∀ s ∈ specifiers t, ∀ target, Table.get? s edges = some target →
      Pastable target := fun s _ target hget => (h _ (Table.mem_of_get? hget)).pastable
  refine ⟨specifiers_rewrite hpastable, ?_⟩
  obtain ⟨pieces, hp, rfl⟩ := exists_scanned false t
  rw [specifiers_eq hp] at hpastable
  rw [rewrite_eq hp, withoutSpecifiers_eq hp, withoutSpecifiers_eq (scanned_renew hp hpastable),
    List.map_map]
  exact congrArg textOf (List.map_congr_left fun piece _ => piece.hollow_renew edges)

/-- A text with a replaced specifier, one that has no edge, a stray quote and a repeated one. -/
def mixedText : Text := "import 'a'; // don't\nimport {b} from \"b\" as c; import 'a' ;import \"a';"

def mixedEdges : Table Text := [("a", "https://host/a.sol"), ("c", "https://host/c.sol")]

theorem rewrite_mixed : specifiers (rewrite mixedText mixedEdges)
      = ["https://host/a.sol", "b", "https://host/a.sol"]
    ∧ withoutSpecifiers (rewrite mixedText mixedEdges)
      = "import ''; // don't\nimport {b} from \"\" as c; import '' ;import \"a';" := by
  have htargets : ∀ e ∈ mixedEdges, IsTarget e.2 := by
    intro e he
    have hcheck : ∀ e ∈ mixedEdges, e.2 ≠ [] ∧ (∀ c ∈ e.2, isSpecifierPoint c = true)
        ∧ ∀ c ∈ e.2.head?, c.isBlank = false ∧ c ≠ ';' := by decide +kernel
    obtain ⟨hne, hpoints, hfront⟩ := hcheck e he
    exact ⟨hne, hpoints, hfront⟩
  obtain ⟨hspecifiers, hrest⟩ := rewrite_faithful mixedText mixedEdges htargets
  constructor
  · rw [hspecifiers]
    decide +kernel
  · rw [hrest]
    decide +kernel

end Import

end CompileGate
