/-
CompileGate/Proofs/Scanning.lean

A scanned text as a list of pieces, and what rewriting does to it.

A text is cut into the statements that the scan finds and the single code points
between them (`Scanned`).  Every text has such pieces (`exists_scanned`), the
spans are read off them (`spans_eq`), and rewriting replaces the specifiers of
their statements and nothing else (`rewrite_eq`).

Main result (`specifiers_rewrite`): a rewritten text scans to the specifiers that
were put into it.  Statements survive because what is put between two quotes
holds no quote itself.  That no new one appears is the other half: a statement
holds two quotes, so a new one that reached into a replaced specifier would have
its opening quote or its closing quote right before it, and neither can be.
-/
import CompileGate.Import.Rewrite
import CompileGate.Proofs.StatementGrammar
import Mathlib.Data.List.Basic

namespace CompileGate
namespace Import

/-! ### Pieces -/

/-- A statement that the scan finds, or a code point between two of them. -/
inductive Piece
  | point (c : CodePoint)
  | statement (s : Statement)

namespace Piece

def text : Piece → Text
  | point c => [c]
  | statement s => s.text

/-- The specifier that a piece holds. -/
def specifier? : Piece → Option Text
  | point _ => none
  | statement s => some s.specifier

/-- The piece with the target of its specifier in place of it. -/
def renew (edges : Table Text) : Piece → Piece
  | point c => point c
  | statement s =>
    statement { s with specifier := (Table.get? s.specifier edges).getD s.specifier }

end Piece

/-- The text of pieces. -/
def textOf (pieces : List Piece) : Text := pieces.flatMap Piece.text

/-- The spans of pieces, the first of which stands at `position`. -/
def spansOf : (position : Nat) → List Piece → List Span
  | _, [] => []
  | position, .point _ :: pieces => spansOf (position + 1) pieces
  | position, .statement s :: pieces => s.span position :: spansOf (position + s.length) pieces

/-- The pieces are those that a scan cuts a text into; `inWord` says whether a word code point
stands before it. -/
inductive Scanned : (inWord : Bool) → List Piece → Prop
  | nil {inWord} : Scanned inWord []
  | point {inWord c pieces} : (inWord = true ∨ statement? (c :: textOf pieces) = none) →
      Scanned c.isWord pieces → Scanned inWord (.point c :: pieces)
  | statement {s gap quote pieces} : Statement.Reads s gap quote → Scanned false pieces →
      Scanned false (.statement s :: pieces)

theorem textOf_cons (piece : Piece) (pieces : List Piece) :
    textOf (piece :: pieces) = piece.text ++ textOf pieces := rfl

/-- A statement starts with a code point and ends in `;`. -/
theorem Statement.Reads.exists_ends {s : Statement} {gap : Text} {quote : CodePoint}
    (h : s.Reads gap quote) :
    ∃ c inner, s.text = c :: (inner ++ [(';' : CodePoint)]) := by
  obtain ⟨points, htail, -⟩ := h.tail.exists_points
  have himport : ("import" : Text) = ('i' : CodePoint) :: ("mport" : Text) := rfl
  refine ⟨'i', "mport" ++ gap ++ [quote] ++ s.specifier ++ quote :: points, ?_⟩
  rw [Statement.text, h.lead_eq, htail, himport]
  simp

/-- Every text has pieces. -/
theorem exists_scanned (inWord : Bool) (t : Text) :
    ∃ pieces, Scanned inWord pieces ∧ textOf pieces = t := by
  -- by the length: a statement takes more than one code point at once
  induction hn : t.length using Nat.strong_induction_on generalizing inWord t with
  | _ n ih =>
    subst hn
    cases t with
    | nil => exact ⟨[], .nil, rfl⟩
    | cons c rest =>
      have hpoint : inWord = true ∨ statement? (c :: rest) = none →
          ∃ pieces, Scanned inWord pieces ∧ textOf pieces = c :: rest := by
        intro h
        obtain ⟨pieces, hp, rfl⟩ := ih rest.length (Nat.lt_succ_self _) c.isWord rest rfl
        exact ⟨.point c :: pieces, .point h hp, rfl⟩
      cases inWord with
      | true => exact hpoint (Or.inl rfl)
      | false =>
        cases hs : statement? (c :: rest) with
        | none => exact hpoint (Or.inr hs)
        | some s =>
          obtain ⟨⟨gap, quote, h⟩, after, hafter⟩ := statement?_eq_some_iff.mp hs
          have hlength : after.length < (c :: rest).length := by
            obtain ⟨d, inner, htext⟩ := h.exists_ends
            rw [hafter, htext]
            simp only [List.cons_append, List.length_cons, List.length_append]
            omega
          obtain ⟨pieces, hp, rfl⟩ := ih after.length hlength false after rfl
          exact ⟨.statement s :: pieces, .statement h hp, hafter.symm⟩

/-! ### Spans and rewriting -/

/-- The scan passes over the rest of a statement that it has found. -/
theorem spansFrom_append (inWord : Bool) (position : Nat) (inner : Text) (d : CodePoint)
    (t : Text) : spansFrom inWord position (inner.length + 1) (inner ++ d :: t)
      = spansFrom d.isWord (position + (inner.length + 1)) 0 t := by
  -- on what is left of the statement, which the scan counts down
  induction inner generalizing inWord position with
  | nil => rfl
  | cons c inner ih =>
    rw [List.cons_append, List.length_cons, spansFrom, ih]
    congr 1
    omega

theorem spansFrom_eq {inWord : Bool} {pieces : List Piece} (h : Scanned inWord pieces)
    (position : Nat) : spansFrom inWord position 0 (textOf pieces) = spansOf position pieces := by
  induction h generalizing position with
  | nil => rfl
  | @point inWord c pieces hnone _ ih =>
    have hmatch : (if inWord = true then none else statement? (c :: textOf pieces)) = none := by
      rcases hnone with rfl | hnone
      · rfl
      · rw [hnone, ite_self]
    show spansFrom inWord position 0 (c :: textOf pieces) = _
    rw [spansFrom, hmatch]
    exact ih (position + 1)
  | @statement s gap quote pieces hs _ ih =>
    obtain ⟨c, inner, htext⟩ := hs.exists_ends
    have hstatement : statement? (s.text ++ textOf pieces) = some s :=
      statement?_eq_some_iff.mpr ⟨⟨gap, quote, hs⟩, _, rfl⟩
    have hlength : s.length = inner.length + 1 + 1 := by
      rw [← Statement.length_text, htext]
      simp
    rw [textOf_cons, spansOf, ← ih]
    show spansFrom false position 0 (s.text ++ textOf pieces) = _
    rw [htext] at hstatement ⊢
    rw [List.cons_append] at hstatement ⊢
    have hskip : s.length - 1 = inner.length + 1 := by omega
    have hstop : position + 1 + (inner.length + 1) = position + s.length := by omega
    rw [spansFrom, if_neg Bool.false_ne_true, hstatement]
    dsimp only
    rw [hskip, List.append_assoc, List.singleton_append, spansFrom_append, hstop]
    rfl

theorem spans_eq {pieces : List Piece} (h : Scanned false pieces) :
    spans (textOf pieces) = spansOf 0 pieces := spansFrom_eq h 0

theorem map_specifier_spansOf (position : Nat) (pieces : List Piece) :
    (spansOf position pieces).map Span.specifier = pieces.filterMap Piece.specifier? := by
  induction pieces generalizing position with
  | nil => rfl
  | cons piece pieces ih =>
    cases piece with
    | point c => exact ih (position + 1)
    | statement s => exact congrArg (s.specifier :: ·) (ih (position + s.length))

theorem specifiers_eq {pieces : List Piece} (h : Scanned false pieces) :
    specifiers (textOf pieces) = pieces.filterMap Piece.specifier? := by
  rw [specifiers, spans_eq h, map_specifier_spansOf]

/-- Rewriting replaces the specifiers of the pieces; `before` is what stands between the last
replaced specifier and the pieces. -/
theorem rewriteFrom_eq (edges : Table Text) (position : Nat) (before : Text)
    (pieces : List Piece) :
    rewriteFrom edges position (before ++ textOf pieces)
        (spansOf (position + before.length) pieces)
      = before ++ textOf (pieces.map (Piece.renew edges)) := by
  -- what is not replaced moves over to `before`
  induction pieces generalizing position before with
  | nil => simp [spansOf, rewriteFrom, textOf]
  | cons piece pieces ih =>
    cases piece with
    | point c =>
      have h := ih position (before ++ [c])
      simpa [spansOf, textOf_cons, Piece.renew, Piece.text, Nat.add_assoc] using h
    | statement s =>
      have hspecifier : (s.span (position + before.length)).specifier = s.specifier := rfl
      rw [spansOf, rewriteFrom, hspecifier]
      cases hget : Table.get? s.specifier edges with
      | none =>
        have h := ih position (before ++ s.text)
        rw [List.length_append, Statement.length_text, ← Nat.add_assoc] at h
        simpa [textOf_cons, Piece.renew, Piece.text, hget] using h
      | some target =>
        have hstart : (s.span (position + before.length)).start - position
            = (before ++ s.lead).length := by
          simp [Statement.span]
          omega
        have hstop : (s.span (position + before.length)).stop - position
            = (before ++ s.lead ++ s.specifier).length := by
          simp [Statement.span]
          omega
        have htext : before ++ textOf (.statement s :: pieces)
            = before ++ s.lead ++ s.specifier ++ (s.tail ++ textOf pieces) := by
          simp [textOf_cons, Piece.text, Statement.text]
        have htake : (before ++ s.lead ++ s.specifier ++ (s.tail ++ textOf pieces)).take
            (before ++ s.lead).length = before ++ s.lead := by
          rw [List.append_assoc _ s.specifier, List.take_left]
        have h := ih (s.span (position + before.length)).stop s.tail
        have hnext : (s.span (position + before.length)).stop + s.tail.length
            = position + before.length + s.length := by
          simp [Statement.span, Statement.length]
          omega
        rw [hnext] at h
        dsimp only
        rw [hstart, hstop, htext, htake, List.drop_left, h]
        simp [textOf_cons, Piece.renew, Piece.text, hget, Statement.text]

theorem rewrite_eq {pieces : List Piece} (h : Scanned false pieces) (edges : Table Text) :
    rewrite (textOf pieces) edges = textOf (pieces.map (Piece.renew edges)) := by
  rw [rewrite, spans_eq h]
  exact rewriteFrom_eq edges 0 [] pieces

/-! ### No statement is lost or made -/

/-- A text that may be put between two quotes: it makes a specifier, and no statement ends within
it. -/
structure Pastable (target : Text) : Prop where
  ne_nil : target ≠ []
  points : ∀ c ∈ target, isSpecifierPoint c = true
  no_tail : ∀ quote rest, takeTail? quote (quote :: (target ++ rest)) = none

/-- Where the first quote of two equal texts stands. -/
theorem append_quote_cases {before after before' after' : Text} {quote quote' : CodePoint}
    (h : before ++ quote :: after = before' ++ quote' :: after')
    (hfree : ∀ c ∈ before, isQuote c = false) (hquote' : isQuote quote' = true) :
    (before' = before ∧ quote' = quote ∧ after' = after)
      ∨ ∃ between, before' = before ++ quote :: between ∧ after = between ++ quote' :: after' := by
  rcases List.append_eq_append_iff.mp h with ⟨a, rfl, ha⟩ | ⟨a, rfl, ha⟩
  · cases a with
    | nil =>
      obtain ⟨rfl, rfl⟩ := List.cons.inj ha
      exact Or.inl ⟨List.append_nil _, rfl, rfl⟩
    | cons c a =>
      obtain ⟨rfl, rfl⟩ := List.cons.inj ha
      exact Or.inr ⟨a, rfl, rfl⟩
  · cases a with
    | nil =>
      obtain ⟨rfl, rfl⟩ := List.cons.inj ha
      exact Or.inl ⟨(List.append_nil _).symm, rfl, rfl⟩
    | cons c a =>
      obtain ⟨rfl, -⟩ := List.cons.inj ha
      have hc := hfree quote' (by simp)
      rw [hquote'] at hc
      cases hc

/-- Replacing the specifier of a statement does not start a statement further ahead, provided that
no tail starts at its opening quote that did not do so before. -/
theorem statement?_eq_none_of_replaced {s : Statement} {gap : Text} {quote : CodePoint}
    (hs : s.Reads gap quote) {ahead target rest rest' : Text}
    (hnone : statement? (ahead ++ s.lead ++ (s.specifier ++ (s.tail ++ rest))) = none)
    (htail : ∀ tail, takeTail? quote (quote :: (target ++ rest')) = some tail →
      takeTail? quote (quote :: (s.specifier ++ (s.tail ++ rest))) = some tail) :
    statement? (ahead ++ s.lead ++ (target ++ rest')) = none := by
  cases hnew : statement? (ahead ++ s.lead ++ (target ++ rest')) with
  | none => rfl
  | some s' =>
    have hcontra : ∀ {s'' : Statement} {gap'' : Text} {quote'' : CodePoint} {r : Text},
        s''.Reads gap'' quote'' →
        ahead ++ s.lead ++ (s.specifier ++ (s.tail ++ rest)) = s''.text ++ r → False := by
      intro s'' gap'' quote'' r hs'' htext
      have hsome := statement?_eq_some_iff.mpr ⟨⟨gap'', quote'', hs''⟩, r, htext⟩
      rw [hnone] at hsome
      cases hsome
    obtain ⟨⟨gap', quote', hs'⟩, r, htext⟩ := statement?_eq_some_iff.mp hnew
    exfalso
    rcases List.append_eq_append_iff.mp htext.symm with ⟨a, ha, -⟩ | ⟨a, ha, ha'⟩
    · -- the new statement ends before the replaced specifier, so it was there before
      refine hcontra hs' (r := a ++ (s.specifier ++ (s.tail ++ rest))) ?_
      rw [ha, List.append_assoc]
    · -- it reaches into what was put in: the quote there is its first or its second one
      obtain ⟨after, hafter, hfree⟩ := hs'.tail.exists_free
      have hquotes : ("import" ++ gap' : Text) ++ quote' :: (s'.specifier ++ quote' :: after)
          = (ahead ++ ("import" ++ gap)) ++ quote :: a := by
        have h : s'.text = ahead ++ s.lead ++ a := ha
        rw [Statement.text, hs'.lead_eq, hs.lead_eq, hafter] at h
        simpa using h
      have hlead : ahead ++ s.lead = (ahead ++ ("import" ++ gap)) ++ [quote] := by
        rw [hs.lead_eq]
        simp
      rcases append_quote_cases hquotes hs'.lead_free hs.quote_isQuote with
        ⟨hfront, rfl, -⟩ | ⟨between, hfront, hbetween⟩
      · -- its first one: the old specifier makes a statement there as well
        have hmixed : Statement.Reads ⟨s'.lead, s.specifier, s.tail⟩ gap' quote :=
          ⟨hs'.lead_eq, hs'.gap_free, hs'.gap_isGap, hs'.quote_isQuote, hs.specifier_ne, hs.points,
            hs.tail⟩
        refine hcontra hmixed (r := rest) ?_
        rw [hlead, hfront, Statement.text, hs'.lead_eq]
        simp
      · rcases append_quote_cases hbetween hs'.specifier_free hs.quote_isQuote with
          ⟨rfl, rfl, rfl⟩ | ⟨between', -, hafter'⟩
        · -- its second one: its tail was there before
          obtain ⟨-, r', hr'⟩ := takeTail?_eq_some_iff.mp (htail s'.tail (by
            rw [ha']
            exact takeTail?_eq_some_iff.mpr ⟨hs'.tail, r, by rw [hafter]; rfl⟩))
          refine hcontra hs' (r := r') ?_
          rw [hlead, hfront, List.append_assoc, List.singleton_append, hr', Statement.text,
            hs'.lead_eq]
          simp
        · have hquote := hfree quote (by rw [hafter']; simp)
          rw [hs.quote_isQuote] at hquote
          cases hquote

/-- Up to the next quote it does not matter what follows a tail. -/
theorem takeTail?_eq_some_of_quote {quote quote' : CodePoint} {between tail : Text}
    (hquote' : isQuote quote' = true) {rest rest' : Text}
    (h : takeTail? quote (quote :: (between ++ quote' :: rest)) = some tail) :
    takeTail? quote (quote :: (between ++ quote' :: rest')) = some tail := by
  obtain ⟨htail, r, hr⟩ := takeTail?_eq_some_iff.mp h
  obtain ⟨after, rfl, hfree⟩ := htail.exists_free
  have hafter : between ++ quote' :: rest = after ++ r := (List.cons.inj hr).2
  obtain ⟨a, rfl⟩ : ∃ a, between = after ++ a := by
    rcases List.append_eq_append_iff.mp hafter with ⟨a, rfl, ha⟩ | ⟨a, rfl, -⟩
    · cases a with
      | nil => exact ⟨[], by simp⟩
      | cons c a =>
        obtain ⟨rfl, -⟩ := List.cons.inj ha
        have hc := hfree quote' (by simp)
        rw [hquote'] at hc
        cases hc
    · exact ⟨a, rfl⟩
  exact takeTail?_eq_some_iff.mpr ⟨htail, a ++ quote' :: rest', by simp⟩

/-- A place where no statement starts stays one. -/
theorem statement?_eq_none_of_renewed {edges : Table Text} {inWord : Bool} {pieces : List Piece}
    (h : Scanned inWord pieces)
    (hedges : ∀ s ∈ pieces.filterMap Piece.specifier?, ∀ target, Table.get? s edges = some target →
      Pastable target) (ahead : Text) (hnone : statement? (ahead ++ textOf pieces) = none) :
    statement? (ahead ++ textOf (pieces.map (Piece.renew edges))) = none := by
  induction h generalizing ahead with
  | nil => exact hnone
  | @point inWord c pieces _ _ ih =>
    have h := ih hedges (ahead ++ [c])
    simp only [List.append_assoc, List.singleton_append] at h
    exact h hnone
  | @statement s gap quote pieces hs _ _ =>
    have hnone' : statement? (ahead ++ s.lead ++ (s.specifier ++ (s.tail ++ textOf pieces)))
        = none := by
      simpa [textOf_cons, Piece.text, Statement.text] using hnone
    have hstep : ∀ target, (∀ tail,
        takeTail? quote (quote :: (target ++ (s.tail ++ textOf (pieces.map (Piece.renew edges)))))
          = some tail →
        takeTail? quote (quote :: (s.specifier ++ (s.tail ++ textOf pieces))) = some tail) →
        statement? (ahead ++ s.lead
          ++ (target ++ (s.tail ++ textOf (pieces.map (Piece.renew edges))))) = none :=
      fun target htail => statement?_eq_none_of_replaced hs hnone' htail
    cases hget : Table.get? s.specifier edges with
    | none =>
      -- the specifier stays, but what follows its statement may not
      obtain ⟨after, hafter, -⟩ := hs.tail.exists_free
      have h := hstep s.specifier (by
        intro tail htail
        rw [hafter, List.cons_append] at htail ⊢
        exact takeTail?_eq_some_of_quote hs.quote_isQuote htail)
      simpa [textOf_cons, Piece.renew, Piece.text, Statement.text, hget] using h
    | some target =>
      have hpaste := hedges s.specifier (by simp [Piece.specifier?]) target hget
      have h := hstep target (by
        intro tail htail
        rw [hpaste.no_tail] at htail
        cases htail)
      simpa [textOf_cons, Piece.renew, Piece.text, Statement.text, hget] using h

theorem scanned_renew {edges : Table Text} {inWord : Bool} {pieces : List Piece}
    (h : Scanned inWord pieces)
    (hedges : ∀ s ∈ pieces.filterMap Piece.specifier?, ∀ target, Table.get? s edges = some target →
      Pastable target) : Scanned inWord (pieces.map (Piece.renew edges)) := by
  -- a point stays one for want of a statement, and a statement has its new specifier
  induction h with
  | nil => exact .nil
  | @point inWord c pieces hnone hp ih =>
    refine .point ?_ (ih hedges)
    rcases hnone with hword | hnone
    · exact Or.inl hword
    · exact Or.inr (statement?_eq_none_of_renewed hp hedges [c] hnone)
  | @statement s gap quote pieces hs _ ih =>
    have hp := ih fun s' hs' => hedges s' (by simp [Piece.specifier?] at hs' ⊢; exact Or.inr hs')
    cases hget : Table.get? s.specifier edges with
    | none =>
      rw [List.map_cons, Piece.renew, hget]
      exact .statement hs hp
    | some target =>
      have hpaste := hedges s.specifier (by simp [Piece.specifier?]) target hget
      rw [List.map_cons, Piece.renew, hget]
      exact .statement ⟨hs.lead_eq, hs.gap_free, hs.gap_isGap, hs.quote_isQuote, hpaste.ne_nil,
        hpaste.points, hs.tail⟩ hp

/-- **A rewritten text scans to what was put into it**, in the same order. -/
theorem specifiers_rewrite {t : Text} {edges : Table Text}
    (hedges : ∀ s ∈ specifiers t, ∀ target, Table.get? s edges = some target → Pastable target) :
    specifiers (rewrite t edges)
      = (specifiers t).map fun s => (Table.get? s edges).getD s := by
  obtain ⟨pieces, hp, rfl⟩ := exists_scanned false t
  rw [specifiers_eq hp] at hedges ⊢
  rw [rewrite_eq hp, specifiers_eq (scanned_renew hp hedges), List.filterMap_map,
    List.map_filterMap]
  apply List.filterMap_congr
  intro piece _
  cases piece with
  | point c => rfl
  | statement s => rfl

theorem points_of_scanned {inWord : Bool} {pieces : List Piece} (h : Scanned inWord pieces) :
    ∀ s ∈ pieces.filterMap Piece.specifier?, ∀ c ∈ s, isSpecifierPoint c = true := by
  induction h with
  | nil => simp
  | point _ _ ih => exact ih
  | statement hs _ ih =>
    intro s' hs'
    rcases List.mem_cons.mp hs' with rfl | hs'
    · exact hs.points
    · exact ih s' hs'

/-- No specifier that is found holds a quote or a line end. -/
theorem isSpecifierPoint_of_mem_specifiers {t s : Text} (h : s ∈ specifiers t) :
    ∀ c ∈ s, isSpecifierPoint c = true := by
  obtain ⟨pieces, hp, rfl⟩ := exists_scanned false t
  rw [specifiers_eq hp] at h
  exact points_of_scanned hp s h

theorem not_isQuote_of_mem_specifiers {t s : Text} (h : s ∈ specifiers t) :
    ∀ c ∈ s, isQuote c = false :=
  fun c hc => not_isQuote_of_isSpecifierPoint (isSpecifierPoint_of_mem_specifiers h c hc)

end Import

end CompileGate
