/-
CompileGate/Proofs/StatementPlaces.lean

The scan finds the statements of a text, and where they stand.

`IsStatement t s` says, without a reader, that a statement stands in the text `t`
at the places of the span `s`.  Its parts are those of `Statement.Reads`, with the
gap taken apart as well (`Gap`): blanks, and perhaps bindings that end in the word
`from`.  The two agree (`isStatement_iff`), so what is known of the front of a text
is known of every place in it.

Main result (`spans_exact`).  All four parts of it are read off the pieces that the
scan cuts a text into; for the last one, the induction carries the text before the
pieces along, since whether a statement may start at a place is for the code point
before it to say.
-/
import CompileGate.Proofs.Scanning

namespace CompileGate

/-! ### Words and blanks -/

/-- Whether a text ends in a word code point: no word starts right after it. -/
def Text.endsInWord (t : Text) : Bool := t.getLast?.any CodePoint.isWord

@[simp] theorem Text.endsInWord_nil : Text.endsInWord [] = false := rfl

@[simp] theorem Text.endsInWord_concat (t : Text) (c : CodePoint) :
    Text.endsInWord (t ++ [c]) = c.isWord := by
  rw [endsInWord, List.getLast?_concat, Option.any_some]

/-- One or more blanks. -/
structure Blanks (t : Text) : Prop where
  ne_nil : t ≠ []
  blank : ∀ c ∈ t, c.isBlank = true

namespace Import

/-! ### Gaps -/

/-- What stands between `import` and the opening quote. -/
inductive Gap : Text → Prop
  | blank {blanks} : Blanks blanks → Gap blanks
  | bindings {blanks run inner} : Blanks blanks → (∀ c ∈ run, endsGap c = false) →
      Text.endsInWord (blanks ++ run) = false → Blanks inner →
      Gap (blanks ++ run ++ "from" ++ inner)

theorem not_endsGap_of_isBlank {c : CodePoint} (h : c.isBlank = true) : endsGap c = false := by
  have hall : ∀ n ∈ blankNumbers, ∀ h : n < 0x110000, endsGap ⟨n, h⟩ = false := by decide
  exact hall c.toNat (toNat_mem_of_isBlank h) c.isLt

/-- A gap ends where its quote stands, and not before. -/
theorem Gap.free {gap : Text} (h : Gap gap) : ∀ c ∈ gap, endsGap c = false := by
  have hblanks : ∀ {blanks : Text}, Blanks blanks → ∀ c ∈ blanks, endsGap c = false :=
    fun hb c hc => not_endsGap_of_isBlank (hb.blank c hc)
  have hfrom : ∀ c ∈ ("from" : Text), endsGap c = false := by decide
  cases h with
  | blank hb => exact hblanks hb
  | bindings hb hrun _ hinner =>
    simp only [List.forall_mem_append]
    exact ⟨⟨⟨hblanks hb, hrun⟩, hfrom⟩, hblanks hinner⟩

/-- The word `from` with a boundary before it, and blanks. -/
theorem endsInFrom_iff {gap : Text} : endsInFrom gap = true
    ↔ ∃ front inner, gap = front ++ "from" ++ inner ∧ front ≠ []
      ∧ Text.endsInWord front = false ∧ Blanks inner := by
  have hmorf : (("morf" : Text)).reverse = ("from" : Text) := rfl
  unfold endsInFrom
  dsimp only
  rw [Bool.and_eq_true, decide_eq_true_iff]
  constructor
  · rintro ⟨hlength, hmatch⟩
    split at hmatch
    case h_2 => cases hmatch
    case h_1 c rest hword =>
      have hback := List.takeWhile_append_dropWhile (p := CodePoint.isBlank) (l := gap.reverse)
      have hgap : gap = ((c :: rest).reverse ++ "from")
          ++ (gap.reverse.takeWhile CodePoint.isBlank).reverse := by
        rw [Text.eq_append_of_afterStart? hword] at hback
        rw [← hmorf, ← List.reverse_append, ← List.reverse_append, hback, List.reverse_reverse]
      refine ⟨(c :: rest).reverse, _, hgap, by simp, ?_, ?_, ?_⟩
      · rw [List.reverse_cons, Text.endsInWord_concat]
        simpa using hmatch
      · intro hnil
        have hlen := congrArg List.length hback
        rw [List.length_append, List.reverse_eq_nil_iff.mp hnil, List.length_nil] at hlen
        omega
      · intro d hd
        exact List.mem_takeWhile_imp (List.mem_reverse.mp hd)
  · rintro ⟨front, inner, rfl, hne, hboundary, hinner⟩
    obtain ⟨front, c, rfl⟩ := (List.eq_nil_or_concat front).resolve_left hne
    rw [List.concat_eq_append] at hboundary ⊢
    rw [Text.endsInWord_concat] at hboundary
    have hreverse : (front ++ [c] ++ "from" ++ inner).reverse
        = inner.reverse ++ (("morf" : Text) ++ c :: front.reverse) := by
      simp only [List.reverse_append, List.reverse_singleton, ← hmorf, List.reverse_reverse]
      rfl
    have hdrop : (front ++ [c] ++ "from" ++ inner).reverse.dropWhile CodePoint.isBlank
        = ("morf" : Text) ++ c :: front.reverse := by
      rw [hreverse, List.dropWhile_append_of_pos fun d hd =>
        hinner.blank d (List.mem_reverse.mp hd)]
      rfl
    have hpos := List.length_pos_of_ne_nil hinner.ne_nil
    rw [hdrop, Text.afterStart?_append]
    refine ⟨?_, by simp [hboundary]⟩
    rw [hreverse, @List.length_append _ inner.reverse, List.length_reverse]
    omega

/-- The reader of gaps reads those, among the texts that no quote and no `;` ends. -/
theorem isGap_iff {gap : Text} :
    (isGap gap = true ∧ ∀ c ∈ gap, endsGap c = false) ↔ Gap gap := by
  constructor
  · rintro ⟨h, hfree⟩
    cases gap with
    | nil => cases h
    | cons c gap =>
      rw [isGap, Bool.and_eq_true, Bool.or_eq_true] at h
      obtain ⟨hc, hall | hfrom⟩ := h
      · exact .blank ⟨List.cons_ne_nil _ _, List.all_eq_true.mp hall⟩
      · -- the first blank of the gap stands before the word `from`
        obtain ⟨front, inner, hgap, hne, hboundary, hinner⟩ := endsInFrom_iff.mp hfrom
        obtain ⟨d, run, rfl⟩ := List.exists_cons_of_ne_nil hne
        obtain ⟨rfl, -⟩ := List.cons.inj hgap
        rw [hgap] at hfree ⊢
        have hblank : Blanks [c] := ⟨List.cons_ne_nil _ _, by simpa using hc⟩
        have hrun : ∀ e ∈ run, endsGap e = false := fun e he => hfree e (by simp [he])
        exact .bindings hblank hrun hboundary hinner
  · intro h
    refine ⟨?_, h.free⟩
    cases h with
    | @blank blanks hb =>
      obtain ⟨c, rest, rfl⟩ := List.exists_cons_of_ne_nil hb.ne_nil
      rw [isGap, hb.blank c List.mem_cons_self, List.all_eq_true.mpr hb.blank]
      rfl
    | @bindings blanks run inner hb _ hboundary hinner =>
      have hfrom : endsInFrom (blanks ++ run ++ "from" ++ inner) = true :=
        endsInFrom_iff.mpr ⟨_, _, rfl, by simp [hb.ne_nil], hboundary, hinner⟩
      obtain ⟨c, rest, rfl⟩ := List.exists_cons_of_ne_nil hb.ne_nil
      simp only [List.cons_append] at hfrom ⊢
      rw [isGap, hb.blank c List.mem_cons_self, hfrom, Bool.or_true]
      rfl

/-! ### Statements in a text -/

/-- A statement stands in a text at the places of a span: `import` at the beginning of a word, a
gap, and between two quotes of one kind the specifier; then perhaps a name, and `;`. -/
structure IsStatementAt (t : Text) (s : Span) (before gap tail after : Text) (quote : CodePoint) :
    Prop where
  text_eq : t = before ++ ("import" ++ gap ++ quote :: s.specifier ++ tail) ++ after
  boundary : Text.endsInWord before = false
  gap_gap : Gap gap
  quote_isQuote : isQuote quote = true
  specifier_ne : s.specifier ≠ []
  points : ∀ c ∈ s.specifier, isSpecifierPoint c = true
  tail_isTail : IsTail quote tail
  statementStart_eq : s.statementStart = before.length
  start_eq : s.start = before.length + ("import" ++ gap ++ [quote] : Text).length
  stop_eq : s.stop = s.start + s.specifier.length
  statementStop_eq : s.statementStop = s.stop + tail.length

def IsStatement (t : Text) (s : Span) : Prop :=
  ∃ before gap tail after quote, IsStatementAt t s before gap tail after quote

/-- A statement in a text is one at the front of what follows some text that does not end in a
word. -/
theorem isStatement_iff {t : Text} {s : Span} : IsStatement t s
    ↔ ∃ before statement rest, t = before ++ rest ∧ Text.endsInWord before = false
      ∧ statement? rest = some statement ∧ s = statement.span before.length := by
  constructor
  · rintro ⟨before, gap, tail, after, quote, h⟩
    obtain ⟨hisGap, hfree⟩ := isGap_iff.mpr h.gap_gap
    have hreads : Statement.Reads ⟨"import" ++ gap ++ [quote], s.specifier, tail⟩ gap quote :=
      ⟨rfl, hfree, hisGap, h.quote_isQuote, h.specifier_ne, h.points, h.tail_isTail⟩
    refine ⟨before, _, _, ?_, h.boundary,
      statement?_eq_some_iff.mpr ⟨⟨gap, quote, hreads⟩, after, rfl⟩, ?_⟩
    · rw [h.text_eq]
      simp [Statement.text]
    · have hstatementStart := h.statementStart_eq
      have hstart := h.start_eq
      have hstop := h.stop_eq
      have hstatementStop := h.statementStop_eq
      cases s
      dsimp only at hstatementStart hstart hstop hstatementStop
      simp only [Statement.span, Span.mk.injEq, Statement.length, true_and]
      omega
  · rintro ⟨before, statement, rest, rfl, hboundary, hstatement, rfl⟩
    obtain ⟨⟨gap, quote, hreads⟩, after, rfl⟩ := statement?_eq_some_iff.mp hstatement
    refine ⟨before, gap, statement.tail, after, quote, ?_, hboundary,
      isGap_iff.mp ⟨hreads.gap_isGap, hreads.gap_free⟩, hreads.quote_isQuote, hreads.specifier_ne,
      hreads.points, hreads.tail, rfl, ?_, rfl, ?_⟩
    · simp [Statement.text, Statement.span, hreads.lead_eq]
    · rw [Statement.span, hreads.lead_eq]
    · simp [Statement.span, Statement.length, Nat.add_assoc]

/-- At most one statement starts at a place. -/
theorem IsStatement.eq_of_start {t : Text} {a b : Span} (ha : IsStatement t a)
    (hb : IsStatement t b) (hstart : a.statementStart = b.statementStart) : a = b := by
  obtain ⟨before, s, rest, rfl, -, hs, rfl⟩ := isStatement_iff.mp ha
  obtain ⟨before', s', rest', htext, -, hs', rfl⟩ := isStatement_iff.mp hb
  have hlength : before.length = before'.length := hstart
  obtain ⟨rfl, rfl⟩ := List.append_inj htext hlength
  rw [hs] at hs'
  obtain rfl := Option.some.inj hs'
  rfl

/-! ### What the scan finds -/

/-- Spans come after the position that they are counted from. -/
theorem le_statementStart_of_mem {position : Nat} {pieces : List Piece} :
    ∀ s ∈ spansOf position pieces, position ≤ s.statementStart := by
  induction pieces generalizing position with
  | nil => exact fun s hs => absurd hs List.not_mem_nil
  | cons piece pieces ih =>
    intro s hs
    cases piece with
    | point c => exact Nat.le_of_succ_le (ih s hs)
    | statement statement =>
      rcases List.mem_cons.mp hs with rfl | hs
      · exact Nat.le_refl _
      · exact Nat.le_trans (Nat.le_add_right _ _) (ih s hs)

theorem pairwise_spansOf (position : Nat) (pieces : List Piece) :
    (spansOf position pieces).Pairwise fun a b => a.statementStop ≤ b.statementStart := by
  induction pieces generalizing position with
  | nil => exact .nil
  | cons piece pieces ih =>
    cases piece with
    | point c => exact ih (position + 1)
    | statement s => exact .cons (fun b hb => le_statementStart_of_mem b hb) (ih _)

theorem Statement.Reads.endsInWord {s : Statement} {gap : Text} {quote : CodePoint}
    (h : s.Reads gap quote) (before : Text) : Text.endsInWord (before ++ s.text) = false := by
  obtain ⟨c, inner, htext⟩ := h.exists_ends
  rw [htext, ← List.cons_append, ← List.append_assoc, Text.endsInWord_concat]
  rfl

/-- What the scan finds behind a text are statements. -/
theorem isStatement_of_mem_spansOf {inWord : Bool} {pieces : List Piece}
    (h : Scanned inWord pieces) {before : Text} (hword : Text.endsInWord before = inWord) :
    ∀ s ∈ spansOf before.length pieces, IsStatement (before ++ textOf pieces) s := by
  -- along the pieces; those passed move over to `before`
  induction h generalizing before with
  | nil => exact fun s hs => absurd hs List.not_mem_nil
  | @point inWord c pieces _ _ ih =>
    intro s hs
    have h := ih (Text.endsInWord_concat before c) s
    rw [List.length_append, List.append_assoc] at h
    exact h hs
  | @statement statement gap quote pieces hreads _ ih =>
    intro s hs
    rcases List.mem_cons.mp hs with rfl | hs
    · exact isStatement_iff.mpr ⟨before, statement, _, rfl, hword,
        statement?_eq_some_iff.mpr ⟨⟨gap, quote, hreads⟩, textOf pieces, rfl⟩, rfl⟩
    · have h := ih (hreads.endsInWord before) s
      rw [List.length_append, Statement.length_text, List.append_assoc] at h
      exact h hs

/-- No statement starts outside what the scan finds. -/
theorem exists_mem_spansOf {inWord : Bool} {pieces : List Piece} (h : Scanned inWord pieces)
    {before : Text} (hword : Text.endsInWord before = inWord) {s : Span}
    (hs : IsStatement (before ++ textOf pieces) s) (hstart : before.length ≤ s.statementStart) :
    ∃ a ∈ spansOf before.length pieces,
      a.statementStart ≤ s.statementStart ∧ s.statementStart < a.statementStop := by
  induction h generalizing before with
  | nil =>
    -- nothing is left to start a statement with
    obtain ⟨front, statement, rest, htext, -, hstatement, rfl⟩ := isStatement_iff.mp hs
    have hlength : before.length ≤ front.length := hstart
    have hlen := congrArg List.length htext
    rw [textOf, List.flatMap_nil, List.length_append, List.length_append, List.length_nil] at hlen
    obtain rfl : rest = [] := List.eq_nil_of_length_eq_zero (by omega)
    cases hstatement
  | @point inWord c pieces hnone _ ih =>
    rcases Nat.lt_or_eq_of_le hstart with hlt | heq
    · have h := ih (Text.endsInWord_concat before c)
      rw [List.length_append, List.append_assoc] at h
      exact h hs hlt
    · -- a statement that starts here would have been found
      obtain ⟨front, statement, rest, htext, hboundary, hstatement, rfl⟩ := isStatement_iff.mp hs
      obtain ⟨rfl, rfl⟩ := List.append_inj htext heq
      rw [hword] at hboundary
      rcases hnone with hin | hnone
      · rw [hin] at hboundary
        cases hboundary
      · rw [show textOf (Piece.point c :: pieces) = c :: textOf pieces from rfl, hnone]
          at hstatement
        cases hstatement
  | @statement statement gap quote pieces hreads _ ih =>
    rcases Nat.lt_or_ge s.statementStart (before.length + statement.length) with hlt | hge
    · exact ⟨statement.span before.length, List.mem_cons_self, hstart, hlt⟩
    · have h := ih (hreads.endsInWord before)
      rw [List.length_append, Statement.length_text, List.append_assoc] at h
      obtain ⟨a, ha, hle, hlt⟩ := h hs hge
      exact ⟨a, List.mem_cons_of_mem _ ha, hle, hlt⟩

/-- **The scan finds the statements of a text**: every span is one, they are disjoint and in
increasing order, at most one starts at a place, and none starts outside of those found. -/
theorem spans_exact (t : Text) :
    (∀ s ∈ spans t, IsStatement t s)
      ∧ (spans t).Pairwise (fun a b => a.statementStop ≤ b.statementStart)
      ∧ (∀ a b, IsStatement t a → IsStatement t b → a.statementStart = b.statementStart → a = b)
      ∧ ∀ position, (∀ s ∈ spans t, ¬ (s.statementStart ≤ position ∧ position < s.statementStop)) →
        ∀ s, IsStatement t s → s.statementStart ≠ position := by
  obtain ⟨pieces, hp, rfl⟩ := exists_scanned false t
  rw [spans_eq hp]
  refine ⟨?_, pairwise_spansOf 0 pieces, fun a b => IsStatement.eq_of_start, ?_⟩
  · exact isStatement_of_mem_spansOf hp Text.endsInWord_nil
  · rintro _ houtside s hs rfl
    obtain ⟨a, ha, hin⟩ := exists_mem_spansOf hp Text.endsInWord_nil hs (Nat.zero_le _)
    exact houtside a ha hin

/-- The words of a statement in a comment are passed over, and so is one that starts in a word. -/
example : (spans "// import\nreimport 'a'; import {b} from 'c' as d; import 'e").map
    (fun s => (s.statementStart, s.start, s.stop, s.statementStop)) = [(24, 41, 42, 49)] := by
  decide +kernel

end Import

end CompileGate
