/-
CompileGate/Proofs/StatementGrammar.lean

What an import statement is, without a reader.

`Statement.Reads` lists the parts of a statement and what each may hold;
`statement?` finds a statement at the front of a text exactly if the text starts
with one (`statement?_eq_some_iff`).  Two facts follow at once that the reader
does not show: what comes after a statement does not matter, and no text starts
with two of them.

The parts are found by longest runs.  Each run ends because the next part starts
with a code point that the run may not hold: blanks end at a letter, names at a
blank or `;`, gaps and specifiers at a quote.
-/
import CompileGate.Import.Statement
import Mathlib.Data.List.TakeDrop
import Mathlib.Data.List.TakeWhile

namespace CompileGate

/-! ### Blanks and words -/

/-- The numbers of the blanks. -/
def blankNumbers : List Nat := [
  9, 10, 11, 12, 13, 28, 29, 30, 31, 32, 133, 160, 5760, 8192, 8193, 8194, 8195, 8196, 8197, 8198,
  8199, 8200, 8201, 8202, 8232, 8233, 8239, 8287, 12288]

theorem toNat_mem_of_isBlank {c : CodePoint} (h : c.isBlank = true) : c.toNat ∈ blankNumbers := by
  simp only [blankNumbers, List.mem_cons, List.not_mem_nil, or_false]
  simp [CodePoint.isBlank, CharClass.contains, blankFlips, CharClass.memberFrom] at h
  omega

theorem isWord_of_isBlank {c : CodePoint} (h : c.isBlank = true) : c.isWord = false := by
  have hall : ∀ n ∈ blankNumbers, CharClass.memberFrom false wordFlips n = false := by
    decide +kernel
  exact hall c.toNat (toNat_mem_of_isBlank h)

/-! ### Longest runs -/

/-- A text splits after its longest run on which `p` holds. -/
theorem span_eq_iff {α : Type*} {p : α → Bool} {t run rest : List α} :
    t.span p = (run, rest)
      ↔ t = run ++ rest ∧ (∀ c ∈ run, p c = true) ∧ ∀ c ∈ rest.head?, p c = false := by
  rw [List.span_eq_takeWhile_dropWhile, Prod.mk.injEq]
  constructor
  · rintro ⟨rfl, rfl⟩
    refine ⟨List.takeWhile_append_dropWhile.symm, fun c => List.mem_takeWhile_imp, ?_⟩
    intro c hc
    have h := List.head?_dropWhile_not p t
    rw [Option.mem_def.mp hc] at h
    simpa using h
  · rintro ⟨rfl, hrun, hrest⟩
    rw [List.takeWhile_append_of_pos hrun, List.dropWhile_append_of_pos hrun]
    cases rest with
    | nil => simp
    | cons c rest => simp [hrest c rfl]

theorem span_spec {α : Type*} (p : α → Bool) (t : List α) :
    t = (t.span p).1 ++ (t.span p).2 ∧ ∀ c ∈ (t.span p).1, p c = true := by
  obtain ⟨h, hrun, -⟩ := span_eq_iff.mp (show t.span p = ((t.span p).1, (t.span p).2) from rfl)
  exact ⟨h, hrun⟩

namespace Import

/-! ### What follows a specifier -/

/-- Blanks, the word `as`, blanks and a name. -/
structure IsAlias (t : Text) (blanks inner : Text) (c : CodePoint) (more : Text) : Prop where
  eq : t = blanks ++ "as" ++ inner ++ c :: more
  blanks_ne : blanks ≠ []
  blank : ∀ b ∈ blanks, b.isBlank = true
  inner_ne : inner ≠ []
  inner_blank : ∀ b ∈ inner, b.isBlank = true
  start : isNameStart c = true
  points : ∀ d ∈ more, isNamePoint d = true

/-- What stands between a closing quote and the blanks before `;`. -/
def IsNaming (t : Text) : Prop := t = [] ∨ ∃ blanks inner c more, IsAlias t blanks inner c more

/-- The closing quote, perhaps a name for what is imported, blanks and `;`. -/
def IsTail (quote : CodePoint) (tail : Text) : Prop :=
  ∃ naming blanks, tail = quote :: (naming ++ blanks ++ [(';' : CodePoint)]) ∧ IsNaming naming
    ∧ ∀ b ∈ blanks, b.isBlank = true

theorem not_isBlank_of_isNameStart {c : CodePoint} (h : isNameStart c = true) :
    c.isBlank = false := by
  cases hb : c.isBlank with
  | false => rfl
  | true =>
    have hall : ∀ n ∈ blankNumbers, ∀ h : n < 0x110000, isNameStart ⟨n, h⟩ = false := by decide
    rw [hall c.toNat (toNat_mem_of_isBlank hb) c.isLt] at h
    cases h

theorem isNamePoint_of_isBlank {c : CodePoint} (h : c.isBlank = true) : isNamePoint c = false := by
  have hdollar : c ≠ '$' := by
    rintro rfl
    cases h
  simp [isNamePoint, isWord_of_isBlank h, hdollar]

/-- Taking blanks before a code point that is none. -/
theorem takeBlanks_append {blanks rest : Text} (hb : ∀ b ∈ blanks, b.isBlank = true)
    (hrest : ∀ c ∈ rest.head?, c.isBlank = false) : takeBlanks (blanks ++ rest) = (blanks, rest) :=
  span_eq_iff.mpr ⟨rfl, hb, hrest⟩

theorem takeAlias_append {name rest blanks inner more : Text} {c : CodePoint}
    (h : IsAlias name blanks inner c more) (hrest : ∀ d ∈ rest.head?, isNamePoint d = false) :
    takeAlias (name ++ rest) = (name, rest) := by
  have houter : takeBlanks (name ++ rest)
      = (blanks, ("as" : Text) ++ (inner ++ c :: (more ++ rest))) := by
    rw [h.eq]
    simp only [List.append_assoc, List.cons_append]
    exact takeBlanks_append h.blank (by rintro d ⟨⟩; decide)
  have hinner : takeBlanks (inner ++ c :: (more ++ rest)) = (inner, c :: (more ++ rest)) := by
    apply takeBlanks_append h.inner_blank
    rintro d ⟨⟩
    exact not_isBlank_of_isNameStart h.start
  have hname : (more ++ rest).span isNamePoint = (more, rest) :=
    span_eq_iff.mpr ⟨rfl, h.points, hrest⟩
  have hne := List.isEmpty_eq_false_iff.mpr h.blanks_ne
  have hne' := List.isEmpty_eq_false_iff.mpr h.inner_ne
  rw [takeAlias, houter]
  dsimp only
  rw [Text.afterStart?_append]
  dsimp only
  rw [hinner]
  dsimp only
  rw [hname, if_neg (by simp [hne, hne', h.start]), h.eq]

theorem takeAlias_blanks {blanks rest : Text} (hb : ∀ b ∈ blanks, b.isBlank = true) :
    takeAlias (blanks ++ (';' : CodePoint) :: rest) = ([], blanks ++ (';' : CodePoint) :: rest) := by
  have houter : takeBlanks (blanks ++ (';' : CodePoint) :: rest)
      = (blanks, (';' : CodePoint) :: rest) :=
    takeBlanks_append hb (by rintro d ⟨⟩; decide)
  rw [takeAlias, houter]
  rfl

theorem takeBlanks_spec (t : Text) :
    t = (takeBlanks t).1 ++ (takeBlanks t).2 ∧ ∀ b ∈ (takeBlanks t).1, b.isBlank = true :=
  span_spec _ t

/-- What is taken is a naming, and it stands at the front. -/
theorem takeAlias_spec (t : Text) :
    t = (takeAlias t).1 ++ (takeAlias t).2 ∧ IsNaming (takeAlias t).1 := by
  have hnone : t = [] ++ t ∧ IsNaming [] := ⟨rfl, Or.inl rfl⟩
  unfold takeAlias
  dsimp only
  split
  case h_1 => exact hnone
  case h_2 rest has =>
    split
    case h_1 => exact hnone
    case h_2 c more hrest =>
      split
      case isTrue => exact hnone
      case isFalse hbad =>
        obtain ⟨houter, hblank⟩ := takeBlanks_spec t
        obtain ⟨hinner, hblank'⟩ := takeBlanks_spec rest
        obtain ⟨hmore, hpoints⟩ := span_spec isNamePoint more
        rw [Bool.or_eq_true, Bool.or_eq_true, not_or, not_or, List.isEmpty_iff, List.isEmpty_iff,
          Bool.not_eq_true', Bool.not_eq_false] at hbad
        obtain ⟨⟨hne, hne'⟩, hstart⟩ := hbad
        constructor
        · calc t = (takeBlanks t).1 ++ ("as" ++ rest) := by
                rw [← Text.eq_append_of_afterStart? has]
                exact houter
            _ = (takeBlanks t).1 ++ ("as" ++ ((takeBlanks rest).1 ++ c :: more)) := by
                rw [← hrest, ← hinner]
            _ = (takeBlanks t).1 ++ ("as" ++ ((takeBlanks rest).1
                  ++ c :: ((more.span isNamePoint).1 ++ (more.span isNamePoint).2))) := by
                rw [← hmore]
            _ = _ := by simp
        · exact Or.inr ⟨_, _, c, _, rfl, hne, hblank, hne', hblank', hstart, hpoints⟩

/-- A tail is what the front of a text has, whatever follows. -/
theorem takeTail?_eq_some_iff {quote : CodePoint} {t tail : Text} :
    takeTail? quote t = some tail ↔ IsTail quote tail ∧ ∃ rest, t = tail ++ rest := by
  constructor
  · intro h
    cases t with
    | nil => cases h
    | cons c t =>
      rw [takeTail?] at h
      by_cases hc : c = quote
      · obtain ⟨halias, hnaming⟩ := takeAlias_spec t
        obtain ⟨hblanks, hblank⟩ := takeBlanks_spec (takeAlias t).2
        rw [if_pos hc] at h
        dsimp only at h
        split at h
        case h_1 => cases h
        case h_2 d rest hrest =>
          by_cases hd : d = ';'
          · rw [if_pos hd, Option.some.injEq] at h
            rw [hrest] at hblanks
            subst hc hd h
            refine ⟨⟨_, _, rfl, hnaming, hblank⟩, rest, ?_⟩
            calc c :: t = c :: ((takeAlias t).1 ++ (takeAlias t).2) := by rw [← halias]
              _ = c :: ((takeAlias t).1 ++ ((takeBlanks (takeAlias t).2).1 ++ _ :: rest)) := by
                  rw [← hblanks]
              _ = _ := by simp
          · rw [if_neg hd] at h
            cases h
      · rw [if_neg hc] at h
        cases h
  · rintro ⟨⟨naming, blanks, rfl, hnaming, hblank⟩, rest, rfl⟩
    have hblanks : takeBlanks (blanks ++ (';' : CodePoint) :: rest)
        = (blanks, (';' : CodePoint) :: rest) :=
      takeBlanks_append hblank (by rintro d ⟨⟩; decide)
    -- a naming is taken whole: what follows it is a blank or `;`, and neither is in a name
    have halias : takeAlias (naming ++ (blanks ++ (';' : CodePoint) :: rest))
        = (naming, blanks ++ (';' : CodePoint) :: rest) := by
      rcases hnaming with rfl | ⟨_, _, _, _, hnaming⟩
      · exact takeAlias_blanks hblank
      · refine takeAlias_append hnaming ?_
        cases blanks with
        | nil =>
          rintro d ⟨⟩
          decide
        | cons b blanks =>
          rintro d ⟨⟩
          exact isNamePoint_of_isBlank (hblank b List.mem_cons_self)
    simp only [List.append_assoc, List.cons_append, List.nil_append]
    rw [takeTail?, if_pos rfl, halias]
    dsimp only
    rw [hblanks]
    dsimp only
    rw [if_pos rfl]
    simp

/-! ### Whole statements -/

/-- The text of a statement. -/
def Statement.text (s : Statement) : Text := s.lead ++ s.specifier ++ s.tail

theorem Statement.length_text (s : Statement) : s.text.length = s.length := by
  simp [Statement.text, Statement.length, Nat.add_assoc]

/-- The parts of a statement: `import`, a gap, a quote, a specifier and a tail. -/
structure Statement.Reads (s : Statement) (gap : Text) (quote : CodePoint) : Prop where
  lead_eq : s.lead = "import" ++ gap ++ [quote]
  gap_free : ∀ c ∈ gap, endsGap c = false
  gap_isGap : isGap gap = true
  quote_isQuote : isQuote quote = true
  specifier_ne : s.specifier ≠ []
  points : ∀ c ∈ s.specifier, isSpecifierPoint c = true
  tail : IsTail quote s.tail

theorem endsGap_of_isQuote {c : CodePoint} (h : isQuote c = true) : endsGap c = true := by
  rw [endsGap, h]
  rfl

theorem not_isSpecifierPoint_of_isQuote {c : CodePoint} (h : isQuote c = true) :
    isSpecifierPoint c = false := by
  rw [isSpecifierPoint, h]
  rfl

/-- A class of code points that holds neither of the quotes. -/
theorem not_isQuote_of {q : CodePoint → Bool} (hdouble : q '"' = false) (hsingle : q '\'' = false)
    {c : CodePoint} (h : q c = true) : isQuote c = false := by
  cases hq : isQuote c with
  | false => rfl
  | true =>
    rw [isQuote, Bool.or_eq_true, decide_eq_true_iff, decide_eq_true_iff] at hq
    rcases hq with rfl | rfl
    · rw [hdouble] at h
      cases h
    · rw [hsingle] at h
      cases h

theorem not_isQuote_of_isSpecifierPoint {c : CodePoint} (h : isSpecifierPoint c = true) :
    isQuote c = false := not_isQuote_of (by decide) (by decide) h

/-- A text starts with at most one statement, and what follows it does not matter. -/
theorem statement?_eq_some_iff {t : Text} {s : Statement} :
    statement? t = some s ↔ (∃ gap quote, s.Reads gap quote) ∧ ∃ rest, t = s.text ++ rest := by
  constructor
  · intro h
    rw [statement?] at h
    obtain ⟨rest, himport, h⟩ := Option.bind_eq_some_iff.mp h
    obtain ⟨gap, rest₁, hspan⟩ : ∃ gap rest₁, rest.span (fun c => !endsGap c) = (gap, rest₁) :=
      ⟨_, _, rfl⟩
    obtain ⟨hrest, hfree, -⟩ := span_eq_iff.mp hspan
    rw [hspan] at h
    dsimp only at h
    cases rest₁ with
    | nil => cases h
    | cons quote rest₂ =>
      dsimp only at h
      by_cases hq : (isQuote quote && isGap gap) = true
      · obtain ⟨specifier, rest₃, hspan'⟩ :
            ∃ specifier rest₃, rest₂.span isSpecifierPoint = (specifier, rest₃) := ⟨_, _, rfl⟩
        obtain ⟨hrest', hpoints, -⟩ := span_eq_iff.mp hspan'
        rw [if_pos hq, hspan'] at h
        dsimp only at h
        by_cases hempty : specifier.isEmpty = true
        · rw [if_pos hempty] at h
          cases h
        · rw [if_neg hempty] at h
          obtain ⟨tail, htail, hs⟩ := Option.bind_eq_some_iff.mp h
          obtain rfl := Option.some.inj hs
          obtain ⟨hquote, hisGap⟩ := (Bool.and_eq_true _ _).mp hq
          obtain ⟨hIsTail, rest₄, hrest''⟩ := takeTail?_eq_some_iff.mp htail
          refine ⟨⟨gap, quote, rfl, ?_, hisGap, hquote, ?_, hpoints, hIsTail⟩, rest₄, ?_⟩
          · intro c hc
            simpa using hfree c hc
          · exact fun hnil => hempty (List.isEmpty_iff.mpr hnil)
          · rw [Text.eq_append_of_afterStart? himport, hrest, hrest', hrest'']
            simp [Statement.text]
      · rw [if_neg hq] at h
        cases h
  · rintro ⟨⟨gap, quote, h⟩, rest, rfl⟩
    obtain ⟨naming, blanks, htail, -, -⟩ := h.tail
    -- the gap ends at the opening quote, and the specifier at the closing one
    have hgap : (gap ++ quote :: (s.specifier ++ (s.tail ++ rest))).span (fun c => !endsGap c)
        = (gap, quote :: (s.specifier ++ (s.tail ++ rest))) := by
      refine span_eq_iff.mpr ⟨rfl, fun c hc => by rw [h.gap_free c hc]; rfl, ?_⟩
      rintro c ⟨⟩
      rw [endsGap_of_isQuote h.quote_isQuote]
      rfl
    have hspecifier : (s.specifier ++ (s.tail ++ rest)).span isSpecifierPoint
        = (s.specifier, s.tail ++ rest) := by
      refine span_eq_iff.mpr ⟨rfl, h.points, ?_⟩
      rw [htail]
      rintro c ⟨⟩
      exact not_isSpecifierPoint_of_isQuote h.quote_isQuote
    have htake : takeTail? quote (s.tail ++ rest) = some s.tail :=
      takeTail?_eq_some_iff.mpr ⟨h.tail, rest, rfl⟩
    have hne := List.isEmpty_eq_false_iff.mpr h.specifier_ne
    simp only [Statement.text, h.lead_eq, List.append_assoc, List.cons_append, List.nil_append]
    rw [statement?, Text.afterStart?_append]
    simp only [Option.bind_eq_bind, Option.bind_some, hgap, h.quote_isQuote, h.gap_isGap, Bool.and_self,
      if_true, hspecifier, hne, htake]
    rw [if_neg Bool.false_ne_true, ← h.lead_eq]
    rfl

/-! ### What the parts do not hold -/

/-- A code point that may stand between a closing quote and `;`. -/
def isTailPoint (c : CodePoint) : Bool := c.isBlank || isNameStart c || isNamePoint c

theorem isTailPoint_of_isNaming {t : Text} (h : IsNaming t) : ∀ c ∈ t, isTailPoint c = true := by
  rcases h with rfl | ⟨blanks, inner, first, more, h⟩
  · simp
  · have has : ∀ c ∈ ("as" : Text), isNameStart c = true := by decide
    rw [h.eq]
    intro c hc
    simp only [List.mem_append, List.mem_cons] at hc
    rcases hc with ((hc | hc) | hc) | rfl | hc
    · simp [isTailPoint, h.blank c hc]
    · simp [isTailPoint, has c hc]
    · simp [isTailPoint, h.inner_blank c hc]
    · simp [isTailPoint, h.start]
    · simp [isTailPoint, h.points c hc]

theorem IsTail.exists_points {quote : CodePoint} {tail : Text} (h : IsTail quote tail) :
    ∃ points, tail = quote :: (points ++ [(';' : CodePoint)])
      ∧ ∀ c ∈ points, isTailPoint c = true := by
  obtain ⟨naming, blanks, rfl, hnaming, hblank⟩ := h
  refine ⟨naming ++ blanks, rfl, ?_⟩
  intro c hc
  rcases List.mem_append.mp hc with hc | hc
  · exact isTailPoint_of_isNaming hnaming c hc
  · simp [isTailPoint, hblank c hc]

theorem not_isQuote_of_isTailPoint {c : CodePoint} (h : isTailPoint c = true) :
    isQuote c = false := not_isQuote_of rfl rfl h

/-- The closing quote is the last one of a statement. -/
theorem IsTail.exists_free {quote : CodePoint} {tail : Text} (h : IsTail quote tail) :
    ∃ rest, tail = quote :: rest ∧ ∀ c ∈ rest, isQuote c = false := by
  obtain ⟨points, rfl, hpoints⟩ := h.exists_points
  refine ⟨_, rfl, ?_⟩
  intro c hc
  rcases List.mem_append.mp hc with hc | hc
  · exact not_isQuote_of_isTailPoint (hpoints c hc)
  · rw [List.mem_singleton.mp hc]
    decide

/-- The opening quote is the first one of a statement. -/
theorem Statement.Reads.lead_free {s : Statement} {gap : Text} {quote : CodePoint}
    (h : s.Reads gap quote) : ∀ c ∈ ("import" ++ gap : Text), isQuote c = false := by
  have himport : ∀ c ∈ ("import" : Text), isQuote c = false := by decide
  intro c hc
  rcases List.mem_append.mp hc with hc | hc
  · exact himport c hc
  · have hgap : (!endsGap c) = true := by rw [h.gap_free c hc]; rfl
    exact not_isQuote_of (q := fun c => !endsGap c) (by decide) (by decide) hgap

theorem Statement.Reads.specifier_free {s : Statement} {gap : Text} {quote : CodePoint}
    (h : s.Reads gap quote) : ∀ c ∈ s.specifier, isQuote c = false :=
  fun c hc => not_isQuote_of_isSpecifierPoint (h.points c hc)

end Import

end CompileGate
