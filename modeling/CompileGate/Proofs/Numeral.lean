/-
CompileGate/Proofs/Numeral.lean

Numbers in JSON texts.

A number is written as a sign, a whole part, a fraction and an exponent, of which only
the whole part must be there (`Numeral`).  Where no more of a number can follow, the
reader takes all of it and nothing else (`readNumber?_text`); it gives a whole number if
there is neither a fraction nor an exponent.

Main results: `readScalar_text`, and `readScalar_int` for printed whole numbers.
-/
import CompileGate.Json.Reader
import CompileGate.Proofs.StatementGrammar
import CompileGate.Proofs.WrittenNumber

namespace CompileGate

namespace Json

/-! ### Numbers as they are written -/

/-- A number as a JSON text writes it. -/
structure Numeral where
  negative : Bool
  whole : Text
  /-- The digits after the point, if there are any. -/
  fraction : Text
  /-- Whether the exponent is negative, and its digits. -/
  exponent : Option (Bool × Text)

/-- A text that does not go on with a number. -/
def EndsNumber (rest : Text) : Prop :=
  ∀ c ∈ rest.head?, c.isAsciiDigit = false ∧ c ≠ '.' ∧ c ≠ 'e' ∧ c ≠ 'E'

/-- A text of decimal digits. -/
def IsDigits (t : Text) : Prop := ∀ c ∈ t, c.isAsciiDigit = true

namespace Numeral

/-- A point and the digits after it. -/
def fractionText (fraction : Text) : Text :=
  if fraction.isEmpty then [] else ('.' : CodePoint) :: fraction

/-- The exponent with its mark and its sign. -/
def exponentText : Option (Bool × Text) → Text
  | none => []
  | some (negative, digits) => ('e' : CodePoint) :: (if negative then '-' else '+') :: digits

def text (n : Numeral) : Text :=
  (if n.negative then [('-' : CodePoint)] else [])
    ++ (n.whole ++ (fractionText n.fraction ++ exponentText n.exponent))

/-- All parts are digits, and there is no zero in front of others. -/
structure IsWritten (n : Numeral) : Prop where
  whole : IsDigits n.whole
  front : n.whole = [('0' : CodePoint)] ∨ ∃ c rest, n.whole = c :: rest ∧ c ≠ '0'
  fraction : IsDigits n.fraction
  exponent : ∀ e ∈ n.exponent, e.2 ≠ [] ∧ IsDigits e.2

/-- The power of ten that the exponent stands for. -/
def scale : Option (Bool × Text) → Option Int
  | none => none
  | some (negative, digits) =>
    let n : Int := Text.digitsValue digits
    some (if negative then -n else n)

/-- The number, unless it has too many digits. -/
def value (n : Numeral) : Except Halt Json :=
  if n.fraction.isEmpty && n.exponent.isNone then
    if n.whole.length > Integer.maxDigits then .error (.longInteger n.whole.length)
    else
      let m : Int := Text.digitsValue n.whole
      .ok (.int (if n.negative then -m else m))
  else
    .ok (.float (Binary64.ofDecimal n.negative (Text.digitsValue (n.whole ++ n.fraction))
      ((scale n.exponent).getD 0 - n.fraction.length)))

end Numeral

/-! ### Reading them -/

variable {digits rest : Text}

theorem EndsNumber.digit (h : EndsNumber rest) : ∀ c ∈ rest.head?, c.isAsciiDigit = false :=
  fun c hc => (h c hc).1

theorem takeDigits_append (hdigits : IsDigits digits)
    (hrest : ∀ c ∈ rest.head?, c.isAsciiDigit = false) :
    takeDigits (digits ++ rest) = (digits, rest) :=
  span_eq_iff.mpr ⟨rfl, hdigits, hrest⟩

/-- A whole part ends where the digits end, and a zero alone is one. -/
theorem takeWhole_append {n : Numeral} (h : n.IsWritten)
    (hrest : ∀ c ∈ rest.head?, c.isAsciiDigit = false) :
    takeWhole (n.whole ++ rest) = some (n.whole, rest) := by
  rcases h.front with hzero | ⟨c, more, hwhole, hc⟩
  · rw [hzero]
    rfl
  · have hdigit : c.isAsciiDigit = true := h.whole c (by simp [hwhole])
    have htake := takeDigits_append h.whole hrest
    rw [hwhole, List.cons_append] at htake ⊢
    rw [takeWhole, if_neg hc, if_pos hdigit, htake]

theorem takeFraction_append (hdigits : IsDigits digits)
    (hrest : ∀ c ∈ rest.head?, c.isAsciiDigit = false ∧ c ≠ '.') :
    takeFraction (Numeral.fractionText digits ++ rest) = (digits, rest) := by
  cases digits with
  | nil =>
    show takeFraction rest = ([], rest)
    cases rest with
    | nil => rfl
    | cons c more => rw [takeFraction, if_neg (hrest c rfl).2]
  | cons d more =>
    show takeFraction (('.' : CodePoint) :: (d :: more ++ rest)) = _
    rw [takeFraction, if_pos rfl, takeDigits_append hdigits fun c hc => (hrest c hc).1]
    rfl

theorem takeExponent_append {exponent : Option (Bool × Text)}
    (hexponent : ∀ e ∈ exponent, e.2 ≠ [] ∧ IsDigits e.2) (hrest : EndsNumber rest) :
    takeExponent (Numeral.exponentText exponent ++ rest) = (Numeral.scale exponent, rest) := by
  cases exponent with
  | none =>
    show takeExponent rest = (none, rest)
    cases rest with
    | nil => rfl
    | cons c more =>
      obtain ⟨-, -, he, hE⟩ := hrest c rfl
      rw [takeExponent, if_neg (by simp [he, hE])]
  | some e =>
    obtain ⟨negative, digits⟩ := e
    obtain ⟨hne, hdigits⟩ := hexponent _ rfl
    have hsign : Integer.takeSign ((if negative then '-' else '+') :: (digits ++ rest))
        = (negative, digits ++ rest) := by
      cases negative with
      | true => rfl
      | false => rfl
    show takeExponent (('e' : CodePoint) :: (if negative then '-' else '+') :: (digits ++ rest)) = _
    rw [takeExponent, if_pos (by decide), hsign]
    dsimp only
    rw [takeDigits_append hdigits hrest.digit]
    dsimp only
    rw [if_neg (by simpa using hne)]
    rfl

/-- The first code point of a whole part is a digit. -/
theorem Numeral.IsWritten.exists_cons {n : Numeral} (h : n.IsWritten) :
    ∃ c more, n.whole = c :: more ∧ c.isAsciiDigit = true := by
  rcases h.front with hzero | ⟨c, more, hwhole, -⟩
  · exact ⟨'0', [], hzero, rfl⟩
  · exact ⟨c, more, hwhole, h.whole c (by simp [hwhole])⟩

theorem Numeral.text_append (n : Numeral) (rest : Text) :
    n.text ++ rest = (if n.negative then [('-' : CodePoint)] else [])
      ++ (n.whole ++ (fractionText n.fraction ++ (exponentText n.exponent ++ rest))) := by
  simp only [text, List.append_assoc]

/-- The number of which the sign and the whole part are read. -/
def readAfterWhole (negative : Bool) (whole rest : Text) : Except Halt (Json × Text) :=
  let (fraction, rest) := takeFraction rest
  let (exponent, rest) := takeExponent rest
  if fraction.isEmpty && exponent.isNone then
    if whole.length > Integer.maxDigits then .error (.longInteger whole.length)
    else
      let n : Int := Text.digitsValue whole
      .ok (.int (if negative then -n else n), rest)
  else
    .ok (.float (Binary64.ofDecimal negative (Text.digitsValue (whole ++ fraction))
      (exponent.getD 0 - fraction.length)), rest)

/-- A number is a whole part, after a sign perhaps, and what comes after it. -/
theorem exists_readNumber?_eq (t : Text) : ∃ negative unsigned,
    readNumber? t = (takeWhole unsigned).map fun p => readAfterWhole negative p.1 p.2 := by
  cases t with
  | nil => exact ⟨false, [], rfl⟩
  | cons c rest =>
    by_cases hminus : c = '-'
    · exact ⟨true, rest, by rw [hminus]; rfl⟩
    · refine ⟨false, c :: rest, ?_⟩
      rw [readNumber?.eq_def]
      dsimp only
      rw [if_neg hminus]
      rfl

theorem readNumber?_signed (negative : Bool) {c : CodePoint} (hdigit : c.isAsciiDigit = true)
    (more : Text) :
    readNumber? ((if negative then [('-' : CodePoint)] else []) ++ c :: more)
      = (takeWhole (c :: more)).map fun p => readAfterWhole negative p.1 p.2 := by
  cases negative with
  | true => rfl
  | false =>
    have hminus : c ≠ '-' := CodePoint.ne_of_isAsciiDigit hdigit rfl
    show readNumber? (c :: more) = _
    rw [readNumber?.eq_def]
    dsimp only
    rw [if_neg hminus]
    rfl

/-- **A number is read as a whole**, where no more of it can follow. -/
theorem readNumber?_text {n : Numeral} (h : n.IsWritten) (hrest : EndsNumber rest) :
    readNumber? (n.text ++ rest) = some (n.value.map fun v => (v, rest)) := by
  have hexponent : ∀ c ∈ (Numeral.exponentText n.exponent ++ rest).head?,
      c.isAsciiDigit = false ∧ c ≠ '.' := by
    cases n.exponent with
    | none => exact fun c hc => ⟨(hrest c hc).1, (hrest c hc).2.1⟩
    | some e =>
      rintro c hc
      obtain rfl := Option.some.inj hc
      decide
  have hfraction : ∀ c ∈ (Numeral.fractionText n.fraction
      ++ (Numeral.exponentText n.exponent ++ rest)).head?, c.isAsciiDigit = false := by
    cases n.fraction with
    | nil => exact fun c hc => (hexponent c hc).1
    | cons d more =>
      rintro c hc
      obtain rfl := Option.some.inj hc
      rfl
  have hscale : (Numeral.scale n.exponent).isNone = n.exponent.isNone := by
    cases n.exponent with
    | none => rfl
    | some e => rfl
  have hwhole := takeWhole_append h hfraction
  obtain ⟨c, more, hcons, hdigit⟩ := h.exists_cons
  rw [Numeral.text_append, hcons, List.cons_append, readNumber?_signed n.negative hdigit,
    ← List.cons_append, ← hcons, hwhole, Option.map_some, readAfterWhole]
  dsimp only
  rw [takeFraction_append h.fraction hexponent]
  dsimp only
  rw [takeExponent_append h.exponent hrest]
  dsimp only
  rw [hscale, Numeral.value]
  split
  · split
    · rfl
    · rfl
  · rfl

theorem afterStart?_of_ne {a c : CodePoint} (h : c ≠ a) (start t : Text) :
    Text.afterStart? (a :: start) (c :: t) = none := by
  rw [Text.afterStart?, if_neg h]

/-- No word starts as a number does. -/
theorem readWord?_signed (negative : Bool) {c : CodePoint} (hdigit : c.isAsciiDigit = true)
    (more : Text) :
    readWord? ((if negative then [('-' : CodePoint)] else []) ++ c :: more) = none := by
  have hne : ∀ {d : CodePoint}, d.isAsciiDigit = false → c ≠ d := fun hd =>
    CodePoint.ne_of_isAsciiDigit hdigit hd
  have hwords : ∀ entry ∈ words, ∃ d start, entry.1 = d :: start ∧ d.isAsciiDigit = false
      ∧ (d ≠ '-' ∨ ∃ e after, start = e :: after ∧ e.isAsciiDigit = false) := by
    intro entry hentry
    simp only [words, List.mem_cons, List.not_mem_nil, or_false] at hentry
    rcases hentry with rfl | rfl | rfl | rfl | rfl | rfl
    · exact ⟨_, _, rfl, rfl, .inl (by decide)⟩
    · exact ⟨_, _, rfl, rfl, .inl (by decide)⟩
    · exact ⟨_, _, rfl, rfl, .inl (by decide)⟩
    · exact ⟨_, _, rfl, rfl, .inl (by decide)⟩
    · exact ⟨_, _, rfl, rfl, .inl (by decide)⟩
    · exact ⟨_, _, rfl, rfl, .inr ⟨_, _, rfl, rfl⟩⟩
  rw [readWord?, List.findSome?_eq_none_iff]
  rintro ⟨word, value⟩ hentry
  obtain ⟨d, start, rfl, hd, hminus⟩ := hwords _ hentry
  have hnone : Text.afterStart? (d :: start)
      ((if negative then [('-' : CodePoint)] else []) ++ c :: more) = none := by
    cases negative with
    | false => exact afterStart?_of_ne (hne hd) start more
    | true =>
      rcases hminus with hminus | ⟨e, after, rfl, he⟩
      · exact afterStart?_of_ne (Ne.symm hminus) start (c :: more)
      · show Text.afterStart? (d :: e :: after) (('-' : CodePoint) :: c :: more) = none
        rw [Text.afterStart?]
        split
        · exact afterStart?_of_ne (hne he) after more
        · rfl
  show Option.map _ (Text.afterStart? (d :: start) _) = none
  rw [hnone]
  rfl

/-- A number is read as a value, where no more of it can follow. -/
theorem readScalar_text {n : Numeral} (h : n.IsWritten) (hrest : EndsNumber rest) :
    readScalar (n.text ++ rest) = n.value.map fun v => (v, rest) := by
  obtain ⟨c, more, hcons, hdigit⟩ := h.exists_cons
  have hword : readWord? (n.text ++ rest) = none := by
    rw [Numeral.text_append, hcons]
    exact readWord?_signed n.negative hdigit _
  rw [readScalar, hword, readNumber?_text h hrest]

/-! ### Whole numbers -/

/-- A whole number as it is printed. -/
def Numeral.ofInt (n : Int) : Numeral := ⟨n < 0, Text.ofNat n.natAbs, [], none⟩

theorem text_ofInt (n : Int) : (Numeral.ofInt n).text = Text.ofInt n := by
  cases n with
  | ofNat m =>
    have hsign : ¬ (Int.ofNat m < 0) := Int.not_lt.mpr (Int.natCast_nonneg m)
    rw [Numeral.text, Numeral.ofInt, decide_eq_false hsign]
    exact List.append_nil _
  | negSucc m =>
    rw [Numeral.text, Numeral.ofInt, decide_eq_true (Int.negSucc_lt_zero m)]
    exact congrArg (('-' : CodePoint) :: ·) (List.append_nil _)

theorem isWritten_ofInt (n : Int) : (Numeral.ofInt n).IsWritten where
  whole _ hc := Text.isAsciiDigit_of_mem_ofNat hc
  front := by
    obtain ⟨c, rest, hcons⟩ := List.exists_cons_of_ne_nil (Text.ofNat_ne_nil n.natAbs)
    by_cases hn : n.natAbs = 0
    · exact .inl (by rw [Numeral.ofInt, hn]; rfl)
    · have hfront := Text.head?_ofNat_ne_zero hn
      rw [hcons] at hfront
      exact .inr ⟨c, rest, hcons, fun hc => hfront (congrArg some hc)⟩
  fraction := by simp [Numeral.ofInt, IsDigits]
  exponent := by simp [Numeral.ofInt]

/-- A whole number that is not too long to be read. -/
def IsShort (n : Int) : Prop := (Text.ofNat n.natAbs).length ≤ Integer.maxDigits

/-- **A whole number is read as it was printed**, unless it is too long. -/
theorem readScalar_int {n : Int} (hn : IsShort n) (hrest : EndsNumber rest) :
    readScalar (Text.ofInt n ++ rest) = .ok (.int n, rest) := by
  have hplain : (List.isEmpty (Numeral.ofInt n).fraction && (Numeral.ofInt n).exponent.isNone)
      = true := rfl
  have hlength : ¬ (Numeral.ofInt n).whole.length > Integer.maxDigits := Nat.not_lt.mpr hn
  have hsigned : (if (Numeral.ofInt n).negative then -(Text.digitsValue (Numeral.ofInt n).whole : Int)
      else Text.digitsValue (Numeral.ofInt n).whole) = n := by
    show (if (n < 0 : Bool) then -(Text.digitsValue (Text.ofNat n.natAbs) : Int)
      else Text.digitsValue (Text.ofNat n.natAbs)) = n
    rw [Text.digitsValue_ofNat]
    by_cases h : n < 0
    · rw [decide_eq_true h, if_pos rfl]
      omega
    · rw [decide_eq_false h, if_neg Bool.false_ne_true]
      omega
  have hvalue : (Numeral.ofInt n).value = .ok (.int n) := by
    rw [Numeral.value, if_pos hplain, if_neg hlength]
    exact congrArg (fun m => Except.ok (Json.int m)) hsigned
  rw [← text_ofInt, readScalar_text (isWritten_ofInt n) hrest, hvalue]
  rfl

end Json

end CompileGate
