/-
CompileGate/Proofs/PlainNumber.lean

Plain decimals are read as the numbers that they write.

Reading a whole number puts up with blanks, signs, underscores and the digits of
other scripts.  A text of ASCII digits alone has none of these to lose: every pass
over it leaves it as it is, and only its length can keep it from being read.

Main result: `Integer.read?_of_digits`.
-/
import CompileGate.Text.Integer

namespace CompileGate

namespace CodePoint

variable {c : CodePoint}

theorem isAsciiDigit_iff : c.isAsciiDigit = true ↔ 0x30 ≤ c.toNat ∧ c.toNat ≤ 0x39 := by
  rw [isAsciiDigit, Bool.and_eq_true, decide_eq_true_iff, decide_eq_true_iff]

theorem ne_of_isAsciiDigit {mark : CodePoint} (h : c.isAsciiDigit = true)
    (hmark : mark.isAsciiDigit = false) : c ≠ mark := by
  rintro rfl
  rw [h] at hmark
  cases hmark

end CodePoint

/-- Nothing is trimmed off a text of code points that stay. -/
theorem Text.trimBoth_eq_self {p : CodePoint → Bool} {t : Text} (h : ∀ c ∈ t, p c = false) :
    Text.trimBoth p t = t := by
  have hdrop : ∀ u : Text, (∀ c ∈ u, p c = false) → u.dropWhile p = u := by
    intro u hu
    cases u with
    | nil => rfl
    | cons c rest => exact List.dropWhile_cons_of_neg (by simp [hu c List.mem_cons_self])
  have hreverse : ∀ c ∈ t.reverse, p c = false := fun c hc => h c (List.mem_reverse.mp hc)
  rw [Text.trimBoth, hdrop t h, Text.trimEnd, hdrop t.reverse hreverse, List.reverse_reverse]

namespace Integer

open CodePoint (isAsciiDigit_iff ne_of_isAsciiDigit)

variable {c : CodePoint} {digits : Text}

theorem plain_of_isAsciiDigit (h : c.isAsciiDigit = true) : plain c = c := by
  have hrange := isAsciiDigit_iff.mp h
  rw [plain, if_pos (by omega)]

theorem isOuterBlank_of_isAsciiDigit (h : c.isAsciiDigit = true) : isOuterBlank c = false := by
  have hrange := isAsciiDigit_iff.mp h
  have hspace : c ≠ ' ' := ne_of_isAsciiDigit h (by decide)
  have hother : ¬ c.toNat ≤ 0x0D := by omega
  rw [isOuterBlank, decide_eq_false hspace, decide_eq_false hother, Bool.and_false, Bool.false_or]

theorem plainText_of_digits (h : ∀ c ∈ digits, c.isAsciiDigit = true) :
    plainText digits = digits := by
  have hplain : digits.map plain = digits :=
    (List.map_congr_left fun c hc => plain_of_isAsciiDigit (h c hc)).trans (List.map_id digits)
  rw [plainText, hplain]
  exact Text.trimBoth_eq_self fun c hc => isOuterBlank_of_isAsciiDigit (h c hc)

theorem takeSign_of_digits (h : ∀ c ∈ digits, c.isAsciiDigit = true) :
    takeSign digits = (false, digits) := by
  cases digits with
  | nil => rfl
  | cons c rest =>
    have hdigit := h c List.mem_cons_self
    rw [takeSign, if_neg (ne_of_isAsciiDigit hdigit (by decide)),
      if_neg (ne_of_isAsciiDigit hdigit (by decide))]

theorem dropUnderscores?_of_digits (h : ∀ c ∈ digits, c.isAsciiDigit = true) (afterDigit : Bool) :
    dropUnderscores? afterDigit digits = some digits := by
  induction digits generalizing afterDigit with
  | nil => rfl
  | cons c rest ih =>
    have hdigit := h c List.mem_cons_self
    rw [dropUnderscores?.eq_def]
    dsimp only
    rw [if_neg (ne_of_isAsciiDigit hdigit (by decide)),
      ih fun d hd => h d (List.mem_cons_of_mem c hd)]
    rfl

/-- **Plain digits are read as the number that they write**, unless there are too many. -/
theorem read?_of_digits (hdigits : digits ≠ []) (h : ∀ c ∈ digits, c.isAsciiDigit = true) :
    read? digits
      = if digits.length ≤ maxDigits then some (Text.digitsValue digits : Int) else none := by
  have hempty : digits.isEmpty = false := by
    rw [← Bool.not_eq_true, List.isEmpty_iff]
    exact hdigits
  have hall : digits.all CodePoint.isAsciiDigit = true := List.all_eq_true.mpr h
  rw [read?, plainText_of_digits h, takeSign_of_digits h]
  dsimp only
  rw [dropUnderscores?_of_digits h, Option.bind_eq_bind, Option.bind_some, hempty, hall]
  by_cases hlength : digits.length ≤ maxDigits
  · rw [if_pos hlength, if_neg (by simp [hlength])]
    rfl
  · rw [if_neg hlength, if_pos (by simp [Nat.not_le.mp hlength])]

end Integer

end CompileGate
