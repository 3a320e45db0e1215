/-
CompileGate/Proofs/WrittenNumber.lean

The digits that a number is written in, and what they are read as.

In decimal, a number has a zero in front only if it is zero itself, as many digits as
it needs and no more, and they are read as the number (`digitsValue_ofNat`).  In an
escape, a number below `0x10000` has four hexadecimal digits, which are read as the
number too (`hexValue?_hexDigits`).
-/
import CompileGate.Json.Printer
import CompileGate.Proofs.PlainNumber
import Mathlib.Algebra.Order.Ring.Nat
import Mathlib.Data.List.Induction

namespace CompileGate

namespace Text

open CodePoint (isAsciiDigit_iff)

/-! ### Decimal digits -/

theorem isAsciiDigit_ofChar {c : Char} (h : c.isDigit = true) :
    (CodePoint.ofChar c).isAsciiDigit = true := by
  rw [Char.isDigit, Bool.and_eq_true, decide_eq_true_iff, decide_eq_true_iff] at h
  exact isAsciiDigit_iff.mpr h

theorem isAsciiDigit_of_mem_ofNat {n : Nat} {c : CodePoint} (h : c ∈ ofNat n) :
    c.isAsciiDigit = true := by
  obtain ⟨digit, hdigit, rfl⟩ := List.mem_map.mp h
  exact isAsciiDigit_ofChar (Nat.isDigit_of_mem_toDigits (by decide) (by decide) hdigit)

theorem ofNat_ne_nil (n : Nat) : ofNat n ≠ [] := fun h =>
  Nat.toDigits_ne_nil (List.map_eq_nil_iff.mp h)

theorem digitsValue_ofNat (n : Nat) : digitsValue (ofNat n) = n := by
  rw [digitsValue, ofNat, List.foldl_map]
  exact (Nat.ofDigitChars_eq_foldl.symm).trans Nat.ofDigitChars_ten_toDigits

theorem length_ofNat_le_iff {n k : Nat} (hk : 0 < k) : (ofNat n).length ≤ k ↔ n < 10 ^ k := by
  rw [ofNat, List.length_map]
  exact Nat.length_toDigits_le_iff (by decide) hk

/-- Only zero is written with a zero in front. -/
theorem head?_ofNat_ne_zero {n : Nat} (hn : n ≠ 0) : (ofNat n).head? ≠ some ('0' : CodePoint) := by
  induction n using Nat.strongRecOn with
  | ind n ih =>
    by_cases hsmall : n < 10
    · have htable : ∀ n < 10, n ≠ 0 → CodePoint.ofChar n.digitChar ≠ '0' := by decide
      rw [ofNat, Nat.toDigits_of_lt_base hsmall]
      exact fun h => htable n hsmall hn (Option.some.inj h)
    · have hfront := ih (n / 10) (by omega) (by omega)
      have hdigits : ofNat n = ofNat (n / 10) ++ [CodePoint.ofChar (n % 10).digitChar] := by
        rw [ofNat, Nat.toDigits_of_base_le (by decide) (by omega), List.map_append]
        rfl
      obtain ⟨c, rest, hcons⟩ := List.exists_cons_of_ne_nil (ofNat_ne_nil (n / 10))
      rw [hcons] at hfront
      rw [hdigits, hcons]
      exact hfront

theorem digitsValue_concat (t : Text) (c : CodePoint) :
    digitsValue (t ++ [c]) = 10 * digitsValue t + (c.toNat - 0x30) := by
  simp [digitsValue]

theorem digitsValue_lt {t : Text} (h : ∀ c ∈ t, c.isAsciiDigit = true) :
    digitsValue t < 10 ^ t.length := by
  induction t using List.reverseRecOn with
  | nil => exact Nat.one_pos
  | append_singleton t c ih =>
    have hc := isAsciiDigit_iff.mp (h c (by simp))
    have ht := ih fun d hd => h d (by simp [hd])
    rw [digitsValue_concat, List.length_append, List.length_singleton, Nat.pow_succ]
    omega

/-- The number that digits are read as has no more digits than those. -/
theorem length_ofNat_digitsValue_le {t : Text} (hne : t ≠ [])
    (h : ∀ c ∈ t, c.isAsciiDigit = true) : (ofNat (digitsValue t)).length ≤ t.length :=
  (length_ofNat_le_iff (List.length_pos_iff.mpr hne)).mpr (digitsValue_lt h)

/-! ### Hexadecimal digits -/

/-- The hexadecimal digit of a number below 16. -/
def hexDigit (n : Nat) : CodePoint := CodePoint.ofChar n.digitChar

theorem hexValue?_hexDigit {n : Nat} (h : n < 16) : (hexDigit n).hexValue? = some n := by
  have htable : ∀ n < 16, (hexDigit n).hexValue? = some n := by decide
  exact htable n h

/-- Four hexadecimal digits of a number. -/
def hexDigits (n : Nat) : Text :=
  [hexDigit (n / 4096 % 16), hexDigit (n / 256 % 16), hexDigit (n / 16 % 16), hexDigit (n % 16)]

/-- The digits of a number behind those of a greater one. -/
theorem hex_of_le {n : Nat} (h : 16 ≤ n) : hex n = hex (n / 16) ++ [hexDigit (n % 16)] := by
  rw [hex, Nat.toDigits_of_base_le (by decide) h, List.map_append]
  rfl

theorem hex_of_lt {n : Nat} (h : n < 16) : hex n = [hexDigit n] := by
  rw [hex, Nat.toDigits_of_lt_base h]
  rfl

theorem padZeros_hex {n : Nat} (h : n < 0x10000) : padZeros 4 (hex n) = hexDigits n := by
  have hzero : hexDigit 0 = ('0' : CodePoint) := rfl
  by_cases h1 : n < 16
  · rw [hex_of_lt h1, hexDigits, Nat.div_eq_of_lt (by omega : n < 4096),
      Nat.div_eq_of_lt (by omega : n < 256), Nat.div_eq_of_lt h1, Nat.mod_eq_of_lt h1]
    rfl
  rw [hex_of_le (by omega)]
  by_cases h2 : n < 256
  · rw [hex_of_lt (by omega), hexDigits, Nat.div_eq_of_lt (by omega : n < 4096),
      Nat.div_eq_of_lt h2, Nat.mod_eq_of_lt (by omega : n / 16 < 16)]
    rfl
  rw [hex_of_le (by omega), Nat.div_div_eq_div_mul]
  by_cases h3 : n < 4096
  · rw [hex_of_lt (by omega), hexDigits, Nat.div_eq_of_lt h3,
      Nat.mod_eq_of_lt (by omega : n / 256 < 16)]
    rfl
  · rw [hex_of_le (by omega), Nat.div_div_eq_div_mul, hex_of_lt (by omega), hexDigits,
      Nat.mod_eq_of_lt (by omega : n / 4096 < 16)]
    rfl

theorem hexValue?_hexDigits {n : Nat} (h : n < 0x10000) : hexValue? (hexDigits n) = some n := by
  have hvalue : 16 * (16 * (16 * (16 * 0 + n / 4096 % 16) + n / 256 % 16) + n / 16 % 16) + n % 16
      = n := by omega
  rw [hexValue?, hexDigits]
  simp only [List.foldlM_cons, List.foldlM_nil, Option.bind_eq_bind, Option.pure_def,
    hexValue?_hexDigit (Nat.mod_lt _ (by decide : 0 < 16)), Option.map_some, Option.bind_some,
    hvalue]

end Text

/-- An escape: a mark and four digits. -/
theorem Json.unicodeEscape_eq {n : Nat} (h : n < 0x10000) :
    unicodeEscape n = ('\\' : CodePoint) :: ('u' : CodePoint) :: Text.hexDigits n := by
  rw [unicodeEscape, Text.padZeros_hex h]
  rfl

end CompileGate
