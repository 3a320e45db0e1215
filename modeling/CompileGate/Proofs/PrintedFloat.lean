/-
CompileGate/Proofs/PrintedFloat.lean

Floating-point numbers in JSON texts.

The decimals that are tried for a number have exactly as many digits as they are said to
have (`isFull_shortestFrom`), since the point is put right before the first digit
(`pointOf_spec`).  So a number is printed without a zero in front of other digits, and with
a fraction or an exponent (`exists_numeral_shortest`), or as one of three words.  It is
read as a floating-point number again, and as a whole, where no more of it can follow.

Main result: `readScalar_printFloat`.
-/
import CompileGate.Proofs.Numeral
import Mathlib.Algebra.Order.Field.Power
import Mathlib.Data.Rat.Cast.Order
import Mathlib.Tactic.FieldSimp
import Mathlib.Tactic.NormNum
import Mathlib.Tactic.Linarith
import Mathlib.Tactic.Ring

namespace CompileGate

namespace Decimal

/-! ### The place of the point -/

theorem tenTo_eq (n : Nat) : tenTo n = 10 ^ n := rfl

theorem tenTo_pos (n : Nat) : 0 < tenTo n := Nat.pow_pos (by decide)

/-- Shifting a quotient multiplies it by a power of ten. -/
theorem shifted_spec (num : Nat) {den : Nat} (hden : 0 < den) (places : Int) :
    0 < (shifted num den places).2
      ∧ ((shifted num den places).1 : ℚ) / (shifted num den places).2
        = num / den * 10 ^ places := by
  have hden' : (den : ℚ) ≠ 0 := Nat.cast_ne_zero.mpr hden.ne'
  cases places with
  | ofNat p =>
    refine ⟨hden, ?_⟩
    simp only [shifted, tenTo_eq, Int.ofNat_eq_natCast, zpow_natCast]
    push_cast
    ring
  | negSucc p =>
    refine ⟨Nat.mul_pos hden (tenTo_pos _), ?_⟩
    simp only [shifted, tenTo_eq, zpow_negSucc]
    push_cast
    field_simp

theorem digitCount_spec {n : Nat} (hn : 0 < n) :
    10 ^ (digitCount n - 1) ≤ n ∧ n < 10 ^ digitCount n ∧ 0 < digitCount n := by
  have hpos : 0 < digitCount n := Nat.length_toDigits_pos
  refine ⟨?_, (Nat.length_toDigits_le_iff (by decide) hpos).mp le_rfl, hpos⟩
  -- with one digit fewer the number would not be written
  by_cases hone : digitCount n = 1
  · rw [hone]
    exact hn
  · have hlonger : ¬ (Nat.toDigits 10 n).length ≤ digitCount n - 1 := by
      show ¬ digitCount n ≤ digitCount n - 1
      omega
    rw [Nat.length_toDigits_le_iff (by decide) (by omega), Nat.not_lt] at hlonger
    exact hlonger

/-- The point stands right before the first digit. -/
theorem pointOf_spec {num den : Nat} (hnum : 0 < num) (hden : 0 < den) :
    (10 : ℚ) ^ (pointOf num den - 1) ≤ num / den ∧ (num : ℚ) / den < 10 ^ pointOf num den := by
  obtain ⟨hnum_low, hnum_high, hnum_count⟩ := digitCount_spec hnum
  obtain ⟨hden_low, hden_high, hden_count⟩ := digitCount_spec hden
  have hpos : (0 : ℚ) < den := Nat.cast_pos.mpr hden
  have hten : (10 : ℚ) ≠ 0 := by norm_num
  -- the numbers of digits leave two places
  have hlow : (10 : ℚ) ^ ((digitCount num : Int) - digitCount den - 1) ≤ num / den := by
    rw [le_div_iff₀ hpos]
    calc (10 : ℚ) ^ ((digitCount num : Int) - digitCount den - 1) * den
        ≤ 10 ^ ((digitCount num : Int) - digitCount den - 1) * 10 ^ (digitCount den : Int) := by
          gcongr
          exact_mod_cast hden_high.le
      _ = 10 ^ ((digitCount num - 1 : Nat) : Int) := by
          rw [← zpow_add₀ hten]
          congr 1
          omega
      _ ≤ num := by exact_mod_cast hnum_low
  have hhigh : (num : ℚ) / den < 10 ^ ((digitCount num : Int) - digitCount den + 1) := by
    rw [div_lt_iff₀ hpos]
    calc (num : ℚ) < 10 ^ (digitCount num : Int) := by exact_mod_cast hnum_high
      _ = 10 ^ ((digitCount num : Int) - digitCount den + 1)
          * 10 ^ ((digitCount den - 1 : Nat) : Int) := by
          rw [← zpow_add₀ hten]
          congr 1
          omega
      _ ≤ 10 ^ ((digitCount num : Int) - digitCount den + 1) * den := by
          gcongr
          exact_mod_cast hden_low
  -- the comparison chooses between them
  obtain ⟨hshift, hratio⟩ := shifted_spec num hden
    (-((digitCount num : Int) - digitCount den))
  have hshift' : (0 : ℚ) < (shifted num den (-((digitCount num : Int) - digitCount den))).2 :=
    Nat.cast_pos.mpr hshift
  have hchoice : (shifted num den (-((digitCount num : Int) - digitCount den))).2
      ≤ (shifted num den (-((digitCount num : Int) - digitCount den))).1
        ↔ (10 : ℚ) ^ ((digitCount num : Int) - digitCount den) ≤ num / den := by
    rw [← Nat.cast_le (α := ℚ), ← one_le_div₀ hshift', hratio, zpow_neg, ← div_eq_mul_inv,
      one_le_div₀ (by positivity)]
  unfold pointOf
  dsimp only
  split
  · rename_i hle
    exact ⟨by simpa using hchoice.mp hle, hhigh⟩
  · rename_i hlt
    exact ⟨hlow, not_le.mp fun h => hlt (hchoice.mpr h)⟩

/-! ### Decimals of a given number of digits -/

/-- A decimal has as many digits as it is said to have. -/
structure Scaled.IsFull (s : Scaled) : Prop where
  count_pos : 0 < s.count
  low : 10 ^ (s.count - 1) ≤ s.digits
  high : s.digits < 10 ^ s.count

/-- A quotient, shifted so that its point stands after `count` digits. -/
theorem shifted_count {num den count : Nat} (hnum : 0 < num) (hden : 0 < den)
    (hcount : 0 < count) :
    0 < (shifted num den (count - pointOf num den)).2
      ∧ 10 ^ (count - 1) * (shifted num den (count - pointOf num den)).2
        ≤ (shifted num den (count - pointOf num den)).1
      ∧ (shifted num den (count - pointOf num den)).1
        < 10 ^ count * (shifted num den (count - pointOf num den)).2 := by
  obtain ⟨hlow, hhigh⟩ := pointOf_spec hnum hden
  obtain ⟨hpos, hratio⟩ := shifted_spec num hden (count - pointOf num den)
  have hpos' : (0 : ℚ) < (shifted num den (count - pointOf num den)).2 := Nat.cast_pos.mpr hpos
  have hten : (10 : ℚ) ≠ 0 := by norm_num
  have hplaces : (0 : ℚ) < 10 ^ ((count : Int) - pointOf num den) := by positivity
  refine ⟨hpos, ?_, ?_⟩
  · rw [← Nat.cast_le (α := ℚ)]
    push_cast
    rw [← le_div_iff₀ hpos', hratio]
    calc (10 : ℚ) ^ (count - 1)
        = 10 ^ (pointOf num den - 1) * 10 ^ ((count : Int) - pointOf num den) := by
          rw [← zpow_add₀ hten, ← zpow_natCast]
          congr 1
          omega
      _ ≤ num / den * 10 ^ ((count : Int) - pointOf num den) := by gcongr
  · rw [← Nat.cast_lt (α := ℚ)]
    push_cast
    rw [← div_lt_iff₀ hpos', hratio]
    calc (num : ℚ) / den * 10 ^ ((count : Int) - pointOf num den)
        < 10 ^ pointOf num den * 10 ^ ((count : Int) - pointOf num den) := by gcongr
      _ = 10 ^ count := by
          rw [← zpow_add₀ hten, ← zpow_natCast]
          congr 1
          omega

/-- A number of `count` digits, or the least one with a digit more, as a decimal of `count`
digits. -/
theorem isFull_carried (digits : Nat) {count : Nat} (point : Int) (hcount : 0 < count)
    (hlow : 10 ^ (count - 1) ≤ digits) (hhigh : digits ≤ 10 ^ count) :
    (if digits = tenTo count then (⟨tenTo (count - 1), count, point + 1⟩ : Scaled)
      else ⟨digits, count, point⟩).IsFull := by
  split
  · exact ⟨hcount, le_rfl, Nat.pow_lt_pow_right (by decide) (Nat.sub_lt hcount Nat.one_pos)⟩
  · rename_i hne
    exact ⟨hcount, hlow, lt_of_le_of_ne hhigh hne⟩

variable {num den count : Nat}

theorem isFull_round (hnum : 0 < num) (hden : 0 < den) (hcount : 0 < count) :
    (round num den count).IsFull := by
  obtain ⟨hpos, hlow, hhigh⟩ := shifted_count hnum hden hcount
  unfold round
  dsimp only
  generalize shifted num den (count - pointOf num den) = q at hpos hlow hhigh ⊢
  have hquotient_low : 10 ^ (count - 1) ≤ q.1 / q.2 := (Nat.le_div_iff_mul_le hpos).mpr hlow
  have hquotient_high : q.1 / q.2 < 10 ^ count := (Nat.div_lt_iff_lt_mul hpos).mpr hhigh
  -- rounding goes up by one at the most
  have hnearest : Binary64.divNearest q.1 q.2 = q.1 / q.2
      ∨ Binary64.divNearest q.1 q.2 = q.1 / q.2 + 1 := by
    unfold Binary64.divNearest
    dsimp only
    split_ifs
    · exact .inl rfl
    · omega
    · exact .inr rfl
  refine isFull_carried _ _ hcount ?_ ?_
  · omega
  · omega

theorem isFull_neighbours (hnum : 0 < num) (hden : 0 < den) (hcount : 0 < count) :
    ∀ s ∈ neighbours num den count, s.IsFull := by
  obtain ⟨hpos, hlow, hhigh⟩ := shifted_count hnum hden hcount
  unfold neighbours
  dsimp only
  generalize shifted num den (count - pointOf num den) = q at hpos hlow hhigh ⊢
  have hquotient_low : 10 ^ (count - 1) ≤ q.1 / q.2 := (Nat.le_div_iff_mul_le hpos).mpr hlow
  have hquotient_high : q.1 / q.2 < 10 ^ count := (Nat.div_lt_iff_lt_mul hpos).mpr hhigh
  have hbelow : (⟨q.1 / q.2, count, pointOf num den⟩ : Scaled).IsFull :=
    ⟨hcount, hquotient_low, hquotient_high⟩
  have habove := isFull_carried (q.1 / q.2 + 1) (pointOf num den) hcount (by omega)
    (by omega)
  intro s hs
  split at hs
  · rcases List.mem_pair.mp hs with rfl | rfl
    · exact hbelow
    · exact habove
  · rcases List.mem_pair.mp hs with rfl | rfl
    · exact habove
    · exact hbelow

theorem isFull_shortestFrom (x : Binary64) (hnum : 0 < num) (hden : 0 < den) (tries : Nat)
    (hcount : 0 < count) : (shortestFrom x num den tries count).IsFull := by
  -- on the tries left, each with a digit more than the one before
  induction tries generalizing count with
  | zero => exact isFull_round hnum hden hcount
  | succ tries ih =>
    unfold shortestFrom
    split
    · rename_i s hs
      exact isFull_neighbours hnum hden hcount s (List.mem_of_find?_eq_some hs)
    · exact ih (Nat.succ_pos count)

/-! ### The digits that are shown -/

/-- Digits of which the first is no zero. -/
def IsFronted (digits : Text) : Prop :=
  ∃ c rest, digits = c :: rest ∧ c ≠ '0' ∧ Json.IsDigits digits

theorem mem_of_mem_trimEnd {p : CodePoint → Bool} {t : Text} {c : CodePoint}
    (h : c ∈ Text.trimEnd p t) : c ∈ t :=
  List.mem_reverse.mp ((List.dropWhile_sublist p).mem (List.mem_reverse.mp h))

theorem isFronted_significant {s : Scaled} (h : s.IsFull) : IsFronted s.significant := by
  have hne : s.digits ≠ 0 := ((Nat.pow_pos (by decide)).trans_le h.low).ne'
  have hlength : (Text.ofNat s.digits).length = s.count := by
    have hle := (Text.length_ofNat_le_iff h.count_pos).mpr h.high
    refine le_antisymm hle ?_
    by_contra hlt
    by_cases hone : s.count = 1
    · have := List.length_pos_iff.mpr (Text.ofNat_ne_nil s.digits)
      omega
    · have := (Text.length_ofNat_le_iff (n := s.digits) (k := s.count - 1) (by omega)).mp (by omega)
      exact absurd h.low (by omega)
  -- a decimal that is full needs no zeros in front
  have hpad : Text.padZeros s.count (Text.ofNat s.digits) = Text.ofNat s.digits := by
    rw [Text.padZeros, hlength, Nat.sub_self]
    rfl
  obtain ⟨c, rest, hcons⟩ := List.exists_cons_of_ne_nil (Text.ofNat_ne_nil s.digits)
  have hfront := Text.head?_ofNat_ne_zero hne
  rw [hcons] at hfront
  have hc : c ≠ '0' := fun hc => hfront (congrArg some hc)
  rw [Scaled.significant, hpad, hcons, Text.trimEnd_cons (by simpa using hc)]
  refine ⟨c, _, rfl, hc, fun d hd => ?_⟩
  refine Text.isAsciiDigit_of_mem_ofNat (n := s.digits) ?_
  rw [hcons]
  rcases List.mem_cons.mp hd with rfl | hd
  · exact List.mem_cons_self
  · exact List.mem_cons_of_mem _ (mem_of_mem_trimEnd hd)

/-! ### Their numerals -/

open Json (Numeral IsDigits)

/-- A numeral with something behind its whole part. -/
structure IsFloating (n : Numeral) : Prop where
  written : n.IsWritten
  floating : n.fraction ≠ [] ∨ n.exponent ≠ none

theorem isDigits_zeros (k : Nat) : IsDigits (List.replicate k ('0' : CodePoint)) := by
  intro c hc
  obtain rfl := List.eq_of_mem_replicate hc
  rfl

theorem isDigits_append {t u : Text} (ht : IsDigits t) (hu : IsDigits u) : IsDigits (t ++ u) :=
  fun c hc => (List.mem_append.mp hc).elim (ht c) (hu c)

theorem isDigits_ofNat (n : Nat) : IsDigits (Text.ofNat n) := fun _ hc =>
  Text.isAsciiDigit_of_mem_ofNat hc

/-- A sign in front of a number. -/
def signText (negative : Bool) : Text := if negative then [('-' : CodePoint)] else []

/-- A number with a point in its place. -/
theorem isFloating_fixed {whole fraction : Text} (negative : Bool) (hwhole : IsDigits whole)
    (hfront : whole = [('0' : CodePoint)] ∨ ∃ c rest, whole = c :: rest ∧ c ≠ '0')
    (hfraction : IsDigits fraction) (hne : fraction ≠ []) :
    IsFloating ⟨negative, whole, fraction, none⟩
      ∧ (⟨negative, whole, fraction, none⟩ : Numeral).text
        = signText negative ++ (whole ++ ('.' : CodePoint) :: fraction) := by
  have hpoint : Numeral.fractionText fraction = ('.' : CodePoint) :: fraction :=
    if_neg (by simpa using hne)
  refine ⟨⟨⟨hwhole, hfront, hfraction, by simp⟩, .inl hne⟩, ?_⟩
  rw [Numeral.text, hpoint]
  exact congrArg (fun t => signText negative ++ (whole ++ t)) (List.append_nil _)

theorem exists_numeral_positional {digits : Text} (h : IsFronted digits) (negative : Bool)
    (point : Int) :
    ∃ n, IsFloating n ∧ n.text = signText negative ++ positional digits point true := by
  obtain ⟨c, rest, hcons, hc, hdigits⟩ := h
  have hzero : IsDigits [('0' : CodePoint)] := isDigits_zeros 1
  have hne : digits ≠ [] := by
    rw [hcons]
    exact List.cons_ne_nil c rest
  -- the point stands before the digits, in front of the first one, or among them
  match point with
  | .negSucc p =>
    obtain ⟨hfloating, htext⟩ := isFloating_fixed negative hzero (.inl rfl)
      (isDigits_append (isDigits_zeros (p + 1)) hdigits) (by simp)
    exact ⟨_, hfloating, htext⟩
  | .ofNat 0 =>
    obtain ⟨hfloating, htext⟩ := isFloating_fixed negative hzero (.inl rfl) hdigits hne
    exact ⟨_, hfloating, htext⟩
  | .ofNat (p + 1) =>
    -- the digits before the point, and zeros where there are too few
    have hwhole : IsDigits (digits.take (p + 1)
        ++ List.replicate (p + 1 - (digits.take (p + 1)).length) ('0' : CodePoint)) :=
      isDigits_append (fun d hd => hdigits d (List.mem_of_mem_take hd)) (isDigits_zeros _)
    have hfront : ∃ d more, digits.take (p + 1)
        ++ List.replicate (p + 1 - (digits.take (p + 1)).length) ('0' : CodePoint) = d :: more
          ∧ d ≠ '0' := by
      rw [hcons, List.take_succ_cons, List.cons_append]
      exact ⟨c, _, rfl, hc⟩
    have hpositional : positional digits (.ofNat (p + 1)) true = digits.take (p + 1)
        ++ List.replicate (p + 1 - (digits.take (p + 1)).length) ('0' : CodePoint)
        ++ if !(digits.drop (p + 1)).isEmpty then "." ++ digits.drop (p + 1) else ".0" := rfl
    rw [hpositional]
    by_cases hdrop : digits.drop (p + 1) = []
    · obtain ⟨hfloating, htext⟩ := isFloating_fixed negative hwhole (.inr hfront) hzero (by simp)
      refine ⟨_, hfloating, htext.trans ?_⟩
      rw [hdrop]
      rfl
    · obtain ⟨hfloating, htext⟩ := isFloating_fixed negative hwhole (.inr hfront)
        (fun d hd => hdigits d (List.mem_of_mem_drop hd)) hdrop
      refine ⟨_, hfloating, htext.trans ?_⟩
      rw [if_pos (by simpa using hdrop)]
      rfl

theorem isDigits_padZeros {t : Text} (h : IsDigits t) (width : Nat) :
    IsDigits (Text.padZeros width t) :=
  isDigits_append (isDigits_zeros _) h

theorem padZeros_ne_nil {t : Text} (h : t ≠ []) (width : Nat) : Text.padZeros width t ≠ [] := by
  simp [Text.padZeros, h]

theorem exists_numeral_scientific {digits : Text} (h : IsFronted digits) (negative : Bool)
    (point : Int) :
    ∃ n, IsFloating n ∧ n.text = signText negative ++ scientific digits point := by
  obtain ⟨c, rest, rfl, hc, hdigits⟩ := h
  have hexponent : exponentText (point - 1) = Numeral.exponentText
      (some (point - 1 < 0, Text.padZeros 2 (Text.ofNat (point - 1).natAbs))) := by
    unfold exponentText
    by_cases hnegative : point - 1 < 0
    · rw [if_pos hnegative, decide_eq_true hnegative]
      rfl
    · rw [if_neg hnegative, decide_eq_false hnegative]
      rfl
  -- rest) point :: one digit before the point, and none behind it if there is no other
  have hmantissa : scientific (c :: rest) point
      = [c] ++ (Numeral.fractionText rest ++ exponentText (point - 1)) := by
    cases rest with
    | nil => rfl
    | cons d more => rfl
  refine ⟨⟨negative, [c], rest,
    some (point - 1 < 0, Text.padZeros 2 (Text.ofNat (point - 1).natAbs))⟩,
    ⟨⟨?_, .inr ⟨c, [], rfl, hc⟩, ?_, ?_⟩, .inr ?_⟩, ?_⟩
  · intro d hd
    obtain rfl := List.mem_singleton.mp hd
    exact hdigits d List.mem_cons_self
  · exact fun d hd => hdigits d (List.mem_cons_of_mem c hd)
  · rintro e he
    obtain rfl := Option.some.inj he
    exact ⟨padZeros_ne_nil (Text.ofNat_ne_nil _) 2, isDigits_padZeros (isDigits_ofNat _) 2⟩
  · exact Option.some_ne_none _
  · rw [hmantissa, hexponent]
    rfl

theorem ratio_pos {significand : Nat} (h : significand ≠ 0) (exponent : Int) :
    0 < (Binary64.ratio significand exponent).1 ∧ 0 < (Binary64.ratio significand exponent).2 := by
  have htwo : ∀ k, 0 < twoTo k := fun k => Nat.pow_pos (by decide)
  cases exponent with
  | ofNat e => exact ⟨Nat.mul_pos (Nat.pos_of_ne_zero h) (htwo e), Nat.one_pos⟩
  | negSucc e => exact ⟨Nat.pos_of_ne_zero h, htwo (e + 1)⟩

/-- **A finite number is written with a fraction or an exponent**, and has no zero in front of
other digits. -/
theorem exists_numeral_shortest {x : Binary64} {negative : Bool} {significand : Nat}
    {exponent : Int} (hx : x.unpack = .finite negative significand exponent) :
    ∃ n, IsFloating n ∧ n.text = shortest x := by
  unfold shortest
  rw [hx]
  dsimp only
  split
  · have hzero : IsDigits [('0' : CodePoint)] := isDigits_zeros 1
    obtain ⟨hfloating, htext⟩ := isFloating_fixed negative hzero (.inl rfl) hzero (by simp)
    exact ⟨_, hfloating, htext⟩
  · rename_i hsignificand
    obtain ⟨hnum, hden⟩ := ratio_pos hsignificand exponent
    have hfronted := isFronted_significant (isFull_shortestFrom
      (Binary64.ofFields false (x.bits.toNat % twoTo 63)) hnum hden 17 Nat.one_pos)
    show ∃ n, IsFloating n ∧ n.text = signText negative ++ _
    split
    · exact exists_numeral_positional hfronted negative _
    · exact exists_numeral_scientific hfronted negative _

end Decimal

namespace Json

/-! ### Reading what is printed -/

theorem exists_value_of_isFloating {n : Numeral} (h : Decimal.IsFloating n) :
    ∃ y, n.value = .ok (.float y) := by
  have hfloating : (n.fraction.isEmpty && n.exponent.isNone) = false := by
    rcases h.floating with hfraction | hexponent
    · have hempty : n.fraction.isEmpty = false := by simpa using hfraction
      rw [hempty, Bool.false_and]
    · obtain ⟨e, he⟩ := Option.ne_none_iff_exists'.mp hexponent
      rw [he, Option.isNone_some, Bool.and_false]
  rw [Numeral.value, hfloating]
  exact ⟨_, rfl⟩

/-- A floating-point number is printed as a word or with a fraction or an exponent. -/
theorem printFloat_cases (x : Binary64) :
    printFloat x ∈ (["NaN", "Infinity", "-Infinity"] : List Text)
      ∨ ∃ n, Decimal.IsFloating n ∧ n.text = printFloat x := by
  unfold printFloat
  cases hx : x.unpack with
  | nan => exact .inl List.mem_cons_self
  | infinite negative =>
    cases negative with
    | false => exact .inl (List.mem_cons_of_mem _ List.mem_cons_self)
    | true => exact .inl (List.mem_cons_of_mem _ (List.mem_cons_of_mem _ List.mem_cons_self))
  | finite negative significand exponent => exact .inr (Decimal.exists_numeral_shortest hx)

theorem exists_readScalar_printFloat (x : Binary64) :
    ∃ y, ∀ rest, EndsNumber rest → readScalar (printFloat x ++ rest) = .ok (.float y, rest) := by
  rcases printFloat_cases x with hword | ⟨n, hn, htext⟩
  · simp only [List.mem_cons, List.not_mem_nil, or_false] at hword
    rcases hword with hword | hword | hword
    · exact ⟨_, fun rest _ => by rw [hword]; rfl⟩
    · exact ⟨_, fun rest _ => by rw [hword]; rfl⟩
    · exact ⟨_, fun rest _ => by rw [hword]; rfl⟩
  · obtain ⟨y, hy⟩ := exists_value_of_isFloating hn
    refine ⟨y, fun rest hrest => ?_⟩
    rw [← htext, readScalar_text hn.written hrest, hy]
    rfl

/-- The number that a floating-point number is read as when it is printed. -/
def rereadFloat (x : Binary64) : Binary64 :=
  match readScalar (printFloat x) with
  | .ok (.float y, _) => y
  | _ => x

/-- **A floating-point number is read as one again**, where no more of it can follow. -/
theorem readScalar_printFloat (x : Binary64) {rest : Text} (hrest : EndsNumber rest) :
    readScalar (printFloat x ++ rest) = .ok (.float (rereadFloat x), rest) := by
  obtain ⟨y, hy⟩ := exists_readScalar_printFloat x
  -- what it is read as does not depend on what follows
  have halone := hy [] (by simp [EndsNumber])
  rw [List.append_nil] at halone
  have hread : rereadFloat x = y := by
    rw [rereadFloat, halone]
  rw [hread]
  exact hy rest hrest

end Json

end CompileGate
