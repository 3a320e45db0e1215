/-
CompileGate/Proofs/LowerCase.lean

What lower-casing does to a text, beside the letters.

No code point is lowered to one below `a` or to a surrogate, so the marks of a
lowered text are marks of the text.  And a lowered text is lower case
throughout: no code point of it has another lower-case form, the two exceptions
of the mapping included.  That is read off the table of runs: what capitals are
lowered to and the capitals are disjoint sets of numbers (`not_mem_capitals`).
Hence lowering twice is lowering once, and so is lowering any part of a lowered
text.
-/
import CompileGate.Text.LowerCase

namespace CompileGate

/-! ### The table of runs -/

namespace CaseRun

/-- The number of code points of a run. -/
def count (run : CaseRun) : Nat := (run.last - run.first) / run.step + 1

/-- The numbers of the code points of a run. -/
def members (run : CaseRun) : List Nat :=
  (List.range run.count).map fun i => run.first + i * run.step

/-- What a number of a run becomes. -/
def lowered (run : CaseRun) (n : Nat) : Nat := ((n : Int) + run.shift).toNat

/-- A number in the bounds of a run and in step with it is one of its members. -/
theorem mem_members {run : CaseRun} {n : Nat} (hfirst : run.first ≤ n) (hlast : n ≤ run.last)
    (hmod : (n - run.first) % run.step = 0) : n ∈ run.members := by
  refine List.mem_map.mpr ⟨(n - run.first) / run.step, ?_, ?_⟩
  · rw [List.mem_range, count, Nat.lt_succ_iff]
    exact Nat.div_le_div_right (by omega)
  · rw [Nat.div_mul_cancel (Nat.dvd_of_mod_eq_zero hmod)]
    omega

end CaseRun

/-- The numbers of the code points that have another lower-case form. -/
def capitals : List Nat := lowerRuns.flatMap CaseRun.members

/-- The numbers of these forms. -/
def loweredCapitals : List Nat := lowerRuns.flatMap fun run => run.members.map run.lowered

/-- A set of numbers as the bits of one number: two sets are compared in one step. -/
def bits (l : List Nat) : Nat := l.foldr (fun n m => 1 <<< n ||| m) 0

/-- A bit is set exactly for the numbers of the list. -/
theorem testBit_bits {l : List Nat} {n : Nat} : (bits l).testBit n = true ↔ n ∈ l := by
  induction l with
  | nil => simp [bits]
  | cons k l ih =>
    have hcons : bits (k :: l) = 1 <<< k ||| bits l := rfl
    rw [hcons, Nat.testBit_or, Nat.one_shiftLeft, Nat.testBit_two_pow, Bool.or_eq_true,
      decide_eq_true_iff, ih, List.mem_cons, eq_comm]

/-- What capitals are lowered to is no capital: the two sets of bits have no bit in common. -/
theorem not_mem_capitals : ∀ n ∈ loweredCapitals, n ∉ capitals := by
  have hbits : bits loweredCapitals &&& bits capitals = 0 := by decide +kernel
  intro n hlowered hcapital
  have hn : (bits loweredCapitals &&& bits capitals).testBit n = true := by
    rw [Nat.testBit_and, testBit_bits.mpr hlowered, testBit_bits.mpr hcapital]
    rfl
  rw [hbits, Nat.zero_testBit] at hn
  cases hn

/-- Lower-case forms are code points behind the capitals of ASCII. -/
theorem loweredCapitals_bounds : ∀ n ∈ loweredCapitals, 96 < n ∧ n < 0x110000 := by
  decide +kernel

theorem loweredCapitals_plain : ∀ n ∈ loweredCapitals, n < 0xD800 ∨ 0xDFFF < n := by
  decide +kernel

namespace CodePoint

theorem toNat_ofNat {n : Nat} (h : n < 0x110000) : (ofNat n).toNat = n := by
  rw [ofNat, dif_pos h]

/-! ### One code point -/

/-- Only capitals have another lower-case form. -/
theorem toLower_eq_or_mem (c : CodePoint) : c.toLower = c
    ∨ c.toNat ∈ capitals ∧ c.toLower.toNat ∈ loweredCapitals := by
  unfold toLower
  cases hrun : lowerRuns.find? fun run => c.toNat ≤ run.last with
  | none => exact Or.inl rfl
  | some run =>
    have hmem := List.mem_of_find?_eq_some hrun
    have hlast := List.find?_some hrun
    rw [decide_eq_true_iff] at hlast
    dsimp only
    -- in the run that was found the step decides
    by_cases hin : (run.first ≤ c.toNat && (c.toNat - run.first) % run.step = 0) = true
    · rw [if_pos hin]
      rw [Bool.and_eq_true, decide_eq_true_iff, decide_eq_true_iff] at hin
      have hmember : c.toNat ∈ run.members :=
        CaseRun.mem_members hin.1 hlast hin.2
      have hlowered : run.lowered c.toNat ∈ loweredCapitals :=
        List.mem_flatMap.mpr ⟨run, hmem, List.mem_map_of_mem hmember⟩
      refine Or.inr ⟨List.mem_flatMap.mpr ⟨run, hmem, hmember⟩, ?_⟩
      show (ofNat (run.lowered c.toNat)).toNat ∈ loweredCapitals
      rw [toNat_ofNat (loweredCapitals_bounds _ hlowered).2]
      exact hlowered
    · rw [if_neg hin]
      exact Or.inl rfl

/-- The code point is its own lower-case form wherever it stands. -/
def IsLower (c : CodePoint) : Prop := c ≠ 'İ' ∧ c ≠ 'Σ' ∧ c.toLower = c

instance (c : CodePoint) : Decidable c.IsLower :=
  inferInstanceAs (Decidable (c ≠ 'İ' ∧ c ≠ 'Σ' ∧ c.toLower = c))

/-- Lower-case forms stay, wherever they stand. -/
theorem isLower_of_mem_loweredCapitals {c : CodePoint} (h : c.toNat ∈ loweredCapitals) :
    c.IsLower := by
  have hexceptions : ∀ c ∈ [('İ' : CodePoint), 'Σ'], c.toNat ∉ loweredCapitals := by
    decide +kernel
  refine ⟨?_, ?_, ?_⟩
  · rintro rfl
    exact hexceptions _ (by simp) h
  · rintro rfl
    exact hexceptions _ (by simp) h
  · exact c.toLower_eq_or_mem.resolve_right fun hc => not_mem_capitals _ h hc.1

/-- Halves of pairs are the numbers from 0xD800 to 0xDFFF. -/
theorem isSurrogate_eq_false_iff {c : CodePoint} :
    c.isSurrogate = false ↔ c.toNat < 0xD800 ∨ 0xDFFF < c.toNat := by
  rw [isSurrogate, Bool.and_eq_false_iff, decide_eq_false_iff_not, decide_eq_false_iff_not,
    Nat.not_le, Nat.not_le]

/-- A code point that lowering puts in place of another one. -/
def IsLowered (c : CodePoint) : Prop := c.IsLower ∧ 96 < c.toNat ∧ c.isSurrogate = false

instance (c : CodePoint) : Decidable c.IsLowered :=
  inferInstanceAs (Decidable (c.IsLower ∧ 96 < c.toNat ∧ c.isSurrogate = false))

/-- A code point stays as it is or becomes a lower-case form. -/
theorem toLower_eq_or_isLowered (c : CodePoint) : c.toLower = c ∨ c.toLower.IsLowered := by
  rcases c.toLower_eq_or_mem with e | ⟨-, hlowered⟩
  · exact Or.inl e
  · exact Or.inr ⟨isLower_of_mem_loweredCapitals hlowered, (loweredCapitals_bounds _ hlowered).1,
      isSurrogate_eq_false_iff.mpr (loweredCapitals_plain _ hlowered)⟩

theorem toAsciiLower_eq_or_lt (c : CodePoint) : c.toAsciiLower = c
    ∨ 96 < c.toAsciiLower.toNat ∧ c.toAsciiLower.isSurrogate = false := by
  unfold toAsciiLower
  by_cases h : c.isAsciiUpper = true
  · right
    rw [if_pos h, isSurrogate_eq_false_iff]
    simp only [isAsciiUpper, Bool.and_eq_true, decide_eq_true_iff] at h
    rw [toNat_ofNat (by omega)]
    omega
  · rw [if_neg h]
    exact Or.inl rfl

/-- The lower-case form of an ASCII letter is not an upper-case one. -/
theorem isAsciiUpper_toAsciiLower (c : CodePoint) : c.toAsciiLower.isAsciiUpper = false := by
  rcases c.toAsciiLower_eq_or_lt with e | ⟨hlt, -⟩
  · rw [e, ← Bool.not_eq_true]
    intro h
    have hne : c.toAsciiLower.toNat ≠ c.toNat := by
      rw [toAsciiLower, if_pos h]
      simp only [isAsciiUpper, Bool.and_eq_true, decide_eq_true_iff] at h
      rw [toNat_ofNat (by omega)]
      omega
    exact hne (by rw [e])
  · rw [isAsciiUpper, Bool.and_eq_false_iff]
    right
    rw [decide_eq_false_iff_not]
    omega

@[simp] theorem toAsciiLower_toAsciiLower (c : CodePoint) :
    c.toAsciiLower.toAsciiLower = c.toAsciiLower := by
  rw [toAsciiLower, isAsciiUpper_toAsciiLower]
  rfl

end CodePoint

namespace Text

/-! ### A text -/

/-- What a code point is lowered to, in any place of any text. -/
theorem mem_toLowerAfter {seen t : Text} {c : CodePoint} (h : c ∈ toLowerAfter seen t) :
    c.IsLower ∧ (c ∈ t ∨ 96 < c.toNat ∧ c.isSurrogate = false) := by
  -- the code points of the two exceptions
  have hexceptions : ∀ c ∈ [('i' : CodePoint), CodePoint.ofNat 0x307, 'ς', 'σ'], c.IsLowered := by
    decide +kernel
  have hlowered : ∀ t : Text, c.IsLowered →
      c.IsLower ∧ (c ∈ t ∨ 96 < c.toNat ∧ c.isSurrogate = false) :=
    fun _ hc => ⟨hc.1, Or.inr hc.2⟩
  induction t generalizing seen with
  | nil => cases h
  | cons d t ih =>
    rw [toLowerAfter] at h
    -- what the first code point becomes, or what the rest does
    rcases List.mem_append.mp h with h | h
    · split at h
      · -- an `İ` becomes two code points
        apply hlowered
        rcases List.mem_cons.mp h with rfl | h
        · exact hexceptions _ (by simp)
        · obtain rfl := List.mem_singleton.mp h
          exact hexceptions _ (by simp)
      · split at h
        · -- a `Σ` becomes one of the two small ones, as its context says
          apply hlowered
          split at h
          · obtain rfl := List.mem_singleton.mp h
            exact hexceptions _ (by simp)
          · obtain rfl := List.mem_singleton.mp h
            exact hexceptions _ (by simp)
        · next hdotted hsigma =>
          obtain rfl := List.mem_singleton.mp h
          rcases d.toLower_eq_or_isLowered with e | hd
          · rw [e]
            exact ⟨⟨hdotted, hsigma, e⟩, Or.inl List.mem_cons_self⟩
          · exact hlowered _ hd
    · obtain ⟨hlower, hmem⟩ := ih h
      exact ⟨hlower, hmem.imp_left (List.mem_cons_of_mem _)⟩

/-- A lowered text is lower case throughout. -/
theorem isLower_of_mem_toLower {t : Text} {c : CodePoint} (h : c ∈ toLower t) : c.IsLower :=
  (mem_toLowerAfter h).1

/-- A text that is lower case throughout stays as it is. -/
theorem toLowerAfter_eq_self {seen t : Text} (h : ∀ c ∈ t, c.IsLower) :
    toLowerAfter seen t = t := by
  induction t generalizing seen with
  | nil => rfl
  | cons d t ih =>
    obtain ⟨⟨hdotted, hsigma, hd⟩, ht⟩ := List.forall_mem_cons.mp h
    rw [toLowerAfter, if_neg hdotted, if_neg hsigma, hd, ih ht]
    rfl

/-- Exactly these texts are their own lower-case form. -/
theorem toLower_eq_self_iff {t : Text} : toLower t = t ↔ ∀ c ∈ t, c.IsLower := by
  constructor
  · intro h c hc
    rw [← h] at hc
    exact isLower_of_mem_toLower hc
  · exact toLowerAfter_eq_self

@[simp] theorem toAsciiLower_toAsciiLower (t : Text) :
    toAsciiLower (toAsciiLower t) = toAsciiLower t := by
  rw [toAsciiLower, toAsciiLower, List.map_map]
  exact List.map_congr_left fun c _ => c.toAsciiLower_toAsciiLower

end Text

end CompileGate
