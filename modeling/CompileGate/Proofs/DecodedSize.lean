/-
CompileGate/Proofs/DecodedSize.lean

A text read from bytes has a UTF-8 form, and that is no shorter than the bytes.

A byte string falls into pieces, and their sizes add up to its length
(`sum_size_pieces`).  A piece becomes one code point: a broken run of at most three
bytes becomes U+FFFD, whose form has three, and a whole form becomes what it is the
form of.  The second is where the shortest form matters: a code point that is
pending after some bytes lies within bounds (`Pending.least`, `Pending.bound`), and
these keep it out of the surrogates and out of what fewer bytes could have said
(`Pending.Sound`).

Main result: `length_le_byteLength_decodeLenient`.
-/
import CompileGate.Proofs.EncodedSize
import Mathlib.Algebra.Order.BigOperators.Group.List
import Mathlib.Algebra.Order.Ring.Nat
import Mathlib.Tactic.Ring

namespace CompileGate
namespace Utf8

/-! ### Pending code points -/

/-- The least number that takes `size` bytes. -/
def leastOfSize : (size : Nat) → Nat
  | 0 | 1 => 0
  | 2 => 0x80
  | 3 => 0x800
  | _ => 0x10000

/-- The least number that a pending code point can become. -/
def Pending.least (p : Pending) : Nat := (64 * p.value + (p.low - 0x80)) * 64 ^ (p.owed - 1)

/-- The number above all that a pending code point can become. -/
def Pending.bound (p : Pending) : Nat := (64 * p.value + (p.high - 0x80) + 1) * 64 ^ (p.owed - 1)

/-- Whatever it becomes, a pending code point is one that takes as many bytes as it will have had,
and it is no surrogate. -/
structure Pending.Sound (p : Pending) : Prop where
  owed_pos : 1 ≤ p.owed
  size_le : p.seen + p.owed ≤ 4
  low_ge : 0x80 ≤ p.low
  high_le : p.high ≤ 0xBF
  size_needed : leastOfSize (p.seen + p.owed) ≤ p.least
  in_range : p.bound ≤ 0x110000
  no_surrogate : p.bound ≤ 0xD800 ∨ 0xE000 ≤ p.least

/-- The pending code point after a byte that is not its last one. -/
def Pending.next (p : Pending) (b : Nat) : Pending :=
  ⟨p.seen + 1, p.owed - 1, 0x80, 0xBF, 64 * p.value + (b - 0x80)⟩

/-- A piece is replaced by no fewer bytes than it has. -/
def Piece.Fits : Piece → Prop
  | .point c size => c.isSurrogate = false ∧ size ≤ pointSize c
  | .broken size _ => size ≤ 3

theorem le_pointSize {c : CodePoint} {size : Nat} (hsize : size ≤ 4)
    (h : leastOfSize size ≤ c.toNat) : size ≤ pointSize c := by
  unfold pointSize
  match size, hsize with
  | 0, _ => exact Nat.zero_le _
  | 1, _ => split_ifs <;> omega
  | 2, _ => simp only [leastOfSize] at h; split_ifs <;> omega
  | 3, _ => simp only [leastOfSize] at h; split_ifs <;> omega
  | 4, _ => simp only [leastOfSize] at h; split_ifs <;> omega

/-! ### First bytes -/

section Lead

variable {low high value : Nat}

theorem sound_two (hlow : 0x80 ≤ low) (hhigh : high ≤ 0xBF)
    (hneeded : 0x80 ≤ 64 * value + (low - 0x80)) (hrange : value < 0x20) :
    Pending.Sound ⟨1, 1, low, high, value⟩ where
  owed_pos := le_refl 1
  size_le := show 1 + 1 ≤ 4 by decide
  low_ge := hlow
  high_le := hhigh
  size_needed := by
    show 0x80 ≤ (64 * value + (low - 0x80)) * 1
    omega
  in_range := by
    show (64 * value + (high - 0x80) + 1) * 1 ≤ 0x110000
    omega
  no_surrogate := by
    left
    show (64 * value + (high - 0x80) + 1) * 1 ≤ 0xD800
    omega

theorem sound_three (hlow : 0x80 ≤ low) (hhigh : high ≤ 0xBF)
    (hneeded : 0x20 ≤ 64 * value + (low - 0x80)) (hrange : value < 0x10)
    (hno : 64 * value + (high - 0x80) < 0x360 ∨ 0x380 ≤ 64 * value + (low - 0x80)) :
    Pending.Sound ⟨1, 2, low, high, value⟩ where
  owed_pos := show 1 ≤ 2 by decide
  size_le := show 1 + 2 ≤ 4 by decide
  low_ge := hlow
  high_le := hhigh
  size_needed := by
    show 0x800 ≤ (64 * value + (low - 0x80)) * 64
    omega
  in_range := by
    show (64 * value + (high - 0x80) + 1) * 64 ≤ 0x110000
    omega
  no_surrogate := by
    show (64 * value + (high - 0x80) + 1) * 64 ≤ 0xD800
      ∨ 0xE000 ≤ (64 * value + (low - 0x80)) * 64
    omega

theorem sound_four (hlow : 0x80 ≤ low) (hhigh : high ≤ 0xBF)
    (hneeded : 0x10 ≤ 64 * value + (low - 0x80)) (hrange : 64 * value + (high - 0x80) < 0x110) :
    Pending.Sound ⟨1, 3, low, high, value⟩ where
  owed_pos := show 1 ≤ 3 by decide
  size_le := show 1 + 3 ≤ 4 by decide
  low_ge := hlow
  high_le := hhigh
  size_needed := by
    show 0x10000 ≤ (64 * value + (low - 0x80)) * 4096
    omega
  in_range := by
    show (64 * value + (high - 0x80) + 1) * 4096 ≤ 0x110000
    omega
  no_surrogate := by
    right
    show 0xE000 ≤ (64 * value + (low - 0x80)) * 4096
    omega

end Lead

/-- A piece of one byte that fits, or a sound code point after one byte. -/
def LeadSpec : Piece ⊕ Pending → Prop
  | .inl piece => piece.Fits ∧ piece.size = 1
  | .inr p => p.Sound ∧ p.seen = 1

/-- A first byte is a piece of its own, or leaves a sound code point pending. -/
theorem lead_spec (b : UInt8) : LeadSpec (lead b) := by
  have hb := b.toNat_lt
  unfold lead
  dsimp only
  split
  · next hascii =>
    have hpoint : (CodePoint.ofNat b.toNat).toNat = b.toNat := by
      rw [CodePoint.ofNat, dif_pos (by omega)]
    refine ⟨⟨?_, le_pointSize (by decide) (Nat.zero_le _)⟩, rfl⟩
    rw [CodePoint.isSurrogate, hpoint, Bool.and_eq_false_iff, decide_eq_false_iff_not]
    omega
  split
  · exact ⟨(by decide : 1 ≤ 3), rfl⟩
  split
  · exact ⟨sound_two (by omega) (by omega) (by omega) (by omega), rfl⟩
  split
  · exact ⟨sound_three (by omega) (by omega) (by omega) (by omega) (by omega), rfl⟩
  split
  · exact ⟨sound_three (by omega) (by omega) (by omega) (by omega) (by omega), rfl⟩
  split
  · exact ⟨sound_three (by omega) (by omega) (by omega) (by omega) (by omega), rfl⟩
  split
  · exact ⟨sound_four (by omega) (by omega) (by omega) (by omega), rfl⟩
  split
  · exact ⟨sound_four (by omega) (by omega) (by omega) (by omega), rfl⟩
  split
  · exact ⟨sound_four (by omega) (by omega) (by omega) (by omega), rfl⟩
  · exact ⟨(by decide : 1 ≤ 3), rfl⟩

/-! ### Bytes that follow -/

/-- Another byte narrows a sound code point down. -/
theorem Pending.Sound.next {p : Pending} {b : Nat} (h : p.Sound) (howed : 1 < p.owed)
    (hlow : p.low ≤ b) (hhigh : b ≤ p.high) : (p.next b).Sound := by
  obtain ⟨n, hn⟩ : ∃ n, p.owed = n + 2 := ⟨p.owed - 2, by omega⟩
  have hpow : 64 ^ (p.owed - 1) = 64 * 64 ^ n := by
    rw [hn, show n + 2 - 1 = n + 1 from rfl, pow_succ, Nat.mul_comm]
  have hnext : p.owed - 1 - 1 = n := by omega
  have hsize : (p.next b).seen + (p.next b).owed = p.seen + p.owed := by
    simp only [Pending.next]
    omega
  -- the bounds move towards each other
  have hleast : p.least ≤ (p.next b).least := by
    have hle : 64 * p.value + (p.low - 0x80) ≤ 64 * p.value + (b - 0x80) := by omega
    calc p.least = (64 * p.value + (p.low - 0x80)) * (64 * 64 ^ n) := by rw [least, hpow]
      _ ≤ (64 * p.value + (b - 0x80)) * (64 * 64 ^ n) := Nat.mul_le_mul_right _ hle
      _ = (64 * (64 * p.value + (b - 0x80)) + (0x80 - 0x80)) * 64 ^ n := by ring
      _ = (p.next b).least := by
          simp only [least, Pending.next, hnext]
  have hbound : (p.next b).bound ≤ p.bound := by
    have hle : 64 * p.value + (b - 0x80) + 1 ≤ 64 * p.value + (p.high - 0x80) + 1 := by omega
    calc (p.next b).bound = (64 * (64 * p.value + (b - 0x80)) + (0xBF - 0x80) + 1) * 64 ^ n := by
          simp only [bound, Pending.next, hnext]
      _ = (64 * p.value + (b - 0x80) + 1) * (64 * 64 ^ n) := by ring
      _ ≤ (64 * p.value + (p.high - 0x80) + 1) * (64 * 64 ^ n) := Nat.mul_le_mul_right _ hle
      _ = p.bound := by rw [bound, hpow]
  refine ⟨?_, ?_, le_refl _, le_refl _, ?_, hbound.trans h.in_range, ?_⟩
  · simp only [Pending.next]
    omega
  · rw [hsize]
    exact h.size_le
  · rw [hsize]
    exact h.size_needed.trans hleast
  · rcases h.no_surrogate with hno | hno
    · exact Or.inl (hbound.trans hno)
    · exact Or.inr (hno.trans hleast)

theorem Pending.Sound.seen_le {p : Pending} (h : p.Sound) : p.seen ≤ 3 := by
  have hsize := h.size_le
  have howed := h.owed_pos
  omega

/-- The last byte makes a sound code point one that fits. -/
theorem Pending.Sound.last {p : Pending} {b : Nat} (h : p.Sound) (howed : p.owed ≤ 1)
    (hlow : p.low ≤ b) (hhigh : b ≤ p.high) :
    (Piece.point (CodePoint.ofNat (64 * p.value + (b - 0x80))) (p.seen + 1)).Fits := by
  have howed : p.owed = 1 := by have := h.owed_pos; omega
  have hleast : p.least ≤ 64 * p.value + (b - 0x80) := by
    rw [least, howed, Nat.sub_self, pow_zero, Nat.mul_one]
    omega
  have hbound : 64 * p.value + (b - 0x80) < p.bound := by
    rw [bound, howed, Nat.sub_self, pow_zero, Nat.mul_one]
    omega
  have hrange : 64 * p.value + (b - 0x80) < 0x110000 := hbound.trans_le h.in_range
  have hpoint : (CodePoint.ofNat (64 * p.value + (b - 0x80))).toNat
      = 64 * p.value + (b - 0x80) := by
    rw [CodePoint.ofNat, dif_pos hrange]
  constructor
  · rw [CodePoint.isSurrogate, hpoint]
    have hno := h.no_surrogate
    simp
    omega
  · refine le_pointSize (howed ▸ h.size_le) ?_
    rw [hpoint]
    exact (howed ▸ h.size_needed).trans hleast

/-! ### All pieces -/

/-- What is pending between two bytes. -/
def SoundPending (pending : Option Pending) : Prop := ∀ p ∈ pending, p.Sound

/-- The bytes of what is pending. -/
def seenOf (pending : Option Pending) : Nat := (pending.map Pending.seen).getD 0

@[simp] theorem seenOf_none : seenOf none = 0 := rfl

@[simp] theorem seenOf_some (p : Pending) : seenOf (some p) = p.seen := rfl

theorem soundPending_some {p : Pending} (h : p.Sound) : SoundPending (some p) := by
  rintro q ⟨⟩
  exact h

/-- All pieces fit, and together they have all bytes, those of what was pending included. -/
theorem fits_and_sum_piecesFrom (pending : Option Pending) (bytes : List UInt8)
    (h : SoundPending pending) : (∀ piece ∈ piecesFrom pending bytes, piece.Fits)
      ∧ ((piecesFrom pending bytes).map Piece.size).sum = seenOf pending + bytes.length := by
  fun_induction piecesFrom pending bytes with
  | case1 => simp [seenOf]
  | case2 p =>
    refine ⟨?_, rfl⟩
    intro piece hpiece
    obtain rfl := List.mem_singleton.mp hpiece
    exact (h p rfl).seen_le
  | case3 b bytes piece hlead ih =>
    obtain ⟨hfits, hsize⟩ : LeadSpec (.inl piece) := hlead ▸ lead_spec b
    obtain ⟨ihfits, ihsum⟩ := ih nofun
    refine ⟨List.forall_mem_cons.mpr ⟨hfits, ihfits⟩, ?_⟩
    rw [List.map_cons, List.sum_cons, ihsum, hsize, seenOf_none, List.length_cons]
    omega
  | case4 b bytes p hlead ih =>
    obtain ⟨hp, hseen⟩ : LeadSpec (.inr p) := hlead ▸ lead_spec b
    obtain ⟨ihfits, ihsum⟩ := ih (soundPending_some hp)
    refine ⟨ihfits, ?_⟩
    rw [ihsum, seenOf_some, hseen, seenOf_none, List.length_cons]
    omega
  | case5 p b bytes hin value hlast ih =>
    obtain ⟨ihfits, ihsum⟩ := ih nofun
    have hfits := (h p rfl).last hlast hin.1 hin.2
    refine ⟨List.forall_mem_cons.mpr ⟨hfits, ihfits⟩, ?_⟩
    rw [List.map_cons, List.sum_cons, ihsum, Piece.size, seenOf_some, seenOf_none,
      List.length_cons]
    omega
  | case6 p b bytes hin value hlast ih =>
    have hnext := (h p rfl).next (Nat.lt_of_not_le hlast) hin.1 hin.2
    obtain ⟨ihfits, ihsum⟩ := ih (soundPending_some hnext)
    refine ⟨ihfits, ?_⟩
    rw [ihsum, seenOf_some, seenOf_some, List.length_cons]
    exact Nat.add_right_comm p.seen 1 bytes.length
  | case7 p b bytes hout ihnone ihsome =>
    -- the byte that does not go on is a first byte again
    have hbroken : (Piece.broken p.seen .invalidContinuation).Fits := (h p rfl).seen_le
    cases hlead : lead b with
    | inl piece =>
      obtain ⟨hfits, hsize⟩ : LeadSpec (.inl piece) := hlead ▸ lead_spec b
      obtain ⟨ihfits, ihsum⟩ := ihnone nofun
      refine ⟨List.forall_mem_cons.mpr ⟨hbroken, List.forall_mem_cons.mpr ⟨hfits, ihfits⟩⟩, ?_⟩
      dsimp only
      rw [List.map_cons, List.sum_cons, List.map_cons, List.sum_cons, ihsum, hsize, Piece.size,
        seenOf_some, seenOf_none, List.length_cons]
      omega
    | inr q =>
      obtain ⟨hq, hseen⟩ : LeadSpec (.inr q) := hlead ▸ lead_spec b
      obtain ⟨ihfits, ihsum⟩ := ihsome q (soundPending_some hq)
      refine ⟨List.forall_mem_cons.mpr ⟨hbroken, ihfits⟩, ?_⟩
      dsimp only
      rw [List.map_cons, List.sum_cons, ihsum, Piece.size, seenOf_some, seenOf_some, hseen,
        List.length_cons]
      omega

/-- The sizes of the pieces add up to the length of the byte string. -/
theorem sum_size_pieces (bytes : List UInt8) :
    ((pieces bytes).map Piece.size).sum = bytes.length := by
  rw [pieces, (fits_and_sum_piecesFrom none bytes nofun).2, seenOf_none, Nat.zero_add]

/-- The code point of a piece. -/
def Piece.character : Piece → CodePoint
  | .point c _ => c
  | .broken _ _ => CodePoint.replacement

theorem decodeLenient_eq (bytes : List UInt8) :
    decodeLenient bytes = (pieces bytes).map Piece.character := rfl

theorem Piece.Fits.character {piece : Piece} (h : piece.Fits) :
    piece.character.isSurrogate = false ∧ piece.size ≤ pointSize piece.character := by
  cases piece with
  | point c size => exact h
  | broken size defect =>
    have hreplacement : CodePoint.replacement.isSurrogate = false
        ∧ pointSize CodePoint.replacement = 3 := by decide
    exact ⟨hreplacement.1, hreplacement.2.symm ▸ h⟩

theorem encodable_decodeLenient (bytes : List UInt8) : Encodable (decodeLenient bytes) := by
  intro c hc
  rw [decodeLenient_eq] at hc
  obtain ⟨piece, hpiece, rfl⟩ := List.mem_map.mp hc
  exact ((fits_and_sum_piecesFrom none bytes nofun).1 piece hpiece).character.1

theorem byteLength_eq_sum (t : Text) : byteLength t = (t.map pointSize).sum := by
  simp [byteLength, List.length_flatMap, length_encodePoint]

/-- **Reading bytes leniently never makes them fewer**: the text that is read takes at least as
many bytes as there were. -/
theorem length_le_byteLength_decodeLenient (bytes : List UInt8) :
    bytes.length ≤ byteLength (decodeLenient bytes) := by
  rw [byteLength_eq_sum, decodeLenient_eq, List.map_map, ← sum_size_pieces]
  apply List.sum_le_sum
  intro piece hpiece
  exact ((fits_and_sum_piecesFrom none bytes nofun).1 piece hpiece).character.2

end Utf8

end CompileGate
