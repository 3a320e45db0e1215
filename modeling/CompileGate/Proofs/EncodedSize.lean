/-
CompileGate/Proofs/EncodedSize.lean

The number of bytes of a text.  The walk adds up `Utf8.size`, which counts without
writing; here it is shown to be the length of what `Utf8.encode` writes, and to
fail exactly where that fails, at a text with a surrogate.
-/
import CompileGate.Text.Utf8

namespace CompileGate
namespace Utf8

/-- A text that has a UTF-8 form. -/
def Encodable (t : Text) : Prop := ∀ c ∈ t, c.isSurrogate = false

instance (t : Text) : Decidable (Encodable t) :=
  inferInstanceAs (Decidable (∀ c ∈ t, c.isSurrogate = false))

/-- The number of bytes of the UTF-8 form of a text. -/
def byteLength (t : Text) : Nat := (t.flatMap encodePoint).length

theorem length_encodePoint (c : CodePoint) : (encodePoint c).length = pointSize c := by
  simp only [encodePoint, pointSize]
  split
  · rfl
  · split
    · rfl
    · split <;> rfl

theorem foldl_pointSize (n : Nat) (t : Text) :
    t.foldl (fun n c => n + pointSize c) n = n + byteLength t := by
  induction t generalizing n with
  | nil => rfl
  | cons c t ih =>
    have hc : byteLength (c :: t) = pointSize c + byteLength t := by
      simp [byteLength, length_encodePoint]
    rw [List.foldl_cons, ih, hc, Nat.add_assoc]

theorem encode_eq_ok {t : Text} (h : Encodable t) :
    encode t = .ok (t.flatMap encodePoint) := by
  rw [encode, surrogates?_eq_none_iff.mpr h]

theorem size_eq_ok {t : Text} (h : Encodable t) : size t = .ok (byteLength t) := by
  rw [size, surrogates?_eq_none_iff.mpr h]
  show Except.ok (t.foldl _ 0) = _
  rw [foldl_pointSize, Nat.zero_add]

/-- A size is the length of a UTF-8 form. -/
theorem size_eq_ok_iff {t : Text} {n : Nat} :
    size t = .ok n ↔ Encodable t ∧ n = byteLength t := by
  constructor
  · intro h
    have ht : Encodable t := by
      cases hs : surrogates? 0 t with
      | none => exact surrogates?_eq_none_iff.mp hs
      | some e => rw [size, hs] at h; cases h
    rw [size_eq_ok ht] at h
    exact ⟨ht, (Except.ok.inj h).symm⟩
  · rintro ⟨ht, rfl⟩
    exact size_eq_ok ht

theorem not_encodable_of_size {t : Text} {e : EncodeError} (h : size t = .error e) :
    ¬ Encodable t := by
  intro ht
  rw [size_eq_ok ht] at h
  cases h

end Utf8

end CompileGate
