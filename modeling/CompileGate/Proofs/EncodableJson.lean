/-
CompileGate/Proofs/EncodableJson.lean

Which values have a canonical text that can be written as bytes.

In the canonical style nothing beyond ASCII is escaped: a surrogate in a string, or in the
name of a member, stands in the text as it is, and UTF-8 has no bytes for it.  Everything else
in a value is printed in ASCII, so nothing else keeps its text from being written
(`IsEncodable`).

Main result: `encodable_print_iff`.
-/
import CompileGate.Proofs.EncodedSize
import CompileGate.Proofs.PrintedJson

namespace CompileGate

/-! ### Texts in parts -/

namespace Utf8

theorem encodable_append_iff {s t : Text} : Encodable (s ++ t) ↔ Encodable s ∧ Encodable t :=
  List.forall_mem_append

theorem encodable_cons_iff {c : CodePoint} {t : Text} :
    Encodable (c :: t) ↔ c.isSurrogate = false ∧ Encodable t :=
  List.forall_mem_cons

theorem encodable_join_iff {separator : Text} (hseparator : Encodable separator)
    {pieces : List Text} :
    Encodable (Text.join separator pieces) ↔ ∀ piece ∈ pieces, Encodable piece := by
  induction pieces with
  | nil => exact ⟨fun _ => by simp, fun _ => by simp [Encodable, Text.join]⟩
  | cons piece pieces ih =>
    rw [List.forall_mem_cons]
    cases pieces with
    | nil =>
      rw [Json.join_singleton]
      exact ⟨fun h => ⟨h, by simp⟩, fun h => h.1⟩
    | cons next pieces =>
      rw [Json.join_cons, encodable_append_iff, encodable_append_iff, ih,
        and_iff_right hseparator]

theorem isSurrogate_eq_false_of_lt {c : CodePoint} (h : c.toNat < 0x7F) :
    c.isSurrogate = false := by
  simp only [CodePoint.isSurrogate, Bool.and_eq_false_iff, decide_eq_false_iff_not]
  omega

/-- Some text of ASCII. -/
theorem encodable_of_lt {t : Text} (h : ∀ c ∈ t, c.toNat < 0x7F) : Encodable t :=
  fun c hc => isSurrogate_eq_false_of_lt (h c hc)

end Utf8

namespace Json

open Utf8 (Encodable encodable_append_iff encodable_cons_iff encodable_join_iff)

theorem encodable_of_isShown {t : Text} (h : ∀ c ∈ t, IsShown true c) : Encodable t :=
  Utf8.encodable_of_lt fun c hc => (h c hc).2 rfl

/-! ### Strings -/

section Strings

variable {asciiOnly : Bool} {c : CodePoint} {t : Text}

/-- A code point is printed as itself or in ASCII. -/
theorem IsPrinted.eq_or_isShown (h : IsPrinted asciiOnly c t) :
    ∀ d ∈ t, d = c ∨ IsShown true d := by
  intro d hd
  cases h with
  | letter e he hescaped hsmall =>
    have hprinted : IsPrinted true c _ := .letter e he hescaped hsmall
    exact .inr (hprinted.isShown d hd)
  | unit hshort => exact .inr (isShown_unicodeEscape hshort d hd)
  | itself => exact .inl (List.mem_singleton.mp hd)
  | halves _ hlarge =>
    have hprinted : IsPrinted true c _ := .halves rfl hlarge
    exact .inr (hprinted.isShown d hd)

/-- Where code points beyond ASCII are not escaped, a surrogate is printed as it is. -/
theorem IsPrinted.mem_of_isSurrogate (h : IsPrinted false c t) (hc : c.isSurrogate = true) :
    c ∈ t := by
  simp only [CodePoint.isSurrogate, Bool.and_eq_true, decide_eq_true_eq] at hc
  cases h with
  | letter d _ _ hsmall => omega
  | unit _ hescaped => exact absurd hescaped (by simp; omega)
  | itself => exact List.mem_singleton_self c
  | halves hascii => cases hascii

theorem encodable_printString_iff {s : Text} : Encodable (printString false s) ↔ Encodable s := by
  have hquote : Encodable [('"' : CodePoint)] := by decide
  rw [printString, List.cons_append, encodable_cons_iff, encodable_append_iff,
    and_iff_left hquote, and_iff_right (by decide)]
  constructor
  · intro h c hc
    by_contra hsurrogate
    rw [Bool.not_eq_false] at hsurrogate
    have hmem := (isPrinted_escapePoint false c).mem_of_isSurrogate hsurrogate
    exact absurd (h c (List.mem_flatMap.mpr ⟨c, hc, hmem⟩)) (by simp [hsurrogate])
  · intro h d hd
    obtain ⟨c, hc, hd⟩ := List.mem_flatMap.mp hd
    rcases (isPrinted_escapePoint false c).eq_or_isShown d hd with rfl | hshown
    · exact h d hc
    · exact Utf8.isSurrogate_eq_false_of_lt (hshown.2 rfl)

end Strings

/-! ### Values -/

/-- No string in a value and no name of a member holds a surrogate. -/
inductive IsEncodable : Json → Prop
  | null : IsEncodable .null
  | bool (b : Bool) : IsEncodable (.bool b)
  | int (n : Int) : IsEncodable (.int n)
  | float (x : Binary64) : IsEncodable (.float x)
  | string {s : Text} : Encodable s → IsEncodable (.string s)
  | array {items : List Json} : (∀ item ∈ items, IsEncodable item) → IsEncodable (.array items)
  | object {members : List (Text × Json)} : (∀ m ∈ members, Encodable m.1) →
      (∀ m ∈ members, IsEncodable m.2) → IsEncodable (.object members)

theorem isEncodable_string_iff {s : Text} : IsEncodable (.string s) ↔ Encodable s := by
  constructor
  · rintro ⟨⟩
    assumption
  · exact .string

theorem isEncodable_array_iff {items : List Json} :
    IsEncodable (.array items) ↔ ∀ item ∈ items, IsEncodable item := by
  constructor
  · rintro ⟨⟩
    assumption
  · exact .array

theorem isEncodable_object_iff {members : List (Text × Json)} :
    IsEncodable (.object members) ↔ ∀ m ∈ members, Encodable m.1 ∧ IsEncodable m.2 := by
  constructor
  · rintro (_ | _ | _ | _ | _ | _ | ⟨hnames, hvalues⟩)
    exact fun m hm => ⟨hnames m hm, hvalues m hm⟩
  · exact fun h => .object (fun m hm => (h m hm).1) fun m hm => (h m hm).2

theorem encodable_print_array {items : List Json} :
    Encodable (print .canonical (.array items))
      ↔ ∀ item ∈ items, Encodable (print .canonical item) := by
  have hseparator : Encodable Style.canonical.itemSeparator := by decide
  have hclose : Encodable [(']' : CodePoint)] := by decide
  rw [print, List.cons_append, encodable_cons_iff, encodable_append_iff, and_iff_left hclose,
    and_iff_right (by decide), encodable_join_iff hseparator, printItems_eq_map,
    List.forall_mem_map]

/-- Sorting the members changes nothing here. -/
theorem encodable_print_object {members : List (Text × Json)} :
    Encodable (print .canonical (.object members))
      ↔ ∀ m ∈ members, Encodable m.1 ∧ Encodable (print .canonical m.2) := by
  have hitem : Encodable Style.canonical.itemSeparator := by decide
  have hname : Encodable Style.canonical.nameSeparator := by decide
  have hclose : Encodable [('}' : CodePoint)] := by decide
  have hsorted : Style.canonical.sorted = true := rfl
  have hascii : Style.canonical.asciiOnly = false := rfl
  rw [print, List.cons_append, encodable_cons_iff, encodable_append_iff, and_iff_left hclose,
    and_iff_right (by decide), encodable_join_iff hitem, List.forall_mem_map, arrange, hsorted,
    if_pos rfl, printMembers_eq_map]
  simp only [List.mem_mergeSort, List.forall_mem_map, encodable_append_iff, hascii,
    encodable_printString_iff, and_iff_left hname]

/-- **The canonical text of a value can be written exactly if no string in it and no name of a
member holds a surrogate.** -/
theorem encodable_print_iff (v : Json) : Encodable (print .canonical v) ↔ IsEncodable v := by
  match v with
  | .null => exact ⟨fun _ => .null, fun _ => by decide⟩
  | .bool true => exact ⟨fun _ => .bool true, fun _ => by decide⟩
  | .bool false => exact ⟨fun _ => .bool false, fun _ => by decide⟩
  | .int n =>
    refine ⟨fun _ => .int n, fun _ => encodable_of_isShown ?_⟩
    rw [print, ← text_ofInt]
    exact isShown_numeral (isWritten_ofInt n)
  | .float x => exact ⟨fun _ => .float x, fun _ => encodable_of_isShown (isShown_printFloat x)⟩
  | .string s =>
    rw [print, isEncodable_string_iff]
    exact encodable_printString_iff
  | .array items =>
    rw [encodable_print_array, isEncodable_array_iff]
    exact forall₂_congr fun item hitem => encodable_print_iff item
  | .object members =>
    rw [encodable_print_object, isEncodable_object_iff]
    exact forall₂_congr fun m hm => and_congr_right fun _ => encodable_print_iff m.2
termination_by sizeOf v
decreasing_by
  · have hlt := List.sizeOf_lt_of_mem hitem
    simp only [array.sizeOf_spec]
    omega
  · have hlt := List.sizeOf_lt_of_mem hm
    obtain ⟨name, value⟩ := m
    simp only [object.sizeOf_spec, Prod.mk.sizeOf_spec] at hlt ⊢
    omega

end Json

end CompileGate
