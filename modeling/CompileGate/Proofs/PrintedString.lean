/-
CompileGate/Proofs/PrintedString.lean

Strings in JSON texts.

Each code point of a string is printed as itself or as an escape, and read as what it was
(`readString_escapePoint`).  The one exception are two escapes in a row that stand for the
halves of a code point: they are read as that code point, whether they come from it or
from two surrogates that happened to stand side by side.  So where code points beyond
ASCII are escaped, a string is read with such surrogates joined (`paired`).

Main result: `readString_print`.
-/
import CompileGate.Json.Reader
import CompileGate.Proofs.LoweredAddress
import CompileGate.Proofs.WrittenNumber

namespace CompileGate
namespace Json

open CodePoint (ofNat_toNat)

/-! ### Escapes -/

variable {opening n : Nat} {done more rest : Text} {c d : CodePoint}

theorem unicodeEscape_append (hn : n < 0x10000) (more : Text) :
    unicodeEscape n ++ more
      = ('\\' : CodePoint) :: ('u' : CodePoint) :: Text.hexDigit (n / 4096 % 16)
        :: Text.hexDigit (n / 256 % 16) :: Text.hexDigit (n / 16 % 16) :: Text.hexDigit (n % 16)
        :: more := by
  rw [unicodeEscape_eq hn]
  rfl

/-- The surrogate that an escape writes, if it is a low one. -/
theorem lowSurrogate?_unicodeEscape (hn : n < 0x10000) (hmore : more ≠ []) :
    lowSurrogate? (unicodeEscape n ++ more) = (some n).filter isLowSurrogate := by
  obtain ⟨x, after, rfl⟩ := List.exists_cons_of_ne_nil hmore
  rw [unicodeEscape_append hn]
  exact congrArg (Option.filter isLowSurrogate) (Text.hexValue?_hexDigits hn)

theorem lowSurrogate?_of_ne (hc : c ≠ '\\') (t : Text) : lowSurrogate? (c :: t) = none := by
  unfold lowSurrogate?
  split
  · rename_i heq
    obtain ⟨rfl, rfl⟩ := List.cons.inj heq
    rw [if_neg (by simp [hc])]
  · rfl

theorem lowSurrogate?_of_second_ne (hd : d ≠ 'u') (t : Text) :
    lowSurrogate? (c :: d :: t) = none := by
  unfold lowSurrogate?
  split
  · rename_i heq
    obtain ⟨rfl, -⟩ := List.cons.inj (List.cons.inj heq).2
    rw [if_neg (by simp [hd])]
  · rfl

/-- An escape alone. -/
theorem readString_unicodeEscape (hn : n < 0x10000) (hmore : more ≠ [])
    (halone : isHighSurrogate n = true → lowSurrogate? more = none) :
    readString opening done (unicodeEscape n ++ more)
      = readString opening (CodePoint.ofNat n :: done) more := by
  obtain ⟨x, after, rfl⟩ := List.exists_cons_of_ne_nil hmore
  have hnone : (if isHighSurrogate n = true then lowSurrogate? (x :: after) else none) = none := by
    split
    · rename_i hhigh
      exact halone hhigh
    · rfl
  have hvalue := Text.hexValue?_hexDigits hn
  rw [Text.hexDigits] at hvalue
  rw [unicodeEscape_append hn, readString.eq_def]
  dsimp only
  rw [if_neg (by decide), if_pos rfl]
  rw [if_pos rfl, hvalue]
  dsimp only
  rw [hnone]

/-- The escapes of a high and a low surrogate. -/
theorem readString_pair {high low : Nat} (hhigh : isHighSurrogate high = true)
    (hlow : isLowSurrogate low = true) (hmore : more ≠ []) :
    readString opening done (unicodeEscape high ++ (unicodeEscape low ++ more))
      = readString opening (joinSurrogates high low :: done) more := by
  have hhigh' : high < 0x10000 := by
    simp only [isHighSurrogate, Bool.and_eq_true, decide_eq_true_eq] at hhigh
    omega
  have hlow' : low < 0x10000 := by
    simp only [isLowSurrogate, Bool.and_eq_true, decide_eq_true_eq] at hlow
    omega
  have hnext : lowSurrogate? (unicodeEscape low ++ more) = some low := by
    rw [lowSurrogate?_unicodeEscape hlow' hmore, Option.filter_some, if_pos hlow]
  have hvalue := Text.hexValue?_hexDigits hhigh'
  rw [Text.hexDigits] at hvalue
  rw [unicodeEscape_append hlow'] at hnext ⊢
  rw [unicodeEscape_append hhigh', readString.eq_def]
  dsimp only
  rw [if_neg (by decide), if_pos rfl]
  rw [if_pos rfl, hvalue]
  dsimp only
  rw [if_pos hhigh, hnext]

/-! ### Code points -/

theorem readString_plain (hquote : c ≠ '"') (hbackslash : c ≠ '\\') (hcontrol : ¬ c.toNat < 0x20) :
    readString opening done (c :: more) = readString opening (c :: done) more := by
  rw [readString.eq_def]
  dsimp only
  rw [if_neg hquote, if_neg hbackslash, if_neg hcontrol]

theorem readString_letter (hd : d ≠ 'u') (hescaped : escaped? d = some c) :
    readString opening done (('\\' : CodePoint) :: d :: more)
      = readString opening (c :: done) more := by
  rw [readString.eq_def]
  dsimp only
  rw [if_neg (by decide), if_pos rfl]
  rw [if_neg hd, hescaped]

/-- The halves of a code point beyond the first 65536. -/
theorem join_halves (hc : ¬ c.toNat < 0x10000) :
    isHighSurrogate (0xD800 + (c.toNat - 0x10000) / 0x400) = true
      ∧ isLowSurrogate (0xDC00 + (c.toNat - 0x10000) % 0x400) = true
      ∧ joinSurrogates (0xD800 + (c.toNat - 0x10000) / 0x400)
        (0xDC00 + (c.toNat - 0x10000) % 0x400) = c := by
  have hlt := c.isLt
  refine ⟨?_, ?_, ?_⟩
  · simp only [isHighSurrogate, Bool.and_eq_true, decide_eq_true_eq]
    omega
  · simp only [isLowSurrogate, Bool.and_eq_true, decide_eq_true_eq]
    omega
  · have hnumber : 0x10000 + (0xD800 + (c.toNat - 0x10000) / 0x400 - 0xD800) * 0x400
        + (0xDC00 + (c.toNat - 0x10000) % 0x400 - 0xDC00) = c.toNat := by omega
    rw [joinSurrogates, hnumber, ofNat_toNat]

/-- How a code point is printed. -/
inductive IsPrinted (asciiOnly : Bool) (c : CodePoint) : Text → Prop
  | letter (d : CodePoint) : d ≠ 'u' → escaped? d = some c → c.toNat < 0x7F →
      IsPrinted asciiOnly c [('\\' : CodePoint), d]
  | unit : c.toNat < 0x10000 → (c.toNat < 0x20 ∨ asciiOnly = true ∧ 0x7F ≤ c.toNat) →
      IsPrinted asciiOnly c (unicodeEscape c.toNat)
  | itself : c ≠ '"' → c ≠ '\\' → 0x20 ≤ c.toNat → (asciiOnly = true → c.toNat < 0x7F) →
      IsPrinted asciiOnly c [c]
  | halves : asciiOnly = true → ¬ c.toNat < 0x10000 → IsPrinted asciiOnly c
      (unicodeEscape (0xD800 + (c.toNat - 0x10000) / 0x400)
        ++ unicodeEscape (0xDC00 + (c.toNat - 0x10000) % 0x400))

theorem isPrinted_escapePoint (asciiOnly : Bool) (c : CodePoint) :
    IsPrinted asciiOnly c (escapePoint asciiOnly c) := by
  have hof : ∀ n, c.toNat = n → c = CodePoint.ofNat n := by
    rintro n rfl
    exact (ofNat_toNat c).symm
  rw [escapePoint]
  by_cases hquote : c = '"'
  · rw [if_pos hquote]
    exact hquote ▸ .letter '"' (by decide) rfl (by decide)
  rw [if_neg hquote]
  by_cases hbackslash : c = '\\'
  · rw [if_pos hbackslash]
    exact hbackslash ▸ .letter '\\' (by decide) rfl (by decide)
  rw [if_neg hbackslash]
  by_cases hfeed : c = '\n'
  · rw [if_pos hfeed]
    exact hfeed ▸ .letter 'n' (by decide) rfl (by decide)
  rw [if_neg hfeed]
  by_cases hreturn : c = '\r'
  · rw [if_pos hreturn]
    exact hreturn ▸ .letter 'r' (by decide) rfl (by decide)
  rw [if_neg hreturn]
  by_cases htab : c = '\t'
  · rw [if_pos htab]
    exact htab ▸ .letter 't' (by decide) rfl (by decide)
  rw [if_neg htab]
  by_cases hback : c.toNat = 0x08
  · rw [if_pos hback]
    exact hof _ hback ▸ .letter 'b' (by decide) rfl (by decide)
  rw [if_neg hback]
  by_cases hform : c.toNat = 0x0C
  · rw [if_pos hform]
    exact hof _ hform ▸ .letter 'f' (by decide) rfl (by decide)
  rw [if_neg hform]
  by_cases hcontrol : c.toNat < 0x20
  · rw [if_pos hcontrol]
    exact .unit (by omega) (.inl hcontrol)
  rw [if_neg hcontrol]
  by_cases hplain : (!asciiOnly || decide (c.toNat < 0x7F)) = true
  · rw [if_pos hplain]
    exact .itself hquote hbackslash (by omega) fun hascii => by simpa [hascii] using hplain
  obtain ⟨hascii, hlarge⟩ : asciiOnly = true ∧ 0x7F ≤ c.toNat := by simpa using hplain
  rw [if_neg hplain]
  by_cases hshort : c.toNat < 0x10000
  · rw [if_pos hshort]
    exact .unit hshort (.inr ⟨hascii, hlarge⟩)
  · rw [if_neg hshort]
    exact .halves hascii hshort

variable {asciiOnly : Bool} {t : Text}

theorem not_isHighSurrogate_of_lt (h : c.toNat < 0x80) : isHighSurrogate c.toNat = false := by
  simp only [isHighSurrogate, Bool.and_eq_false_iff, decide_eq_false_iff_not]
  omega

/-- **A code point is read as what it was**, if no low surrogate is printed after a high one. -/
theorem IsPrinted.readString_eq (h : IsPrinted asciiOnly c t) (hmore : more ≠ [])
    (halone : asciiOnly = true → isHighSurrogate c.toNat = true → lowSurrogate? more = none) :
    readString opening done (t ++ more) = readString opening (c :: done) more := by
  cases h with
  | letter d hd hescaped hsmall => exact readString_letter hd hescaped
  | unit hshort hwhy =>
    rw [readString_unicodeEscape hshort hmore, ofNat_toNat]
    intro hhigh
    rcases hwhy with hcontrol | ⟨hascii, -⟩
    · rw [not_isHighSurrogate_of_lt (by omega)] at hhigh
      cases hhigh
    · exact halone hascii hhigh
  | itself hquote hbackslash hcontrol => exact readString_plain hquote hbackslash (by omega)
  | halves hascii hlarge =>
    obtain ⟨hhigh, hlow, hjoin⟩ := join_halves hlarge
    rw [List.append_assoc, readString_pair hhigh hlow hmore, hjoin]

/-- Only a low surrogate is printed as one. -/
theorem IsPrinted.lowSurrogate?_eq (h : IsPrinted asciiOnly c t)
    (hlow : isLowSurrogate c.toNat = false) (hmore : more ≠ []) :
    lowSurrogate? (t ++ more) = none := by
  cases h with
  | letter d hd => exact lowSurrogate?_of_second_ne hd more
  | unit hshort =>
    rw [lowSurrogate?_unicodeEscape hshort hmore, Option.filter_some, if_neg (by simp [hlow])]
  | itself hquote hbackslash => exact lowSurrogate?_of_ne hbackslash more
  | halves hascii hlarge =>
    have hlt := c.isLt
    obtain ⟨hhigh, -, -⟩ := join_halves hlarge
    rw [List.append_assoc, lowSurrogate?_unicodeEscape (by omega)
      (List.append_ne_nil_of_right_ne_nil _ hmore), Option.filter_some, if_neg]
    simp only [isHighSurrogate, isLowSurrogate, Bool.and_eq_true, decide_eq_true_eq] at hhigh ⊢
    omega

/-! ### Whole strings -/

/-- A text with the surrogates joined that stand side by side as halves of a code point. -/
def paired : Text → Text
  | [] => []
  | [c] => [c]
  | high :: low :: rest =>
    if isHighSurrogate high.toNat && isLowSurrogate low.toNat then
      joinSurrogates high.toNat low.toNat :: paired rest
    else high :: paired (low :: rest)

/-- What a text is read as when it is printed. -/
def rereadText (asciiOnly : Bool) (t : Text) : Text := if asciiOnly then paired t else t

theorem paired_of_not_surrogate {t : Text} (h : ∀ c ∈ t, c.isSurrogate = false) :
    paired t = t := by
  fun_induction paired t with
  | case1 => rfl
  | case2 c => rfl
  | case3 high low rest hpair ih =>
    have hhigh := h high List.mem_cons_self
    simp only [isHighSurrogate, Bool.and_eq_true, decide_eq_true_eq] at hpair
    simp only [CodePoint.isSurrogate, Bool.and_eq_false_iff, decide_eq_false_iff_not] at hhigh
    omega
  | case4 high low rest hpair ih => rw [ih fun c hc => h c (List.mem_cons_of_mem high hc)]

theorem rereadText_of_not_surrogate {t : Text} (h : ∀ c ∈ t, c.isSurrogate = false) :
    rereadText asciiOnly t = t := by
  unfold rereadText
  split
  · exact paired_of_not_surrogate h
  · rfl

theorem IsPrinted.eq_unicodeEscape (h : IsPrinted true c t) (hlarge : 0x7F ≤ c.toNat)
    (hshort : c.toNat < 0x10000) : t = unicodeEscape c.toNat := by
  cases h with
  | letter d hd hescaped hsmall => omega
  | unit => rfl
  | itself hquote hbackslash hcontrol hplain => exact absurd (hplain rfl) (by omega)
  | halves hascii hlarge => exact absurd hshort hlarge

theorem readString_close : readString opening done (('"' : CodePoint) :: rest)
    = .ok (done.reverse, rest) := by
  rw [readString.eq_def]
  rfl

theorem readString_paired (t rest : Text) : ∀ done : Text,
    readString opening done (t.flatMap (escapePoint true) ++ ('"' : CodePoint) :: rest)
      = .ok (done.reverse ++ paired t, rest) := by
  -- along the code points, a pair of surrogates at once
  fun_induction paired t with
  | case1 =>
    intro done
    rw [List.append_nil]
    exact readString_close
  | case2 c =>
    intro done
    rw [List.flatMap_singleton, (isPrinted_escapePoint true c).readString_eq (by simp) fun _ _ =>
      lowSurrogate?_of_ne (by decide) rest, readString_close]
    simp
  | case3 high low more hpair ih =>
    intro done
    rw [Bool.and_eq_true] at hpair
    have hhigh := hpair.1
    have hlow := hpair.2
    simp only [isHighSurrogate, isLowSurrogate, Bool.and_eq_true, decide_eq_true_eq] at hhigh hlow
    rw [List.flatMap_cons, List.flatMap_cons,
      (isPrinted_escapePoint true high).eq_unicodeEscape (by omega) (by omega),
      (isPrinted_escapePoint true low).eq_unicodeEscape (by omega) (by omega), List.append_assoc,
      List.append_assoc, readString_pair hpair.1 hpair.2 (by simp), ih]
    simp
  | case4 high low more hpair ih =>
    intro done
    rw [List.flatMap_cons, List.append_assoc,
      (isPrinted_escapePoint true high).readString_eq (by simp), ih]
    · simp
    · intro _ hhigh
      rw [hhigh, Bool.true_and, Bool.not_eq_true] at hpair
      rw [List.flatMap_cons, List.append_assoc]
      exact (isPrinted_escapePoint true low).lowSurrogate?_eq hpair (by simp)

theorem readString_unescaped (t rest : Text) (done : Text) :
    readString opening done (t.flatMap (escapePoint false) ++ ('"' : CodePoint) :: rest)
      = .ok (done.reverse ++ t, rest) := by
  induction t generalizing done with
  | nil =>
    rw [List.append_nil]
    exact readString_close
  | cons c t ih =>
    rw [List.flatMap_cons, List.append_assoc,
      (isPrinted_escapePoint false c).readString_eq (by simp) nofun, ih]
    simp

/-- **A string is read as it was printed**, up to surrogates that are joined. -/
theorem readString_print (asciiOnly : Bool) (t rest : Text) (opening : Nat) :
    readString opening [] (t.flatMap (escapePoint asciiOnly) ++ ('"' : CodePoint) :: rest)
      = .ok (rereadText asciiOnly t, rest) := by
  cases asciiOnly with
  | true => exact readString_paired t rest []
  | false => exact readString_unescaped t rest []

/-! ### The code points that are shown -/

/-- A code point that is no control character, and that is printable ASCII if only ASCII is used. -/
def IsShown (asciiOnly : Bool) (c : CodePoint) : Prop :=
  0x20 ≤ c.toNat ∧ (asciiOnly = true → c.toNat < 0x7F)

instance (asciiOnly : Bool) (c : CodePoint) : Decidable (IsShown asciiOnly c) :=
  inferInstanceAs (Decidable (_ ∧ _))

theorem isShown_unicodeEscape (hn : n < 0x10000) : ∀ c ∈ unicodeEscape n, IsShown asciiOnly c := by
  have hdigit : ∀ m < 16, 0x20 ≤ (Text.hexDigit m).toNat ∧ (Text.hexDigit m).toNat < 0x7F := by
    decide
  have hdigits : ∀ c ∈ Text.hexDigits n, 0x20 ≤ c.toNat ∧ c.toNat < 0x7F := by
    intro c hc
    simp only [Text.hexDigits, List.mem_cons, List.not_mem_nil, or_false] at hc
    rcases hc with rfl | rfl | rfl | rfl
    · exact hdigit _ (Nat.mod_lt _ (by decide))
    · exact hdigit _ (Nat.mod_lt _ (by decide))
    · exact hdigit _ (Nat.mod_lt _ (by decide))
    · exact hdigit _ (Nat.mod_lt _ (by decide))
  intro c hc
  rw [unicodeEscape_eq hn] at hc
  simp only [List.mem_cons] at hc
  rcases hc with rfl | rfl | hc
  · exact ⟨by decide, fun _ => by decide⟩
  · exact ⟨by decide, fun _ => by decide⟩
  · exact ⟨(hdigits c hc).1, fun _ => (hdigits c hc).2⟩

theorem IsPrinted.isShown (h : IsPrinted asciiOnly c t) : ∀ d ∈ t, IsShown asciiOnly d := by
  cases h with
  | letter d hd hescaped hsmall =>
    -- the letters are those of the short escapes
    have hletter : IsShown asciiOnly d := by
      unfold escaped? at hescaped
      have hletters : d = '"' ∨ d = '\\' ∨ d = '/' ∨ d = 'b' ∨ d = 'f' ∨ d = 'n' ∨ d = 'r'
          ∨ d = 't' := by
        by_contra hnone
        simp only [not_or] at hnone
        obtain ⟨h1, h2, h3, h4, h5, h6, h7, h8⟩ := hnone
        rw [if_neg h1, if_neg h2, if_neg h3, if_neg h4, if_neg h5, if_neg h6, if_neg h7,
          if_neg h8] at hescaped
        cases hescaped
      rcases hletters with rfl | rfl | rfl | rfl | rfl | rfl | rfl | rfl
      all_goals exact ⟨by decide, fun _ => by decide⟩
    intro e he
    rcases List.mem_pair.mp he with rfl | rfl
    · exact ⟨by decide, fun _ => by decide⟩
    · exact hletter
  | unit hshort => exact isShown_unicodeEscape hshort
  | itself hquote hbackslash hcontrol hplain =>
    intro d hd
    obtain rfl := List.mem_singleton.mp hd
    exact ⟨hcontrol, hplain⟩
  | halves hascii hlarge =>
    have hlt := c.isLt
    intro d hd
    rcases List.mem_append.mp hd with hd | hd
    · exact isShown_unicodeEscape (by omega) d hd
    · exact isShown_unicodeEscape (by omega) d hd

theorem isShown_printString (t : Text) : ∀ c ∈ printString asciiOnly t, IsShown asciiOnly c := by
  have hquote : IsShown asciiOnly '"' := ⟨by decide, fun _ => by decide⟩
  intro c hc
  simp only [printString, List.cons_append, List.mem_cons, List.mem_append, List.mem_flatMap,
    List.not_mem_nil, or_false] at hc
  rcases hc with rfl | ⟨d, -, hc⟩ | rfl
  · exact hquote
  · exact (isPrinted_escapePoint asciiOnly d).isShown c hc
  · exact hquote

end Json

end CompileGate
