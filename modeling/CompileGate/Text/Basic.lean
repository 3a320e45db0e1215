/-
CompileGate/Text/Basic.lean

Text as this library sees it: a list of Unicode code points.  Requests arrive as
JSON, and a JSON string may hold an unpaired surrogate, so a code point is any
number below `0x110000`; `Char` and `String` are embedded by coercion.

The file also holds the cutting operations that every later module shares:
trimming by a predicate, cutting at the first or last separator, splitting, and
removing a known beginning or end.  All offsets count code points.
-/
namespace CompileGate

/-- A Unicode code point; surrogates are admitted. -/
structure CodePoint where
  toNat : Nat
  isLt : toNat < 0x110000
deriving DecidableEq

/-- A text is the list of its code points. -/
abbrev Text := List CodePoint

namespace CodePoint

/-- The code point of a character. -/
def ofChar (c : Char) : CodePoint :=
  ⟨c.toNat, by
    have h := c.valid
    simp only [UInt32.isValidChar, Nat.isValidChar] at h
    show c.val.toNat < 0x110000
    omega⟩

instance : Coe Char CodePoint := ⟨ofChar⟩

instance : Inhabited CodePoint := ⟨⟨0, by decide⟩⟩

instance : Hashable CodePoint := ⟨fun c => hash c.toNat⟩

/-- The code point with a given number; numbers out of range give U+FFFD. -/
def ofNat (n : Nat) : CodePoint :=
  if h : n < 0x110000 then ⟨n, h⟩ else ⟨0xFFFD, by decide⟩

/-- The replacement character U+FFFD. -/
def replacement : CodePoint := ⟨0xFFFD, by decide⟩

/-- A code point reserved for UTF-16, which no `Char` and no UTF-8 sequence holds. -/
def isSurrogate (c : CodePoint) : Bool := 0xD800 ≤ c.toNat && c.toNat ≤ 0xDFFF

def isAscii (c : CodePoint) : Bool := c.toNat < 0x80

/-- `0` to `9`. -/
def isAsciiDigit (c : CodePoint) : Bool := 0x30 ≤ c.toNat && c.toNat ≤ 0x39

/-- `A` to `Z`. -/
def isAsciiUpper (c : CodePoint) : Bool := 0x41 ≤ c.toNat && c.toNat ≤ 0x5A

/-- `a` to `z`. -/
def isAsciiLower (c : CodePoint) : Bool := 0x61 ≤ c.toNat && c.toNat ≤ 0x7A

def isAsciiLetter (c : CodePoint) : Bool := c.isAsciiUpper || c.isAsciiLower

/-- The lower-case form of an ASCII letter; any other code point is itself. -/
def toAsciiLower (c : CodePoint) : CodePoint :=
  if c.isAsciiUpper then ofNat (c.toNat + 32) else c

/-- The value of a hexadecimal digit. -/
def hexValue? (c : CodePoint) : Option Nat :=
  if c.isAsciiDigit then some (c.toNat - 0x30)
  else if 0x61 ≤ c.toNat && c.toNat ≤ 0x66 then some (c.toNat - 0x61 + 10)
  else if 0x41 ≤ c.toNat && c.toNat ≤ 0x46 then some (c.toNat - 0x41 + 10)
  else none

/-- The character with this number; a surrogate shows as U+FFFD. -/
def toChar (c : CodePoint) : Char := if c.isSurrogate then Char.ofNat 0xFFFD else Char.ofNat c.toNat

@[simp] theorem toNat_ofChar (c : Char) : (ofChar c).toNat = c.toNat := rfl

end CodePoint

namespace Text

/-- The code points of a string. -/
def ofString (s : String) : Text := s.toList.map CodePoint.ofChar

instance : Coe String Text := ⟨ofString⟩

/-- A string for display; surrogates show as U+FFFD. -/
def toDisplay (t : Text) : String := String.ofList (t.map CodePoint.toChar)

/-! ### Trimming -/

/-- Drops the longest end on which `p` holds. -/
def trimEnd (p : CodePoint → Bool) (t : Text) : Text := (t.reverse.dropWhile p).reverse

/-- Drops the longest beginning and the longest end on which `p` holds. -/
def trimBoth (p : CodePoint → Bool) (t : Text) : Text := trimEnd p (t.dropWhile p)

/-! ### Cutting at a separator -/

/-- What stands before and after the first `sep`, if there is one. -/
def cutFirst? (sep : CodePoint) : Text → Option (Text × Text)
  | [] => none
  | c :: rest =>
    if c = sep then some ([], rest)
    else (cutFirst? sep rest).map fun (before, after) => (c :: before, after)

/-- What stands before and after the last `sep`, if there is one. -/
def cutLast? (sep : CodePoint) (t : Text) : Option (Text × Text) :=
  (cutFirst? sep t.reverse).map fun (after, before) => (before.reverse, after.reverse)

/-- The text up to the first `sep`; all of it when there is none. -/
def before (sep : CodePoint) (t : Text) : Text := t.takeWhile (· ≠ sep)

/-- The pieces between the separators; always at least one. -/
def splitOn (sep : CodePoint) : Text → List Text
  | [] => [[]]
  | c :: rest =>
    if c = sep then [] :: splitOn sep rest
    else match splitOn sep rest with
      | [] => [[c]]
      | piece :: pieces => (c :: piece) :: pieces

/-- The pieces joined by a separator. -/
def join (sep : Text) (pieces : List Text) : Text := sep.intercalate pieces

/-- The words of a text: the longest runs on which `blank` does not hold. -/
def words (blank : CodePoint → Bool) (t : Text) : List Text :=
  go [] t
where
  go (word : Text) : Text → List Text
    | [] => if word.isEmpty then [] else [word.reverse]
    | c :: rest =>
      if blank c then
        if word.isEmpty then go [] rest else word.reverse :: go [] rest
      else go (c :: word) rest

/-! ### Known beginnings and ends -/

/-- The text after a known beginning. -/
def afterStart? : Text → Text → Option Text
  | [], t => some t
  | _ :: _, [] => none
  | a :: start, c :: t => if c = a then afterStart? start t else none

def startsWith (start t : Text) : Bool := (afterStart? start t).isSome

/-- The text before a known end. -/
def beforeEnd? (ending t : Text) : Option Text :=
  (afterStart? ending.reverse t.reverse).map List.reverse

def endsWith (ending t : Text) : Bool := (beforeEnd? ending t).isSome

/-! ### Digits -/

/-- The decimal digits of a number. -/
def ofNat (n : Nat) : Text := (Nat.toDigits 10 n).map CodePoint.ofChar

/-- The decimal digits of an integer, after `-` when it is negative. -/
def ofInt : Int → Text
  | .ofNat n => ofNat n
  | .negSucc n => ('-' : CodePoint) :: ofNat (n + 1)

/-- The lower-case hexadecimal digits of a number. -/
def hex (n : Nat) : Text := (Nat.toDigits 16 n).map CodePoint.ofChar

/-- Zeros in front until there are `width` code points. -/
def padZeros (width : Nat) (t : Text) : Text :=
  List.replicate (width - t.length) ('0' : CodePoint) ++ t

/-- The value of a run of decimal digits, most significant first. -/
def digitsValue (t : Text) : Nat := t.foldl (fun n c => 10 * n + (c.toNat - 0x30)) 0

/-- The value of hexadecimal digits, if all are. -/
def hexValue? (t : Text) : Option Nat :=
  t.foldlM (fun n c => c.hexValue?.map (16 * n + ·)) 0

/-! ### Order and ASCII case -/

/-- Order by code point, the shorter of two texts with a common beginning first. -/
def le : Text → Text → Bool
  | [], _ => true
  | _ :: _, [] => false
  | a :: s, b :: t => if a.toNat = b.toNat then le s t else a.toNat < b.toNat

def toAsciiLower (t : Text) : Text := t.map CodePoint.toAsciiLower

/-- The ASCII letters of a text in upper case. -/
def toAsciiUpper (t : Text) : Text :=
  t.map fun c => if c.isAsciiLower then CodePoint.ofNat (c.toNat - 32) else c

/-! ### Basic lemmas -/

@[simp] theorem afterStart?_append (start t : Text) : afterStart? start (start ++ t) = some t := by
  induction start with
  | nil => rfl
  | cons a start ih => simpa [afterStart?] using ih

theorem eq_append_of_afterStart? {start t rest : Text} (h : afterStart? start t = some rest) :
    t = start ++ rest := by
  induction start generalizing t with
  | nil => simpa [afterStart?] using h
  | cons a start ih =>
    cases t with
    | nil => simp [afterStart?] at h
    | cons c t =>
      by_cases hc : c = a
      · subst hc
        simp only [afterStart?, if_true] at h
        simp [ih h]
      · simp [afterStart?, hc] at h

theorem eq_append_of_cutFirst? {sep : CodePoint} {t before after : Text}
    (h : cutFirst? sep t = some (before, after)) :
    t = before ++ sep :: after ∧ sep ∉ before := by
  induction t generalizing before with
  | nil => simp [cutFirst?] at h
  | cons c t ih =>
    by_cases hc : c = sep
    · subst hc
      simp only [cutFirst?, if_true, Option.some.injEq, Prod.mk.injEq] at h
      obtain ⟨rfl, rfl⟩ := h
      simp
    · simp only [cutFirst?, hc, if_false, Option.map_eq_some_iff] at h
      obtain ⟨⟨b, a⟩, hba, heq⟩ := h
      simp only [Prod.mk.injEq] at heq
      obtain ⟨rfl, rfl⟩ := heq
      obtain ⟨h1, h2⟩ := ih hba
      refine ⟨by simp [h1], ?_⟩
      simp only [List.mem_cons, not_or]
      exact ⟨fun e => hc e.symm, h2⟩

variable {p : CodePoint → Bool}

/-- Trimming the end stops at a code point that stays. -/
theorem trimEnd_append_cons {c : CodePoint} (hc : p c = false) (front rest : Text) :
    trimEnd p (front ++ c :: rest) = front ++ c :: trimEnd p rest := by
  rw [trimEnd, List.reverse_append, List.reverse_cons, List.append_assoc, List.dropWhile_append]
  split
  · next hnil =>
    rw [trimEnd, List.isEmpty_iff.mp hnil, List.singleton_append,
      List.dropWhile_cons_of_neg (by simp [hc])]
    simp
  · simp [trimEnd]

theorem trimEnd_cons {c : CodePoint} (hc : p c = false) (t : Text) :
    trimEnd p (c :: t) = c :: trimEnd p t := trimEnd_append_cons hc [] t

/-- What is trimmed at the end stands behind what is left. -/
theorem exists_trimEnd_append (p : CodePoint → Bool) (t : Text) :
    ∃ blanks, t = trimEnd p t ++ blanks ∧ ∀ c ∈ blanks, p c = true := by
  refine ⟨(t.reverse.takeWhile p).reverse, ?_, ?_⟩
  · rw [trimEnd, ← List.reverse_append, List.takeWhile_append_dropWhile, List.reverse_reverse]
  · exact fun c hc => List.all_eq_true.mp List.all_takeWhile c (List.mem_reverse.mp hc)

theorem trimEnd_append_of_all {blanks : Text} (h : ∀ c ∈ blanks, p c = true) (t : Text) :
    trimEnd p (t ++ blanks) = trimEnd p t := by
  rw [trimEnd, List.reverse_append,
    List.dropWhile_append_of_pos fun c hc => h c (List.mem_reverse.mp hc), trimEnd]

end Text

end CompileGate
