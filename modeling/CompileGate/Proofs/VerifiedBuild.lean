/-
CompileGate/Proofs/VerifiedBuild.lean

The compiler that is loaded is the build that was asked for.

A build is written in four places, and each is read by a reader of its own.  Beside
each reader stands what it reads: a release (`IsRelease`), a build (`NamesBuild`), a
file of the release index (`NamesFile`).  A reader takes exactly what is written so
(`takeRelease?_eq_some_iff`, `takeBuild?_eq_some_iff`), which makes the readers agree:
the tag of a selected build and the tag in a file name can always be read back, so the
commit that a compiler reports is compared whenever a build is known.

Main result: `load_verified`.
-/
import CompileGate.Proofs.LoweredAddress
import CompileGate.Proofs.StageEffects
import CompileGate.Proofs.StatementGrammar
import Mathlib.Data.List.Forall2

namespace CompileGate

open Effect

/-! ### Forms of a known text -/

namespace Text

/-- The text is a form of these letters, in any case. -/
def IsForm (letters t : Text) : Prop :=
  List.Forall₂ (fun letter c => isFormOf letter c = true) letters t

variable {letters t rest : Text}

theorem afterCaseless?_eq_some_iff :
    afterCaseless? letters t = some rest ↔ ∃ front, IsForm letters front ∧ t = front ++ rest := by
  induction letters generalizing t with
  | nil =>
    constructor
    · intro h
      exact ⟨[], .nil, Option.some.inj h⟩
    · rintro ⟨_, ⟨⟩, rfl⟩
      rfl
  | cons letter letters ih =>
    constructor
    · intro h
      cases t with
      | nil => cases h
      | cons c t =>
        rw [afterCaseless?] at h
        split at h
        · next hc =>
          obtain ⟨front, hfront, rfl⟩ := ih.mp h
          exact ⟨c :: front, .cons hc hfront, rfl⟩
        · cases h
    · rintro ⟨_, hform, rfl⟩
      cases hform with
      | @cons _ c _ front hc hfront =>
        show (if isFormOf letter c = true then afterCaseless? letters (front ++ rest) else none) = _
        rw [if_pos hc]
        exact ih.mpr ⟨front, hfront, rfl⟩

theorem IsForm.exists_eq_cons {letter : CodePoint} (h : IsForm (letter :: letters) t) :
    ∃ c more, t = c :: more ∧ isFormOf letter c = true := by
  cases h with
  | @cons _ c _ more hc _ => exact ⟨c, more, rfl, hc⟩

/-- A text in lower case is a form of itself. -/
theorem isForm_self (h : ∀ c ∈ t, c.isAsciiUpper = false) : IsForm t t := by
  refine List.forall₂_same.mpr fun c hc => ?_
  simp [isFormOf, CodePoint.toAsciiLower, h c hc]

theorem afterStart?_eq_some_iff {start : Text} : afterStart? start t = some rest ↔ t = start ++ rest :=
  ⟨eq_append_of_afterStart?, fun h => h ▸ afterStart?_append start rest⟩

end Text

open Text (IsForm)

namespace CodePoint

/-- A form of a plus sign or of a `v` is no digit. -/
theorem isDigit_of_isFormOf {letter c : CodePoint} (hletter : letter = '+' ∨ letter = 'v')
    (h : Text.isFormOf letter c = true) : c.isDigit = false := by
  -- the two letters that have a form beyond ASCII are neither of these
  have hexceptions : letter ≠ 's' ∧ letter ≠ 'i' := by
    rcases hletter with rfl | rfl
    · decide
    · decide
  have hlower : c.toAsciiLower = letter := by
    simpa [Text.isFormOf, hexceptions] using h
  have hnumber : c.toNat = letter.toNat ∨ c.toNat + 32 = letter.toNat := by
    rw [← hlower, toAsciiLower]
    split
    · next hupper =>
      simp only [isAsciiUpper, Bool.and_eq_true, decide_eq_true_iff] at hupper
      rw [toNat_ofNat (by omega)]
      exact Or.inr rfl
    · exact Or.inl rfl
  -- so four code points are left, and each is looked up
  have hall : ∀ n ∈ [11, 43, 86, 118], (ofNat n).isDigit = false := by decide +kernel
  have hletters : letter.toNat = 43 ∨ letter.toNat = 118 := by
    rcases hletter with rfl | rfl
    · exact Or.inl rfl
    · exact Or.inr rfl
  have hmem : c.toNat ∈ [11, 43, 86, 118] := by
    simp only [List.mem_cons, List.not_mem_nil, or_false]
    omega
  rw [← ofNat_toNat c]
  exact hall _ hmem

end CodePoint

namespace Compiler

/-! ### Releases -/

/-- A run of digits. -/
def IsRun (t : Text) : Prop := t ≠ [] ∧ ∀ c ∈ t, c.isDigit = true

/-- Three runs of digits with points between them. -/
def IsRelease (t : Text) : Prop :=
  ∃ major minor patch, IsRun major ∧ IsRun minor ∧ IsRun patch
    ∧ t = major ++ "." ++ minor ++ "." ++ patch

variable {t rest release digits : Text}

theorem takeDigits?_eq_some_iff :
    takeDigits? t = some (digits, rest)
      ↔ t = digits ++ rest ∧ IsRun digits ∧ ∀ c ∈ rest.head?, c.isDigit = false := by
  unfold takeDigits?
  cases hspan : t.span CodePoint.isDigit with
  | mk run after =>
    obtain ⟨ht, hrun, hafter⟩ := span_eq_iff.mp hspan
    dsimp only
    constructor
    · intro h
      split at h
      · cases h
      · next hne =>
        obtain ⟨rfl, rfl⟩ := h
        exact ⟨ht, ⟨fun hnil => hne (List.isEmpty_iff.mpr hnil), hrun⟩, hafter⟩
    · -- a run is the longest one, because no digit follows it
      rintro ⟨rfl, ⟨hne, hdigits⟩, hrest⟩
      rw [span_eq_iff.mpr ⟨rfl, hdigits, hrest⟩] at hspan
      obtain ⟨rfl, rfl⟩ := hspan
      rw [if_neg fun h => hne (List.isEmpty_iff.mp h)]

theorem takeRelease?_eq_some_iff :
    takeRelease? t = some (release, rest)
      ↔ t = release ++ rest ∧ IsRelease release ∧ ∀ c ∈ rest.head?, c.isDigit = false := by
  simp only [takeRelease?, Option.bind_eq_bind, Option.bind_eq_some_iff, Prod.exists,
    takeDigits?_eq_some_iff, Text.afterStart?_eq_some_iff, Option.pure_def, Option.some.injEq,
    Prod.mk.injEq]
  constructor
  · rintro ⟨major, _, ⟨rfl, hmajor, -⟩, _, rfl, minor, _, ⟨rfl, hminor, -⟩, _, rfl, patch, _,
      ⟨rfl, hpatch, hrest⟩, rfl, rfl⟩
    exact ⟨by simp, ⟨major, minor, patch, hmajor, hminor, hpatch, rfl⟩, hrest⟩
  · rintro ⟨rfl, ⟨major, minor, patch, hmajor, hminor, hpatch, rfl⟩, hrest⟩
    -- a point ends each of the first two runs
    have hpoint : ∀ after : Text, ∀ c ∈ (("." : Text) ++ after).head?, c.isDigit = false := by
      rintro after _ ⟨⟩
      decide
    exact ⟨major, _, ⟨by simp, hmajor, hpoint _⟩, _, rfl, minor, _, ⟨rfl, hminor, hpoint _⟩, _, rfl,
      patch, rest, ⟨rfl, hpatch, hrest⟩, rfl, rfl⟩

/-! ### Builds -/

/-- The digits of a commit, in either case. -/
def IsCommit (t : Text) : Prop := t ≠ [] ∧ ∀ c ∈ t, isHex c = true

/-- The text is a release, `+commit.` in any case, and a commit. -/
def SpellsBuild (t : Text) (b : Build) : Prop :=
  ∃ plus, IsForm "+commit." plus ∧ t = b.release ++ plus ++ b.commit ∧ IsRelease b.release
    ∧ IsCommit b.commit

variable {b : Build}

theorem takeBuild?_eq_some_iff :
    takeBuild? t = some (b, rest)
      ↔ (∃ front, SpellsBuild front b ∧ t = front ++ rest) ∧ ∀ c ∈ rest.head?, isHex c = false := by
  simp only [takeBuild?, Option.bind_eq_bind, Option.bind_eq_some_iff, Prod.exists,
    takeRelease?_eq_some_iff, Text.afterCaseless?_eq_some_iff]
  constructor
  · rintro ⟨release, _, ⟨rfl, hrelease, -⟩, after, ⟨plus, hplus, rfl⟩, h⟩
    cases hspan : after.span isHex with
    | mk commit more =>
      obtain ⟨rfl, hcommit, hmore⟩ := span_eq_iff.mp hspan
      rw [hspan] at h
      dsimp only at h
      split at h
      · cases h
      · next hne =>
        obtain ⟨rfl, rfl⟩ := h
        refine ⟨⟨_, ⟨plus, hplus, rfl, hrelease, fun hnil => hne (List.isEmpty_iff.mpr hnil), hcommit⟩,
          by simp⟩, hmore⟩
  · rintro ⟨⟨_, ⟨plus, hplus, rfl, hrelease, hne, hcommit⟩, rfl⟩, hrest⟩
    refine ⟨b.release, plus ++ (b.commit ++ rest), ⟨by simp, hrelease, ?_⟩, b.commit ++ rest,
      ⟨plus, hplus, rfl⟩, ?_⟩
    · obtain ⟨c, more, rfl, hc⟩ := hplus.exists_eq_cons
      rintro _ ⟨⟩
      exact CodePoint.isDigit_of_isFormOf (.inl rfl) hc
    · rw [span_eq_iff.mpr ⟨rfl, hcommit, hrest⟩]
      dsimp only
      rw [if_neg fun h => hne (List.isEmpty_iff.mp h)]

/-! ### Selectors -/

/-- The end of a text, perhaps after one line feed. -/
def IsEnd (t : Text) : Prop := t = [] ∨ t = ("\n" : Text)

theorem atEnd_iff : atEnd t = true ↔ IsEnd t := by
  rw [atEnd, Bool.or_eq_true, List.isEmpty_iff, decide_eq_true_eq, IsEnd]

/-- The text names a release, perhaps after a `v`. -/
def NamesRelease (t release : Text) : Prop :=
  IsRelease release ∧ ∃ mark ending, (mark = [] ∨ mark = ("v" : Text)) ∧ IsEnd ending
    ∧ t = mark ++ release ++ ending

/-- The text names a build, perhaps after a `v` in either case. -/
def NamesBuild (t : Text) (b : Build) : Prop :=
  ∃ mark spelled ending, (mark = [] ∨ IsForm "v" mark) ∧ SpellsBuild spelled b ∧ IsEnd ending
    ∧ t = mark ++ spelled ++ ending

theorem IsEnd.isDigit (h : IsEnd t) : ∀ c ∈ t.head?, c.isDigit = false := by
  rcases h with rfl | rfl
  · rintro _ ⟨⟩
  · rintro _ ⟨⟩
    decide

theorem IsEnd.isHex (h : IsEnd t) : ∀ c ∈ t.head?, isHex c = false := by
  rcases h with rfl | rfl
  · rintro _ ⟨⟩
  · rintro _ ⟨⟩
    decide

theorem IsRelease.exists_eq_cons (h : IsRelease release) :
    ∃ c more, release = c :: more ∧ c.isDigit = true := by
  obtain ⟨major, minor, patch, ⟨hne, hdigits⟩, -, -, rfl⟩ := h
  obtain ⟨c, more, rfl⟩ := List.exists_cons_of_ne_nil hne
  exact ⟨c, _, rfl, hdigits c List.mem_cons_self⟩

theorem SpellsBuild.exists_eq_cons (h : SpellsBuild t b) :
    ∃ c more, t = c :: more ∧ c.isDigit = true := by
  obtain ⟨plus, -, rfl, hrelease, -⟩ := h
  obtain ⟨c, more, hcons, hc⟩ := hrelease.exists_eq_cons
  exact ⟨c, more ++ plus ++ b.commit, by rw [hcons]; rfl, hc⟩

/-- No digit is taken for a `v`. -/
theorem dropV_cons {c : CodePoint} (hc : c.isDigit = true) : dropV (c :: t) = c :: t := by
  have hne : c ≠ 'v' := by
    rintro rfl
    exact absurd hc (by decide)
  have hnone : Text.afterStart? "v" (c :: t) = none := if_neg hne
  rw [dropV, hnone]
  rfl

theorem dropAnyV_cons {c : CodePoint} (hc : c.isDigit = true) : dropAnyV (c :: t) = c :: t := by
  have hform : ¬ Text.isFormOf 'v' c = true := fun h => by
    rw [CodePoint.isDigit_of_isFormOf (.inr rfl) h] at hc
    cases hc
  have hnone : Text.afterCaseless? "v" (c :: t) = none := if_neg hform
  rw [dropAnyV, hnone]
  rfl

theorem readRelease?_eq_some_iff : readRelease? t = some release ↔ NamesRelease t release := by
  simp only [readRelease?, Option.bind_eq_bind, Option.bind_eq_some_iff, Prod.exists,
    takeRelease?_eq_some_iff]
  constructor
  · rintro ⟨r, ending, ⟨ht, hrelease, -⟩, h⟩
    split at h
    · next hend =>
      obtain rfl := Option.some.inj h
      refine ⟨hrelease, ?_⟩
      unfold dropV at ht
      cases hmark : Text.afterStart? "v" t with
      | none =>
        rw [hmark] at ht
        exact ⟨[], ending, Or.inl rfl, atEnd_iff.mp hend, ht⟩
      | some after =>
        rw [hmark] at ht
        obtain rfl : after = _ := ht
        exact ⟨"v", ending, Or.inr rfl, atEnd_iff.mp hend,
          (Text.afterStart?_eq_some_iff.mp hmark).trans (List.append_assoc _ _ _).symm⟩
    · cases h
  · -- without a `v` nothing is dropped, since a release begins with a digit
    rintro ⟨hrelease, mark, ending, hmark, hend, rfl⟩
    refine ⟨release, ending, ⟨?_, hrelease, hend.isDigit⟩, if_pos (atEnd_iff.mpr hend)⟩
    rcases hmark with rfl | rfl
    · obtain ⟨c, more, rfl, hc⟩ := hrelease.exists_eq_cons
      exact dropV_cons hc
    · rfl

/-- What is read is what is named, with its commit in lower case. -/
theorem readBuild?_eq_some_iff {b' : Build} : readBuild? t = some b'
    ↔ ∃ b, NamesBuild t b ∧ b' = { b with commit := Text.toAsciiLower b.commit } := by
  simp only [readBuild?, Option.bind_eq_bind, Option.bind_eq_some_iff, Prod.exists,
    takeBuild?_eq_some_iff]
  constructor
  · rintro ⟨b, ending, ⟨⟨spelled, hspelled, ht⟩, -⟩, h⟩
    split at h
    · next hend =>
      refine ⟨b, ?_, (Option.some.inj h).symm⟩
      unfold dropAnyV at ht
      cases hmark : Text.afterCaseless? "v" t with
      | none =>
        rw [hmark] at ht
        exact ⟨[], spelled, ending, Or.inl rfl, hspelled, atEnd_iff.mp hend, ht⟩
      | some after =>
        rw [hmark] at ht
        obtain rfl : after = _ := ht
        obtain ⟨mark, hform, rfl⟩ := Text.afterCaseless?_eq_some_iff.mp hmark
        exact ⟨mark, spelled, ending, Or.inr hform, hspelled, atEnd_iff.mp hend,
          (List.append_assoc _ _ _).symm⟩
    · cases h
  · rintro ⟨b, ⟨mark, spelled, ending, hmark, hspelled, hend, rfl⟩, rfl⟩
    refine ⟨b, ending, ⟨⟨spelled, hspelled, ?_⟩, hend.isHex⟩, if_pos (atEnd_iff.mpr hend)⟩
    rcases hmark with rfl | hform
    · obtain ⟨c, more, rfl, hc⟩ := hspelled.exists_eq_cons
      exact dropAnyV_cons hc
    · unfold dropAnyV
      rw [Text.afterCaseless?_eq_some_iff.mpr ⟨mark, hform, List.append_assoc _ _ _⟩]
      rfl

theorem NamesRelease.isFormOf_plus (h : NamesRelease t release) :
    ∀ c ∈ t, Text.isFormOf '+' c = false := by
  obtain ⟨⟨major, minor, patch, hmajor, hminor, hpatch, rfl⟩, mark, ending, hmark, hend, rfl⟩ := h
  have hrun : ∀ run, IsRun run → ∀ c ∈ run, Text.isFormOf '+' c = false := by
    intro run hrun c hc
    rw [← Bool.not_eq_true]
    intro hform
    have hdigit := hrun.2 c hc
    rw [CodePoint.isDigit_of_isFormOf (.inl rfl) hform] at hdigit
    cases hdigit
  have hdot : ∀ c ∈ ("." : Text), Text.isFormOf '+' c = false := by decide
  have hfront : ∀ c ∈ mark, Text.isFormOf '+' c = false := by
    rcases hmark with rfl | rfl
    · exact List.forall_mem_nil _
    · decide
  have hback : ∀ c ∈ ending, Text.isFormOf '+' c = false := by
    rcases hend with rfl | rfl
    · exact List.forall_mem_nil _
    · decide
  -- the parts one after the other
  simp only [List.forall_mem_append]
  exact ⟨⟨hfront, ⟨⟨⟨hrun _ hmajor, hdot⟩, hrun _ hminor⟩, hdot⟩, hrun _ hpatch⟩, hback⟩

/-- No text names a release and a build. -/
theorem not_namesBuild_of_namesRelease (h : NamesRelease t release) : ¬ NamesBuild t b := by
  rintro ⟨mark, _, ending, -, ⟨plus, hplus, rfl, -⟩, -, rfl⟩
  -- a build holds a plus sign and a release none
  obtain ⟨c, more, rfl, hc⟩ := hplus.exists_eq_cons
  exact Bool.false_ne_true ((h.isFormOf_plus c (by simp)).symm.trans hc)

/-- A selector that is there but names neither a release nor a build. -/
def Malformed (raw : Text) : Prop :=
  Text.strip raw ≠ [] ∧ (∀ release, ¬ NamesRelease (Text.strip raw) release)
    ∧ ∀ b, ¬ NamesBuild (Text.strip raw) b

variable {τ : Type} {raw defaultRelease : Text}

theorem read_of_namesRelease (h : NamesRelease (Text.strip raw) release) :
    Selector.read (τ := τ) (some raw) defaultRelease = .ok (.release release) := by
  have hne : (Text.strip raw).isEmpty = false := by
    obtain ⟨hrelease, mark, ending, -, -, ht⟩ := h
    obtain ⟨c, more, rfl, -⟩ := hrelease.exists_eq_cons
    rw [ht, List.isEmpty_eq_false_iff]
    simp
  simp only [Selector.read, hne, readRelease?_eq_some_iff.mpr h]
  rfl

theorem read_of_namesBuild (h : NamesBuild (Text.strip raw) b) :
    Selector.read (τ := τ) (some raw) defaultRelease
      = .ok (.build { b with commit := Text.toAsciiLower b.commit }) := by
  have hne : (Text.strip raw).isEmpty = false := by
    obtain ⟨mark, spelled, ending, -, hspelled, -, ht⟩ := h
    obtain ⟨c, more, rfl, -⟩ := hspelled.exists_eq_cons
    rw [ht, List.isEmpty_eq_false_iff]
    simp
  -- a release is tried first
  have hnone : readRelease? (Text.strip raw) = none := by
    rw [Option.eq_none_iff_forall_ne_some]
    exact fun release hread => not_namesBuild_of_namesRelease (readRelease?_eq_some_iff.mp hread) h
  simp only [Selector.read, hne, hnone, readBuild?_eq_some_iff.mpr ⟨b, h, rfl⟩]
  rfl

/-- A selected build was read as one. -/
theorem exists_readBuild?_of_read {selector : Option Text}
    (h : Selector.read (τ := τ) selector defaultRelease = .ok (.build b)) :
    ∃ t, readBuild? t = some b := by
  unfold Selector.read at h
  split at h
  · cases h
  · dsimp only at h
    split at h
    · cases h
    · split at h
      · cases h
      · split at h
        · next hread =>
          obtain ⟨rfl⟩ := h
          exact ⟨_, hread⟩
        · cases h

theorem read_of_malformed (h : Malformed raw) :
    Selector.read (τ := τ) (some raw) defaultRelease
      = .error (.unsupportedCompilerVersion raw "Unsupported compilerVersion format") := by
  obtain ⟨hne, hrelease, hbuild⟩ := h
  have hnoRelease : readRelease? (Text.strip raw) = none := by
    rw [Option.eq_none_iff_forall_ne_some]
    exact fun release hread => hrelease release (readRelease?_eq_some_iff.mp hread)
  have hnoBuild : readBuild? (Text.strip raw) = none := by
    rw [Option.eq_none_iff_forall_ne_some]
    intro b hread
    obtain ⟨b, hnames, -⟩ := readBuild?_eq_some_iff.mp hread
    exact hbuild b hnames
  simp only [Selector.read, List.isEmpty_eq_false_iff.mpr hne, hnoRelease, hnoBuild]
  rfl

/-! ### Tags -/

/-- The name of a file of the release index: the tag of a build between `soljson-` and `.js`, in any
case. -/
def NamesFile (file tag : Text) (b : Build) : Prop :=
  ∃ front mark spelled back ending, IsForm "soljson-" front ∧ IsForm "v" mark
    ∧ SpellsBuild spelled b ∧ IsForm ".js" back ∧ IsEnd ending ∧ tag = mark ++ spelled
    ∧ file = front ++ tag ++ back ++ ending

theorem exists_namesFile {file tag : Text} (h : tagOfFile? file = some tag) :
    ∃ b, NamesFile file tag b := by
  simp only [tagOfFile?, Option.bind_eq_bind, Option.bind_eq_some_iff, Prod.exists,
    Text.afterCaseless?_eq_some_iff, takeBuild?_eq_some_iff] at h
  obtain ⟨_, ⟨front, hfront, rfl⟩, _, ⟨mark, hmark, rfl⟩, b, _, ⟨⟨spelled, hspelled, rfl⟩, -⟩, ending,
    ⟨back, hback, rfl⟩, h⟩ := h
  split at h
  · next hend =>
    -- the tag is what is left of the build when what follows it is taken away
    have htag : (mark ++ (spelled ++ (back ++ ending))).take
        ((mark ++ (spelled ++ (back ++ ending))).length - (back ++ ending).length)
        = mark ++ spelled := by
      rw [← List.append_assoc, List.length_append, Nat.add_sub_cancel, List.take_left]
    rw [htag] at h
    obtain rfl := Option.some.inj h
    exact ⟨b, front, mark, spelled, back, ending, hfront, hmark, hspelled, hback,
      atEnd_iff.mp hend, rfl, by simp⟩
  · cases h

theorem isHex_iff {c : CodePoint} : isHex c = true ↔ 0x30 ≤ c.toNat ∧ c.toNat ≤ 0x39
    ∨ 0x61 ≤ c.toNat ∧ c.toNat ≤ 0x66 ∨ 0x41 ≤ c.toNat ∧ c.toNat ≤ 0x46 := by
  simp only [isHex, CodePoint.hexValue?, CodePoint.isAsciiDigit, Bool.and_eq_true,
    decide_eq_true_iff]
  split
  · next h => exact iff_of_true rfl (.inl h)
  · next h =>
    rw [or_iff_right h]
    split
    · next h => exact iff_of_true rfl (.inl h)
    · next h =>
      rw [or_iff_right h]
      split
      · next h => exact iff_of_true rfl h
      · next h => exact iff_of_false Bool.false_ne_true h

theorem isHex_toAsciiLower {c : CodePoint} (h : isHex c = true) : isHex c.toAsciiLower = true := by
  rw [isHex_iff] at h ⊢
  unfold CodePoint.toAsciiLower
  split
  · next hupper =>
    simp only [CodePoint.isAsciiUpper, Bool.and_eq_true, decide_eq_true_iff] at hupper
    rw [CodePoint.toNat_ofNat (by omega)]
    omega
  · exact h

/-- The tag of a selected build can be read back. -/
theorem readBuild?_tag (h : readBuild? t = some b) : readBuild? b.tag = some b := by
  obtain ⟨b, ⟨mark, _, ending, -, ⟨plus, -, rfl, hrelease, hne, hcommit⟩, -⟩, rfl⟩ :=
    readBuild?_eq_some_iff.mp h
  -- the tag is the build again, with its own `v` and a commit that lowering leaves alone
  refine readBuild?_eq_some_iff.mpr ⟨{ b with commit := Text.toAsciiLower b.commit },
    ⟨"v", _, [], Or.inr (Text.isForm_self (by decide)), ⟨"+commit.", Text.isForm_self (by decide),
      rfl, hrelease, ?_, ?_⟩, Or.inl rfl, ?_⟩, ?_⟩
  · exact fun hnil => hne (List.map_eq_nil_iff.mp hnil)
  · intro c hc
    obtain ⟨d, hd, rfl⟩ := List.mem_map.mp hc
    exact isHex_toAsciiLower (hcommit d hd)
  · simp [Build.tag]
  · rw [Text.toAsciiLower_toAsciiLower]

/-- So can the tag of a file. -/
theorem NamesFile.readBuild?_eq {file tag : Text} (h : NamesFile file tag b) :
    readBuild? tag = some { b with commit := Text.toAsciiLower b.commit } := by
  obtain ⟨front, mark, spelled, back, ending, -, hmark, hspelled, -, -, rfl, -⟩ := h
  exact readBuild?_eq_some_iff.mpr
    ⟨b, ⟨mark, spelled, [], Or.inr hmark, hspelled, Or.inl rfl, (List.append_nil _).symm⟩, rfl⟩

/-- A build that matches a tag which can be read has the commit of that tag. -/
theorem commit_of_matchesTag {banner : Banner} {tag : Text} (h : matchesTag banner tag = true)
    (htag : readBuild? tag = some b) : Text.toAsciiLower banner.build.commit = b.commit := by
  unfold matchesTag at h
  rw [htag] at h
  exact (of_decide_eq_true h).symm

/-! ### The release index -/

variable [Seconds τ] {config : Config τ} {deadline : Option τ} {w : World τ}

/-- The release index answers, and gives this file for the release. -/
def IndexGives (url : Text) (w : World τ) (release file : Text) : Prop :=
  ∃ timeout response v index v', World.request url timeout w = .ok (.ok response) v
    ∧ 200 ≤ response.status ∧ response.status < 300 ∧ readIndex url response v = .ok index v'
    ∧ releaseFile index release = .ok (.string file)

omit [Seconds τ] in
theorem exists_file_of_tagInIndex {index : Json} {tag : Text}
    (h : tagInIndex (τ := τ) index release = .ok tag) :
    ∃ file, releaseFile index release = .ok (.string file) ∧ tagOfFile? file = some tag := by
  unfold tagInIndex at h
  split at h
  · cases h
  · next hfile =>
    split at h
    · cases h
    · split at h
      · next name _ =>
        split at h
        · next htag =>
          obtain rfl := Except.ok.inj h
          exact ⟨name, hfile, htag⟩
        · cases h
      · cases h

theorem lookUpRelease_ensures (release url : Text) (timeout : τ) (w : World τ) :
    Ensures (lookUpRelease release url timeout) w
      (fun tag _ => ∃ file, IndexGives url w release file ∧ tagOfFile? file = some tag)
      fun _ _ => True := by
  rw [lookUpRelease, ensures_bind]
  refine Ensures.of_run (fun outcome v hrequest => ?_) fun _ _ _ => trivial
  cases outcome with
  | error f =>
    dsimp only
    split
    · exact trivial
    · exact trivial
  | ok response =>
    dsimp only
    split
    · next hstatus =>
      rw [ensures_bind]
      refine Ensures.of_run (fun index v' hindex => ?_) fun _ _ _ => trivial
      rw [ensures_lift]
      -- the tag comes from a file that the index gives
      refine ⟨fun tag htag => ?_, fun _ _ => trivial⟩
      obtain ⟨file, hfile, hread⟩ := exists_file_of_tagInIndex htag
      exact ⟨file, ⟨timeout, response, v, index, v', hrequest, hstatus.1, hstatus.2, hindex, hfile⟩,
        hread⟩
    · exact trivial

/-- The tag that a selector asks for can be read back. -/
theorem expectedTag_ensures (config : Config τ) (deadline : Option τ) (release : Text) (w : World τ) :
    Ensures (expectedTag (.release release) config deadline) w
      (fun tag _ => ∃ file t b, IndexGives config.releaseIndex w release file ∧ NamesFile file t b
        ∧ tag = some t) fun _ _ => True := by
  unfold expectedTag
  dsimp only
  rw [ensures_bind]
  refine (timeLeft_ensures config deadline w).mono ?_ fun _ _ _ => trivial
  rintro left _ ⟨rfl, -⟩
  rw [ensures_bind]
  refine (lookUpRelease_ensures _ _ _ _).mono ?_ fun _ _ _ => trivial
  rintro tag v ⟨file, hgives, htag⟩
  obtain ⟨b, hfile⟩ := exists_namesFile htag
  exact ⟨file, tag, b, hgives, hfile, rfl⟩

/-! ### Loading -/

theorem askVersion_ensures (binary : Text) (w : World τ) :
    Ensures (askVersion binary) w
      (fun banner _ => findBanner? w.tools.version.stdout = some banner) fun _ _ => True := by
  unfold askVersion
  rw [ensures_bind, ensures_get, ensures_bind]
  refine (runCommand_ensures _ _ _ _ w).mono ?_ fun _ _ _ => trivial
  rintro output v ⟨rfl, -⟩
  split
  · next banner hbanner => exact hbanner
  · exact trivial

/-- What is known of a load that returns. -/
theorem load_ensures (selector : Option Text) (config : Config τ) (deadline : Option τ)
    (w : World τ) :
    Ensures (load selector config deadline) w
      (fun compiler _ => ∃ sel tag v banner,
        Selector.read (τ := τ) selector config.defaultRelease = .ok sel
          ∧ expectedTag sel config deadline w = .ok tag v
          ∧ findBanner? w.tools.version.stdout = some banner ∧ compiler.version = banner.long
          ∧ ∀ t ∈ tag, matchesTag banner t = true)
      fun _ _ => True := by
  unfold load
  split
  · exact trivial
  next sel hsel =>
  rw [ensures_bind]
  refine Ensures.of_run (fun tag v htag => ?_) fun _ _ _ => trivial
  -- no step up to the report changes the tools
  have hv := (emits_expectedTag sel w).of_ok htag
  rw [ensures_bind]
  refine (timeLeft_ensures config deadline v).mono ?_ fun _ _ _ => trivial
  rintro _ v ⟨rfl, hin, -⟩
  have hinstalled : Emits (Stage.Does config deadline .loadCompiler)
      (ensureInstalled sel.releaseOf) v := emits_ensureInstalled hin
  rw [ensures_bind]
  refine hinstalled.mono (fun binary u hu => ?_) fun _ _ _ => trivial
  rw [ensures_bind]
  refine (timeLeft_ensures config deadline u).mono ?_ fun _ _ _ => trivial
  rintro _ _ ⟨rfl, -⟩
  rw [ensures_bind]
  refine (askVersion_ensures binary _).mono (fun banner u' hbanner => ?_) fun _ _ _ => trivial
  -- so the report is the one that the world began with
  rw [hu.tools_eq, hv.tools_eq] at hbanner
  split
  · exact trivial
  · next hmatches =>
    rw [ensures_bind]
    refine ⟨sel, tag, v, banner, hsel, htag, hbanner, rfl, fun t ht => ?_⟩
    rw [Option.mem_def.mp ht, Option.any_some, Bool.not_eq_true', Bool.not_eq_false] at hmatches
    exact hmatches

/-- Between the two worlds nothing happened but requests of the release index: nothing was installed
and no process was started. -/
def OnlyAsked (url : Text) (w v : World τ) : Prop :=
  w.Extends (fun x => ∃ timeout, x.2 = .requested url timeout) v

/-- A look-up that fails is the end of the load. -/
theorem load_of_expectedTag_error {selector : Option Text} {e : Failure τ} {v : World τ}
    (hsel : Selector.read (τ := τ) selector config.defaultRelease = .ok (.release release))
    (h : expectedTag (.release release) config deadline w = .error e v) :
    load selector config deadline w = .error e v ∧ OnlyAsked config.releaseIndex w v := by
  constructor
  · unfold load
    rw [hsel]
    exact bind_of_error h
  · have hemits : Emits (fun x => ∃ timeout, x.2 = .requested config.releaseIndex timeout)
        (expectedTag (.release release) config deadline) w := by
      unfold expectedTag
      exact emits_timeLeft_bind fun _ => (emits_lookUpRelease ⟨_, rfl⟩).bind fun _ _ _ => .pure _
    exact hemits.of_error h

/-- Every tag that is known can be read back. -/
theorem exists_readBuild?_of_expectedTag {selector : Option Text} {sel : Selector} {tag : Text}
    {v : World τ} (hsel : Selector.read (τ := τ) selector config.defaultRelease = .ok sel)
    (h : expectedTag sel config deadline w = .ok (some tag) v) : ∃ b, readBuild? tag = some b := by
  cases sel with
  | default release => cases h
  | build b =>
    obtain ⟨rfl, rfl⟩ := h
    obtain ⟨t, hread⟩ := exists_readBuild?_of_read hsel
    exact ⟨b, readBuild?_tag hread⟩
  | release release =>
    obtain ⟨file, t, b, -, hfile, ht⟩ := (expectedTag_ensures config deadline release w).of_ok h
    obtain rfl := Option.some.inj ht
    exact ⟨_, hfile.readBuild?_eq⟩

/-- **A compiler that is loaded is the build that was asked for.**  If it was asked for by a build,
the commit that it reports is that of the build, and if by a release, that of the file which the
index gives for the release, up to case; the tag to compare with can always be read.  A malformed
selector fails in the world as it was, and a look-up that fails is the end. -/
theorem load_verified (selector : Option Text) (config : Config τ) (deadline : Option τ)
    (w : World τ) :
    (∀ compiler v, load selector config deadline w = .ok compiler v →
        ∃ banner, findBanner? w.tools.version.stdout = some banner ∧ compiler.version = banner.long
          ∧ (∀ raw b, selector = some raw → NamesBuild (Text.strip raw) b →
            Text.toAsciiLower banner.build.commit = Text.toAsciiLower b.commit)
          ∧ ∀ raw release, selector = some raw → NamesRelease (Text.strip raw) release →
            ∃ file tag b, IndexGives config.releaseIndex w release file ∧ NamesFile file tag b
              ∧ Text.toAsciiLower banner.build.commit = Text.toAsciiLower b.commit)
      ∧ (∀ sel tag v, Selector.read (τ := τ) selector config.defaultRelease = .ok sel →
        expectedTag sel config deadline w = .ok (some tag) v → ∃ b, readBuild? tag = some b)
      ∧ (∀ raw, selector = some raw → Malformed raw → load selector config deadline w
        = .error (.gateway (.unsupportedCompilerVersion raw "Unsupported compilerVersion format")) w)
      ∧ ∀ raw release e v, selector = some raw → NamesRelease (Text.strip raw) release →
        expectedTag (.release release) config deadline w = .error e v →
        load selector config deadline w = .error e v ∧ OnlyAsked config.releaseIndex w v := by
  refine ⟨fun compiler v hload => ?_, fun _ _ _ => exists_readBuild?_of_expectedTag, ?_, ?_⟩
  · obtain ⟨sel, tag, u, banner, hsel, htag, hbanner, hversion, hmatches⟩ :=
      (load_ensures selector config deadline w).of_ok hload
    refine ⟨banner, hbanner, hversion, ?_, ?_⟩
    · -- a build is compared with itself, read back from its tag
      rintro raw b rfl hnames
      rw [read_of_namesBuild hnames] at hsel
      obtain rfl := Except.ok.inj hsel
      obtain ⟨rfl, -⟩ := htag
      exact commit_of_matchesTag (hmatches _ rfl)
        (readBuild?_tag (readBuild?_eq_some_iff.mpr ⟨b, hnames, rfl⟩))
    · -- a release is compared with the tag in the name of its file
      rintro raw release rfl hnames
      rw [read_of_namesRelease hnames] at hsel
      obtain rfl := Except.ok.inj hsel
      obtain ⟨file, t, b, hgives, hfile, rfl⟩ :=
        (expectedTag_ensures config deadline release w).of_ok htag
      exact ⟨file, t, b, hgives, hfile, commit_of_matchesTag (hmatches t rfl) hfile.readBuild?_eq⟩
  · -- nothing runs before the selector is read
    rintro raw rfl hmalformed
    unfold load
    rw [read_of_malformed hmalformed]
    rfl
  · rintro raw release e v rfl hnames herror
    exact load_of_expectedTag_error (read_of_namesRelease hnames) herror

/-- A release index with one file, and a compiler that reports the build of it in lower case. -/
def listWorld : World Int where
  now := 0
  routes := [((Config.builtin : Config Int).releaseIndex, [⟨0, .ok ⟨200, none, [], .whole
    (("\x7b\"releases\":\x7b\"0.8.26\":\"soljson-v0.8.26+commit.8A97FA7A.js\"\x7d\x7d" : Text).flatMap
      Utf8.encodePoint)⟩⟩])]
  tools := { Toolchain.idle with
    installed := ["0.8.26"]
    executable release := "/solc/solc-v" ++ release
    version := ⟨"Version: 0.8.26+commit.8a97fa7a.Linux.g++", [], 0, 0, false, none⟩ }
  room := .usual
  breakdown := none
  trace := []

/-- The compiler that a load returns. -/
def loaded? (selector : Text) (w : World Int) : Option Installed :=
  match load (some selector) Config.builtin none w with
  | .ok compiler _ => some compiler
  | .error _ _ => none

/-- The listed build is loaded by its release. -/
theorem listed_build_verified :
    loaded? "v0.8.26" listWorld
        = some ⟨"/solc/solc-v0.8.26", "0.8.26+commit.8a97fa7a.Linux.g++"⟩
      ∧ ∃ banner file tag b, findBanner? listWorld.tools.version.stdout = some banner
        ∧ IndexGives (Config.builtin : Config Int).releaseIndex listWorld "0.8.26" file
        ∧ NamesFile file tag b
        ∧ Text.toAsciiLower banner.build.commit = Text.toAsciiLower b.commit := by
  have hload : loaded? "v0.8.26" listWorld
      = some ⟨"/solc/solc-v0.8.26", "0.8.26+commit.8a97fa7a.Linux.g++"⟩ := by decide +kernel
  refine ⟨hload, ?_⟩
  have hnames : NamesRelease (Text.strip "v0.8.26") "0.8.26" :=
    readRelease?_eq_some_iff.mp (by decide +kernel)
  -- the run that `hload` has computed is the one that the theorem speaks of
  unfold loaded? at hload
  split at hload
  · next compiler v hrun =>
    obtain ⟨banner, hbanner, -, -, hrelease⟩ :=
      (load_verified (some "v0.8.26") Config.builtin none listWorld).1 compiler v hrun
    obtain ⟨file, tag, b, hgives, hfile, hcommit⟩ := hrelease _ _ rfl hnames
    exact ⟨banner, file, tag, b, hbanner, hgives, hfile, hcommit⟩
  · cases hload

end Compiler

end CompileGate
