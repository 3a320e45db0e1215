/-
CompileGate/Proofs/UrlParts.lean

Taking apart what was put together.

The parts of a text are `Readable`: each holds none of the marks that would end it
when the text is read from the front.  Readable parts with an authority come back
from the text that they make up, but for the slash at the front of a path, which
is added where it is missing (`split_unsplit`).  Whether that text has parts at all
depends on nothing but its authority (`Accepted`).
-/
import CompileGate.Proofs.PathSegments

namespace CompileGate
namespace Url

/-! ### Cleaning -/

theorem clean_eq_self {t : Text} (h : ∀ c ∈ t, Kept c) (hfront : ∀ c ∈ t.head?, 0x20 < c.toNat) :
    clean t = t := by
  have hdrop : t.dropWhile (fun c => c.toNat ≤ 0x20) = t := by
    cases t with
    | nil => rfl
    | cons c t =>
      have hc : ¬ (decide (c.toNat ≤ 0x20)) = true := by
        rw [decide_eq_true_iff]
        exact Nat.not_le.mpr (hfront c rfl)
      rw [List.dropWhile_cons, if_neg hc]
  rw [clean, hdrop, List.filter_eq_self]
  intro c hc
  obtain ⟨htab, hreturn, hfeed⟩ := h c hc
  simp [htab, hreturn, hfeed]

/-! ### The checks of an authority -/

/-- An authority that may stand in a URL. -/
def Accepted (authority : Text) : Prop :=
  checkBrackets authority = .ok () ∧ checkHidden authority = .ok ()

/-- A value, if an authority may stand in a URL. -/
def checked {α : Type} (authority : Text) (a : α) : Except Defect α := do
  checkBrackets authority
  checkHidden authority
  return a

theorem checked_of_accepted {α : Type} {authority : Text} (h : Accepted authority) (a : α) :
    checked authority a = .ok a := by
  rw [checked, h.1, h.2]
  rfl

theorem checked_eq_ok_iff {α : Type} {authority : Text} {a b : α} :
    checked authority a = .ok b ↔ Accepted authority ∧ b = a := by
  constructor
  · intro h
    unfold checked at h
    cases hbrackets : checkBrackets authority with
    | error defect =>
      rw [hbrackets] at h
      cases h
    | ok _ =>
      cases hhidden : checkHidden authority with
      | error defect =>
        rw [hbrackets, hhidden] at h
        cases h
      | ok _ =>
        rw [hbrackets, hhidden] at h
        exact ⟨⟨hbrackets, hhidden⟩, (Except.ok.inj h).symm⟩
  · rintro ⟨h, rfl⟩
    exact checked_of_accepted h b

/-- What is done with a checked value can be done before the check. -/
theorem checked_bind {α β : Type} {authority : Text} {a : α} {b : β} {f : α → Except Defect β}
    (h : f a = .ok b) : (checked authority a >>= f) = checked authority b := by
  unfold checked
  cases checkBrackets authority with
  | error defect => rfl
  | ok _ =>
    cases checkHidden authority with
    | error defect => rfl
    | ok _ => exact h

theorem accepted_nil : Accepted [] := ⟨rfl, rfl⟩

/-! ### Readable parts -/

/-- A scheme as `takeScheme?` gives it. -/
structure IsScheme (scheme : Text) : Prop where
  letter : ∀ c ∈ scheme.head?, c.isAsciiLetter = true
  points : ∀ c ∈ scheme, isSchemePoint c = true
  lower : Text.toAsciiLower scheme = scheme
  ne_nil : scheme ≠ []

/-- Parts none of which holds a mark that would end it. -/
structure Readable (url : Url) : Prop where
  scheme : url.scheme = [] ∨ IsScheme url.scheme
  authority : ∀ c ∈ url.authority, endsAuthority c = false
  path : ∀ c ∈ url.path, c ≠ '?' ∧ c ≠ '#'
  query : ∀ c ∈ url.query, c ≠ '#'
  kept : url.Within Kept

/-- Letters are lowered to letters. -/
theorem isAsciiLetter_toAsciiLower {c : CodePoint} (h : c.isAsciiLetter = true) :
    c.toAsciiLower.isAsciiLetter = true := by
  unfold CodePoint.toAsciiLower
  by_cases hupper : c.isAsciiUpper = true
  · rw [if_pos hupper, CodePoint.isAsciiLetter, Bool.or_eq_true]
    right
    simp only [CodePoint.isAsciiUpper, Bool.and_eq_true, decide_eq_true_iff] at hupper
    rw [CodePoint.isAsciiLower, CodePoint.toNat_ofNat (by omega), Bool.and_eq_true,
      decide_eq_true_iff, decide_eq_true_iff]
    omega
  · rw [if_neg hupper]
    exact h

/-- No letter is cut off the front of a text as a blank. -/
theorem lt_toNat_of_isAsciiLetter {c : CodePoint} (h : c.isAsciiLetter = true) :
    0x20 < c.toNat := by
  simp only [CodePoint.isAsciiLetter, CodePoint.isAsciiUpper, CodePoint.isAsciiLower,
    Bool.or_eq_true, Bool.and_eq_true, decide_eq_true_iff] at h
  omega

/-- A scheme in lower case is a scheme. -/
theorem isSchemePoint_toAsciiLower {c : CodePoint} (h : isSchemePoint c = true) :
    isSchemePoint c.toAsciiLower = true := by
  by_cases hletter : c.isAsciiLetter = true
  · simp [isSchemePoint, isAsciiLetter_toAsciiLower hletter]
  · have hupper : ¬ c.isAsciiUpper = true := by
      intro hupper
      exact hletter (by rw [CodePoint.isAsciiLetter, hupper]; rfl)
    rw [CodePoint.toAsciiLower, if_neg hupper]
    exact h

/-- What is taken for a scheme is one. -/
theorem isScheme_of_takeScheme? {t scheme rest : Text} (h : takeScheme? t = some (scheme, rest)) :
    IsScheme scheme := by
  obtain ⟨c, more, -, rfl, hletter, hpoints⟩ := takeScheme?_eq_some h
  refine ⟨?_, ?_, Text.toAsciiLower_toAsciiLower _, by simp [Text.toAsciiLower]⟩
  · intro d hd
    obtain rfl : c.toAsciiLower = d := Option.some.inj hd
    exact isAsciiLetter_toAsciiLower hletter
  · intro d hd
    obtain ⟨e, he, rfl⟩ := List.mem_map.mp hd
    exact isSchemePoint_toAsciiLower (hpoints e he)

theorem cutAt_append {mark : CodePoint} {before : Text} (h : mark ∉ before) (after : Text) :
    cutAt mark (before ++ mark :: after) = (before, after) := by
  rw [cutAt, Text.cutFirst?_append h]
  rfl

/-- Without the mark all of the text comes before it. -/
theorem cutAt_of_not_mem {mark : CodePoint} {t : Text} (h : mark ∉ t) : cutAt mark t = (t, []) := by
  rw [cutAt, Text.cutFirst?_eq_none_iff.mpr h]
  rfl

theorem cutAt_cons {mark c : CodePoint} (h : c ≠ mark) (t : Text) :
    cutAt mark (c :: t) = (c :: (cutAt mark t).1, (cutAt mark t).2) := by
  rw [cutAt, cutAt, Text.cutFirst?, if_neg h]
  cases Text.cutFirst? mark t with
  | none => rfl
  | some parts => rfl

theorem not_mem_cutAt (mark : CodePoint) (t : Text) : mark ∉ (cutAt mark t).1 := by
  unfold cutAt
  cases h : Text.cutFirst? mark t with
  | none => exact Text.cutFirst?_eq_none_iff.mp h
  | some parts => exact (Text.eq_append_of_cutFirst? h).2

/-- The parts of a text are readable. -/
theorem readable_of_split {t : Text} {url : Url} (h : split t = .ok url) : url.Readable := by
  have hkept : url.Within Kept :=
    closed_kept.within h (by simp) fun c hc => (mem_of_mem_clean hc).2
  obtain ⟨rest, hfront, hauthority, hpath, hquery, -⟩ := splitWith_eq_ok h
  -- each part ends before the mark that would end it
  refine ⟨?_, ?_, ?_, ?_, hkept⟩
  · cases hscheme : takeScheme? (clean t) with
    | none =>
      rw [hscheme] at hfront
      exact Or.inl (Prod.mk.inj hfront).1.symm
    | some parts =>
      obtain ⟨scheme, rest'⟩ := parts
      rw [hscheme] at hfront
      rw [← (Prod.mk.inj hfront).1]
      exact Or.inr (isScheme_of_takeScheme? hscheme)
  · intro c hc
    rw [hauthority, takeAuthority] at hc
    cases hstart : Text.afterStart? "//" rest with
    | none =>
      rw [hstart] at hc
      cases hc
    | some more =>
      rw [hstart] at hc
      have hc' := (span_spec (fun c => !endsAuthority c) more).2 c hc
      rw [Bool.not_eq_true'] at hc'
      exact hc'
  · intro c hc
    rw [hpath] at hc
    refine ⟨?_, ?_⟩
    · rintro rfl
      exact not_mem_cutAt _ _ hc
    · rintro rfl
      exact not_mem_cutAt _ _ (mem_of_cutAt.1 hc)
  · intro c hc
    rw [hquery] at hc
    rintro rfl
    exact not_mem_cutAt _ _ (mem_of_cutAt.2 hc)

/-- Behind an authority, a path is empty or starts with a slash. -/
theorem path_of_split {t : Text} {url : Url} (h : split t = .ok url) (hne : url.authority ≠ []) :
    url.path = [] ∨ ∃ path, url.path = ('/' : CodePoint) :: path := by
  obtain ⟨rest, -, hauthority, hpath, -, -⟩ := splitWith_eq_ok h
  rw [hauthority, takeAuthority] at hne
  rw [takeAuthority] at hpath
  cases hstart : Text.afterStart? "//" rest with
  | none =>
    rw [hstart] at hne
    exact absurd rfl hne
  | some more =>
    rw [hstart] at hpath
    dsimp only at hpath
    obtain ⟨run, tail, hspan⟩ : ∃ run tail, more.span (fun c => !endsAuthority c) = (run, tail) :=
      ⟨_, _, rfl⟩
    obtain ⟨-, -, htail⟩ := span_eq_iff.mp hspan
    rw [hspan] at hpath
    dsimp only at hpath
    cases tail with
    | nil => exact Or.inl hpath
    | cons c tail =>
      have hc : endsAuthority c = true := by simpa using htail c rfl
      simp only [endsAuthority, Bool.or_eq_true, decide_eq_true_iff] at hc
      -- the path begins with the mark that ended the authority, unless that is one of the other two
      rcases hc with (rfl | rfl) | rfl
      · rw [cutAt_cons (by decide), cutAt_cons (by decide)] at hpath
        exact Or.inr ⟨_, hpath⟩
      · rw [cutAt_cons (by decide)] at hpath
        exact Or.inl (hpath.trans (congrArg Prod.fst (cutAt_append List.not_mem_nil _)))
      · rw [hpath, show cutAt '#' (('#' : CodePoint) :: tail) = ([], tail) from
          cutAt_append List.not_mem_nil tail]
        exact Or.inl rfl

/-! ### Putting together and taking apart -/

/-- A path with a slash at its front. -/
def rooted (path : Text) : Text :=
  if !path.isEmpty && !Text.startsWith "/" path then ('/' : CodePoint) :: path else path

/-- A part behind its mark; an empty part leaves no mark. -/
def marked (mark : CodePoint) (part : Text) : Text := if part.isEmpty then [] else mark :: part

/-- A part behind its mark comes off there, and one that is empty leaves no mark. -/
theorem cutAt_marked {mark : CodePoint} {t : Text} (h : mark ∉ t) (part : Text) :
    cutAt mark (t ++ marked mark part) = (t, part) := by
  cases part with
  | nil =>
    rw [show marked mark [] = [] from rfl, List.append_nil]
    exact cutAt_of_not_mem h
  | cons c part => exact cutAt_append h (c :: part)

theorem mem_marked {mark c : CodePoint} {part : Text} (h : c ∈ marked mark part) :
    c = mark ∨ c ∈ part := by
  unfold marked at h
  split at h
  · cases h
  · exact List.mem_cons.mp h

/-- With an authority the text has `//` and a path that begins with a slash. -/
theorem unsplit_of_authority (url : Url) (h : url.authority ≠ []) :
    unsplit url = (if url.scheme.isEmpty then [] else url.scheme ++ (":" : Text))
      ++ ("//" ++ (url.authority ++ (rooted url.path ++ marked '?' url.query
        ++ marked '#' url.fragment))) := by
  have hne : (!url.authority.isEmpty) = true := by
    rw [Bool.not_eq_true', List.isEmpty_eq_false_iff]
    exact h
  unfold unsplit rooted marked
  rw [hne, Bool.true_or]
  simp

/-- Without an authority, `//` stands before the path of a scheme that has one, unless the path
begins with it. -/
theorem unsplit_of_no_authority {scheme path query : Text} (hscheme : scheme ≠ []) :
    unsplit ⟨scheme, [], path, query, []⟩ = scheme ++ (':' : CodePoint) ::
      ((if authoritySchemes.contains scheme && !Text.startsWith "//" path
        then "//" ++ rooted path else path) ++ marked '?' query) := by
  have hne : (!scheme.isEmpty) = true := by
    rw [Bool.not_eq_true', List.isEmpty_eq_false_iff]
    exact hscheme
  have hempty : ¬ scheme.isEmpty = true := mt List.isEmpty_iff.mp hscheme
  unfold unsplit rooted marked
  rw [if_neg hempty, hne]
  simp only [List.isEmpty_nil, Bool.not_true, Bool.false_or, Bool.true_and, if_true,
    List.append_nil, List.append_assoc]
  rfl

/-- A slash starts no scheme. -/
theorem takeScheme?_slash (t : Text) : takeScheme? (('/' : CodePoint) :: t) = none := by
  cases h : takeScheme? (('/' : CodePoint) :: t) with
  | none => rfl
  | some parts =>
    obtain ⟨scheme, rest⟩ := parts
    obtain ⟨c, more, heq, -, hletter, -⟩ := takeScheme?_eq_some h
    rw [← (List.cons.inj heq).1] at hletter
    exact absurd hletter (by decide)

/-- What stands before the first colon is taken for the scheme, if it is one. -/
theorem takeScheme?_append {scheme : Text} (h : IsScheme scheme) (rest : Text) :
    takeScheme? (scheme ++ (':' : CodePoint) :: rest) = some (scheme, rest) := by
  have hcolon : (':' : CodePoint) ∉ scheme := fun hmem =>
    absurd (h.points _ hmem) (by decide)
  unfold takeScheme?
  rw [Text.cutFirst?_append hcolon]
  cases hs : scheme with
  | nil => exact absurd hs h.ne_nil
  | cons c more =>
    have hletter := h.letter
    have hpoints := h.points
    have hlower := h.lower
    rw [hs] at hletter hpoints hlower
    dsimp only
    rw [hletter c rfl, List.all_eq_true.mpr fun d hd => hpoints d (List.mem_cons_of_mem _ hd),
      hlower]
    rfl

/-- A scheme is read from the front of the text that it was put before. -/
theorem front_of_scheme {scheme rest : Text} (h : IsScheme scheme)
    (hkept : ∀ c ∈ scheme ++ (':' : CodePoint) :: rest, Kept c) :
    takeScheme? (clean (scheme ++ (':' : CodePoint) :: rest)) = some (scheme, rest) := by
  rw [clean_eq_self hkept, takeScheme?_append h]
  intro c hc
  obtain ⟨d, more, hd⟩ := List.exists_cons_of_ne_nil h.ne_nil
  rw [hd] at hc
  obtain rfl : d = c := Option.some.inj hc
  exact lt_toNat_of_isAsciiLetter (h.letter d (by rw [hd]; rfl))

/-- The slash at the front of a path, if it is not empty. -/
theorem rooted_eq_or (path : Text) :
    rooted path = path ∨ rooted path = ('/' : CodePoint) :: path := by
  unfold rooted
  split
  · exact Or.inr rfl
  · exact Or.inl rfl

/-- A slash is all that is put before a path. -/
theorem forall_mem_rooted {p : CodePoint → Prop} (hslash : p '/') {path : Text}
    (h : ∀ c ∈ path, p c) : ∀ c ∈ rooted path, p c := by
  rcases rooted_eq_or path with e | e
  · rw [e]
    exact h
  · rw [e]
    exact List.forall_mem_cons.mpr ⟨hslash, h⟩

/-- After that a path is empty or begins with a slash. -/
theorem rooted_eq_nil_or (path : Text) :
    rooted path = [] ∨ ∃ more, rooted path = ('/' : CodePoint) :: more := by
  cases path with
  | nil => exact Or.inl rfl
  | cons c path =>
    right
    rw [rooted]
    split
    · exact ⟨_, rfl⟩
    · next hc =>
      rw [List.isEmpty_cons, Bool.not_false, Bool.true_and, Bool.not_eq_true', Bool.not_eq_false,
        Text.startsWith, Option.isSome_iff_exists] at hc
      obtain ⟨more, hmore⟩ := hc
      exact ⟨more, Text.eq_append_of_afterStart? hmore⟩

/-- The front of two texts is that of the first, or of the second behind an empty one. -/
theorem forall_head?_append {p : CodePoint → Prop} {t more : Text} (ht : ∀ c ∈ t.head?, p c)
    (hmore : ∀ c ∈ more.head?, p c) : ∀ c ∈ (t ++ more).head?, p c := by
  cases t with
  | nil => exact hmore
  | cons c t => exact ht

/-- What stands behind an authority begins with a mark that ends it. -/
theorem endsAuthority_rooted (path : Text) : ∀ c ∈ (rooted path).head?, endsAuthority c = true := by
  intro c hc
  rcases rooted_eq_nil_or path with hnil | ⟨more, hmore⟩
  · rw [hnil] at hc
    cases hc
  · rw [hmore] at hc
    obtain rfl : ('/' : CodePoint) = c := Option.some.inj hc
    rfl

/-- A part begins with its mark or is empty. -/
theorem endsAuthority_marked {mark : CodePoint} (hmark : endsAuthority mark = true) (part : Text) :
    ∀ c ∈ (marked mark part).head?, endsAuthority c = true := by
  intro c hc
  unfold marked at hc
  split at hc
  · cases hc
  · obtain rfl : mark = c := Option.some.inj hc
    exact hmark

/-- An authority is taken back from what it was put before, if a mark follows it. -/
theorem takeAuthority_append {authority rest : Text}
    (hauthority : ∀ c ∈ authority, endsAuthority c = false)
    (hrest : ∀ c ∈ rest.head?, endsAuthority c = true) :
    takeAuthority ("//" ++ (authority ++ rest)) = (authority, rest) := by
  rw [takeAuthority, Text.afterStart?_append]
  exact span_eq_iff.mpr ⟨rfl, fun c hc => by rw [hauthority c hc]; rfl,
    fun c hc => by rw [hrest c hc]; rfl⟩

/-- Readable parts come back from the text that they make up. -/
theorem split_unsplit {url : Url} (h : url.Readable) (hne : url.authority ≠ []) :
    split (unsplit url) = checked url.authority { url with path := rooted url.path } := by
  obtain ⟨tail, htail⟩ : ∃ tail,
      rooted url.path ++ marked '?' url.query ++ marked '#' url.fragment = tail := ⟨_, rfl⟩
  have hunsplit := unsplit_of_authority url hne
  rw [htail] at hunsplit
  have hpath : ∀ c ∈ rooted url.path, c ≠ '?' ∧ c ≠ '#' := forall_mem_rooted (by decide) h.path
  -- the marks are found where they were put, from the last one to the first
  have hcutQuery : cutAt '?' (rooted url.path ++ marked '?' url.query)
      = (rooted url.path, url.query) :=
    cutAt_marked (fun hmem => (hpath _ hmem).1 rfl) url.query
  have hcutFragment : cutAt '#' tail = (rooted url.path ++ marked '?' url.query, url.fragment) := by
    rw [← htail]
    refine cutAt_marked (fun hmem => ?_) url.fragment
    rcases List.mem_append.mp hmem with hmem | hmem
    · exact (hpath _ hmem).2 rfl
    · rcases mem_marked hmem with e | hmem
      · exact absurd e (by decide)
      · exact h.query _ hmem rfl
  have htake : takeAuthority ("//" ++ (url.authority ++ tail)) = (url.authority, tail) := by
    rw [← htail, List.append_assoc]
    exact takeAuthority_append h.authority (forall_head?_append (endsAuthority_rooted url.path)
      (forall_head?_append (endsAuthority_marked rfl _) (endsAuthority_marked rfl _)))
  have hscheme : (takeScheme? (unsplit url)).getD ([], unsplit url)
      = (url.scheme, "//" ++ (url.authority ++ tail)) := by
    rw [hunsplit]
    rcases h.scheme with hnil | hscheme
    · rw [hnil]
      show (takeScheme? (('/' : CodePoint) :: ('/' : CodePoint) :: _)).getD _ = _
      rw [takeScheme?_slash]
      rfl
    · rw [if_neg (mt List.isEmpty_iff.mp hscheme.ne_nil), List.append_assoc]
      show (takeScheme? (url.scheme ++ (':' : CodePoint) :: _)).getD _ = _
      rw [takeScheme?_append hscheme]
      rfl
  have hclean : clean (unsplit url) = unsplit url := by
    apply clean_eq_self (closed_kept.of_unsplit h.kept)
    intro c hc
    rw [hunsplit] at hc
    rcases h.scheme with hnil | hscheme
    · rw [hnil] at hc
      obtain rfl : ('/' : CodePoint) = c := Option.some.inj hc
      decide
    · obtain ⟨d, more, hd⟩ := List.exists_cons_of_ne_nil hscheme.ne_nil
      rw [hd] at hc
      obtain rfl : d = c := Option.some.inj hc
      exact lt_toNat_of_isAsciiLetter (hscheme.letter d (by rw [hd]; rfl))
  unfold split splitWith checked
  dsimp only
  rw [hclean, hscheme]
  dsimp only
  rw [htake]
  dsimp only
  rw [hcutFragment]
  dsimp only
  rw [hcutQuery]

end Url

end CompileGate
