/-
CompileGate/Proofs/LoweredText.lean

Lowering a text in parts.

What a code point is lowered to may depend on its context, and only at a `Σ`: it is
asked whether a cased letter comes before and after, past what case ignores.  So a
text is lowered part by part wherever a part that follows begins with no cased
letter (`toLowerAfter_append`), in particular around a wall: a mark that case does
not ignore (`IsWall`).  A colon is none, for case ignores it.

For much else the context does not matter.  `Lowers t u` says that `u` is what `t`
is lowered to in some context.  It keeps the marks in their places (`Lowers.cut`),
so the two texts are cut alike, and digits stay as they are.
-/
import CompileGate.Proofs.LowerCase
import CompileGate.Proofs.PathSegments

namespace CompileGate

/-! ### The context of a code point -/

namespace CodePoint

/-- A code point below the letters that lowering yields. -/
def IsMark (c : CodePoint) : Prop := c.toNat ≤ 96 ∧ c.IsLower

instance (c : CodePoint) : Decidable c.IsMark :=
  inferInstanceAs (Decidable (c.toNat ≤ 96 ∧ c.IsLower))

/-- A mark that case does not look past. -/
structure IsWall (c : CodePoint) : Prop where
  mark : c.IsMark
  notIgnored : c.isCaseIgnored = false
  notCased : c.isCased = false

theorem isWall_at : IsWall '@' := ⟨by decide, by decide, by decide⟩

theorem isWall_open : IsWall '[' := ⟨by decide, by decide, by decide⟩

theorem isWall_close : IsWall ']' := ⟨by decide, by decide, by decide⟩

/-- A colon is a mark, though case looks past it. -/
theorem isMark_colon : IsMark ':' := by decide

/-- What a code point can be lowered to. -/
def lowerForms (c : CodePoint) : List Text :=
  if c = 'İ' then [[('i' : CodePoint), CodePoint.ofNat 0x307]]
  else if c = 'Σ' then [[('ς' : CodePoint)], [('σ' : CodePoint)]]
  else [[c.toLower]]

/-- A lower-case code point has no other form. -/
theorem lowerForms_of_isLower {c : CodePoint} (h : c.IsLower) : c.lowerForms = [[c]] := by
  rw [lowerForms, if_neg h.1, if_neg h.2.1, h.2.2]

/-- No code point is lowered to nothing. -/
theorem ne_nil_of_mem_lowerForms {c : CodePoint} {form : Text} (h : form ∈ c.lowerForms) :
    form ≠ [] := by
  unfold lowerForms at h
  split_ifs at h
  all_goals
    simp only [List.mem_cons, List.not_mem_nil, or_false] at h
    rcases h with rfl | rfl
    all_goals exact List.cons_ne_nil _ _

/-- A form is the code point itself, or has only code points that lowering yields. -/
theorem lowerForms_spec {c : CodePoint} {form : Text} (h : form ∈ c.lowerForms) :
    form = [c] ∧ c.IsLower ∨ ∀ d ∈ form, 96 < d.toNat := by
  have hdotted : ∀ d ∈ [('i' : CodePoint), CodePoint.ofNat 0x307], 96 < d.toNat := by decide
  have hsigma : ∀ form ∈ [[('ς' : CodePoint)], [('σ' : CodePoint)]], ∀ d ∈ form, 96 < d.toNat := by
    decide
  unfold lowerForms at h
  -- the two exceptions, and the rule
  split_ifs at h with hi hs
  · obtain rfl := List.mem_singleton.mp h
    exact Or.inr hdotted
  · exact Or.inr (hsigma form h)
  · obtain rfl := List.mem_singleton.mp h
    rcases c.toLower_eq_or_isLowered with e | hlowered
    · exact Or.inl ⟨by rw [e], hi, hs, e⟩
    · exact Or.inr (List.forall_mem_singleton.mpr hlowered.2.1)

end CodePoint

namespace Text

open CodePoint

/-- Whether a cased letter is met is decided by the first code point that case does not ignore. -/
theorem meetsCased_cons (c : CodePoint) (t : Text) :
    meetsCased (c :: t) = if c.isCaseIgnored then meetsCased t else c.isCased := by
  unfold meetsCased
  cases h : c.isCaseIgnored with
  | true => rw [List.find?_cons_of_neg (by simp [h]), if_pos rfl]
  | false => rw [List.find?_cons_of_pos (by simp [h]), if_neg Bool.false_ne_true]

/-- At a wall no cased letter is met. -/
theorem meetsCased_wall {c : CodePoint} (h : c.IsWall) (t : Text) :
    meetsCased (c :: t) = false := by
  rw [meetsCased_cons, h.notIgnored, if_neg Bool.false_ne_true, h.notCased]

/-- A text behind which no cased letter is met decides by itself. -/
theorem meetsCased_append {b : Text} (h : meetsCased b = false) (a : Text) :
    meetsCased (a ++ b) = meetsCased a := by
  induction a with
  | nil => exact h
  | cons c a ih => rw [List.cons_append, meetsCased_cons, meetsCased_cons, ih]

/-- Of what comes before, it only matters whether a cased letter is met. -/
theorem toLowerAfter_congr {seen seen' : Text} (h : meetsCased seen = meetsCased seen')
    (t : Text) : toLowerAfter seen t = toLowerAfter seen' t := by
  induction t generalizing seen seen' with
  | nil => rfl
  | cons c t ih =>
    have hcons : meetsCased (c :: seen) = meetsCased (c :: seen') := by
      rw [meetsCased_cons, meetsCased_cons, h]
    rw [toLowerAfter, toLowerAfter, h, ih hcons]

/-- A text is lowered in parts if the second part begins with no cased letter. -/
theorem toLowerAfter_append {b : Text} (h : meetsCased b = false) (seen a : Text) :
    toLowerAfter seen (a ++ b) = toLowerAfter seen a ++ toLowerAfter (a.reverse ++ seen) b := by
  induction a generalizing seen with
  | nil => rfl
  | cons c a ih =>
    rw [List.cons_append, toLowerAfter, toLowerAfter, ih, meetsCased_append h]
    simp

/-- A lower-case code point stays, and the rest has it before. -/
theorem toLowerAfter_cons_of_isLower {c : CodePoint} (h : c.IsLower) (seen t : Text) :
    toLowerAfter seen (c :: t) = c :: toLowerAfter (c :: seen) t := by
  rw [toLowerAfter, if_neg h.1, if_neg h.2.1, h.2.2]
  rfl

/-- On both sides of a wall a text is lowered as if it stood alone. -/
theorem toLower_append_wall {c : CodePoint} (h : c.IsWall) (a b : Text) :
    toLower (a ++ c :: b) = toLower a ++ c :: toLower b := by
  have hseen : meetsCased (c :: (a.reverse ++ [])) = meetsCased [] :=
    (meetsCased_wall h _).trans rfl
  rw [toLower, toLowerAfter_append (meetsCased_wall h b), toLowerAfter_cons_of_isLower h.mark.2,
    toLowerAfter_congr hseen]
  rfl

/-! ### Lowering in some context -/

/-- The second text is what the first one is lowered to in some context. -/
inductive Lowers : Text → Text → Prop
  | nil : Lowers [] []
  | cons {c form t u} : form ∈ c.lowerForms → Lowers t u → Lowers (c :: t) (form ++ u)

/-- Any context is some context. -/
theorem lowers_toLowerAfter (seen t : Text) : Lowers t (toLowerAfter seen t) := by
  induction t generalizing seen with
  | nil => exact .nil
  | cons c t ih =>
    refine .cons ?_ (ih (c :: seen))
    unfold lowerForms
    split_ifs
    all_goals simp

/-- So is the context of the whole text. -/
theorem lowers_toLower (t : Text) : Lowers t (toLower t) := lowers_toLowerAfter [] t

namespace Lowers

variable {t u : Text}

/-- A lower-case code point at the front stays there. -/
theorem cons_of_isLower {c : CodePoint} (hc : c.IsLower) (h : Lowers (c :: t) u) :
    ∃ u', u = c :: u' ∧ Lowers t u' := by
  cases h with
  | @cons _ form _ u' hform h =>
    rw [lowerForms_of_isLower hc] at hform
    obtain rfl := List.mem_singleton.mp hform
    exact ⟨u', rfl, h⟩

/-- Two parts of a text are lowered apart, each in some context. -/
theorem append {a b : Text} (h : Lowers (a ++ b) u) :
    ∃ a' b', u = a' ++ b' ∧ Lowers a a' ∧ Lowers b b' := by
  induction a generalizing u with
  | nil => exact ⟨[], u, rfl, .nil, h⟩
  | cons c a ih =>
    cases h with
    | @cons _ form _ u' hform h =>
      obtain ⟨a', b', rfl, ha, hb⟩ := ih h
      exact ⟨form ++ a', b', (List.append_assoc _ _ _).symm, .cons hform ha, hb⟩

/-- Only the empty text is lowered to it. -/
theorem eq_nil_iff (h : Lowers t u) : u = [] ↔ t = [] := by
  cases h with
  | nil => exact Iff.rfl
  | cons hform _ =>
    constructor
    · intro hnil
      exact absurd (List.append_eq_nil_iff.mp hnil).1 (ne_nil_of_mem_lowerForms hform)
    · intro hnil
      exact absurd hnil (List.cons_ne_nil _ _)

/-- Marks are neither made nor lost. -/
theorem mem_iff (h : Lowers t u) {mark : CodePoint} (hmark : mark.IsMark) :
    mark ∈ u ↔ mark ∈ t := by
  induction h with
  | nil => exact Iff.rfl
  | @cons c form t u hform _ ih =>
    rw [List.mem_append, List.mem_cons, ih]
    refine or_congr_left ?_
    -- a form with a mark in it is the mark
    rcases lowerForms_spec hform with ⟨rfl, -⟩ | hhigh
    · exact List.mem_singleton
    · constructor
      · intro hmem
        exact absurd hmark.1 (Nat.not_le.mpr (hhigh mark hmem))
      · rintro rfl
        rw [lowerForms_of_isLower hmark.2] at hform
        obtain rfl := List.mem_singleton.mp hform
        exact List.mem_singleton.mpr rfl

/-- What stands before and after a mark is lowered apart. -/
theorem cut {mark : CodePoint} (hmark : mark.IsMark) {a b : Text} (h : Lowers (a ++ mark :: b) u) :
    ∃ a' b', u = a' ++ mark :: b' ∧ Lowers a a' ∧ Lowers b b' := by
  obtain ⟨a', rest, rfl, ha, hrest⟩ := h.append
  obtain ⟨b', rfl, hb⟩ := hrest.cons_of_isLower hmark.2
  exact ⟨a', b', rfl, ha, hb⟩

/-- The first mark is at the same place in both texts, or in neither. -/
theorem cutFirst? {mark : CodePoint} (hmark : mark.IsMark) (h : Lowers t u) :
    (Text.cutFirst? mark t = none ∧ Text.cutFirst? mark u = none)
      ∨ ∃ a b a' b', Text.cutFirst? mark t = some (a, b) ∧ Text.cutFirst? mark u = some (a', b')
        ∧ Lowers a a' ∧ Lowers b b' := by
  cases hcut : Text.cutFirst? mark t with
  | none =>
    left
    have hnot := cutFirst?_eq_none_iff.mp hcut
    exact ⟨rfl, cutFirst?_eq_none_iff.mpr (mt (h.mem_iff hmark).mp hnot)⟩
  | some parts =>
    right
    obtain ⟨a, b⟩ := parts
    obtain ⟨rfl, hnot⟩ := eq_append_of_cutFirst? hcut
    obtain ⟨a', b', rfl, ha, hb⟩ := h.cut hmark
    exact ⟨a, b, a', b', rfl, cutFirst?_append (mt (ha.mem_iff hmark).mp hnot), ha, hb⟩

/-- The pieces between marks are lowered one by one. -/
theorem splitOn {mark : CodePoint} (hmark : mark.IsMark) (h : Lowers t u) :
    List.Forall₂ Lowers (Text.splitOn mark t) (Text.splitOn mark u) := by
  induction hn : t.length using Nat.strong_induction_on generalizing t u with
  | _ n ih =>
    -- along the marks, the first one first
    rcases h.cutFirst? hmark with ⟨ht, hu⟩ | ⟨a, b, a', b', ht, hu, ha, hb⟩
    · rw [splitOn_of_not_mem (cutFirst?_eq_none_iff.mp ht),
        splitOn_of_not_mem (cutFirst?_eq_none_iff.mp hu)]
      exact .cons h .nil
    · obtain ⟨rfl, hnot⟩ := eq_append_of_cutFirst? ht
      obtain ⟨rfl, hnot'⟩ := eq_append_of_cutFirst? hu
      have hlength : b.length < n := by
        rw [← hn, List.length_append, List.length_cons]
        omega
      rw [splitOn_append, splitOn_append, splitOn_of_not_mem hnot, splitOn_of_not_mem hnot']
      exact .cons ha (ih _ hlength hb rfl)

/-- A text of marks stays as it is. -/
theorem eq_of_isMark (h : Lowers t u) (ht : ∀ c ∈ t, c.IsMark) : u = t := by
  induction h with
  | nil => rfl
  | @cons c form t u hform _ ih =>
    obtain ⟨hc, ht⟩ := List.forall_mem_cons.mp ht
    rw [lowerForms_of_isLower hc.2] at hform
    obtain rfl := List.mem_singleton.mp hform
    rw [ih ht]
    rfl

/-- A text is lowered to one below the letters only if it is that text. -/
theorem eq_of_le (h : Lowers t u) (hu : ∀ c ∈ u, c.toNat ≤ 96) : u = t := by
  induction h with
  | nil => rfl
  | @cons c form t u hform _ ih =>
    obtain ⟨hform', htail⟩ := List.forall_mem_append.mp hu
    rcases lowerForms_spec hform with ⟨rfl, -⟩ | hhigh
    · rw [ih htail]
      rfl
    · obtain ⟨d, more, rfl⟩ := List.exists_cons_of_ne_nil (ne_nil_of_mem_lowerForms hform)
      exact absurd (hform' d List.mem_cons_self)
        (Nat.not_le.mpr (hhigh d List.mem_cons_self))

/-- An end below the letters is the end of the text. -/
theorem exists_append {front back : Text} (h : Lowers t (front ++ back))
    (hback : ∀ c ∈ back, c.toNat ≤ 96) : ∃ front', t = front' ++ back := by
  generalize hu : front ++ back = u at h
  induction h generalizing front with
  | nil =>
    rw [(List.append_eq_nil_iff.mp hu).2]
    exact ⟨[], rfl⟩
  | @cons c form t u hform hlowers ih =>
    rcases List.append_eq_append_iff.mp hu with ⟨middle, hmiddle, hback'⟩ | ⟨middle, -, hmiddle⟩
    · -- the end begins where the first code point is lowered
      obtain ⟨hmiddle', htail⟩ := List.forall_mem_append.mp (hback' ▸ hback)
      rw [hback', hlowers.eq_of_le htail]
      cases middle with
      | nil => exact ⟨[c], rfl⟩
      | cons d middle =>
        have hd : d ∈ form := by
          rw [hmiddle]
          simp
        rcases lowerForms_spec hform with ⟨rfl, -⟩ | hhigh
        · obtain ⟨rfl, hsingle⟩ : front = [] ∧ d :: middle = [c] := by
            rcases List.append_eq_singleton_iff.mp hmiddle.symm with h | ⟨-, hnil⟩
            · exact h
            · cases hnil
          rw [hsingle]
          exact ⟨[], rfl⟩
        · exact absurd (hmiddle' d List.mem_cons_self) (Nat.not_le.mpr (hhigh d hd))
    · obtain ⟨front', rfl⟩ := ih hmiddle.symm
      exact ⟨c :: front', rfl⟩

end Lowers

/-! ### Cutting at a wall -/

/-- The marks of a lowered text are those of the text. -/
theorem mem_toLower_iff {mark : CodePoint} (h : mark.IsMark) {t : Text} :
    mark ∈ toLower t ↔ mark ∈ t :=
  (lowers_toLower t).mem_iff h

/-- To cut at a wall and to lower can be done in either order. -/
theorem cutFirst?_toLower {wall : CodePoint} (h : wall.IsWall) (t : Text) :
    cutFirst? wall (toLower t)
      = (cutFirst? wall t).map fun parts => (toLower parts.1, toLower parts.2) := by
  cases hcut : cutFirst? wall t with
  | none =>
    have hnot := cutFirst?_eq_none_iff.mp hcut
    exact cutFirst?_eq_none_iff.mpr (mt (mem_toLower_iff h.mark).mp hnot)
  | some parts =>
    obtain ⟨heq, hnot⟩ := eq_append_of_cutFirst? hcut
    rw [heq, toLower_append_wall h]
    exact cutFirst?_append (mt (mem_toLower_iff h.mark).mp hnot)

theorem cutLast?_toLower {wall : CodePoint} (h : wall.IsWall) (t : Text) :
    cutLast? wall (toLower t)
      = (cutLast? wall t).map fun parts => (toLower parts.1, toLower parts.2) := by
  cases hcut : cutLast? wall t with
  | none =>
    have hnot := cutLast?_eq_none_iff.mp hcut
    exact cutLast?_eq_none_iff.mpr (mt (mem_toLower_iff h.mark).mp hnot)
  | some parts =>
    obtain ⟨heq, hnot⟩ := eq_append_of_cutLast? hcut
    rw [heq, toLower_append_wall h]
    exact cutLast?_append (mt (mem_toLower_iff h.mark).mp hnot)

end Text

end CompileGate
