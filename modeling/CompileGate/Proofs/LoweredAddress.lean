/-
CompileGate/Proofs/LoweredAddress.lean

Numeric addresses in lower case.

Lowering an address leaves an address.  The marks between its groups stay in their
places, so the groups are lowered one by one: an empty one stays empty, a digit of
base sixteen is lowered to one, and octets stay as they are.  Only the zone may be
lowered in other ways, and of that nothing is asked but that it is there.

    checkAddress host = .ok () ↔ Address.isFuture host ∨ Address.isV6 host

says what is accepted between brackets, so an accepted host is lowered to an
accepted one (`checkAddress_of_lowers`).
-/
import CompileGate.Proofs.LoweredText
import Mathlib.Data.List.Forall2

namespace CompileGate

/-! ### Digits -/

namespace CodePoint

theorem ofNat_toNat (c : CodePoint) : ofNat c.toNat = c := dif_pos c.isLt

/-- A digit of base sixteen is lowered to one, in any context. -/
theorem lowerForms_of_hex {c : CodePoint} (h : c.hexValue?.isSome = true) :
    ∃ d : CodePoint, c.lowerForms = [[d]] ∧ d.hexValue?.isSome = true := by
  -- the digits are the few below `g`, so all of them are looked at
  have htable : ∀ n < 0x67, (ofNat n).hexValue?.isSome = true →
      (ofNat n).lowerForms = [[(ofNat n).toAsciiLower]]
        ∧ (ofNat n).toAsciiLower.hexValue?.isSome = true := by decide +kernel
  have hlt : c.toNat < 0x67 := by
    unfold hexValue? isAsciiDigit at h
    split_ifs at h with hdigit hlower hupper
    · rw [Bool.and_eq_true, decide_eq_true_iff, decide_eq_true_iff] at hdigit
      omega
    · rw [Bool.and_eq_true, decide_eq_true_iff, decide_eq_true_iff] at hlower
      omega
    · rw [Bool.and_eq_true, decide_eq_true_iff, decide_eq_true_iff] at hupper
      omega
    · cases h
  have hc := htable c.toNat hlt
  rw [ofNat_toNat] at hc
  exact ⟨_, hc h⟩

/-- A decimal digit is lowered to itself, and nothing else is lowered to it. -/
theorem isMark_of_isAsciiDigit {c : CodePoint} (h : c.isAsciiDigit = true) : c.IsMark := by
  have htable : ∀ n < 0x3A, (ofNat n).isAsciiDigit = true → (ofNat n).IsMark := by decide +kernel
  have hlt : c.toNat < 0x3A := by
    rw [isAsciiDigit, Bool.and_eq_true, decide_eq_true_iff, decide_eq_true_iff] at h
    omega
  have hc := htable c.toNat hlt
  rw [ofNat_toNat] at hc
  exact hc h

end CodePoint

namespace Text

/-- Lowering keeps the number of digits of base sixteen, and leaves them digits. -/
theorem Lowers.hex {t u : Text} (h : Lowers t u) (ht : ∀ c ∈ t, c.hexValue?.isSome = true) :
    u.length = t.length ∧ ∀ c ∈ u, c.hexValue?.isSome = true := by
  induction h with
  | nil => exact ⟨rfl, ht⟩
  | @cons c form t u hform _ ih =>
    obtain ⟨hc, ht⟩ := List.forall_mem_cons.mp ht
    obtain ⟨d, hforms, hd⟩ := CodePoint.lowerForms_of_hex hc
    rw [hforms] at hform
    -- a digit has one form, and that is one digit
    obtain rfl := List.mem_singleton.mp hform
    obtain ⟨hlength, hu⟩ := ih ht
    exact ⟨congrArg (· + 1) hlength, List.forall_mem_cons.mpr ⟨hd, hu⟩⟩

end Text

namespace Address

open Text

/-! ### Groups and octets -/

/-- A group of digits is lowered to one, of the same length. -/
theorem isGroup_of_lowers {t u : Text} (h : Lowers t u) (ht : isGroup t = true) :
    isGroup u = true := by
  simp only [isGroup, Bool.and_eq_true, Bool.not_eq_true', List.isEmpty_eq_false_iff,
    decide_eq_true_iff, List.all_eq_true] at ht ⊢
  obtain ⟨⟨hne, hlength⟩, hhex⟩ := ht
  obtain ⟨hlength', hhex'⟩ := h.hex hhex
  exact ⟨⟨mt h.eq_nil_iff.mp hne, hlength' ▸ hlength⟩, hhex'⟩

/-- An address of octets is made of digits and points. -/
theorem mem_of_isV4 {t : Text} (h : isV4 t = true) :
    ∀ c ∈ t, c = '.' ∨ c.isAsciiDigit = true := by
  simp only [isV4, Bool.and_eq_true, List.all_eq_true] at h
  rw [← join_splitOn '.' t]
  apply Url.forall_mem_join
  · exact List.forall_mem_singleton.mpr (Or.inl rfl)
  · intro octet hoctet c hc
    have hdigits := h.2 octet hoctet
    simp only [isOctet, Bool.and_eq_true, List.all_eq_true] at hdigits
    exact Or.inr (hdigits.1.1.1.2 c hc)

/-- Lowering does not touch an address of octets. -/
theorem isMark_of_mem_of_isV4 {t : Text} (h : isV4 t = true) : ∀ c ∈ t, c.IsMark := by
  have hpoint : ('.' : CodePoint).IsMark := by decide
  intro c hc
  rcases mem_of_isV4 h c hc with rfl | hdigit
  · exact hpoint
  · exact CodePoint.isMark_of_isAsciiDigit hdigit

/-! ### Groups and gaps -/

section Gaps

variable {R : Text → Text → Prop} {groups groups' : List Text}

/-- Two rows that are related piece by piece have related last pieces. -/
theorem forall₂_concat {last : Text} (h : List.Forall₂ R (groups ++ [last]) groups') :
    ∃ init last', groups' = init ++ [last'] ∧ List.Forall₂ R groups init ∧ R last last' := by
  induction groups generalizing groups' with
  | nil =>
    cases h with
    | cons hlast hnil =>
      cases hnil
      exact ⟨[], _, rfl, .nil, hlast⟩
  | cons group groups ih =>
    cases h with
    | cons hgroup h =>
      obtain ⟨init, last', rfl, hinit, hlast⟩ := ih h
      exact ⟨_ :: init, last', rfl, .cons hgroup hinit, hlast⟩

/-- A group that is empty on one side is empty on the other, and stays a group. -/
def Alike (g g' : Text) : Prop := (g' = [] ↔ g = []) ∧ (isGroup g = true → isGroup g' = true)

/-- A lowered group is empty when the group is. -/
theorem alike_of_lowers {g g' : Text} (h : Lowers g g') : Alike g g' :=
  ⟨h.eq_nil_iff, isGroup_of_lowers h⟩

theorem alike_refl (g : Text) : Alike g g := ⟨Iff.rfl, id⟩

theorem Alike.isEmpty_eq {g g' : Text} (h : Alike g g') : g'.isEmpty = g.isEmpty := by
  rw [Bool.eq_iff_iff, List.isEmpty_iff, List.isEmpty_iff]
  exact h.1

/-- There are as many empty groups on either side. -/
theorem count_nil_eq (h : List.Forall₂ Alike groups groups') :
    groups'.count [] = groups.count [] := by
  induction h with
  | nil => rfl
  | cons hgroup _ ih =>
    rw [List.count_cons, List.count_cons, ih]
    simp only [beq_iff_eq, hgroup.1]

/-- The first empty group is at the same place. -/
theorem idxOf_nil_eq (h : List.Forall₂ Alike groups groups') :
    groups'.idxOf [] = groups.idxOf [] := by
  induction h with
  | nil => rfl
  | cons hgroup _ ih =>
    rw [List.idxOf_cons, List.idxOf_cons, ih]
    simp only [cond_eq_ite, beq_iff_eq, hgroup.1]

theorem head?_eq_nil_iff (h : List.Forall₂ Alike groups groups') :
    groups'.head? = some [] ↔ groups.head? = some [] := by
  cases h with
  | nil => exact Iff.rfl
  | cons hgroup _ => simpa using hgroup.1

theorem getLast?_eq_nil_iff (h : List.Forall₂ Alike groups groups') :
    groups'.getLast? = some [] ↔ groups.getLast? = some [] := by
  rw [← List.head?_reverse, ← List.head?_reverse]
  exact head?_eq_nil_iff (List.forall₂_reverse_iff.mpr h)

/-- The groups before the first gap are alike. -/
theorem forall₂_takeWhile (h : List.Forall₂ Alike groups groups') :
    List.Forall₂ Alike (groups.takeWhile fun g => !g.isEmpty)
      (groups'.takeWhile fun g => !g.isEmpty) := by
  induction h with
  | nil => exact .nil
  | cons hgroup _ ih =>
    rw [List.takeWhile_cons, List.takeWhile_cons, hgroup.isEmpty_eq]
    split
    · exact .cons hgroup ih
    · exact .nil

/-- If one side has groups of digits only, the other does. -/
theorem all_isGroup (h : List.Forall₂ Alike groups groups') (hall : groups.all isGroup = true) :
    groups'.all isGroup = true := by
  induction h with
  | nil => rfl
  | cons hgroup _ ih =>
    rw [List.all_cons, Bool.and_eq_true] at hall ⊢
    exact ⟨hgroup.2 hall.1, ih hall.2⟩

/-- The check of groups asks for their number, for the places of the gaps and for digits, so it
holds of groups that are alike. -/
theorem groupsAreV6_of_forall₂ (h : List.Forall₂ Alike groups groups')
    (hv6 : groupsAreV6 groups = true) : groupsAreV6 groups' = true := by
  -- a gap is looked for behind the first group and before the last one
  have hdrop := List.forall₂_drop 1 h
  have hinner : List.Forall₂ Alike (groups.drop 1).dropLast (groups'.drop 1).dropLast := by
    rw [List.dropLast_eq_take, List.dropLast_eq_take, ← hdrop.length_eq]
    exact List.forall₂_take _ hdrop
  -- what stands before the gap, and, from the end, what stands behind it
  have hhigh := forall₂_takeWhile h
  have hlow := List.forall₂_reverse_iff.mpr (forall₂_takeWhile (List.forall₂_reverse_iff.mpr h))
  simp only [groupsAreV6] at hv6 ⊢
  rw [count_nil_eq hinner, idxOf_nil_eq hdrop, ← h.length_eq, ← hhigh.length_eq,
    ← hlow.length_eq]
  simp only [head?_eq_nil_iff h, getLast?_eq_nil_iff h]
  split_ifs at hv6 ⊢
  · -- without a gap all groups are of digits
    rw [Bool.and_eq_true] at hv6 ⊢
    exact ⟨hv6.1, all_isGroup h hv6.2⟩
  · -- with a gap those on both sides of it are
    simp only [Bool.and_eq_true] at hv6 ⊢
    exact ⟨⟨hv6.1.1, all_isGroup (List.rel_append hhigh hlow) hv6.1.2⟩, hv6.2⟩

/-- A first group that is not empty is one of digits. -/
theorem isGroup_head {group : Text} (hne : group ≠ [])
    (h : groupsAreV6 (group :: groups) = true) : isGroup group = true := by
  simp only [groupsAreV6] at h
  split_ifs at h
  · rw [Bool.and_eq_true, List.all_cons, Bool.and_eq_true] at h
    exact h.2.1
  · have hfirst : (!group.isEmpty) = true := by simpa using hne
    simp only [Bool.and_eq_true] at h
    refine List.all_eq_true.mp h.1.2 group (List.mem_append_left _ ?_)
    rw [List.takeWhile_cons, if_pos hfirst]
    exact List.mem_cons_self

end Gaps

/-! ### Addresses with groups -/

/-- Three or more groups, the last one perhaps of octets. -/
def hasGroups (address : Text) : Bool :=
  let groups := Text.splitOn ':' address
  let last := groups.getLast?.getD []
  3 ≤ groups.length &&
    if last.contains ('.' : CodePoint) then
      isV4 last && groupsAreV6 (groups.dropLast ++ (["0", "0"] : List Text))
    else groupsAreV6 groups

/-- A zone must not be empty or hold another `%`; what stands before it is the address. -/
theorem isV6_eq (t : Text) : isV6 t = match Text.cutFirst? '%' t with
    | none => hasGroups t
    | some (address, zone) =>
      (!zone.isEmpty && !zone.contains ('%' : CodePoint)) && hasGroups address := by
  unfold isV6 hasGroups
  cases Text.cutFirst? '%' t with
  | none => simp only [Bool.true_and]
  | some parts => simp only [Bool.and_assoc]

/-- The last group may be written as octets, which count as two groups. -/
theorem hasGroups_concat {address last : Text} {init : List Text}
    (h : Text.splitOn ':' address = init ++ [last]) : hasGroups address = true
      ↔ 2 ≤ init.length ∧ (('.' : CodePoint) ∈ last → isV4 last = true
          ∧ groupsAreV6 (init ++ (["0", "0"] : List Text)) = true)
        ∧ (('.' : CodePoint) ∉ last → groupsAreV6 (init ++ [last]) = true) := by
  unfold hasGroups
  dsimp only
  rw [h, List.getLast?_concat, Option.getD_some, List.dropLast_concat, List.length_append,
    List.length_singleton, Bool.and_eq_true, decide_eq_true_iff, Nat.succ_le_succ_iff]
  by_cases hpoint : ('.' : CodePoint) ∈ last
  · rw [if_pos (List.contains_iff_mem.mpr hpoint), Bool.and_eq_true]
    tauto
  · rw [if_neg (mt List.contains_iff_mem.mp hpoint)]
    tauto

/-- Colons stay in their places, so the groups are lowered one by one. -/
theorem hasGroups_of_lowers {t u : Text} (h : Lowers t u) (ht : hasGroups t = true) :
    hasGroups u = true := by
  obtain ⟨init, last, hgroups⟩ := exists_splitOn_concat ':' t
  have hlowers := h.splitOn (show (':' : CodePoint).IsMark by decide)
  rw [hgroups] at hlowers
  obtain ⟨init', last', hgroups', hinit, hlast⟩ := forall₂_concat hlowers
  have halike := hinit.imp fun _ _ => alike_of_lowers
  have hpoint := hlast.mem_iff (show ('.' : CodePoint).IsMark by decide)
  obtain ⟨hlength, hoctets, hplain⟩ := (hasGroups_concat hgroups).mp ht
  refine (hasGroups_concat hgroups').mpr ⟨hinit.length_eq ▸ hlength, ?_, ?_⟩
  · -- octets at the end stay as they are, and the groups before them are alike
    intro hmem
    obtain ⟨hv4, hv6⟩ := hoctets (hpoint.mp hmem)
    rw [hlast.eq_of_isMark (isMark_of_mem_of_isV4 hv4)]
    refine ⟨hv4, groupsAreV6_of_forall₂ (List.rel_append halike ?_) hv6⟩
    exact .cons (alike_refl _) (.cons (alike_refl _) .nil)
  · -- groups of digits all the way
    intro hmem
    have hv6 := hplain (mt hpoint.mpr hmem)
    exact groupsAreV6_of_forall₂ (List.rel_append halike (.cons (alike_of_lowers hlast) .nil)) hv6

/-- The zone may change, but it stays there and gets no `%`. -/
theorem isV6_of_lowers {t u : Text} (h : Lowers t u) (ht : isV6 t = true) : isV6 u = true := by
  have hmark : ('%' : CodePoint).IsMark := by decide
  rw [isV6_eq] at ht ⊢
  rcases h.cutFirst? hmark with ⟨hcut, hcut'⟩ | ⟨a, zone, a', zone', hcut, hcut', ha, hzone⟩
  · rw [hcut] at ht
    rw [hcut']
    exact hasGroups_of_lowers h ht
  · rw [hcut] at ht
    rw [hcut']
    dsimp only at ht ⊢
    rw [Bool.and_eq_true] at ht ⊢
    refine ⟨?_, hasGroups_of_lowers ha ht.2⟩
    have hzone' : zone ≠ [] ∧ ('%' : CodePoint) ∉ zone := by simpa using ht.1
    simpa using And.intro (mt hzone.eq_nil_iff.mp hzone'.1) (mt (hzone.mem_iff hmark).mp hzone'.2)

/-- There is a colon in an address with groups. -/
theorem colon_mem_of_hasGroups {t : Text} (h : hasGroups t = true) : (':' : CodePoint) ∈ t := by
  by_contra hnot
  have hsingle : Text.splitOn ':' t = [] ++ [t] := splitOn_of_not_mem hnot
  obtain ⟨hlength, -⟩ := (hasGroups_concat hsingle).mp h
  exact absurd hlength (by decide)

/-- An address with groups does not begin with `v`, which is no digit. -/
theorem not_v_of_hasGroups {t : Text} : hasGroups (('v' : CodePoint) :: t) = false := by
  rw [← Bool.not_eq_true]
  intro h
  -- the first group would begin with `v`
  have hfirst : ∀ rest groups, groupsAreV6 ((('v' : CodePoint) :: rest) :: groups) = false := by
    intro rest groups
    rw [← Bool.not_eq_true]
    intro hv6
    have hgroup := isGroup_head (List.cons_ne_nil _ _) hv6
    simp only [isGroup, Bool.and_eq_true, List.all_cons] at hgroup
    exact absurd hgroup.2.1 (by decide)
  obtain ⟨init, last, hgroups⟩ := exists_splitOn_concat ':' (('v' : CodePoint) :: t)
  obtain ⟨hlength, hoctets, hplain⟩ := (hasGroups_concat hgroups).mp h
  obtain ⟨rest, more, rfl⟩ : ∃ rest more, init = (('v' : CodePoint) :: rest) :: more := by
    rw [splitOn, if_neg (by decide)] at hgroups
    cases init with
    | nil => exact absurd hlength (by decide)
    | cons group more =>
      cases hsplit : Text.splitOn ':' t with
      | nil => exact absurd hsplit (splitOn_ne_nil ':' t)
      | cons piece pieces =>
        rw [hsplit] at hgroups
        exact ⟨piece, more, by rw [← (List.cons.inj hgroups).1]⟩
  by_cases hpoint : ('.' : CodePoint) ∈ last
  · exact absurd (hoctets hpoint).2 (by rw [List.cons_append, hfirst]; exact Bool.false_ne_true)
  · exact absurd (hplain hpoint) (by rw [List.cons_append, hfirst]; exact Bool.false_ne_true)

/-- The part of an address before its zone. -/
theorem exists_hasGroups {t : Text} (h : isV6 t = true) :
    ∃ address rest, t = address ++ rest ∧ hasGroups address = true := by
  rw [isV6_eq] at h
  cases hcut : Text.cutFirst? '%' t with
  | none =>
    rw [hcut] at h
    exact ⟨t, [], (List.append_nil t).symm, h⟩
  | some parts =>
    rw [hcut] at h
    dsimp only at h
    exact ⟨parts.1, _, (eq_append_of_cutFirst? hcut).1, (Bool.and_eq_true_iff.mp h).2⟩

/-- An address with groups has a colon, one of octets has none. -/
theorem not_isV4_of_isV6 {t : Text} (h : isV6 t = true) : isV4 t = false := by
  obtain ⟨address, rest, rfl, hgroups⟩ := exists_hasGroups h
  rw [← Bool.not_eq_true]
  intro hv4
  have hcolon := List.mem_append_left rest (colon_mem_of_hasGroups hgroups)
  exact absurd (mem_of_isV4 hv4 _ hcolon) (by decide)

/-- No address is one of a later version as well. -/
theorem not_v_of_isV6 {t : Text} (h : isV6 t = true) : Text.startsWith "v" t = false := by
  obtain ⟨address, rest, rfl, hgroups⟩ := exists_hasGroups h
  rw [← Bool.not_eq_true, startsWith, Option.isSome_iff_exists]
  rintro ⟨more, hmore⟩
  have heq := eq_append_of_afterStart? hmore
  cases address with
  | nil => exact absurd hgroups (by decide)
  | cons c address =>
    obtain rfl : c = 'v' := (List.cons.inj heq).1
    rw [not_v_of_hasGroups] at hgroups
    cases hgroups

/-! ### Addresses of a later version -/

/-- An address of a later version: `v`, digits of base sixteen, a point and more. -/
theorem isFuture_iff {t : Text} : isFuture t = true ↔ ∃ version address,
    t = ('v' : CodePoint) :: (version ++ ('.' : CodePoint) :: address)
      ∧ ('.' : CodePoint) ∉ version ∧ version ≠ [] ∧ address ≠ []
      ∧ ∀ c ∈ version, c.hexValue?.isSome = true := by
  constructor
  · intro h
    cases t with
    | nil => cases h
    | cons v rest =>
      rw [isFuture] at h
      cases hcut : Text.cutFirst? '.' rest with
      | none =>
        rw [hcut] at h
        cases h
      | some parts =>
        obtain ⟨version, address⟩ := parts
        rw [hcut] at h
        simp only [Bool.and_eq_true, decide_eq_true_iff, Bool.not_eq_true',
          List.isEmpty_eq_false_iff, List.all_eq_true] at h
        obtain ⟨⟨⟨rfl, hversion⟩, hhex⟩, haddress⟩ := h
        obtain ⟨rfl, hnot⟩ := eq_append_of_cutFirst? hcut
        exact ⟨version, address, rfl, hnot, hversion, haddress, hhex⟩
  · rintro ⟨version, address, rfl, hnot, hversion, haddress, hhex⟩
    rw [isFuture, cutFirst?_append hnot]
    simp only [Bool.and_eq_true, decide_eq_true_iff, Bool.not_eq_true',
      List.isEmpty_eq_false_iff, List.all_eq_true]
    exact ⟨⟨⟨trivial, hversion⟩, hhex⟩, haddress⟩

/-- Lowering leaves the `v` and the first point, and digits stay digits. -/
theorem isFuture_of_lowers {t u : Text} (h : Lowers t u) (ht : isFuture t = true) :
    isFuture u = true := by
  have hpoint : ('.' : CodePoint).IsMark := by decide
  obtain ⟨version, address, rfl, hnot, hversion, haddress, hhex⟩ := isFuture_iff.mp ht
  obtain ⟨rest, rfl, hrest⟩ := h.cons_of_isLower (by decide)
  obtain ⟨version', address', rfl, hversion', haddress'⟩ := hrest.cut hpoint
  exact isFuture_iff.mpr ⟨version', address', rfl, mt (hversion'.mem_iff hpoint).mp hnot,
    mt hversion'.eq_nil_iff.mp hversion, mt haddress'.eq_nil_iff.mp haddress,
    (hversion'.hex hhex).2⟩

end Address

/-! ### The check -/

namespace Url

open Text

/-- The check looks at the first letter, and neither kind of address is refused for that of the
other. -/
theorem checkAddress_eq_ok_iff {host : Text} : checkAddress host = .ok ()
    ↔ Address.isFuture host = true ∨ Address.isV6 host = true := by
  unfold checkAddress
  by_cases hstart : Text.startsWith "v" host = true
  · have hv6 : ¬ Address.isV6 host = true := fun h => by
      rw [Address.not_v_of_isV6 h] at hstart
      cases hstart
    rw [if_pos hstart]
    split_ifs with hfuture
    · exact iff_of_true rfl (Or.inl hfuture)
    · exact iff_of_false id (fun h => h.elim hfuture hv6)
  · have hfuture : ¬ Address.isFuture host = true := fun h => by
      obtain ⟨version, address, rfl, -⟩ := Address.isFuture_iff.mp h
      exact hstart rfl
    rw [if_neg hstart]
    split_ifs with hv4 hv6
    · refine iff_of_false id (fun h => h.elim hfuture fun hv6 => ?_)
      rw [Address.not_isV4_of_isV6 hv6] at hv4
      cases hv4
    · exact iff_of_true rfl (Or.inr hv6)
    · exact iff_of_false id (fun h => h.elim hfuture hv6)

/-- What is accepted between brackets is lowered to what is accepted there. -/
theorem checkAddress_of_lowers {t u : Text} (h : Lowers t u) (ht : checkAddress t = .ok ()) :
    checkAddress u = .ok () := by
  rw [checkAddress_eq_ok_iff] at ht ⊢
  exact ht.imp (Address.isFuture_of_lowers h) (Address.isV6_of_lowers h)

end Url

end CompileGate
