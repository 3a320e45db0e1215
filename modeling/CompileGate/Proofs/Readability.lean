/-
CompileGate/Proofs/Readability.lean

Which texts can be read as URLs.

What can be wrong with a text is its authority, and nothing else: the text is taken
apart first, and the authority that was found is checked (`splitWith_eq`).  A text
therefore has parts exactly if that authority may stand in a URL
(`split_eq_ok_iff`), it can be joined with a base exactly if both authorities may
(`exists_join_iff`), and it has a canonical form exactly if it has parts and its
path has, which is read as a URL once more (`exists_canonical_iff`).
-/
import CompileGate.Proofs.SingleSlashes

namespace CompileGate
namespace Url

/-! ### What is read -/

/-- What stands behind the scheme of a text; all of it when it names none. -/
def afterScheme (t : Text) : Text := ((takeScheme? (clean t)).getD ([], clean t)).2

/-- The authority that is read from a text, whether or not it may stand in a URL. -/
def authorityOf (t : Text) : Text := (takeAuthority (afterScheme t)).1

/-- What follows the authority of a text: path, query and fragment. -/
def afterAuthority (t : Text) : Text := (takeAuthority (afterScheme t)).2

/-- The parts that are read from a text, whether or not its authority may stand in a URL; `scheme`
is the scheme of a text that names none. -/
def partsWith (scheme t : Text) : Url where
  scheme := ((takeScheme? (clean t)).getD (scheme, clean t)).1
  authority := authorityOf t
  path := (cutAt '?' (cutAt '#' (afterAuthority t)).1).1
  query := (cutAt '?' (cutAt '#' (afterAuthority t)).1).2
  fragment := (cutAt '#' (afterAuthority t)).2

/-- The path that is read from a text. -/
def pathAt (t : Text) : Text := (partsWith [] t).path

theorem splitWith_eq (scheme t : Text) :
    splitWith scheme t = checked (authorityOf t) (partsWith scheme t) := by
  have hrest : ((takeScheme? (clean t)).getD ([], clean t)).2
      = ((takeScheme? (clean t)).getD (scheme, clean t)).2 := by
    cases takeScheme? (clean t) with
    | none => rfl
    | some parts => rfl
  unfold splitWith checked partsWith authorityOf afterAuthority afterScheme
  dsimp only
  rw [hrest]

/-- The scheme and the authority of a text that names a scheme. -/
theorem parts_of_takeScheme? {t scheme rest : Text}
    (h : takeScheme? (clean t) = some (scheme, rest)) :
    (partsWith [] t).scheme = scheme ∧ authorityOf t = (takeAuthority rest).1 := by
  unfold partsWith authorityOf afterScheme
  rw [h]
  exact ⟨rfl, rfl⟩

theorem split_eq_ok_iff {t : Text} {url : Url} :
    split t = .ok url ↔ Accepted (authorityOf t) ∧ url = partsWith [] t := by
  rw [split, splitWith_eq, checked_eq_ok_iff]

/-! ### Joining -/

/-- The parts with the parameters of the path apart. -/
def targetOf (url : Url) : Target :=
  if parameterSchemes.contains url.scheme
  then ⟨{ url with path := (cutParameters url.path).1 }, (cutParameters url.path).2⟩
  else ⟨url, []⟩

theorem ofText_eq_checked (scheme t : Text) :
    Target.ofText scheme t = checked (authorityOf t) (targetOf (partsWith scheme t)) := by
  unfold Target.ofText
  rw [splitWith_eq]
  apply checked_bind
  unfold targetOf
  split_ifs
  · rfl
  · rfl

/-- The URL of a reference, of which and of whose base the parts are known. -/
def joinTargets (b r : Target) (reference : Text) : Text :=
  if r.url.scheme ≠ b.url.scheme || !relativeSchemes.contains r.url.scheme then reference
  else if authoritySchemes.contains r.url.scheme && !r.url.authority.isEmpty then r.toText
  else
    let authority :=
      if authoritySchemes.contains r.url.scheme then b.url.authority else r.url.authority
    if r.url.path.isEmpty && r.parameters.isEmpty then
      let query := if r.url.query.isEmpty then b.url.query else r.url.query
      Target.toText ⟨⟨r.url.scheme, authority, b.url.path, query, r.url.fragment⟩, b.parameters⟩
    else
      Target.toText
        ⟨⟨r.url.scheme, authority, joinPaths b.url.path r.url.path, r.url.query, r.url.fragment⟩,
          r.parameters⟩

theorem join_eq_bind {base reference : Text} (hbase : base ≠ []) (hreference : reference ≠ []) :
    join base reference = Target.ofText [] base >>= fun b =>
      Target.ofText b.url.scheme reference >>= fun r => .ok (joinTargets b r reference) := by
  unfold join
  rw [if_neg (mt List.isEmpty_iff.mp hbase), if_neg (mt List.isEmpty_iff.mp hreference)]
  refine bind_congr fun b => bind_congr fun r => ?_
  unfold joinTargets
  dsimp only
  split_ifs
  all_goals rfl

/-- The parts of a base. -/
def baseTarget (base : Text) : Target := targetOf (partsWith [] base)

/-- The parts of a reference, which may take its scheme from its base. -/
def referenceTarget (base reference : Text) : Target :=
  targetOf (partsWith (baseTarget base).url.scheme reference)

theorem join_eq_ok_iff {base reference t : Text} (hbase : base ≠ []) (hreference : reference ≠ []) :
    join base reference = .ok t ↔ (Accepted (authorityOf base) ∧ Accepted (authorityOf reference))
      ∧ t = joinTargets (baseTarget base) (referenceTarget base reference) reference := by
  rw [join_eq_bind hbase hreference, ofText_eq_checked]
  cases h : checked (authorityOf base) (targetOf (partsWith [] base)) with
  | error defect =>
    refine iff_of_false ?_ ?_
    · intro h'
      cases h'
    · rintro ⟨⟨haccepted, -⟩, -⟩
      rw [checked_of_accepted haccepted] at h
      cases h
  | ok b =>
    obtain ⟨haccepted, rfl⟩ := checked_eq_ok_iff.mp h
    rw [and_iff_right haccepted, ← checked_eq_ok_iff]
    show (Target.ofText (baseTarget base).url.scheme reference >>= _) = _ ↔ _
    rw [ofText_eq_checked]
    exact iff_of_eq (congrArg (· = Except.ok t) (checked_bind rfl))

theorem join_nil (reference : Text) : join [] reference = .ok reference := rfl

/-- A base that is missing leaves the reference as it is, and a missing reference the base. -/
theorem exists_join_iff (base reference : Text) : (∃ t, join base reference = .ok t)
    ↔ base = [] ∨ reference = [] ∨ Accepted (authorityOf base) ∧ Accepted (authorityOf reference) := by
  by_cases hbase : base = []
  · rw [hbase]
    exact iff_of_true ⟨_, join_nil reference⟩ (Or.inl rfl)
  rw [or_iff_right hbase]
  by_cases hreference : reference = []
  · refine iff_of_true ⟨base, ?_⟩ (Or.inl hreference)
    rw [hreference, join, if_neg (mt List.isEmpty_iff.mp hbase)]
    rfl
  rw [or_iff_right hreference]
  constructor
  · rintro ⟨t, h⟩
    exact ((join_eq_ok_iff hbase hreference).mp h).1
  · exact fun h => ⟨_, (join_eq_ok_iff hbase hreference).mpr ⟨h, rfl⟩⟩

/-! ### Canonical forms -/

theorem accepted_authorityOf_nil : Accepted (authorityOf []) := accepted_nil

/-- A text has a canonical form if its authority and that of its path may stand in a URL. -/
def Legible (t : Text) : Prop := Accepted (authorityOf t) ∧ Accepted (authorityOf (pathAt t))

theorem canonical_eq_bind (t : Text) : canonical t = split t >>= fun url =>
    (if url.path.isEmpty then .ok ("/" : Text) else join "/" url.path) >>= fun path =>
      .ok (unsplit
        ⟨url.scheme, canonicalAuthority url.scheme url.authority, path, url.query, []⟩) := by
  unfold canonical
  refine bind_congr fun url => ?_
  split_ifs
  · rfl
  · rfl

theorem exists_canonical_iff {t : Text} : (∃ u, canonical t = .ok u) ↔ Legible t := by
  rw [canonical_eq_bind]
  by_cases haccepted : Accepted (authorityOf t)
  · rw [split_eq_ok_iff.mpr ⟨haccepted, rfl⟩, Legible, and_iff_right haccepted]
    show (∃ u, ((if (pathAt t).isEmpty then _ else join "/" (pathAt t)) >>= _) = .ok u) ↔ _
    by_cases hempty : pathAt t = []
    · rw [if_pos (List.isEmpty_iff.mpr hempty), hempty]
      exact iff_of_true ⟨_, rfl⟩ accepted_authorityOf_nil
    · have hjoin := exists_join_iff "/" (pathAt t)
      rw [or_iff_right (by decide), or_iff_right hempty,
        and_iff_right (show Accepted (authorityOf "/") from ⟨by decide, by decide⟩)] at hjoin
      rw [if_neg (mt List.isEmpty_iff.mp hempty), ← hjoin]
      cases join "/" (pathAt t) with
      | error defect => simp [bind, Except.bind]
      | ok path => simp [bind, Except.bind]
  · refine iff_of_false ?_ fun h => haccepted h.1
    rintro ⟨u, h⟩
    cases hs : split t with
    | error defect =>
      rw [hs] at h
      cases h
    | ok url => exact haccepted (split_eq_ok_iff.mp hs).1

/-- A reference that is legible at its base: the authorities of both may stand in a URL, and what
they make up is legible. -/
def JoinLegible (base reference : Text) : Prop :=
  (base = [] ∨ Accepted (authorityOf base) ∧ Accepted (authorityOf reference))
    ∧ ∀ t, join base reference = .ok t → Legible t

/-- Joining and making canonical go through exactly if the reference is legible at its base. -/
theorem exists_join_canonical_iff {base reference : Text} (hreference : reference ≠ []) :
    (∃ u, (join base reference >>= canonical) = .ok u) ↔ JoinLegible base reference := by
  have hjoin := exists_join_iff base reference
  rw [or_iff_right hreference] at hjoin
  unfold JoinLegible
  rw [← hjoin]
  cases join base reference with
  | error defect =>
    refine iff_of_false ?_ ?_
    · rintro ⟨u, h⟩
      cases h
    · rintro ⟨⟨t, h⟩, -⟩
      cases h
  | ok t =>
    rw [and_iff_right ⟨t, rfl⟩]
    refine exists_canonical_iff.trans ⟨?_, fun h => h t rfl⟩
    rintro h _ ⟨⟩
    exact h

end Url

end CompileGate
