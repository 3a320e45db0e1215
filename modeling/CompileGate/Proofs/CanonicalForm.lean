/-
CompileGate/Proofs/CanonicalForm.lean

Which texts are their own canonical form.

`canonical` lowers the authority and drops one default port from its end, joins the
path with `/`, and leaves the query.  Joining takes the path for a reference of its
own (`join_root`): one that starts with `//` names an authority there, behind which
nothing is resolved, and an empty authority is dropped with its slashes.

With a host in both of them, the parts of a canonical form are the canonical parts
of the text (`split_of_canonical`).  A text with a host is therefore its own
canonical form exactly if its parts are canonical (`canonical_eq_self_iff`), and
what can be missing from a canonical form are two things (`canonical_fixed_iff`):

* its authority may end in the default port once more;
* its path may start with `//` and no authority that could stand there.
-/
import CompileGate.Proofs.LoweredAuthority

namespace CompileGate
namespace Url

/-! ### The authority -/

/-- The authority ends in the port that the scheme implies. -/
def spellsPort (url : Url) : Bool :=
  (defaultPort? url.scheme).any fun port => Text.endsWith (":" ++ Text.ofNat port) url.authority

/-- A canonical authority is in lower case throughout. -/
theorem isLower_of_mem_canonicalAuthority {scheme authority : Text} {c : CodePoint}
    (h : c ∈ canonicalAuthority scheme authority) : c.IsLower :=
  Text.isLower_of_mem_toLower (mem_toLower_of_mem_canonicalAuthority h)

/-- Lowering adds no mark. -/
theorem endsAuthority_of_mem_canonicalAuthority {scheme authority : Text}
    (h : ∀ c ∈ authority, endsAuthority c = false) :
    ∀ c ∈ canonicalAuthority scheme authority, endsAuthority c = false := by
  intro c hc
  rcases (Text.mem_toLowerAfter (mem_toLower_of_mem_canonicalAuthority hc)).2
    with hmem | ⟨hlt, -⟩
  · exact h c hmem
  · rw [← Bool.not_eq_true]
    intro hends
    simp only [endsAuthority, Bool.or_eq_true, decide_eq_true_iff] at hends
    rcases hends with (rfl | rfl) | rfl
    all_goals exact absurd hlt (by decide)

theorem toLower_canonicalAuthority (scheme authority : Text) :
    Text.toLower (canonicalAuthority scheme authority) = canonicalAuthority scheme authority :=
  Text.toLower_eq_self_iff.mpr fun _ hc => isLower_of_mem_canonicalAuthority hc

/-- The authority is canonical exactly if it is in lower case and spells no default port. -/
theorem canonicalAuthority_eq_self_iff {url : Url} :
    canonicalAuthority url.scheme url.authority = url.authority
      ↔ Text.toLower url.authority = url.authority ∧ url.spellsPort = false := by
  constructor
  · intro h
    have hlower := toLower_canonicalAuthority url.scheme url.authority
    rw [h] at hlower
    refine ⟨hlower, ?_⟩
    rw [spellsPort]
    cases hdefault : defaultPort? url.scheme with
    | none => rfl
    | some port =>
      rw [Option.any_some, Text.endsWith, Option.isSome_eq_false_iff, Option.isNone_iff_eq_none]
      rw [canonicalAuthority, hlower, hdefault] at h
      dsimp only at h
      cases hrest : Text.beforeEnd? (":" ++ Text.ofNat port) url.authority with
      | none => rfl
      | some rest =>
        -- without its port the authority is shorter than it is
        rw [hrest, Option.getD_some] at h
        have heq := beforeEnd?_eq_some hrest
        rw [h] at heq
        exact absurd (List.self_eq_append_right.mp heq) (port_ne_nil port)
  · rintro ⟨hlower, hport⟩
    rw [canonicalAuthority, hlower]
    cases hdefault : defaultPort? url.scheme with
    | none => rfl
    | some port =>
      rw [spellsPort, hdefault, Option.any_some, Text.endsWith, Option.isSome_eq_false_iff,
        Option.isNone_iff_eq_none] at hport
      dsimp only
      rw [hport]
      rfl

/-- A text with a host has parts. -/
theorem exists_split_of_hostOf {t : Text} (h : hostOf t ≠ []) :
    ∃ url, split t = .ok url ∧ url.allowKey ≠ [] := by
  unfold hostOf at h
  cases hs : split t with
  | error defect =>
    rw [hs] at h
    exact absurd rfl h
  | ok url =>
    rw [hs] at h
    exact ⟨url, rfl, h⟩

theorem authority_ne_nil {url : Url} (h : url.allowKey ≠ []) : url.authority ≠ [] := by
  intro hnil
  apply h
  unfold allowKey
  rw [hnil]
  rfl

/-- A host is left when the default port is dropped. -/
theorem canonicalAuthority_ne_nil {url : Url} (h : url.allowKey ≠ []) :
    canonicalAuthority url.scheme url.authority ≠ [] := fun hnil =>
  h (allowKey_eq_nil_iff.mpr (Or.inl (host_eq_nil_of_canonicalAuthority hnil)))

/-- What is left of an authority was there before. -/
theorem authority_ne_nil_of_canonicalAuthority {url : Url}
    (h : canonicalAuthority url.scheme url.authority ≠ []) : url.authority ≠ [] := by
  intro hnil
  rcases canonicalAuthority_cases url with ⟨port, rest, -, hauthority, -⟩ | ⟨-, hlower⟩
  · rw [hnil] at hauthority
    exact port_ne_nil port (List.append_eq_nil_iff.mp hauthority.symm).2
  · rw [hlower, hnil] at h
    exact h rfl

/-! ### A path joined with the root -/

/-- A path as it stands behind an authority. -/
structure IsPath (path : Text) : Prop where
  start : ∃ rest, path = ('/' : CodePoint) :: rest
  kept : ∀ c ∈ path, Kept c
  marks : ∀ c ∈ path, c ≠ '?' ∧ c ≠ '#'

/-- The path that is joined with the root: an empty one stands for the root itself. -/
def pathOf (url : Url) : Text := if url.path.isEmpty then "/" else url.path

/-- The path of a URL with an authority stands behind it. -/
theorem isPath_pathOf {t : Text} {url : Url} (h : split t = .ok url) (hne : url.authority ≠ []) :
    IsPath (pathOf url) := by
  have hreadable := readable_of_split h
  rcases path_of_split h hne with hnil | ⟨path, hpath⟩
  · rw [pathOf, hnil]
    exact ⟨⟨[], rfl⟩, by decide, by decide⟩
  · have hself : pathOf url = url.path := by
      rw [pathOf, hpath]
      rfl
    rw [hself]
    exact ⟨⟨path, hpath⟩, hreadable.kept.path, hreadable.path⟩

/-- What a path names, taken for a reference of its own: behind the `//` at its front stands an
authority, without which the `//` is dropped, and behind no authority the path is resolved. -/
def joinRoot (path : Text) : Text :=
  let (authority, rest) := takeAuthority path
  let (plain, parameters) := cutParameters rest
  if !authority.isEmpty then "//" ++ (authority ++ withParameters plain parameters)
  else if rest.isEmpty then "/"
  else withParameters (joinPaths "/" plain) parameters

theorem joinRoot_eq {path authority rest plain parameters : Text}
    (htake : takeAuthority path = (authority, rest))
    (hcut : cutParameters rest = (plain, parameters)) : joinRoot path
      = if !authority.isEmpty then "//" ++ (authority ++ withParameters plain parameters)
        else if rest.isEmpty then "/" else withParameters (joinPaths "/" plain) parameters := by
  rw [joinRoot, htake]
  dsimp only
  rw [hcut]

/-- The authority of a path and what follows it. -/
theorem takeAuthority_path {path : Text} (h : IsPath path) :
    (∃ authority rest, path = "//" ++ (authority ++ rest)
        ∧ takeAuthority path = (authority, rest)
        ∧ (∀ c ∈ authority, endsAuthority c = false)
        ∧ (rest = [] ∨ ∃ more, rest = ('/' : CodePoint) :: more))
      ∨ Text.startsWith "//" path = false ∧ takeAuthority path = ([], path) := by
  cases hstart : Text.afterStart? "//" path with
  | none =>
    right
    rw [Text.startsWith, takeAuthority, hstart]
    exact ⟨rfl, rfl⟩
  | some more =>
    left
    have hpath := Text.eq_append_of_afterStart? hstart
    obtain ⟨authority, rest, hspan⟩ : ∃ authority rest,
        more.span (fun c => !endsAuthority c) = (authority, rest) := ⟨_, _, rfl⟩
    obtain ⟨rfl, hauthority, hrest⟩ := span_eq_iff.mp hspan
    refine ⟨authority, rest, hpath, ?_, ?_, ?_⟩
    · rw [takeAuthority, hstart]
      exact hspan
    · intro c hc
      simpa using hauthority c hc
    · cases rest with
      | nil => exact Or.inl rfl
      | cons c rest =>
        -- of the marks that end an authority only the slash is one of a path
        have hc : endsAuthority c = true := by simpa using hrest c rfl
        have hmarks := h.marks c (by rw [hpath]; simp)
        simp only [endsAuthority, Bool.or_eq_true, decide_eq_true_iff] at hc
        rcases hc with (rfl | hc) | hc
        · exact Or.inr ⟨rest, rfl⟩
        · exact absurd hc hmarks.1
        · exact absurd hc hmarks.2

/-- What follows the authority of a path is empty or starts with a slash. -/
theorem rest_of_takeAuthority {path authority rest : Text} (h : IsPath path)
    (htake : takeAuthority path = (authority, rest)) :
    rest = [] ∨ ∃ more, rest = ('/' : CodePoint) :: more := by
  rcases takeAuthority_path h with ⟨authority', rest', -, htake', -, hrest⟩ | ⟨-, htake'⟩
  · rw [htake] at htake'
    rw [(Prod.mk.inj htake').2]
    exact hrest
  · rw [htake] at htake'
    rw [(Prod.mk.inj htake').2]
    exact Or.inr h.start

/-- A path has no scheme and no marks: it is an authority, if it begins with `//`, and a path. -/
theorem splitWith_path {path : Text} (h : IsPath path) : splitWith [] path
    = checked (takeAuthority path).1
      ⟨[], (takeAuthority path).1, (takeAuthority path).2, [], []⟩ := by
  have hclean : clean path = path := by
    apply clean_eq_self h.kept
    obtain ⟨rest, rfl⟩ := h.start
    rintro c ⟨⟩
    decide
  have hscheme : takeScheme? path = none := by
    obtain ⟨rest, rfl⟩ := h.start
    exact takeScheme?_slash rest
  have hmarks : ∀ c ∈ (takeAuthority path).2, c ≠ '?' ∧ c ≠ '#' := fun c hc =>
    h.marks c (mem_of_mem_takeAuthority.2 hc)
  -- nothing is cut off at either mark
  have hhash : cutAt '#' (takeAuthority path).2 = ((takeAuthority path).2, []) :=
    cutAt_of_not_mem fun hmem => (hmarks _ hmem).2 rfl
  have hquestion : cutAt '?' (takeAuthority path).2 = ((takeAuthority path).2, []) :=
    cutAt_of_not_mem fun hmem => (hmarks _ hmem).1 rfl
  unfold splitWith checked
  dsimp only
  rw [hclean, hscheme]
  dsimp only [Option.getD_none]
  rw [hhash]
  dsimp only
  rw [hquestion]

/-- A path that is empty or begins with a slash gets none. -/
theorem rooted_eq_self {path : Text} (h : path = [] ∨ ∃ more, path = ('/' : CodePoint) :: more) :
    rooted path = path := by
  rcases h with rfl | ⟨more, rfl⟩
  · rfl
  · rfl

/-- Cutting off the parameters leaves the slash at the front. -/
theorem cutParameters_slash {rest plain parameters : Text}
    (h : cutParameters (('/' : CodePoint) :: rest) = (plain, parameters)) :
    ∃ more, plain = ('/' : CodePoint) :: more := by
  obtain ⟨plain', parameters', hcut, -, -, heq⟩ := cutParameters_spec (('/' : CodePoint) :: rest)
  rw [h] at hcut
  obtain ⟨rfl, rfl⟩ := Prod.mk.inj hcut
  rcases heq with ⟨heq, -⟩ | heq
  · exact ⟨rest, heq.symm⟩
  · cases plain with
    | nil => exact absurd (List.cons.inj heq).1 (by decide)
    | cons c more => exact ⟨more, by rw [← (List.cons.inj heq).1]⟩

/-- Parameters are put back at the end and leave the slash at the front. -/
theorem withParameters_slash (more parameters : Text) : ∃ more',
    withParameters (('/' : CodePoint) :: more) parameters = ('/' : CodePoint) :: more' := by
  unfold withParameters
  split
  · exact ⟨more, rfl⟩
  · exact ⟨more ++ ";" ++ parameters, rfl⟩

/-- What was cut apart begins as before when it is put together. -/
theorem withParameters_of_cut {rest plain parameters : Text}
    (hrest : rest = [] ∨ ∃ more, rest = ('/' : CodePoint) :: more)
    (hcut : cutParameters rest = (plain, parameters)) : withParameters plain parameters = []
      ∨ ∃ more, withParameters plain parameters = ('/' : CodePoint) :: more := by
  rcases hrest with rfl | ⟨more, rfl⟩
  · obtain ⟨rfl, rfl⟩ : [] = plain ∧ [] = parameters := Prod.mk.inj hcut
    exact Or.inl rfl
  · obtain ⟨more', rfl⟩ := cutParameters_slash hcut
    exact Or.inr (withParameters_slash more' parameters)

/-- A target is written as a URL whose path has its parameters back. -/
theorem toText_eq (target : Target) : target.toText
    = unsplit { target.url with path := withParameters target.url.path target.parameters } := by
  unfold Target.toText withParameters
  split
  · rfl
  · rfl

theorem unsplit_path (path : Text) : unsplit ⟨[], [], path, [], []⟩ = path := by
  simp [unsplit]

/-- Joining a path with the root makes a reference of it, whose authority is checked. -/
theorem join_root {path : Text} (h : IsPath path) :
    join "/" path = checked (takeAuthority path).1 (joinRoot path) := by
  obtain ⟨authority, rest, htake⟩ : ∃ authority rest, takeAuthority path = (authority, rest) :=
    ⟨_, _, rfl⟩
  obtain ⟨plain, parameters, hcut, -⟩ := cutParameters_spec rest
  have hsplit := splitWith_path h
  rw [htake] at hsplit ⊢
  have hbase : Target.ofText [] "/" = .ok ⟨⟨[], [], "/", [], []⟩, []⟩ := rfl
  have hreference : Target.ofText [] path
      = checked authority ⟨⟨[], authority, plain, [], []⟩, parameters⟩ := by
    unfold Target.ofText
    rw [hsplit]
    apply checked_bind
    dsimp only
    rw [if_pos (by decide), hcut]
    rfl
  have hpath : path.isEmpty = false := by
    obtain ⟨more, rfl⟩ := h.start
    rfl
  unfold join
  rw [if_neg (by decide), hpath, if_neg Bool.false_ne_true, hbase]
  show (Target.ofText [] path >>= _) = _
  rw [hreference]
  apply checked_bind
  -- without a scheme everything that depends on one is allowed
  have hrelative : relativeSchemes.contains ([] : Text) = true := by decide
  have hscheme : authoritySchemes.contains ([] : Text) = true := by decide
  simp only [ne_eq, not_true_eq_false, decide_false, hrelative, hscheme, Bool.not_true,
    Bool.or_false, Bool.true_and, Bool.false_eq_true, if_false, if_true]
  have hrest := rest_of_takeAuthority h htake
  rw [joinRoot_eq htake hcut]
  -- the path is resolved where no authority stands before it
  cases authority with
  | nil =>
    rcases hrest with rfl | ⟨more, rfl⟩
    · obtain ⟨rfl, rfl⟩ : [] = plain ∧ [] = parameters := Prod.mk.inj hcut
      rfl
    · obtain ⟨more', rfl⟩ := cutParameters_slash hcut
      exact congrArg Except.ok ((toText_eq _).trans (unsplit_path _))
  | cons c authority =>
    rw [List.isEmpty_cons, Bool.not_false, if_pos rfl, if_pos rfl, toText_eq,
      unsplit_of_authority _ (List.cons_ne_nil c authority),
      rooted_eq_self (withParameters_of_cut hrest hcut)]
    simp only [marked, List.isEmpty_nil, if_true, List.nil_append, List.append_nil]
    rfl

theorem startsWith_slash (more : Text) :
    Text.startsWith "/" (('/' : CodePoint) :: more) = true := rfl

/-- A semicolon is all that is added. -/
theorem forall_mem_withParameters {p : CodePoint → Prop} (hmark : p ';') {plain parameters : Text}
    (hplain : ∀ c ∈ plain, p c) (hparameters : ∀ c ∈ parameters, p c) :
    ∀ c ∈ withParameters plain parameters, p c := by
  by_cases hnil : parameters = []
  · rw [hnil]
    exact hplain
  · rw [withParameters_of_ne_nil hnil, List.forall_mem_append, List.forall_mem_cons]
    exact ⟨hplain, hmark, hparameters⟩

/-- Joining with the root adds slashes and a semicolon at the most. -/
theorem forall_mem_joinRoot {p : CodePoint → Prop} (hslash : p '/') (hmark : p ';') {path : Text}
    (h : ∀ c ∈ path, p c) : ∀ c ∈ joinRoot path, p c := by
  have hroot : ∀ c ∈ ("/" : Text), p c := List.forall_mem_singleton.mpr hslash
  have hslashes : ∀ c ∈ ("//" : Text), p c :=
    List.forall_mem_cons.mpr ⟨hslash, List.forall_mem_singleton.mpr hslash⟩
  have hauthority : ∀ c ∈ (takeAuthority path).1, p c := fun c hc =>
    h c (mem_of_mem_takeAuthority.1 hc)
  have hrest : ∀ c ∈ (takeAuthority path).2, p c := fun c hc => h c (mem_of_mem_takeAuthority.2 hc)
  obtain ⟨hplain, hparameters⟩ := forall_mem_cutParameters hroot hrest
  unfold joinRoot
  dsimp only
  split
  · rw [List.forall_mem_append, List.forall_mem_append]
    exact ⟨hslashes, hauthority, forall_mem_withParameters hmark hplain hparameters⟩
  · split
    · exact hroot
    · exact forall_mem_withParameters hmark (forall_mem_joinPaths hroot hroot hplain) hparameters

/-! ### Paths that stay as they are -/

/-- A `//` at the front of the path stays there: an authority follows it. -/
def KeepsSlashes (path : Text) : Prop :=
  Text.startsWith "//" path = true →
    (takeAuthority path).1 ≠ [] ∧ Accepted (takeAuthority path).1

/-- A path in its canonical form: it has a slash at its front and no `;` without parameters at its
end, its `//` at the front stays, and without one it has no segment `.` or `..`. -/
structure NormalPath (path : Text) : Prop where
  start : ∃ rest, path = ('/' : CodePoint) :: rest
  parameters : withParameters (cutParameters (takeAuthority path).2).1
    (cutParameters (takeAuthority path).2).2 = (takeAuthority path).2
  slashes : KeepsSlashes path
  segments : Text.startsWith "//" path = false →
    ∀ s ∈ Text.splitOn '/' (cutParameters path).1, ¬ IsDots s

/-- A slash is put before the plain path or before the whole, which is the same. -/
theorem rooted_withParameters {path : Text} (h : path ≠ []) (parameters : Text) :
    rooted (withParameters path parameters) = withParameters (rooted path) parameters := by
  by_cases hnil : parameters = []
  · rw [hnil]
    rfl
  · rw [withParameters_of_ne_nil hnil, withParameters_of_ne_nil hnil]
    obtain ⟨c, more, rfl⟩ := List.exists_cons_of_ne_nil h
    by_cases hc : c = '/'
    · rw [hc]
      rfl
    · have hstart : ∀ t : Text, Text.startsWith "/" (c :: t) = false := by
        intro t
        show (Text.afterStart? ['/'] (c :: t)).isSome = false
        rw [Text.afterStart?, if_neg hc]
        rfl
      rw [rooted, rooted, List.cons_append, hstart, hstart]
      rfl

theorem rooted_rooted (path : Text) : rooted (rooted path) = rooted path :=
  rooted_eq_self (rooted_eq_nil_or path)

theorem unsplit_rooted (url : Url) (h : url.authority ≠ []) :
    unsplit { url with path := rooted url.path } = unsplit url := by
  rw [unsplit_of_authority url h,
    unsplit_of_authority { url with path := rooted url.path } h, rooted_rooted]

/-- The slash at the front parts an empty segment off. -/
theorem splitOn_slash (path : Text) :
    Text.splitOn '/' (('/' : CodePoint) :: path) = [] :: Text.splitOn '/' path := by
  rw [Text.splitOn, if_pos rfl]

/-- A slash at the front does not touch the last segment. -/
theorem plain_rooted {path : Text} (h : Plain path) : Plain (rooted path) := by
  rcases rooted_eq_or path with e | e
  · rw [e]
    exact h
  · rw [e]
    exact h.slash_cons

/-- It adds no dots either. -/
theorem not_isDots_rooted {path : Text} (h : ∀ s ∈ Text.splitOn '/' path, ¬ IsDots s) :
    ∀ s ∈ Text.splitOn '/' (rooted path), ¬ IsDots s := by
  rcases rooted_eq_or path with e | e
  · rw [e]
    exact h
  · rw [e, splitOn_slash]
    exact List.forall_mem_cons.mpr ⟨not_isDots_nil, h⟩

/-- A path that is not empty begins with a slash after that. -/
theorem exists_slash_rooted {path : Text} (h : path ≠ []) :
    ∃ more, rooted path = ('/' : CodePoint) :: more := by
  refine (rooted_eq_nil_or path).resolve_left fun hnil => ?_
  rcases rooted_eq_or path with e | e
  · exact h (e.symm.trans hnil)
  · exact List.cons_ne_nil _ _ (e.symm.trans hnil)

section JoinRoot

variable {path rest plain parameters : Text}

/-- Without an authority, a path is resolved. -/
theorem rooted_joinRoot_of_slash {more : Text}
    (htake : takeAuthority path = ([], ('/' : CodePoint) :: more))
    (hcut : cutParameters (('/' : CodePoint) :: more) = (plain, parameters)) :
    rooted (joinRoot path) = withParameters (rooted (joinPaths "/" plain)) parameters := by
  obtain ⟨plain', parameters', hcut', hplain, -, -⟩ :=
    cutParameters_spec (('/' : CodePoint) :: more)
  rw [hcut] at hcut'
  obtain ⟨rfl, rfl⟩ := Prod.mk.inj hcut'
  obtain ⟨more', rfl⟩ := cutParameters_slash hcut
  obtain ⟨-, -, -, hne, -⟩ := exists_pieces_joinPaths "/" (startsWith_slash more') hplain
  rw [joinRoot_eq htake hcut]
  exact rooted_withParameters hne parameters

/-- What is resolved has a slash at its front and no segment `.` or `..`. -/
theorem exists_resolved (h : IsPath path) (htake : takeAuthority path = ([], rest)) :
    ∃ plain parameters, rooted (joinRoot path) = withParameters plain parameters
      ∧ Plain plain ∧ ('/' : CodePoint) ∉ parameters ∧ (∃ more, plain = ('/' : CodePoint) :: more)
      ∧ ∀ s ∈ Text.splitOn '/' plain, ¬ IsDots s := by
  rcases rest_of_takeAuthority h htake with rfl | ⟨more, rfl⟩
  · have hroot : rooted (joinRoot path) = "/" := by
      rw [joinRoot_eq htake cutParameters_nil]
      rfl
    exact ⟨"/", [], hroot, .below [] List.not_mem_nil List.not_mem_nil, List.not_mem_nil,
      ⟨[], rfl⟩, by decide⟩
  · obtain ⟨plain, parameters, hcut, hplain, hslash, -⟩ :=
      cutParameters_spec (('/' : CodePoint) :: more)
    obtain ⟨more', rfl⟩ := cutParameters_slash hcut
    have hstart := startsWith_slash more'
    obtain ⟨-, -, -, hne, -⟩ := exists_pieces_joinPaths "/" hstart hplain
    exact ⟨_, parameters, rooted_joinRoot_of_slash htake hcut,
      plain_rooted (plain_joinPaths "/" hstart hplain), hslash, exists_slash_rooted hne,
      not_isDots_rooted (not_isDots_joinPaths "/" hstart hplain)⟩

/-- Behind an authority of its own, a path stays as it is, but for a `;` at its end. -/
theorem rooted_joinRoot_of_authority {authority : Text} (hne : authority ≠ [])
    (htake : takeAuthority path = (authority, rest))
    (hcut : cutParameters rest = (plain, parameters)) :
    rooted (joinRoot path) = "//" ++ (authority ++ withParameters plain parameters) := by
  rw [joinRoot_eq htake hcut, if_pos (by simpa using hne)]
  rfl

/-- A `//` with no authority behind it does not stay. -/
theorem rooted_joinRoot_ne_of_slashes (h : IsPath path) (hpath : path = "//" ++ rest)
    (htake : takeAuthority path = ([], rest)) : rooted (joinRoot path) ≠ path := by
  intro hself
  rcases rest_of_takeAuthority h htake with rfl | ⟨more, rfl⟩
  · -- two slashes alone are resolved to one
    rw [joinRoot_eq htake cutParameters_nil, hpath] at hself
    exact absurd hself (by decide)
  · obtain ⟨resolved, parameters', hroot, hresolved, hslash', -, hdots⟩ := exists_resolved h htake
    obtain ⟨plain, parameters, hcut, hplain, hslash, heq⟩ :=
      cutParameters_spec (('/' : CodePoint) :: more)
    obtain ⟨more', rfl⟩ := cutParameters_slash hcut
    -- the path cut twice: as what it was resolved to, and as two slashes and the rest
    have hcutSelf : cutParameters path = (resolved, parameters') := by
      rw [← hself, hroot]
      exact cutParameters_withParameters hresolved hslash'
    have hcutPath : cutParameters path = ("//" ++ ('/' : CodePoint) :: more', parameters) := by
      have hplain' := hplain.append "//"
      rcases heq with ⟨heq, rfl⟩ | heq
      · rw [hpath, heq]
        exact cutParameters_of_plain hplain'
      · rw [hpath, heq, ← List.append_assoc]
        exact cutParameters_append hplain' hslash
    rw [hcutSelf] at hcutPath
    obtain ⟨rfl, rfl⟩ := Prod.mk.inj hcutPath
    have hdots' : ∀ s ∈ Text.splitOn '/' (('/' : CodePoint) :: more'), ¬ IsDots s := by
      intro s hs
      apply hdots
      show s ∈ Text.splitOn '/' (('/' : CodePoint) :: ('/' : CodePoint) :: _)
      rw [splitOn_slash ('/' :: _), splitOn_slash]
      exact List.mem_cons_of_mem _ (List.mem_cons_of_mem _ hs)
    -- nothing is resolved, so the two slashes are gone
    rw [rooted_joinRoot_of_slash htake hcut,
      joinPaths_eq_self "/" (startsWith_slash more') hdots'] at hself
    have hcutSelf' : cutParameters path = (('/' : CodePoint) :: more', parameters') := by
      rw [← hself]
      exact cutParameters_withParameters hplain hslash
    rw [hcutSelf] at hcutSelf'
    have hlength := congrArg List.length (Prod.mk.inj hcutSelf').1
    rw [List.length_append] at hlength
    exact absurd (List.length_eq_zero_iff.mp (by omega)) (show ("//" : Text) ≠ [] by decide)

end JoinRoot

/-- A path is its own canonical form exactly if it is normal. -/
theorem rooted_joinRoot_eq_self_iff {path : Text} (h : IsPath path) :
    Accepted (takeAuthority path).1 ∧ rooted (joinRoot path) = path ↔ NormalPath path := by
  rcases takeAuthority_path h with ⟨authority, rest, hpath, htake, hends, hrest⟩ | ⟨hstart, htake⟩
  · obtain ⟨plain, parameters, hcut, -⟩ := cutParameters_spec rest
    -- two slashes at the front: then an authority has to follow, and the path behind it is kept
    have hstart : Text.startsWith "//" path = true := by
      rw [hpath]
      rfl
    rw [htake]
    constructor
    · rintro ⟨haccepted, hself⟩
      have hne : authority ≠ [] := by
        rintro rfl
        exact rooted_joinRoot_ne_of_slashes h hpath htake hself
      rw [rooted_joinRoot_of_authority hne htake hcut, hpath] at hself
      have hwith : withParameters plain parameters = rest :=
        List.append_cancel_left (List.append_cancel_left hself)
      refine ⟨h.start, ?_, ?_, ?_⟩
      · rw [htake, hcut]
        exact hwith
      · intro _
        rw [htake]
        exact ⟨hne, haccepted⟩
      · intro hfalse
        rw [hstart] at hfalse
        cases hfalse
    · intro hnormal
      obtain ⟨hne, haccepted⟩ := hnormal.slashes hstart
      have hwith := hnormal.parameters
      rw [htake] at hne haccepted hwith
      rw [hcut] at hwith
      refine ⟨haccepted, ?_⟩
      rw [rooted_joinRoot_of_authority hne htake hcut, hpath]
      exact congrArg (fun rest => "//" ++ (authority ++ rest)) hwith
  · -- one slash: the path is resolved, and normal paths are those that this leaves alone
    rw [htake]
    constructor
    · rintro ⟨-, hself⟩
      obtain ⟨plain, parameters, hroot, hplain, hslash, -, hdots⟩ := exists_resolved h htake
      rw [hself] at hroot
      have hcut : cutParameters path = (plain, parameters) := by
        rw [hroot]
        exact cutParameters_withParameters hplain hslash
      refine ⟨h.start, ?_, ?_, ?_⟩
      · rw [htake, hcut]
        exact hroot.symm
      · intro htrue
        rw [hstart] at htrue
        cases htrue
      · intro _
        rw [hcut]
        exact hdots
    · intro hnormal
      refine ⟨accepted_nil, ?_⟩
      obtain ⟨plain, parameters, hcut, -⟩ := cutParameters_spec path
      have hwith := hnormal.parameters
      have hdots := hnormal.segments hstart
      rw [htake, hcut] at hwith
      rw [hcut] at hdots
      obtain ⟨more, rfl⟩ := h.start
      obtain ⟨more', rfl⟩ := cutParameters_slash hcut
      rw [rooted_joinRoot_of_slash htake hcut, joinPaths_eq_self "/" (startsWith_slash more') hdots]
      exact hwith

/-- A path with its parameters in place does not end in a `;` without parameters. -/
theorem parameters_ne_nil {plain parameters plain' parameters' authority : Text}
    (hplain : Plain plain) (hslash : ('/' : CodePoint) ∉ parameters) (hplain' : Plain plain')
    (hrest : plain' ++ (';' : CodePoint) :: parameters' = []
      ∨ ∃ more, plain' ++ (';' : CodePoint) :: parameters' = ('/' : CodePoint) :: more)
    (hpath : withParameters plain parameters
      = "//" ++ (authority ++ (plain' ++ (';' : CodePoint) :: parameters'))) :
    parameters' ≠ [] := by
  rintro rfl
  obtain ⟨more, rfl⟩ : ∃ more, plain' = ('/' : CodePoint) :: more := by
    rcases hrest with hnil | ⟨more, hmore⟩
    · simp at hnil
    · cases plain' with
      | nil => exact absurd (List.cons.inj hmore).1 (by decide)
      | cons c plain' => exact ⟨plain', by rw [(List.cons.inj hmore).1]⟩
  have hwhole : withParameters plain parameters
      = "//" ++ authority ++ ('/' : CodePoint) :: more ++ [(';' : CodePoint)] := by
    rw [hpath]
    simp
  -- cut in both ways, the path is the part before the `;` as well
  have hcut := cutParameters_withParameters hplain hslash
  rw [hwhole, cutParameters_append (hplain'.append _) List.not_mem_nil] at hcut
  obtain ⟨rfl, rfl⟩ := Prod.mk.inj hcut
  rw [withParameters_nil] at hwhole
  exact absurd (List.self_eq_append_right.mp hwhole) (List.cons_ne_nil _ _)

/-- A canonical path stands behind an authority like the path that it was made of. -/
theorem isPath_rooted_joinRoot {path : Text} (h : IsPath path) :
    IsPath (rooted (joinRoot path)) := by
  refine ⟨?_, forall_mem_rooted (by decide) (forall_mem_joinRoot (by decide) (by decide) h.kept),
    forall_mem_rooted (by decide) (forall_mem_joinRoot (by decide) (by decide) h.marks)⟩
  obtain ⟨authority, rest, htake⟩ : ∃ authority rest, takeAuthority path = (authority, rest) :=
    ⟨_, _, rfl⟩
  cases authority with
  | nil =>
    obtain ⟨_, parameters, heq, -, -, ⟨more, rfl⟩, -⟩ := exists_resolved h htake
    rw [heq]
    exact withParameters_slash more parameters
  | cons c authority =>
    obtain ⟨plain, parameters, hcut, -⟩ := cutParameters_spec rest
    rw [rooted_joinRoot_of_authority (List.cons_ne_nil c authority) htake hcut]
    exact ⟨_, rfl⟩

/-- The canonical form of a path is normal exactly if the `//` at its front stays. -/
theorem normalPath_rooted_joinRoot_iff {path : Text} (h : IsPath path) :
    NormalPath (rooted (joinRoot path)) ↔ KeepsSlashes (rooted (joinRoot path)) := by
  refine ⟨NormalPath.slashes, fun hkeeps => ?_⟩
  have hroot := isPath_rooted_joinRoot h
  by_cases hne : (takeAuthority path).1 = []
  · obtain ⟨plain, parameters, heq, hplain, hslash, -, hdots⟩ := exists_resolved h
      (show takeAuthority path = ([], (takeAuthority path).2) by rw [← hne])
    rw [heq] at hroot hkeeps ⊢
    have hcut := cutParameters_withParameters hplain hslash
    rcases takeAuthority_path hroot with
      ⟨authority, rest, hpath, htake, -, hrest⟩ | ⟨hstart, htake⟩
    · -- resolving can bring an authority to the front
      obtain ⟨plain', parameters', hcut', hplain', hslash', hor⟩ := cutParameters_spec rest
      refine ⟨hroot.start, ?_, hkeeps, fun hfalse => ?_⟩
      · rw [htake, hcut']
        rcases hor with ⟨rfl, rfl⟩ | rfl
        · rfl
        · by_cases hnil : parameters' = []
          · exact absurd hnil (parameters_ne_nil hplain hslash hplain' hrest hpath)
          · exact withParameters_of_ne_nil hnil
      · rw [hpath] at hfalse
        cases hfalse
    · refine ⟨hroot.start, ?_, hkeeps, fun _ => ?_⟩
      · rw [htake, hcut]
      · rw [hcut]
        exact hdots
  · -- an authority at the front of the path stays there, and what follows it is put together again
    rcases takeAuthority_path h with ⟨authority, rest, -, htake, hends, hrest⟩ | ⟨-, htake⟩
    · rw [htake] at hne
      obtain ⟨plain, parameters, hcut, hplain, hslash, -⟩ := cutParameters_spec rest
      rw [rooted_joinRoot_of_authority hne htake hcut] at hroot hkeeps ⊢
      have htake' : takeAuthority ("//" ++ (authority ++ withParameters plain parameters))
          = (authority, withParameters plain parameters) := by
        apply takeAuthority_append hends
        intro c hc
        rcases withParameters_of_cut hrest hcut with hnil | ⟨more, hmore⟩
        · rw [hnil] at hc
          cases hc
        · rw [hmore] at hc
          obtain rfl : ('/' : CodePoint) = c := Option.some.inj hc
          rfl
      refine ⟨hroot.start, ?_, hkeeps, fun hfalse => ?_⟩
      · rw [htake', cutParameters_withParameters hplain hslash]
      · cases hfalse
    · rw [htake] at hne
      exact absurd rfl hne

/-! ### The parts of a canonical form -/

/-- The parts that make up the canonical form of the text of some parts. -/
def canonicalParts (url : Url) : Url :=
  ⟨url.scheme, canonicalAuthority url.scheme url.authority, joinRoot (pathOf url), url.query, []⟩

variable {t u : Text} {url : Url}

/-- The canonical form is put together from the canonical parts, if the `//` of its path names no
authority that is refused. -/
theorem canonical_eq (hs : split t = .ok url) (hne : url.authority ≠ []) : canonical t
    = checked (takeAuthority (pathOf url)).1 (unsplit (canonicalParts url)) := by
  have hpath := isPath_pathOf hs hne
  have hunfold : canonical t = if url.path.isEmpty
      then .ok (unsplit { canonicalParts url with path := "/" })
      else join "/" url.path >>= fun path =>
        .ok (unsplit { canonicalParts url with path := path }) := by
    unfold canonical
    rw [hs]
    rfl
  rw [hunfold]
  by_cases hempty : url.path.isEmpty = true
  · -- an empty path is not joined
    have hroot : pathOf url = "/" := if_pos hempty
    rw [if_pos hempty, canonicalParts, hroot]
    rfl
  · have hself : pathOf url = url.path := if_neg hempty
    rw [hself] at hpath
    rw [if_neg hempty, hself, join_root hpath]
    apply checked_bind
    rw [canonicalParts, hself]

/-- The canonical parts hold no mark that would end them. -/
theorem readable_canonicalParts (hs : split t = .ok url) (hne : url.authority ≠ []) :
    (canonicalParts url).Readable := by
  have hreadable := readable_of_split hs
  have hpath := isPath_pathOf hs hne
  refine ⟨hreadable.scheme, endsAuthority_of_mem_canonicalAuthority hreadable.authority, ?_,
    hreadable.query, ?_⟩
  · exact forall_mem_joinRoot (by decide) (by decide) hpath.marks
  · exact ⟨hreadable.kept.scheme, closed_kept.of_canonicalAuthority hreadable.kept.authority,
      forall_mem_joinRoot (by decide) (by decide) hpath.kept, hreadable.kept.query, by
        intro c hc
        cases hc⟩

/-- Where something is left of the authority, the canonical form is taken apart into the canonical
parts, if their authority may stand in a URL. -/
theorem split_of_canonicalAuthority (hs : split t = .ok url) (hcanonical : canonical t = .ok u)
    (hleft : canonicalAuthority url.scheme url.authority ≠ []) :
    split u = checked (canonicalAuthority url.scheme url.authority)
      { canonicalParts url with path := rooted (joinRoot (pathOf url)) } := by
  have hne := authority_ne_nil_of_canonicalAuthority hleft
  rw [canonical_eq hs hne] at hcanonical
  obtain ⟨-, rfl⟩ := checked_eq_ok_iff.mp hcanonical
  exact split_unsplit (readable_canonicalParts hs hne) hleft

/-- **The parts of a canonical form.**  Where both texts have a host, the canonical form of a text
is taken apart into the canonical parts of the text, with a slash before the path. -/
theorem split_of_canonical (hs : split t = .ok url) (hkey : url.allowKey ≠ [])
    (hcanonical : canonical t = .ok u) (hhost : hostOf u ≠ []) :
    u = unsplit (canonicalParts url) ∧ Accepted (takeAuthority (pathOf url)).1
      ∧ split u = .ok { canonicalParts url with path := rooted (joinRoot (pathOf url)) } := by
  have hne := authority_ne_nil hkey
  rw [canonical_eq hs hne] at hcanonical
  obtain ⟨haccepted, rfl⟩ := checked_eq_ok_iff.mp hcanonical
  refine ⟨rfl, haccepted, ?_⟩
  obtain ⟨url', hs', -⟩ := exists_split_of_hostOf hhost
  have hsplit := split_unsplit (readable_canonicalParts hs hne) (canonicalAuthority_ne_nil hkey)
  rw [hs'] at hsplit ⊢
  rw [(checked_eq_ok_iff.mp hsplit.symm).2]
  rfl

/-! ### Texts that stay as they are -/

/-- Parts as a canonical form has them: an authority in lower case that spells no default port, a
normal path, and no fragment. -/
structure IsCanonical (url : Url) : Prop where
  lower : Text.toLower url.authority = url.authority
  noPort : url.spellsPort = false
  path : NormalPath url.path
  fragment : url.fragment = []

/-- A text in canonical form: put together from canonical parts. -/
def InCanonicalForm (t : Text) : Prop :=
  ∃ url, split t = .ok url ∧ unsplit url = t ∧ url.IsCanonical

/-- **The fixed points of canonicalisation.**  A text with a host is its own canonical form exactly
if it is in canonical form. -/
theorem canonical_eq_self_iff (hhost : hostOf t ≠ []) :
    canonical t = .ok t ↔ InCanonicalForm t := by
  obtain ⟨url, hs, hkey⟩ := exists_split_of_hostOf hhost
  have hne := authority_ne_nil hkey
  have hpath := isPath_pathOf hs hne
  constructor
  · intro hcanonical
    obtain ⟨hself, haccepted, hs'⟩ := split_of_canonical hs hkey hcanonical hhost
    rw [hs] at hs'
    have hurl := Except.ok.inj hs'
    -- the parts are the canonical ones, one by one
    have hauthority : url.authority = canonicalAuthority url.scheme url.authority :=
      congrArg Url.authority hurl
    have hroot : url.path = rooted (joinRoot (pathOf url)) := congrArg Url.path hurl
    have hpathOf : pathOf url = url.path := by
      obtain ⟨more, hmore⟩ := (isPath_rooted_joinRoot hpath).start
      rw [pathOf, hroot, hmore]
      rfl
    obtain ⟨hlower, hport⟩ := canonicalAuthority_eq_self_iff.mp hauthority.symm
    refine ⟨url, hs, ?_, hlower, hport, ?_, congrArg Url.fragment hurl⟩
    · have hspelled := unsplit_rooted (canonicalParts url) (canonicalAuthority_ne_nil hkey)
      exact ((congrArg unsplit hurl).trans hspelled).trans hself.symm
    · rw [hpathOf] at hpath haccepted hroot
      exact (rooted_joinRoot_eq_self_iff hpath).mp ⟨haccepted, hroot.symm⟩
  · rintro ⟨url', hs', hspelled, hurl⟩
    rw [hs] at hs'
    obtain rfl := Except.ok.inj hs'
    have hpathOf : pathOf url = url.path := by
      obtain ⟨more, hmore⟩ := hurl.path.start
      rw [pathOf, hmore]
      rfl
    have hauthority := canonicalAuthority_eq_self_iff.mpr ⟨hurl.lower, hurl.noPort⟩
    rw [hpathOf] at hpath
    obtain ⟨haccepted, hroot⟩ := (rooted_joinRoot_eq_self_iff hpath).mpr hurl.path
    rw [canonical_eq hs hne, hpathOf, checked_of_accepted haccepted,
      ← unsplit_rooted (canonicalParts url) (canonicalAuthority_ne_nil hkey), canonicalParts,
      hpathOf]
    dsimp only
    rw [hauthority, hroot, ← hurl.fragment, hspelled]

/-- **What is missing from a canonical form.**  The canonical form of a text with a host is its own
canonical form exactly if its authority does not end in the default port once more and the `//` at
the front of its path, if any, stays. -/
theorem canonical_fixed_iff (hhost : hostOf t ≠ []) (hcanonical : canonical t = .ok u)
    (hhost' : hostOf u ≠ []) : canonical u = .ok u
      ↔ ∀ url, split u = .ok url → url.spellsPort = false ∧ KeepsSlashes url.path := by
  obtain ⟨url, hs, hkey⟩ := exists_split_of_hostOf hhost
  have hpath := isPath_pathOf hs (authority_ne_nil hkey)
  obtain ⟨hself, -, hs'⟩ := split_of_canonical hs hkey hcanonical hhost'
  rw [canonical_eq_self_iff hhost']
  constructor
  · rintro ⟨url', hurl', -, hcanonical'⟩ url'' hurl''
    rw [hurl'] at hurl''
    obtain rfl := Except.ok.inj hurl''
    exact ⟨hcanonical'.noPort, hcanonical'.path.slashes⟩
  · intro h
    obtain ⟨hport, hslashes⟩ := h _ hs'
    refine ⟨_, hs', ?_, toLower_canonicalAuthority _ _, hport,
      (normalPath_rooted_joinRoot_iff hpath).mpr hslashes, rfl⟩
    rw [hself]
    exact unsplit_rooted (canonicalParts url) (canonicalAuthority_ne_nil hkey)

end Url

end CompileGate
