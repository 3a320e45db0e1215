/-
CompileGate/Proofs/ShortForms.lean

The two short forms of import specifiers, as grammars.

    github:owner/repo@ref/path
    [@scope/]name[@version]/path

`PackageForm` and `GithubForm` are the texts of these shapes, each with its parts and
the proofs that the parts hold no mark that ends them.  The marks `@` and `/` are shared:
a version may hold `@`, and a path both.  Yet a text has one decomposition only
(`PackageForm.eq_of_text_eq`, `GithubForm.eq_of_text_eq`), because every part but the path
runs up to the first mark that it may not hold, and which mark that is tells what follows.
The readers find that decomposition (`package?_eq_some_iff`, `github?_eq_some_iff`); here,
and only here, it matters that the text is one line, for the path of a text that is none
would end before its line feed.

Main result: `short_forms_exact`.
-/
import CompileGate.Proofs.ResolutionFailures

namespace CompileGate
namespace Specifier

variable {τ : Type}

/-! ### The shapes -/

/-- A scope, the name of a package, an owner or a repository. -/
structure IsName (t : Text) : Prop where
  ne_nil : t ≠ []
  points : ∀ c ∈ t, c ≠ '/' ∧ c ≠ '@' ∧ c.isBlank = false

/-- A version or a ref. -/
structure IsVersion (t : Text) : Prop where
  ne_nil : t ≠ []
  points : ∀ c ∈ t, c ≠ '/' ∧ c.isBlank = false

/-- A text of the shape `[@scope/]name[@version]/path`, in its parts. -/
@[ext]
structure PackageForm where
  scope : Option Text
  name : Text
  version : Option Text
  path : Text
  isName_scope : ∀ s ∈ scope, IsName s
  isName_name : IsName name
  isVersion_version : ∀ v ∈ version, IsVersion v
  path_ne_nil : path ≠ []

/-- A text of the shape `github:owner/repo@ref/path`, in its parts. -/
structure GithubForm extends GithubPath where
  isName_owner : IsName owner
  isName_repo : IsName repo
  isVersion_ref : IsVersion ref
  path_ne_nil : path ≠ []

/-- A scope with its marks; nothing when there is none. -/
def scopeText : Option Text → Text
  | none => []
  | some scope => "@" ++ scope ++ "/"

/-- A version with its mark; nothing when there is none. -/
def versionText : Option Text → Text
  | none => []
  | some version => "@" ++ version

namespace PackageForm

/-- The name of the package, with its scope. -/
def package (form : PackageForm) : Text := scopeText form.scope ++ form.name

def text (form : PackageForm) : Text :=
  form.package ++ versionText form.version ++ "/" ++ form.path

/-- The version that a package path gets: its own, or else the pinned one unless that is empty. -/
def versionIn (form : PackageForm) (ctx : Context τ) : Option Text :=
  match form.version with
  | some version => some version
  | none => (Table.get? form.package ctx.packageVersions).filter (· ≠ [])

end PackageForm

def GithubForm.text (form : GithubForm) : Text :=
  "github:" ++ form.owner ++ "/" ++ form.repo ++ "@" ++ form.ref ++ "/" ++ form.path

/-! ### Runs up to a mark -/

variable {q : CodePoint → Bool} {mark : CodePoint} {t run rest path : Text}

theorem takeRun?_eq_some_iff (hmark : q mark = false) : takeRun? q mark t = some (run, rest)
    ↔ t = run ++ mark :: rest ∧ run ≠ [] ∧ ∀ c ∈ run, q c = true := by
  constructor
  · intro h
    obtain ⟨hne, hrun⟩ := takeRun?_eq_some h
    refine ⟨?_, hne, hrun⟩
    -- the run ends where the mark stands, which the reader checks
    obtain ⟨run', rest', hspan⟩ : ∃ run' rest', t.span q = (run', rest') := ⟨_, _, rfl⟩
    obtain ⟨rfl, -, -⟩ := span_eq_iff.mp hspan
    rw [takeRun?, hspan] at h
    dsimp only at h
    cases rest' with
    | nil => cases h
    | cons c rest' =>
      dsimp only at h
      split at h
      · cases h
      · next hor =>
        obtain ⟨rfl, rfl⟩ := Prod.mk.inj (Option.some.inj h)
        simp only [Bool.or_eq_true, decide_eq_true_eq, not_or, not_not] at hor
        rw [hor.2]
  · rintro ⟨rfl, hne, hrun⟩
    have hspan : (run ++ mark :: rest).span q = (run, mark :: rest) := by
      refine span_eq_iff.mpr ⟨rfl, hrun, fun c hc => ?_⟩
      rwa [← Option.some.inj hc]
    rw [takeRun?, hspan]
    simp [hne]

theorem isName_iff : IsName t ↔ t ≠ [] ∧ ∀ c ∈ t, isNamePoint c = true := by
  have hpoint : ∀ c : CodePoint, isNamePoint c = true
      ↔ c ≠ '/' ∧ c ≠ '@' ∧ c.isBlank = false := by
    intro c
    simp [isNamePoint, and_assoc]
  simp only [hpoint]
  exact ⟨fun h => ⟨h.ne_nil, h.points⟩, fun h => ⟨h.1, h.2⟩⟩

theorem isVersion_iff : IsVersion t ↔ t ≠ [] ∧ ∀ c ∈ t, isVersionPoint c = true := by
  have hpoint : ∀ c : CodePoint, isVersionPoint c = true ↔ c ≠ '/' ∧ c.isBlank = false := by
    intro c
    simp [isVersionPoint]
  simp only [hpoint]
  exact ⟨fun h => ⟨h.ne_nil, h.points⟩, fun h => ⟨h.1, h.2⟩⟩

theorem takeName?_eq_some_iff (hmark : isNamePoint mark = false) :
    takeRun? isNamePoint mark t = some (run, rest) ↔ t = run ++ mark :: rest ∧ IsName run := by
  rw [takeRun?_eq_some_iff hmark, isName_iff]

theorem takeVersion?_eq_some_iff :
    takeRun? isVersionPoint '/' t = some (run, rest)
      ↔ t = run ++ ('/' : CodePoint) :: rest ∧ IsVersion run := by
  rw [takeRun?_eq_some_iff rfl, isVersion_iff]

/-- A name ends at the first mark. -/
theorem IsName.span_append (h : IsName run) (hmark : isNamePoint mark = false) (rest : Text) :
    (run ++ mark :: rest).span isNamePoint = (run, mark :: rest) := by
  refine span_eq_iff.mpr ⟨rfl, (isName_iff.mp h).2, fun c hc => ?_⟩
  rwa [← Option.some.inj hc]

/-- One line that is not empty is a path. -/
theorem line?_eq_some_iff (h : ('\n' : CodePoint) ∉ t) :
    line? t = some path ↔ path = t ∧ t ≠ [] := by
  -- without a line feed nothing is taken off the end and nothing makes the line fail
  have hend : Text.beforeEnd? "\n" t = none := by
    cases hcut : Text.beforeEnd? "\n" t with
    | none => rfl
    | some body =>
      rw [Url.beforeEnd?_eq_some hcut] at h
      exact absurd (List.mem_append_right body List.mem_cons_self) h
  have hline : t.contains ('\n' : CodePoint) = false := by
    rw [← Bool.not_eq_true, List.contains_iff_mem]
    exact h
  unfold line?
  dsimp only
  rw [hend, Option.getD_none, hline, Bool.or_false]
  split
  · next hnil => simp [List.isEmpty_iff.mp hnil]
  · next hne =>
    rw [List.isEmpty_iff] at hne
    simp [hne, eq_comm]

/-! ### Repositories -/

/-- The text behind the prefix, cut at its marks. -/
theorem GithubForm.text_eq (form : GithubForm) : form.text = "github:" ++ (form.owner
    ++ ('/' : CodePoint) :: (form.repo ++ ('@' : CodePoint) :: (form.ref
      ++ ('/' : CodePoint) :: form.path))) := by
  simp only [GithubForm.text, List.append_assoc]
  rfl

/-- **The reader finds the decomposition**, of one line. -/
theorem github?_eq_some_iff {parts : GithubPath} (h : ('\n' : CodePoint) ∉ t) :
    github? t = some parts ↔ ∃ form : GithubForm, form.text = t ∧ form.toGithubPath = parts := by
  constructor
  · intro hread
    unfold github? at hread
    -- each part that was taken is peeled off with what it left
    obtain ⟨rest, hprefix, hread⟩ := Option.bind_eq_some_iff.mp hread
    obtain ⟨⟨owner, rest₁⟩, hcut₁, hread⟩ := Option.bind_eq_some_iff.mp hread
    obtain ⟨⟨repo, rest₂⟩, hcut₂, hread⟩ := Option.bind_eq_some_iff.mp hread
    obtain ⟨⟨ref, rest₃⟩, hcut₃, hread⟩ := Option.bind_eq_some_iff.mp hread
    obtain ⟨path, hpath, hread⟩ := Option.bind_eq_some_iff.mp hread
    obtain rfl := Option.some.inj hread
    obtain rfl := Text.eq_append_of_afterStart? hprefix
    obtain ⟨rfl, howner⟩ := (takeName?_eq_some_iff rfl).mp hcut₁
    obtain ⟨rfl, hrepo⟩ := (takeName?_eq_some_iff rfl).mp hcut₂
    obtain ⟨rfl, href⟩ := takeVersion?_eq_some_iff.mp hcut₃
    simp only [List.mem_append, List.mem_cons, not_or] at h
    obtain ⟨rfl, hne⟩ := (line?_eq_some_iff h.2.2.2.2.2.2.2).mp hpath
    exact ⟨⟨⟨owner, repo, ref, path⟩, howner, hrepo, href, hne⟩, GithubForm.text_eq _, rfl⟩
  · rintro ⟨form, rfl, rfl⟩
    -- each reader takes its part, by the mark behind it
    rw [form.text_eq] at h ⊢
    simp only [List.mem_append, List.mem_cons, not_or] at h
    unfold github?
    rw [Text.afterStart?_append, Option.bind_eq_bind, Option.bind_some,
      (takeName?_eq_some_iff rfl).mpr ⟨rfl, form.isName_owner⟩]
    dsimp only [Option.bind_eq_bind, Option.bind_some]
    rw [(takeName?_eq_some_iff rfl).mpr ⟨rfl, form.isName_repo⟩]
    dsimp only [Option.bind_some]
    rw [takeVersion?_eq_some_iff.mpr ⟨rfl, form.isVersion_ref⟩]
    dsimp only [Option.bind_some]
    rw [(line?_eq_some_iff h.2.2.2.2.2.2.2).mpr ⟨rfl, form.path_ne_nil⟩]
    rfl

/-- Two texts that are cut at a mark at the same place. -/
theorem IsName.eq_of_append {run' rest' : Text} {mark' : CodePoint} (h : IsName run)
    (h' : IsName run') (hmark : isNamePoint mark = false) (hmark' : isNamePoint mark' = false)
    (heq : run ++ mark :: rest = run' ++ mark' :: rest') :
    run = run' ∧ mark :: rest = mark' :: rest' := by
  rw [← Prod.mk.injEq, ← h.span_append hmark, ← h'.span_append hmark', heq]

theorem IsVersion.eq_of_append {run' rest' : Text} (h : IsVersion run) (h' : IsVersion run')
    (heq : run ++ ('/' : CodePoint) :: rest = run' ++ ('/' : CodePoint) :: rest') :
    run = run' ∧ rest = rest' := by
  have hcut := takeVersion?_eq_some_iff.mpr ⟨heq, h'⟩
  rw [takeVersion?_eq_some_iff.mpr ⟨rfl, h⟩] at hcut
  exact Prod.mk.inj (Option.some.inj hcut)

/-- **A repository path has one decomposition.** -/
theorem GithubForm.eq_of_text_eq {form form' : GithubForm} (h : form.text = form'.text) :
    form = form' := by
  obtain ⟨⟨owner, repo, ref, path⟩, howner, hrepo, href, hpath⟩ := form
  obtain ⟨⟨owner', repo', ref', path'⟩, howner', hrepo', href', hpath'⟩ := form'
  rw [GithubForm.text_eq, GithubForm.text_eq, List.append_cancel_left_eq] at h
  -- the parts are equal one after the other, each up to its mark
  obtain ⟨rfl, hrest⟩ := howner.eq_of_append howner' rfl rfl h
  obtain ⟨rfl, hrest'⟩ := hrepo.eq_of_append hrepo' rfl rfl (List.cons.inj hrest).2
  obtain ⟨rfl, rfl⟩ := href.eq_of_append href' (List.cons.inj hrest').2
  rfl

/-! ### Packages -/

/-- The text cut at its marks. -/
theorem PackageForm.text_eq (form : PackageForm) : form.text = scopeText form.scope
    ++ (form.name ++ (versionText form.version ++ ('/' : CodePoint) :: form.path)) := by
  simp only [PackageForm.text, PackageForm.package, List.append_assoc]
  rfl

theorem takeScope?_append {scope : Option Text} (hscope : ∀ s ∈ scope, IsName s)
    (hrest : ∃ c more, rest = c :: more ∧ c ≠ '@') :
    takeScope? (scopeText scope ++ rest) = some (scopeText scope, rest) := by
  cases scope with
  | none =>
    -- what is not a scope does not begin with its mark
    obtain ⟨c, more, rfl, hc⟩ := hrest
    exact if_neg hc
  | some s =>
    have htext : scopeText (some s) ++ rest
        = ('@' : CodePoint) :: (s ++ ('/' : CodePoint) :: rest) := by
      simp only [scopeText, List.append_assoc]
      rfl
    rw [htext, takeScope?, if_pos rfl, (takeName?_eq_some_iff rfl).mpr ⟨rfl, hscope s rfl⟩]
    rfl

theorem exists_scope_of_takeScope? {front : Text} (h : takeScope? t = some (front, rest)) :
    ∃ scope, (∀ s ∈ scope, IsName s) ∧ front = scopeText scope ∧ t = front ++ rest := by
  cases t with
  | nil => cases h
  | cons c t =>
    rw [takeScope?] at h
    split at h
    · next hat =>
      obtain ⟨⟨s, rest'⟩, hcut, heq⟩ := Option.map_eq_some_iff.mp h
      obtain ⟨rfl, rfl⟩ := Prod.mk.inj heq
      obtain ⟨rfl, hs⟩ := (takeName?_eq_some_iff rfl).mp hcut
      refine ⟨some s, ?_, rfl, ?_⟩
      · rintro _ ⟨⟩
        exact hs
      · rw [hat, List.append_assoc, List.append_assoc]
        rfl
    · obtain ⟨rfl, rfl⟩ := Prod.mk.inj (Option.some.inj h)
      refine ⟨none, ?_, rfl, rfl⟩
      rintro _ ⟨⟩

/-- The version and the path that follow a name. -/
def takeFile? : Text → Option (Option Text × Text)
  | [] => none
  | mark :: rest =>
    if mark = '/' then (line? rest).map fun path => (none, path)
    else if mark = '@' then
      (takeRun? isVersionPoint '/' rest).bind fun (version, rest) =>
        (line? rest).map fun path => (some version, path)
    else none

/-- A slash behind a name begins the path. -/
theorem takeFile?_slash {version : Option Text} (h : ('\n' : CodePoint) ∉ rest) :
    takeFile? (('/' : CodePoint) :: rest) = some (version, path)
      ↔ version = none ∧ path = rest ∧ path ≠ [] := by
  rw [takeFile?, if_pos rfl, Option.map_eq_some_iff]
  simp only [line?_eq_some_iff h, Prod.mk.injEq]
  constructor
  · rintro ⟨_, ⟨rfl, hne⟩, rfl, rfl⟩
    exact ⟨rfl, rfl, hne⟩
  · rintro ⟨rfl, rfl, hne⟩
    exact ⟨_, ⟨rfl, hne⟩, rfl, rfl⟩

/-- The other mark begins a version, and the first slash ends it. -/
theorem takeFile?_at {version : Option Text} (h : ('\n' : CodePoint) ∉ rest) :
    takeFile? (('@' : CodePoint) :: rest) = some (version, path)
      ↔ ∃ v, version = some v ∧ rest = v ++ ('/' : CodePoint) :: path
        ∧ IsVersion v ∧ path ≠ [] := by
  rw [takeFile?, if_neg (by decide), if_pos rfl, Option.bind_eq_some_iff]
  constructor
  · rintro ⟨⟨v, rest'⟩, hcut, hline⟩
    obtain ⟨rfl, hv⟩ := takeVersion?_eq_some_iff.mp hcut
    simp only [List.mem_append, List.mem_cons, not_or] at h
    obtain ⟨_, hpath, heq⟩ := Option.map_eq_some_iff.mp hline
    obtain ⟨rfl, hne⟩ := (line?_eq_some_iff h.2.2).mp hpath
    obtain ⟨rfl, rfl⟩ := Prod.mk.inj heq
    exact ⟨v, rfl, rfl, hv, hne⟩
  · rintro ⟨v, rfl, rfl, hv, hne⟩
    have hline : ('\n' : CodePoint) ∉ path := fun hmem =>
      h (List.mem_append_right _ (List.mem_cons_of_mem _ hmem))
    refine ⟨(v, path), takeVersion?_eq_some_iff.mpr ⟨rfl, hv⟩, ?_⟩
    dsimp only
    rw [(line?_eq_some_iff hline).mpr ⟨rfl, hne⟩]
    rfl

theorem takeFile?_eq_some_iff {version : Option Text} (h : ('\n' : CodePoint) ∉ t) :
    takeFile? t = some (version, path) ↔ t = versionText version ++ ('/' : CodePoint) :: path
      ∧ (∀ v ∈ version, IsVersion v) ∧ path ≠ [] := by
  cases t with
  | nil => simp [takeFile?]
  | cons mark rest =>
    have hrest : ('\n' : CodePoint) ∉ rest := fun hmem => h (List.mem_cons_of_mem _ hmem)
    by_cases hslash : mark = '/'
    · subst hslash
      rw [takeFile?_slash hrest]
      constructor
      · rintro ⟨rfl, rfl, hne⟩
        exact ⟨rfl, nofun, hne⟩
      · rintro ⟨heq, -, hne⟩
        cases version with
        | none => exact ⟨rfl, (List.cons.inj heq).2.symm, hne⟩
        | some v => exact absurd (List.cons.inj heq).1 (by decide)
    by_cases hat : mark = '@'
    · subst hat
      rw [takeFile?_at hrest]
      constructor
      · rintro ⟨v, rfl, rfl, hv, hne⟩
        refine ⟨rfl, ?_, hne⟩
        rintro _ ⟨⟩
        exact hv
      · rintro ⟨heq, hversion, hne⟩
        cases version with
        | none => exact absurd (List.cons.inj heq).1 hslash
        | some v => exact ⟨v, rfl, (List.cons.inj heq).2, hversion v rfl, hne⟩
    · -- no other mark can follow a name
      rw [takeFile?, if_neg hslash, if_neg hat]
      refine iff_of_false nofun ?_
      rintro ⟨heq, -, -⟩
      cases version with
      | none => exact hslash (List.cons.inj heq).1
      | some v => exact hat (List.cons.inj heq).1

/-- The reader takes a scope, a name, and a version and a path. -/
theorem package?_eq (t : Text) : package? t = (takeScope? t).bind fun (front, rest) =>
    if (rest.span isNamePoint).1.isEmpty then none
    else (takeFile? (rest.span isNamePoint).2).map fun (version, path) =>
      ⟨front ++ (rest.span isNamePoint).1, version, path⟩ := by
  unfold package?
  refine bind_congr fun (front, rest) => ?_
  obtain ⟨name, tail, hspan⟩ : ∃ name tail, rest.span isNamePoint = (name, tail) := ⟨_, _, rfl⟩
  dsimp only
  rw [hspan]
  dsimp only
  split
  · rfl
  cases tail with
  | nil => rfl
  | cons mark tail =>
    dsimp only
    rw [takeFile?]
    split_ifs
    · cases line? tail with
      | none => rfl
      | some path => rfl
    · cases takeRun? isVersionPoint '/' tail with
      | none => rfl
      | some cut =>
        obtain ⟨version, rest⟩ := cut
        show (line? rest).bind _ = ((line? rest).map _).map _
        cases line? rest with
        | none => rfl
        | some path => rfl
    · rfl

theorem exists_versionText_eq (version : Option Text) (path : Text) :
    ∃ mark rest, isNamePoint mark = false
      ∧ versionText version ++ ('/' : CodePoint) :: path = mark :: rest := by
  cases version with
  | none => exact ⟨'/', path, rfl, rfl⟩
  | some v => exact ⟨'@', v ++ ('/' : CodePoint) :: path, rfl, rfl⟩

/-- The parts that the reader keeps. -/
def PackageForm.parts (form : PackageForm) : PackagePath :=
  ⟨form.package, form.version, form.path⟩

theorem PackageForm.takeScope?_text (form : PackageForm) : takeScope? form.text
    = some (scopeText form.scope,
      form.name ++ (versionText form.version ++ ('/' : CodePoint) :: form.path)) := by
  obtain ⟨c, more, hcons⟩ := List.exists_cons_of_ne_nil form.isName_name.ne_nil
  have hc : c ≠ '@' := (form.isName_name.points c (by rw [hcons]; exact List.mem_cons_self)).2.1
  rw [form.text_eq]
  exact takeScope?_append form.isName_scope ⟨c, _, by rw [hcons]; rfl, hc⟩

/-- **The reader finds the decomposition**, of one line. -/
theorem package?_eq_some_iff {parts : PackagePath} (h : ('\n' : CodePoint) ∉ t) :
    package? t = some parts ↔ ∃ form : PackageForm, form.text = t ∧ form.parts = parts := by
  rw [package?_eq, Option.bind_eq_some_iff]
  constructor
  · rintro ⟨⟨front, rest⟩, hscope, hrest⟩
    obtain ⟨scope, hnames, rfl, rfl⟩ := exists_scope_of_takeScope? hscope
    obtain ⟨name, tail, hspan⟩ : ∃ name tail, rest.span isNamePoint = (name, tail) := ⟨_, _, rfl⟩
    obtain ⟨rfl, hname, -⟩ := span_eq_iff.mp hspan
    dsimp only at hrest
    rw [hspan] at hrest
    dsimp only at hrest
    split at hrest
    · cases hrest
    · next hne =>
      obtain ⟨⟨version, path⟩, hfile, heq⟩ := Option.map_eq_some_iff.mp hrest
      rw [List.mem_append, List.mem_append, not_or, not_or] at h
      obtain ⟨rfl, hversion, hpath⟩ := (takeFile?_eq_some_iff h.2.2).mp hfile
      exact ⟨⟨scope, name, version, path, hnames,
        isName_iff.mpr ⟨mt List.isEmpty_iff.mpr hne, hname⟩, hversion, hpath⟩,
        PackageForm.text_eq _, heq⟩
  · rintro ⟨form, rfl, rfl⟩
    rw [form.text_eq, List.mem_append, List.mem_append, not_or, not_or] at h
    -- the name ends at the mark of the version, or else at the slash of the path
    obtain ⟨mark, rest, hmark, htail⟩ :=
      exists_versionText_eq form.version form.path
    have hspan := form.isName_name.span_append hmark rest
    rw [← htail] at hspan
    refine ⟨_, form.takeScope?_text, ?_⟩
    dsimp only
    rw [hspan]
    dsimp only
    rw [if_neg (mt List.isEmpty_iff.mp form.isName_name.ne_nil),
      (takeFile?_eq_some_iff h.2.2).mpr ⟨rfl, form.isVersion_version, form.path_ne_nil⟩]
    rfl

theorem scopeText_injective {scope scope' : Option Text} (h : scopeText scope = scopeText scope') :
    scope = scope' := by
  cases scope with
  | none =>
    cases scope' with
    | none => rfl
    | some s' => cases h
  | some s =>
    cases scope' with
    | none => cases h
    | some s' =>
      rw [scopeText, scopeText, List.append_assoc, List.append_assoc,
        List.append_cancel_left_eq, List.append_cancel_right_eq] at h
      rw [h]

theorem version_eq_of_append {version version' : Option Text} {path path' : Text}
    (hv : ∀ v ∈ version, IsVersion v) (hv' : ∀ v ∈ version', IsVersion v)
    (h : versionText version ++ ('/' : CodePoint) :: path
      = versionText version' ++ ('/' : CodePoint) :: path') :
    version = version' ∧ path = path' := by
  cases version with
  | none =>
    cases version' with
    | none => exact ⟨rfl, (List.cons.inj h).2⟩
    | some v' => exact absurd (List.cons.inj h).1 (by decide)
  | some v =>
    cases version' with
    | none => exact absurd (List.cons.inj h).1 (by decide)
    | some v' =>
      obtain ⟨rfl, rfl⟩ := (hv v rfl).eq_of_append (hv' v' rfl) (List.cons.inj h).2
      exact ⟨rfl, rfl⟩

/-- **A package path has one decomposition.** -/
theorem PackageForm.eq_of_text_eq {form form' : PackageForm} (h : form.text = form'.text) :
    form = form' := by
  have hcut := form.takeScope?_text
  rw [h, form'.takeScope?_text] at hcut
  obtain ⟨hscope, hrest⟩ := Prod.mk.inj (Option.some.inj hcut)
  obtain ⟨mark, rest, hmark, htail⟩ := exists_versionText_eq form.version form.path
  obtain ⟨mark', rest', hmark', htail'⟩ := exists_versionText_eq form'.version form'.path
  rw [htail, htail'] at hrest
  obtain ⟨hname, hfile⟩ := form'.isName_name.eq_of_append form.isName_name hmark' hmark hrest
  rw [← htail, ← htail'] at hfile
  obtain ⟨hversion, hpath⟩ :=
    version_eq_of_append form'.isVersion_version form.isVersion_version hfile
  exact PackageForm.ext (scopeText_injective hscope).symm hname.symm hversion.symm hpath.symm

/-! ### The URLs of the short forms -/

/-- A package path without its prefix. -/
def packageBody (spec : Text) : Text := (Text.afterStart? "npm:" spec).getD spec

/-- What is said of a text that is no package path. -/
def packageComplaint (spec : Text) : Text :=
  if Text.startsWith "npm:" spec then "Invalid npm import" else "Invalid package import"

variable {spec : Text} {ctx : Context τ} {referrer : Option Text}

theorem expandPackage_eq (spec : Text) (ctx : Context τ) (referrer : Option Text) :
    expandPackage spec ctx referrer = match package? (packageBody spec) with
      | none => .error (.unsupportedSpecifier spec referrer (packageComplaint spec))
      | some p =>
        match p.version.orElse fun _ => Table.get? p.package ctx.packageVersions with
        | none | some [] => .error (.missingPackageVersion p.package spec referrer)
        | some version =>
          .ok (ctx.packageCdn ++ "/" ++ p.package ++ "@" ++ version ++ "/" ++ p.path) := by
  unfold expandPackage packageBody packageComplaint Text.startsWith
  -- with and without the prefix: the same, but for the reason of a failure
  cases Text.afterStart? "npm:" spec with
  | none => rfl
  | some body => rfl

/-- The URL of a package path at a version. -/
def PackageForm.url (form : PackageForm) (cdn version : Text) : Text :=
  cdn ++ "/" ++ form.package ++ "@" ++ version ++ "/" ++ form.path

theorem expandPackage_of_form {form : PackageForm} (hline : ('\n' : CodePoint) ∉ packageBody spec)
    (hform : form.text = packageBody spec) : expandPackage spec ctx referrer
      = match form.versionIn ctx with
        | some version => .ok (form.url ctx.packageCdn version)
        | none => .error (.missingPackageVersion form.package spec referrer) := by
  rw [expandPackage_eq, (package?_eq_some_iff hline).mpr ⟨form, hform, rfl⟩]
  dsimp only [PackageForm.parts]
  unfold PackageForm.versionIn
  -- the version of the path comes first, and an empty pin counts as none
  cases hversion : form.version with
  | some version =>
    obtain ⟨c, more, rfl⟩ :=
      List.exists_cons_of_ne_nil (form.isVersion_version version hversion).ne_nil
    rfl
  | none =>
    dsimp only [Option.orElse]
    cases Table.get? form.package ctx.packageVersions with
    | none => rfl
    | some pinned =>
      cases pinned with
      | nil => rfl
      | cons c more => rfl

theorem expandPackage_of_no_form (hline : ('\n' : CodePoint) ∉ packageBody spec)
    (hnone : ¬ ∃ form : PackageForm, form.text = packageBody spec) : expandPackage spec ctx referrer
      = .error (.unsupportedSpecifier spec referrer (packageComplaint spec)) := by
  have hread : package? (packageBody spec) = none := by
    cases hread : package? (packageBody spec) with
    | none => rfl
    | some parts =>
      obtain ⟨form, hform, -⟩ := (package?_eq_some_iff hline).mp hread
      exact absurd ⟨form, hform⟩ hnone
  rw [expandPackage_eq, hread]

/-- What can become of a package path. -/
theorem expandPackage_cases (hline : ('\n' : CodePoint) ∉ packageBody spec) (ctx : Context τ)
    (referrer : Option Text) :
    (∃ (form : PackageForm) (version : Text), form.text = packageBody spec
        ∧ form.versionIn ctx = some version
        ∧ expandPackage spec ctx referrer = .ok (form.url ctx.packageCdn version))
      ∨ (∃ form : PackageForm, form.text = packageBody spec ∧ form.versionIn ctx = none
        ∧ expandPackage spec ctx referrer
          = .error (.missingPackageVersion form.package spec referrer))
      ∨ (¬ ∃ form : PackageForm, form.text = packageBody spec)
        ∧ expandPackage spec ctx referrer
          = .error (.unsupportedSpecifier spec referrer (packageComplaint spec)) := by
  by_cases hform : ∃ form : PackageForm, form.text = packageBody spec
  · obtain ⟨form, hform⟩ := hform
    cases hversion : form.versionIn ctx with
    | none =>
      refine Or.inr (Or.inl ⟨form, hform, hversion, ?_⟩)
      rw [expandPackage_of_form hline hform, hversion]
    | some version =>
      refine Or.inl ⟨form, version, hform, hversion, ?_⟩
      rw [expandPackage_of_form hline hform, hversion]
  · exact Or.inr (Or.inr ⟨hform, expandPackage_of_no_form hline hform⟩)

/-- **The short forms are read exactly.**  A line is expanded as a package path if it has the shape
of one, in a single way, and a version is known; the failures tell the two apart.  And it is
expanded as a repository path exactly if it has the shape of one, in a single way. -/
theorem short_forms_exact {spec : Text} (hline : ('\n' : CodePoint) ∉ spec) (ctx : Context τ)
    (referrer : Option Text) :
    ((∀ form form' : PackageForm, form.text = form'.text → form = form')
        ∧ (∀ url, expandPackage spec ctx referrer = .ok url
          ↔ ∃ (form : PackageForm) (version : Text), form.text = packageBody spec
            ∧ form.versionIn ctx = some version ∧ url = form.url ctx.packageCdn version)
        ∧ ∀ e, expandPackage spec ctx referrer = .error e
          ↔ (∃ form : PackageForm, form.text = packageBody spec ∧ form.versionIn ctx = none
              ∧ e = .missingPackageVersion form.package spec referrer)
            ∨ (¬ ∃ form : PackageForm, form.text = packageBody spec)
              ∧ e = .unsupportedSpecifier spec referrer (packageComplaint spec))
      ∧ (∀ form form' : GithubForm, form.text = form'.text → form = form')
      ∧ (∀ parts, github? spec = some parts
        ↔ ∃ form : GithubForm, form.text = spec ∧ form.toGithubPath = parts)
      ∧ ∀ url, expandGithub? spec = some url
        ↔ ∃ form : GithubForm, form.text = spec ∧ url = form.url := by
  have hbody : ('\n' : CodePoint) ∉ packageBody spec := by
    unfold packageBody
    cases hstart : Text.afterStart? "npm:" spec with
    | none => exact hline
    | some body => exact fun hmem => hline (Url.mem_of_afterStart? hstart _ hmem)
  refine ⟨⟨fun _ _ => PackageForm.eq_of_text_eq, fun url => ?_, fun e => ?_⟩,
    fun _ _ => GithubForm.eq_of_text_eq, fun parts => github?_eq_some_iff hline, fun url => ?_⟩
  · constructor
    · intro h
      rcases expandPackage_cases hbody ctx referrer with
        ⟨form, version, hform, hversion, heq⟩ | ⟨form, -, -, heq⟩ | ⟨-, heq⟩
      · rw [heq] at h
        exact ⟨form, version, hform, hversion, (Except.ok.inj h).symm⟩
      · rw [heq] at h
        cases h
      · rw [heq] at h
        cases h
    · rintro ⟨form, version, hform, hversion, rfl⟩
      rw [expandPackage_of_form hbody hform, hversion]
  · constructor
    · intro h
      rcases expandPackage_cases hbody ctx referrer with
        ⟨form, version, -, -, heq⟩ | ⟨form, hform, hversion, heq⟩ | ⟨hnone, heq⟩
      · rw [heq] at h
        cases h
      · rw [heq] at h
        exact Or.inl ⟨form, hform, hversion, (Except.error.inj h).symm⟩
      · rw [heq] at h
        exact Or.inr ⟨hnone, (Except.error.inj h).symm⟩
    · -- each failure is the one of its case
      rintro (⟨form, hform, hversion, rfl⟩ | ⟨hnone, rfl⟩)
      · rw [expandPackage_of_form hbody hform, hversion]
      · exact expandPackage_of_no_form hbody hnone
  · unfold expandGithub?
    rw [Option.map_eq_some_iff]
    constructor
    · rintro ⟨parts, hread, rfl⟩
      obtain ⟨form, hform, rfl⟩ := (github?_eq_some_iff hline).mp hread
      exact ⟨form, hform, rfl⟩
    · rintro ⟨form, hform, rfl⟩
      exact ⟨_, (github?_eq_some_iff hline).mpr ⟨form, hform, rfl⟩, rfl⟩

/-- A package path with marks in its version and in its path. -/
def markedForm : PackageForm where
  scope := some "oz"
  name := "core"
  version := some "1@2"
  path := "a@b//c.sol"
  isName_scope := by
    rintro _ ⟨⟩
    exact ⟨by decide, by decide +kernel⟩
  isName_name := ⟨by decide, by decide +kernel⟩
  isVersion_version := by
    rintro _ ⟨⟩
    exact ⟨by decide, by decide +kernel⟩
  path_ne_nil := by decide

/-- A repository path with marks in its ref. -/
def markedRepository : GithubForm where
  owner := "o"
  repo := "r"
  ref := "v1@b"
  path := "x/@y.sol"
  isName_owner := ⟨by decide, by decide +kernel⟩
  isName_repo := ⟨by decide, by decide +kernel⟩
  isVersion_ref := ⟨by decide, by decide +kernel⟩
  path_ne_nil := by decide

/-- The marks are found, and there is no other way to cut these texts.  Read as a package path, the
second one names a package that has no version. -/
theorem marked_forms_expanded :
    (expandPackage "npm:@oz/core@1@2/a@b//c.sol" pinnedContext none
          = .ok "https://cdn.example/npm/@oz/core@1@2/a@b//c.sol"
        ∧ ∀ form : PackageForm, form.text = "@oz/core@1@2/a@b//c.sol" → form = markedForm)
      ∧ expandGithub? "github:o/r@v1@b/x/@y.sol"
          = some "https://raw.githubusercontent.com/o/r/v1@b/x/@y.sol"
        ∧ expandPackage "github:o/r@v1@b/x/@y.sol" pinnedContext none
          = .error (.missingPackageVersion "github:o" "github:o/r@v1@b/x/@y.sol" none) := by
  obtain ⟨⟨hunique, hok, -⟩, -⟩ := short_forms_exact
    (show ('\n' : CodePoint) ∉ ("npm:@oz/core@1@2/a@b//c.sol" : Text) by decide) pinnedContext none
  obtain ⟨⟨-, -, herror⟩, -, -, hgithub⟩ := short_forms_exact
    (show ('\n' : CodePoint) ∉ ("github:o/r@v1@b/x/@y.sol" : Text) by decide) pinnedContext none
  refine ⟨⟨(hok _).mpr ⟨markedForm, "1@2", rfl, rfl, rfl⟩,
    fun form hform => hunique form markedForm hform⟩,
    (hgithub _).mpr ⟨markedRepository, rfl, rfl⟩, (herror _).mpr (Or.inl ?_)⟩
  -- as a package path the second text has no scope, and its slash ends the name
  refine ⟨⟨none, "github:o", none, "r@v1@b/x/@y.sol", nofun, ⟨by decide, by decide +kernel⟩, nofun,
    by decide⟩, rfl, rfl, rfl⟩

end Specifier

end CompileGate
