/-
CompileGate/Proofs/ResolutionFailures.lean

How the resolution of a specifier fails.

The form of a specifier (`formOf`) decides which URL it names, and `resolve_eq` says
what becomes of it, form by form.  A failure of the resolver names the specifier as
it was written and the file it stands in (`Blames`).  `resolution_failures` says when
every failure does:

* what the specifier names must be legible, for a text that is not fails as it is
  read, before anything is known about it;
* a package path that cannot be expanded is named as it was trimmed, so it must have
  been written without blanks around it.

With a package source that has a legible URL and a base that is a URL of the web, only
a specifier that is a URL itself can name something illegible.
-/
import CompileGate.Proofs.KeptAuthority
import CompileGate.Proofs.ResolvedUrl

namespace CompileGate
namespace Specifier

open Url

variable {τ : Type}

/-! ### The forms of specifiers -/

/-- The form of a specifier. -/
inductive Form
  | web
  | repository
  | package
  | relative
  | other
deriving DecidableEq

/-- The form of a specifier: the first that fits. -/
def formOf (spec : Text) : Form :=
  if isWebUrl spec then .web
  else if Text.startsWith "github:" spec then .repository
  else if Text.startsWith "npm:" spec || isBarePackage spec then .package
  else if Text.startsWith "./" spec || Text.startsWith "../" spec then .relative
  else .other

/-- What becomes of a specifier that is joined with a base. -/
def resolveJoined (raw spec base : Text) (ctx : Context τ) (referrer : Option Text) :
    Except (Failure τ) Text := do
  let url ← Failure.ofUrl (Url.join base spec)
  admitted url ctx raw referrer

theorem resolve_eq (raw : Text) (base : Option Text) (ctx : Context τ) (referrer : Option Text) :
    resolve raw base ctx referrer = match formOf (Text.strip raw) with
      | .web => resolveJoined raw (Text.strip raw) (base.getD []) ctx referrer
      | .repository =>
        match expandGithub? (Text.strip raw) with
        | none => .error (.gateway (.unsupportedSpecifier raw referrer "Invalid GitHub shorthand"))
        | some url => admitted url ctx raw referrer
      | .package =>
        match expandPackage (Text.strip raw) ctx referrer with
        | .error e => .error (.gateway e)
        | .ok url => admitted url ctx raw referrer
      | .relative =>
        if base.getD [] = [] then .error (.gateway (.noBaseContext raw referrer))
        else resolveJoined raw (Text.strip raw) (base.getD []) ctx referrer
      | .other => .error (.gateway (.unsupportedSpecifier raw referrer "Unsupported import path")) := by
  unfold resolve formOf
  dsimp only
  split
  · rfl
  split
  · rfl
  split
  · rfl
  split
  · simp only [List.isEmpty_iff]
    rfl
  · rfl

theorem relative_of_formOf {spec : Text} (h : formOf spec = .relative) : IsRelative spec := by
  unfold formOf at h
  split_ifs at h with _ _ _ hrelative
  exact (Bool.or_eq_true _ _).mp hrelative

theorem ne_nil_of_formOf {spec : Text} (h : formOf spec ≠ .other) : spec ≠ [] := by
  rintro rfl
  exact h rfl

/-! ### Failures that name their specifier -/

/-- A failure of resolution that names the specifier and the file that it stands in. -/
inductive Blames (specifier : Text) (referrer : Option Text) : Failure τ → Prop
  | disallowedHost (url host : Text) :
      Blames specifier referrer (.gateway (.disallowedHost url host (some specifier) referrer))
  | unsupportedSpecifier (reason : Text) :
      Blames specifier referrer (.gateway (.unsupportedSpecifier specifier referrer reason))
  | missingPackageVersion (package : Text) :
      Blames specifier referrer (.gateway (.missingPackageVersion package specifier referrer))
  | noBaseContext : Blames specifier referrer (.gateway (.noBaseContext specifier referrer))

variable {raw spec base url : Text} {ctx : Context τ} {referrer : Option Text} {e : Failure τ}

theorem not_blames_badUrl {defect : Defect} :
    ¬ Blames spec referrer (.badUrl defect : Failure τ) := by
  intro h
  cases h

/-- A failure names one specifier only. -/
theorem Blames.specifier_eq {spec' : Text} (h : Blames spec referrer e)
    (h' : Blames spec' referrer e) : spec = spec' := by
  cases h with
  | disallowedHost => cases h'; rfl
  | unsupportedSpecifier => cases h'; rfl
  | missingPackageVersion => cases h'; rfl
  | noBaseContext => cases h'; rfl

/-- A package path that cannot be expanded is named as it is read. -/
theorem blames_of_expandPackage {error : GatewayError τ}
    (h : expandPackage spec ctx referrer = .error error) :
    Blames spec referrer (.gateway error) := by
  unfold expandPackage at h
  -- with and without the prefix: the same, but for the reason of a failure
  cases hn : Text.afterStart? "npm:" spec
  all_goals
    simp only [hn] at h
    split at h
    · obtain rfl := Except.error.inj h
      exact .unsupportedSpecifier _
    · split at h
      · obtain rfl := Except.error.inj h
        exact .missingPackageVersion _
      · obtain rfl := Except.error.inj h
        exact .missingPackageVersion _
      · cases h

/-- All failures of an outcome name the specifier and the file. -/
def AllBlame (raw : Text) (referrer : Option Text) (outcome : Except (Failure τ) Text) : Prop :=
  ∀ e, outcome = .error e → Blames raw referrer e

theorem allBlame_ok {t : Text} : AllBlame raw referrer (.ok t : Except (Failure τ) Text) := by
  intro e h
  cases h

theorem allBlame_error : AllBlame raw referrer (.error e) ↔ Blames raw referrer e := by
  constructor
  · exact fun h => h e rfl
  · rintro h _ ⟨⟩
    exact h

/-- An allow-list names the specifier when it refuses. -/
theorem allBlame_assertAllowed :
    AllBlame raw referrer (assertAllowed url ctx (some raw) referrer) := by
  rw [assertAllowed_eq]
  split
  · exact allBlame_ok
  · exact allBlame_error.mpr (.disallowedHost _ _)

/-- A URL that is to be admitted fails in the name of its specifier, unless it cannot be read. -/
theorem allBlame_admitted : AllBlame raw referrer (admitted url ctx raw referrer) ↔ Legible url := by
  rw [← exists_canonical_iff]
  unfold admitted
  -- the form is there, and then only the allow-list is left to refuse it
  cases Url.canonical url with
  | error defect =>
    refine iff_of_false (fun h => not_blames_badUrl (h _ rfl)) ?_
    rintro ⟨u, h⟩
    cases h
  | ok u => exact iff_of_true allBlame_assertAllowed ⟨u, rfl⟩

theorem allBlame_resolveJoined (hspec : spec ≠ []) :
    AllBlame raw referrer (resolveJoined raw spec base ctx referrer) ↔ JoinLegible base spec := by
  rw [← exists_join_canonical_iff hspec]
  unfold resolveJoined
  cases Url.join base spec with
  | error defect =>
    refine iff_of_false (fun h => not_blames_badUrl (h _ rfl)) ?_
    rintro ⟨u, h⟩
    cases h
  | ok url => exact allBlame_admitted.trans exists_canonical_iff.symm

/-! ### What a specifier names -/

/-- What a specifier names is legible, if it names anything. -/
def NameLegible (spec base : Text) (ctx : Context τ) (referrer : Option Text) : Prop :=
  match formOf spec with
  | .web => JoinLegible base spec
  | .package => ∀ url, expandPackage spec ctx referrer = .ok url → Legible url
  | .relative => base = [] ∨ JoinLegible base spec
  | .repository | .other => True

theorem head?_keptOf {c : CodePoint} (h : Kept c) (t : Text) :
    (keptOf (c :: t)).head? = some c := by
  rw [keptOf, List.filter_cons_of_pos]
  · rfl
  · simp [h.1, h.2.1, h.2.2]

/-- What starts with a point of a name, or with the mark of a scope, puts no slash in front. -/
theorem head?_keptOf_ne_slash {c : CodePoint} (h : c = '@' ∨ isNamePoint c = true) (t : Text) :
    (keptOf (c :: t)).head? ≠ some '/' := by
  have hkept : Kept c ∧ c ≠ '/' := by
    rcases h with rfl | h
    · exact ⟨by decide, by decide⟩
    · refine ⟨⟨?_, ?_, ?_⟩, ?_⟩
      all_goals
        rintro rfl
        exact absurd h (by decide)
  rw [head?_keptOf hkept.1]
  exact fun heq => hkept.2 (Option.some.inj heq)

theorem takeRun?_eq_some {q : CodePoint → Bool} {mark : CodePoint} {t run rest : Text}
    (h : takeRun? q mark t = some (run, rest)) : run ≠ [] ∧ ∀ c ∈ run, q c = true := by
  obtain ⟨run', rest', hspan⟩ : ∃ run' rest', t.span q = (run', rest') := ⟨_, _, rfl⟩
  obtain ⟨-, hrun, -⟩ := span_eq_iff.mp hspan
  rw [takeRun?, hspan] at h
  dsimp only at h
  cases rest' with
  | nil => cases h
  | cons c rest' =>
    dsimp only at h
    split at h
    · cases h
    · next hor =>
      obtain ⟨rfl, -⟩ := Prod.mk.inj (Option.some.inj h)
      refine ⟨fun hnil => hor ?_, hrun⟩
      rw [hnil]
      rfl

/-- The site that the short form for repositories stands for. -/
def repositorySite : Text := "https://raw.githubusercontent.com"

theorem split_repositorySite :
    split repositorySite = .ok ⟨"https", "raw.githubusercontent.com", [], [], []⟩ := by
  decide +kernel

/-- The short form for repositories names a path below its site. -/
theorem exists_below_repositorySite {spec : Text} (h : expandGithub? spec = some url) :
    ∃ more, url = repositorySite ++ ('/' : CodePoint) :: more
      ∧ (keptOf more).head? ≠ some ('/' : CodePoint) := by
  obtain ⟨g, hg, rfl⟩ := Option.map_eq_some_iff.mp h
  unfold github? at hg
  -- the owner comes first, and begins with a point of a name
  obtain ⟨rest, -, hg⟩ := Option.bind_eq_some_iff.mp hg
  obtain ⟨⟨owner, rest₁⟩, howner, hg⟩ := Option.bind_eq_some_iff.mp hg
  obtain ⟨⟨repo, rest₂⟩, -, hg⟩ := Option.bind_eq_some_iff.mp hg
  obtain ⟨⟨ref, rest₃⟩, -, hg⟩ := Option.bind_eq_some_iff.mp hg
  obtain ⟨path, -, hg⟩ := Option.bind_eq_some_iff.mp hg
  obtain rfl := Option.some.inj hg
  obtain ⟨hne, hpoints⟩ := takeRun?_eq_some howner
  obtain ⟨c, owner', rfl⟩ := List.exists_cons_of_ne_nil hne
  refine ⟨(c :: owner') ++ "/" ++ repo ++ "/" ++ ref ++ "/" ++ path, ?_, ?_⟩
  · unfold GithubPath.url
    rw [show ("https://raw.githubusercontent.com/" : Text)
      = repositorySite ++ [('/' : CodePoint)] from rfl]
    simp only [List.append_assoc, List.cons_append, List.nil_append]
  · simp only [List.append_assoc, List.cons_append]
    exact head?_keptOf_ne_slash (Or.inr (hpoints c (by simp))) _

theorem legible_expandGithub? {spec : Text} (h : expandGithub? spec = some url) : Legible url := by
  obtain ⟨more, rfl, hmore⟩ := exists_below_repositorySite h
  have hsite : Legible repositorySite :=
    exists_canonical_iff.mp ⟨"https://raw.githubusercontent.com/", by decide +kernel⟩
  exact legible_append split_repositorySite ⟨Or.inr rfl, by decide⟩ hsite (by decide) hmore

/-- A package has a name, perhaps behind the mark of a scope. -/
theorem exists_head_of_package? {t : Text} {path : PackagePath} (h : package? t = some path) :
    ∃ c more, path.package = c :: more ∧ (c = '@' ∨ isNamePoint c = true) := by
  unfold package? at h
  obtain ⟨⟨scope, rest⟩, hscope, h⟩ := Option.bind_eq_some_iff.mp h
  dsimp only at h
  obtain ⟨name, rest₁, hspan⟩ : ∃ name rest₁, rest.span isNamePoint = (name, rest₁) := ⟨_, _, rfl⟩
  obtain ⟨-, hname, -⟩ := span_eq_iff.mp hspan
  rw [hspan] at h
  dsimp only at h
  split at h
  · cases h
  next hne =>
  -- with and without a version, the package is the scope and the name
  have hpackage : path.package = scope ++ name := by
    cases rest₁ with
    | nil => cases h
    | cons mark rest₂ =>
      dsimp only at h
      split at h
      · obtain ⟨line, -, h⟩ := Option.bind_eq_some_iff.mp h
        rw [← Option.some.inj h]
      · split at h
        · obtain ⟨⟨version, rest₃⟩, -, h⟩ := Option.bind_eq_some_iff.mp h
          obtain ⟨line, -, h⟩ := Option.bind_eq_some_iff.mp h
          rw [← Option.some.inj h]
        · cases h
  obtain ⟨c, name', rfl⟩ := List.exists_cons_of_ne_nil (mt List.isEmpty_iff.mpr hne)
  have hscope' : scope = [] ∨ ∃ more, scope = ('@' : CodePoint) :: more := by
    cases t with
    | nil => cases hscope
    | cons d t =>
      rw [takeScope?] at hscope
      split at hscope
      · obtain ⟨⟨run, rest'⟩, -, heq⟩ := Option.map_eq_some_iff.mp hscope
        exact Or.inr ⟨run ++ "/", (Prod.mk.inj heq).1.symm⟩
      · exact Or.inl (Prod.mk.inj (Option.some.inj hscope)).1.symm
  rcases hscope' with rfl | ⟨more, rfl⟩
  · exact ⟨c, name', hpackage, Or.inr (hname c (by simp))⟩
  · exact ⟨'@', more ++ c :: name', hpackage, Or.inl rfl⟩

/-- A package path names a path below the package source. -/
theorem exists_below_packageCdn (h : expandPackage spec ctx referrer = .ok url) :
    ∃ more, url = ctx.packageCdn ++ ('/' : CodePoint) :: more
      ∧ (keptOf more).head? ≠ some ('/' : CodePoint) := by
  obtain ⟨path, version, hpath, -, -, rfl⟩ := expandPackage_eq_ok h
  obtain ⟨c, more, hpackage, hc⟩ := exists_head_of_package? hpath
  refine ⟨path.package ++ "@" ++ version ++ "/" ++ path.path, ?_, ?_⟩
  · rw [show ("/" : Text) = [('/' : CodePoint)] from rfl]
    simp only [List.append_assoc, List.cons_append, List.nil_append]
  · rw [hpackage]
    simp only [List.append_assoc, List.cons_append]
    exact head?_keptOf_ne_slash hc _

/-- With a legible package source and a base of the web, only a URL can name what is illegible. -/
theorem nameLegible_of_not_web {cdn : Url} (hcdn : split ctx.packageCdn = .ok cdn)
    (hweb : cdn.IsWeb) (hroot : cdn.path ≠ "/") (hlegible : Legible ctx.packageCdn)
    (hbase : base ≠ [] → ∃ b, split base = .ok b ∧ b.IsWeb) (hform : formOf spec ≠ .web) :
    NameLegible spec base ctx referrer := by
  unfold NameLegible
  -- two forms name a URL, and each puts a path below a legible one
  cases h : formOf spec with
  | web => exact absurd h hform
  | repository => trivial
  | other => trivial
  | package =>
    intro url hurl
    obtain ⟨more, rfl, hmore⟩ := exists_below_packageCdn hurl
    exact legible_append hcdn hweb hlegible hroot hmore
  | relative =>
    by_cases hnil : base = []
    · exact Or.inl hnil
    · obtain ⟨b, hs, hb⟩ := hbase hnil
      have hrelative := relative_of_formOf h
      obtain ⟨url, hjoin, -⟩ := join_relative hs hb hrelative
      have hspec : spec ≠ [] := ne_nil_of_formOf (by rw [h]; decide)
      have haccepted := (exists_join_iff base spec).mp ⟨_, hjoin⟩
      rw [or_iff_right hspec] at haccepted
      exact Or.inr ⟨haccepted, fun _ => legible_of_relative hs hb hrelative⟩

/-! ### All failures -/

/-- **How resolution fails.**  Every failure names the specifier as it was written and the file it
stands in, exactly if what the specifier names is legible and a package path that cannot be
expanded was written without blanks around it.  With a legible package source and a base of the
web, only a specifier that is a URL can name what is illegible. -/
theorem resolution_failures (raw : Text) (base : Option Text) (ctx : Context τ)
    (referrer : Option Text) :
    ((∀ e, resolve raw base ctx referrer = .error e → Blames raw referrer e)
        ↔ NameLegible (Text.strip raw) (base.getD []) ctx referrer
          ∧ (formOf (Text.strip raw) = .package → Text.strip raw = raw
            ∨ ∃ url, expandPackage (Text.strip raw) ctx referrer = .ok url))
      ∧ ∀ cdn, split ctx.packageCdn = .ok cdn → cdn.IsWeb → cdn.path ≠ "/" →
        Legible ctx.packageCdn → (base.getD [] ≠ [] → ∃ b, split (base.getD []) = .ok b ∧ b.IsWeb) →
        formOf (Text.strip raw) ≠ .web →
        NameLegible (Text.strip raw) (base.getD []) ctx referrer := by
  refine ⟨?_, fun cdn hcdn hweb hroot hlegible hbase hform =>
    nameLegible_of_not_web hcdn hweb hroot hlegible hbase hform⟩
  show AllBlame raw referrer (resolve raw base ctx referrer) ↔ _
  rw [resolve_eq]
  unfold NameLegible
  -- form by form, as `resolve_eq` has it
  cases hform : formOf (Text.strip raw) with
  | web =>
    rw [and_iff_left (by simp)]
    exact allBlame_resolveJoined (ne_nil_of_formOf (by rw [hform]; decide))
  | repository =>
    refine iff_of_true ?_ ⟨trivial, by simp⟩
    dsimp only
    cases hurl : expandGithub? (Text.strip raw) with
    | none => exact allBlame_error.mpr (.unsupportedSpecifier _)
    | some url => exact allBlame_admitted.mpr (legible_expandGithub? hurl)
  | package =>
    dsimp only
    cases hurl : expandPackage (Text.strip raw) ctx referrer with
    | error error =>
      -- the failure names what was read
      have hblames := blames_of_expandPackage hurl
      rw [allBlame_error]
      constructor
      · exact fun h => ⟨by simp, fun _ => Or.inl (hblames.specifier_eq h)⟩
      · rintro ⟨-, hor⟩
        rcases hor rfl with heq | ⟨url, h⟩
        · rwa [heq] at hblames
        · cases h
    | ok url =>
      rw [and_iff_left fun _ => Or.inr ⟨url, rfl⟩]
      refine allBlame_admitted.trans ⟨?_, fun h => h url rfl⟩
      rintro h _ ⟨⟩
      exact h
  | relative =>
    rw [and_iff_left (by simp)]
    dsimp only
    by_cases hnil : base.getD [] = []
    · rw [if_pos hnil]
      exact iff_of_true (allBlame_error.mpr .noBaseContext) (Or.inl hnil)
    · rw [if_neg hnil, or_iff_right hnil]
      exact allBlame_resolveJoined (ne_nil_of_formOf (by rw [hform]; decide))
  | other => exact iff_of_true (allBlame_error.mpr (.unsupportedSpecifier _)) ⟨trivial, by simp⟩

/-- A context with one pinned package, whose source has a legible URL. -/
def pinnedContext : Context Int where
  maxSources := 1
  maxTotalBytes := 100
  allowedHosts := ["host"]
  packageCdn := "https://cdn.example/npm"
  packageVersions := [("core", "1.2.0")]
  deadline := none
  timeout := none

/-- A relative specifier with brackets and blanks, in a file of a host that is not allowed. -/
def straySpecifier : Text := "./[x@y:/../b.sol "

theorem stray_specifier_blamed :
    resolve straySpecifier (some "https://other/a.sol") pinnedContext (some "a.sol")
        = .error (.gateway (.disallowedHost "https://other/b.sol" "other" (some straySpecifier)
          (some "a.sol")))
      ∧ Blames straySpecifier (some "a.sol") (.gateway (.disallowedHost "https://other/b.sol" "other"
        (some straySpecifier) (some "a.sol")) : Failure Int) := by
  have hform : formOf (Text.strip straySpecifier) = .relative := by decide +kernel
  have hresolve : resolve straySpecifier (some "https://other/a.sol") pinnedContext (some "a.sol")
      = .error (.gateway (.disallowedHost "https://other/b.sol" "other" (some straySpecifier)
        (some "a.sol"))) := by
    rw [resolve_eq, hform]
    rfl
  obtain ⟨hiff, hlegible⟩ := resolution_failures straySpecifier (some "https://other/a.sol")
    pinnedContext (some "a.sol")
  refine ⟨hresolve, hiff.mpr ⟨?_, fun h => ?_⟩ _ hresolve⟩
  · refine hlegible ⟨"https", "cdn.example", "/npm", [], []⟩ (by decide +kernel)
      ⟨Or.inr rfl, by decide⟩ (by decide) ?_ (fun _ => ⟨⟨"https", "other", "/a.sol", [], []⟩,
        by decide +kernel, Or.inr rfl, by decide⟩) (by rw [hform]; decide)
    exact exists_canonical_iff.mp ⟨"https://cdn.example/npm", by decide +kernel⟩
  · rw [hform] at h
    cases h

/-- A specifier with a bracket that is not closed fails as it is read; and of a package path
without a version, the failure names what is left without the blank before it. -/
theorem resolution_slips :
    resolve "https://[x" none pinnedContext none = .error (.badUrl .unbalancedBrackets)
      ∧ resolve " pkg/x.sol" none pinnedContext none
        = .error (.gateway (.missingPackageVersion "pkg" "pkg/x.sol" none)) := by
  have hweb : formOf (Text.strip "https://[x") = .web := by decide +kernel
  have hpackage : formOf (Text.strip " pkg/x.sol") = .package := by decide +kernel
  rw [resolve_eq, resolve_eq, hweb, hpackage]
  exact ⟨rfl, rfl⟩

end Specifier

end CompileGate
