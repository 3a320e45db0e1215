/-
CompileGate/Proofs/ResolvedUrl.lean

What is known of a URL that a specifier resolves to, whichever form it has.

It is canonical, and its host is on the allow-list (`exists_names_of_resolve`).  It
has a host at all, so it starts with `//` or with a scheme and `://`, and a `/`
comes before any `;` (`points_of_resolve`).  And its code points are those of the
specifier, of the base, of the package source and of the pinned versions, apart
from marks and lower-case letters (`forall_mem_resolve`).
-/
import CompileGate.Proofs.UrlPoints
import CompileGate.Specifier.Resolve

namespace CompileGate

variable {τ : Type}

/-! ### The allow-list -/

/-- The URL names a host, and that is on the allow-list. -/
def Allowed (ctx : Context τ) (url : Text) : Prop :=
  Url.hostOf url ≠ [] ∧ Url.hostOf url ∈ ctx.allowedHosts

instance (ctx : Context τ) (url : Text) : Decidable (Allowed ctx url) :=
  inferInstanceAs (Decidable (_ ∧ _))

theorem assertAllowed_eq (url : Text) (ctx : Context τ) (specifier referrer : Option Text) :
    Specifier.assertAllowed url ctx specifier referrer
      = if Allowed ctx url then .ok url
        else .error (.gateway (.disallowedHost url (Url.hostOf url) specifier referrer)) := by
  have hrefused : ((Url.hostOf url).isEmpty || !ctx.allowedHosts.contains (Url.hostOf url)) = true
      ↔ ¬ Allowed ctx url := by
    rw [Bool.or_eq_true, List.isEmpty_iff, Bool.not_eq_true', Allowed, not_and_or, not_not,
      ← List.contains_iff_mem, Bool.not_eq_true]
  simp only [Specifier.assertAllowed]
  by_cases h : Allowed ctx url
  · rw [if_pos h, if_neg (fun hr => hrefused.mp hr h)]
  · rw [if_neg h, if_pos (hrefused.mpr h)]

theorem assertAllowed_eq_ok_iff {url url' : Text} {ctx : Context τ}
    {specifier referrer : Option Text} :
    Specifier.assertAllowed url ctx specifier referrer = .ok url'
      ↔ url' = url ∧ Allowed ctx url := by
  rw [assertAllowed_eq]
  by_cases h : Allowed ctx url
  · rw [if_pos h]
    constructor
    · intro e
      exact ⟨(Except.ok.inj e).symm, h⟩
    · rintro ⟨rfl, -⟩
      rfl
  · rw [if_neg h]
    constructor
    · intro e
      cases e
    · rintro ⟨-, h'⟩
      exact absurd h' h

/-- A code point that ends the scheme of a URL or an import statement. -/
def isSlashOrSemicolon (c : CodePoint) : Bool := c = '/' || c = ';'

theorem find?_dropWhile {α : Type*} {p q : α → Bool} {l : List α}
    (h : ∀ a, q a = true → p a = false) : (l.dropWhile q).find? p = l.find? p := by
  induction l with
  | nil => rfl
  | cons a l ih =>
    rw [List.dropWhile_cons]
    by_cases hq : q a = true
    · rw [if_pos hq, ih, List.find?_cons_of_neg]
      simp [h a hq]
    · rw [if_neg hq]

theorem find?_filter_of_not {α : Type*} {p q : α → Bool} {l : List α}
    (h : ∀ a, q a = false → p a = false) : (l.filter q).find? p = l.find? p := by
  induction l with
  | nil => rfl
  | cons a l ih =>
    by_cases hq : q a = true
    · rw [List.filter_cons_of_pos hq, List.find?_cons, List.find?_cons, ih]
    · rw [List.filter_cons_of_neg hq, ih, List.find?_cons_of_neg]
      simp [h a (Bool.eq_false_iff.mpr hq)]

/-- A class of code points that holds neither of the two marks. -/
theorem not_isSlashOrSemicolon_of {q : CodePoint → Bool} (hslash : q '/' = false)
    (hsemicolon : q ';' = false) {c : CodePoint} (h : q c = true) :
    isSlashOrSemicolon c = false := by
  cases hmark : isSlashOrSemicolon c with
  | false => rfl
  | true =>
    rw [isSlashOrSemicolon, Bool.or_eq_true, decide_eq_true_iff, decide_eq_true_iff] at hmark
    rcases hmark with rfl | rfl
    · rw [hslash] at h
      cases h
    · rw [hsemicolon] at h
      cases h

theorem find?_isSlashOrSemicolon_eq_none {q : CodePoint → Bool} (hslash : q '/' = false)
    (hsemicolon : q ';' = false) {t : Text} (h : ∀ c ∈ t, q c = true) :
    t.find? isSlashOrSemicolon = none := by
  rw [List.find?_eq_none]
  intro c hc
  rw [not_isSlashOrSemicolon_of hslash hsemicolon (h c hc)]
  exact Bool.false_ne_true

/-- Cleaning a text removes no mark. -/
theorem find?_clean (t : Text) :
    (Url.clean t).find? isSlashOrSemicolon = t.find? isSlashOrSemicolon := by
  have hfront : ∀ c : CodePoint, decide (c.toNat ≤ 0x20) = true → isSlashOrSemicolon c = false :=
    fun c => not_isSlashOrSemicolon_of (q := fun c => decide (c.toNat ≤ 0x20)) (by decide)
      (by decide)
  have hremoved : ∀ c : CodePoint, (c ≠ '\t' && c ≠ '\r' && c ≠ '\n') = false →
      isSlashOrSemicolon c = false := by
    intro c hc
    have hc' : (!(c ≠ '\t' && c ≠ '\r' && c ≠ '\n' : Bool)) = true := by rw [hc]; rfl
    exact not_isSlashOrSemicolon_of (q := fun c => !(c ≠ '\t' && c ≠ '\r' && c ≠ '\n'))
      (by decide) (by decide) hc'
  rw [Url.clean, find?_filter_of_not hremoved, find?_dropWhile hfront]

/-- A text with a host has a `/` before its first `;`. -/
theorem find?_slash_of_hostOf {t : Text} (h : Url.hostOf t ≠ []) :
    t.find? isSlashOrSemicolon = some ('/' : CodePoint) := by
  unfold Url.hostOf at h
  cases hs : Url.split t with
  | error defect =>
    rw [hs] at h
    exact absurd rfl h
  | ok url =>
    rw [hs] at h
    dsimp only at h
    obtain ⟨rest, hfront, hauthority, -, -, -⟩ := Url.splitWith_eq_ok hs
    have hne : url.authority ≠ [] := by
      intro hnil
      apply h
      unfold Url.allowKey
      rw [hnil]
      rfl
    obtain ⟨more, hmore⟩ : ∃ more, Text.afterStart? "//" rest = some more := by
      rw [hauthority, Url.takeAuthority] at hne
      cases hm : Text.afterStart? "//" rest with
      | none =>
        rw [hm] at hne
        exact absurd rfl hne
      | some more => exact ⟨more, rfl⟩
    have hrest : rest = ('/' : CodePoint) :: ('/' : CodePoint) :: more :=
      Text.eq_append_of_afterStart? hmore
    have hslash : isSlashOrSemicolon '/' = true := by decide
    rw [← find?_clean]
    -- the text is `//…` itself, or a scheme and `:` come before it
    cases hscheme : Url.takeScheme? (Url.clean t) with
    | none =>
      rw [hscheme] at hfront
      obtain ⟨-, hclean⟩ := Prod.mk.inj hfront
      rw [hclean, hrest, List.find?_cons_of_pos hslash]
    | some parts =>
      obtain ⟨scheme, rest'⟩ := parts
      rw [hscheme] at hfront
      obtain ⟨-, hrest'⟩ := Prod.mk.inj hfront
      obtain ⟨c, more, hclean, -, -, hname⟩ := Url.takeScheme?_eq_some hscheme
      have hnone : (c :: more).find? isSlashOrSemicolon = none :=
        find?_isSlashOrSemicolon_eq_none (by decide) (by decide) hname
      rw [hclean, hrest', hrest, List.find?_append, hnone, List.find?_cons_of_neg (by decide),
        List.find?_cons_of_pos hslash]
      rfl

/-! ### Forms of specifiers -/

namespace Specifier

variable {p : CodePoint → Prop}

theorem mem_of_mem_strip {t : Text} : ∀ c ∈ Text.strip t, c ∈ t := by
  intro c hc
  have hc' : c ∈ t.dropWhile CodePoint.isBlank := by
    have hback := (List.dropWhile_sublist _).subset (List.mem_reverse.mp hc)
    exact List.mem_reverse.mp hback
  exact (List.dropWhile_sublist _).subset hc'

theorem mem_of_takeRun? {q : CodePoint → Bool} {mark : CodePoint} {t run rest : Text}
    (h : takeRun? q mark t = some (run, rest)) : (∀ c ∈ run, c ∈ t) ∧ ∀ c ∈ rest, c ∈ t := by
  obtain ⟨run', rest', hspan⟩ : ∃ run' rest', t.span q = (run', rest') := ⟨_, _, rfl⟩
  obtain ⟨rfl, -, -⟩ := span_eq_iff.mp hspan
  rw [takeRun?, hspan] at h
  dsimp only at h
  cases rest' with
  | nil => cases h
  | cons c rest' =>
    dsimp only at h
    split at h
    · cases h
    · obtain ⟨rfl, rfl⟩ := Prod.mk.inj (Option.some.inj h)
      exact ⟨fun d hd => by simp [hd], fun d hd => by simp [hd]⟩

theorem mem_of_line? {t body : Text} (h : line? t = some body) : ∀ c ∈ body, c ∈ t := by
  unfold line? at h
  dsimp only at h
  split at h
  · cases h
  · obtain rfl := Option.some.inj h
    cases he : Text.beforeEnd? "\n" t with
    | none => exact fun c hc => hc
    | some rest => exact Url.mem_of_beforeEnd? he

/-- The URL of the short form for repositories. -/
theorem forall_mem_expandGithub? (hp : Url.Closed p) {t url : Text}
    (h : expandGithub? t = some url) (ht : ∀ c ∈ t, p c) : ∀ c ∈ url, p c := by
  have hslash : ∀ c ∈ ("/" : Text), p c := hp.marks (by decide)
  have hhost : ∀ c ∈ ("https://raw.githubusercontent.com/" : Text), p c := hp.marks (by decide)
  obtain ⟨g, hg, rfl⟩ := Option.map_eq_some_iff.mp h
  unfold github? at hg
  obtain ⟨rest, hrest, hg⟩ := Option.bind_eq_some_iff.mp hg
  obtain ⟨⟨owner, rest₁⟩, howner, hg⟩ := Option.bind_eq_some_iff.mp hg
  obtain ⟨⟨repo, rest₂⟩, hrepo, hg⟩ := Option.bind_eq_some_iff.mp hg
  obtain ⟨⟨ref, rest₃⟩, href, hg⟩ := Option.bind_eq_some_iff.mp hg
  obtain ⟨path, hpath, hg⟩ := Option.bind_eq_some_iff.mp hg
  obtain rfl := Option.some.inj hg
  have h₀ : ∀ c ∈ rest, p c := fun c hc => ht c (Url.mem_of_afterStart? hrest c hc)
  have h₁ : ∀ c ∈ rest₁, p c := fun c hc => h₀ c ((mem_of_takeRun? howner).2 c hc)
  have h₂ : ∀ c ∈ rest₂, p c := fun c hc => h₁ c ((mem_of_takeRun? hrepo).2 c hc)
  have h₃ : ∀ c ∈ rest₃, p c := fun c hc => h₂ c ((mem_of_takeRun? href).2 c hc)
  unfold GithubPath.url
  simp only [List.forall_mem_append]
  exact ⟨⟨⟨⟨⟨⟨⟨hhost, fun c hc => h₀ c ((mem_of_takeRun? howner).1 c hc)⟩, hslash⟩,
    fun c hc => h₁ c ((mem_of_takeRun? hrepo).1 c hc)⟩, hslash⟩,
    fun c hc => h₂ c ((mem_of_takeRun? href).1 c hc)⟩, hslash⟩,
    fun c hc => h₃ c (mem_of_line? hpath c hc)⟩

theorem forall_mem_takeScope? (hp : Url.Closed p) {t scope rest : Text}
    (h : takeScope? t = some (scope, rest)) (ht : ∀ c ∈ t, p c) :
    (∀ c ∈ scope, p c) ∧ ∀ c ∈ rest, p c := by
  have hat : ∀ c ∈ ("@" : Text), p c := hp.marks (by decide)
  have hslash : ∀ c ∈ ("/" : Text), p c := hp.marks (by decide)
  cases t with
  | nil => cases h
  | cons c t =>
    rw [List.forall_mem_cons] at ht
    rw [takeScope?] at h
    split at h
    · obtain ⟨⟨name, rest'⟩, hrun, heq⟩ := Option.map_eq_some_iff.mp h
      obtain ⟨rfl, rfl⟩ := Prod.mk.inj heq
      obtain ⟨hname, hrest⟩ := mem_of_takeRun? hrun
      rw [List.forall_mem_append, List.forall_mem_append]
      exact ⟨⟨⟨hat, fun c hc => ht.2 c (hname c hc)⟩, hslash⟩, fun c hc => ht.2 c (hrest c hc)⟩
    · obtain ⟨rfl, rfl⟩ := Prod.mk.inj (Option.some.inj h)
      rw [List.forall_mem_cons]
      exact ⟨by simp, ht⟩

/-- The parts of the package form. -/
theorem forall_mem_package? (hp : Url.Closed p) {t : Text} {path : PackagePath}
    (h : package? t = some path) (ht : ∀ c ∈ t, p c) :
    (∀ c ∈ path.package, p c) ∧ (∀ version, path.version = some version → ∀ c ∈ version, p c)
      ∧ ∀ c ∈ path.path, p c := by
  unfold package? at h
  obtain ⟨⟨scope, rest⟩, hscope, h⟩ := Option.bind_eq_some_iff.mp h
  obtain ⟨hscope', hrest⟩ := forall_mem_takeScope? hp hscope ht
  obtain ⟨name, rest₁, hspan⟩ : ∃ name rest₁, rest.span isNamePoint = (name, rest₁) := ⟨_, _, rfl⟩
  obtain ⟨rfl, -, -⟩ := span_eq_iff.mp hspan
  rw [List.forall_mem_append] at hrest
  have hpackage : ∀ c ∈ scope ++ name, p c := List.forall_mem_append.mpr ⟨hscope', hrest.1⟩
  dsimp only at h
  rw [hspan] at h
  dsimp only at h
  split at h
  · cases h
  cases rest₁ with
  | nil => cases h
  | cons mark rest₂ =>
    obtain ⟨-, hrest₂⟩ := List.forall_mem_cons.mp hrest.2
    dsimp only at h
    split at h
    · obtain ⟨line, hline, h⟩ := Option.bind_eq_some_iff.mp h
      obtain rfl := Option.some.inj h
      exact ⟨hpackage, by simp, fun c hc => hrest₂ c (mem_of_line? hline c hc)⟩
    split at h
    · obtain ⟨⟨version, rest₃⟩, hversion, h⟩ := Option.bind_eq_some_iff.mp h
      obtain ⟨line, hline, h⟩ := Option.bind_eq_some_iff.mp h
      obtain rfl := Option.some.inj h
      obtain ⟨hrun, hrest₃⟩ := mem_of_takeRun? hversion
      refine ⟨hpackage, ?_, fun c hc => hrest₂ c (hrest₃ c (mem_of_line? hline c hc))⟩
      rintro _ ⟨⟩ c hc
      exact hrest₂ c (hrun c hc)
    · cases h

/-- The URL of a package path: its version is its own or a pinned one, and is not empty. -/
theorem expandPackage_eq_ok {spec url : Text} {ctx : Context τ} {referrer : Option Text}
    (h : expandPackage spec ctx referrer = .ok url) :
    ∃ path version, package? ((Text.afterStart? "npm:" spec).getD spec) = some path
      ∧ (path.version.orElse fun _ => Table.get? path.package ctx.packageVersions) = some version
      ∧ version ≠ []
      ∧ url = ctx.packageCdn ++ "/" ++ path.package ++ "@" ++ version ++ "/" ++ path.path := by
  unfold expandPackage at h
  -- with and without the prefix: the same, but for the reason of a failure
  cases hn : Text.afterStart? "npm:" spec
  all_goals
    simp only [hn, Option.getD_none, Option.getD_some] at h ⊢
    split at h
    · cases h
    case h_2 path hpath =>
      split at h
      · cases h
      · cases h
      case h_3 version hne hchosen =>
        exact ⟨path, version, hpath, hchosen, hne, (Except.ok.inj h).symm⟩

theorem forall_mem_expandPackage (hp : Url.Closed p) {spec url : Text} {ctx : Context τ}
    {referrer : Option Text} (h : expandPackage spec ctx referrer = .ok url)
    (hspec : ∀ c ∈ spec, p c) (hcdn : ∀ c ∈ ctx.packageCdn, p c)
    (hversions : ∀ pinned ∈ ctx.packageVersions, ∀ c ∈ pinned.2, p c) : ∀ c ∈ url, p c := by
  have hslash : ∀ c ∈ ("/" : Text), p c := hp.marks (by decide)
  have hat : ∀ c ∈ ("@" : Text), p c := hp.marks (by decide)
  obtain ⟨path, version, hpath, hchosen, -, rfl⟩ := expandPackage_eq_ok h
  have hbody : ∀ c ∈ (Text.afterStart? "npm:" spec).getD spec, p c := by
    cases hn : Text.afterStart? "npm:" spec with
    | none => exact hspec
    | some rest => exact fun c hc => hspec c (Url.mem_of_afterStart? hn c hc)
  obtain ⟨hpackage, hexplicit, hfile⟩ := forall_mem_package? hp hpath hbody
  have hversion : ∀ c ∈ version, p c := by
    cases hv : path.version with
    | some explicit =>
      rw [hv] at hchosen
      obtain rfl := Option.some.inj hchosen
      exact hexplicit _ hv
    | none =>
      rw [hv] at hchosen
      exact hversions _ (Table.mem_of_get? hchosen)
  simp only [List.forall_mem_append]
  exact ⟨⟨⟨⟨⟨⟨hcdn, hslash⟩, hpackage⟩, hat⟩, hversion⟩, hslash⟩, hfile⟩

/-! ### What a specifier resolves to -/

theorem admitted_eq_ok {url u : Text} {ctx : Context τ} {specifier : Text}
    {referrer : Option Text} (h : admitted url ctx specifier referrer = .ok u) :
    Url.canonical url = .ok u ∧ Allowed ctx u := by
  unfold admitted at h
  cases hc : Url.canonical url with
  | error defect =>
    rw [hc] at h
    cases h
  | ok canonical =>
    rw [hc] at h
    obtain ⟨rfl, hallowed⟩ := assertAllowed_eq_ok_iff.mp h
    exact ⟨rfl, hallowed⟩

/-- The text whose canonical form a specifier resolves to. -/
inductive Names (spec base : Text) (ctx : Context τ) (referrer : Option Text) : Text → Prop
  | joined {url} : Url.join base spec = .ok url → Names spec base ctx referrer url
  | repository {url} : expandGithub? spec = some url → Names spec base ctx referrer url
  | package {url} : expandPackage spec ctx referrer = .ok url → Names spec base ctx referrer url

theorem exists_names_of_resolve {raw u : Text} {base : Option Text} {ctx : Context τ}
    {referrer : Option Text} (h : resolve raw base ctx referrer = .ok u) :
    ∃ url, Names (Text.strip raw) (base.getD []) ctx referrer url ∧ Url.canonical url = .ok u
      ∧ Allowed ctx u := by
  have hjoin : (do
      let url ← Failure.ofUrl (Url.join (base.getD []) (Text.strip raw))
      admitted url ctx raw referrer) = .ok u →
      ∃ url, Names (Text.strip raw) (base.getD []) ctx referrer url ∧ Url.canonical url = .ok u
        ∧ Allowed ctx u := by
    intro h
    cases hj : Url.join (base.getD []) (Text.strip raw) with
    | error defect =>
      rw [hj] at h
      cases h
    | ok url =>
      rw [hj] at h
      exact ⟨url, .joined hj, admitted_eq_ok h⟩
  unfold resolve at h
  dsimp only at h
  split at h
  · exact hjoin h
  split at h
  · cases hg : expandGithub? (Text.strip raw) with
    | none =>
      rw [hg] at h
      cases h
    | some url =>
      rw [hg] at h
      exact ⟨url, .repository hg, admitted_eq_ok h⟩
  split at h
  · cases he : expandPackage (Text.strip raw) ctx referrer with
    | error e =>
      rw [he] at h
      cases h
    | ok url =>
      rw [he] at h
      exact ⟨url, .package he, admitted_eq_ok h⟩
  split at h
  · split at h
    · cases h
    · exact hjoin h
  · cases h

/-- A resolved URL has no line end, and the marks of a URL come before those of a statement. -/
theorem points_of_resolve {raw u : Text} {base : Option Text} {ctx : Context τ}
    {referrer : Option Text} (h : resolve raw base ctx referrer = .ok u) :
    (∀ c ∈ u, c ≠ '\r' ∧ c ≠ '\n') ∧ u.find? isSlashOrSemicolon = some ('/' : CodePoint) := by
  obtain ⟨url, -, hcanonical, hallowed⟩ := exists_names_of_resolve h
  exact ⟨fun c hc => (Url.kept_of_canonical hcanonical c hc).2, find?_slash_of_hostOf hallowed.1⟩

/-- What is resolved stays in a class of code points. -/
theorem forall_mem_resolve (hp : Url.Closed p) {raw u : Text} {base : Option Text}
    {ctx : Context τ} {referrer : Option Text} (h : resolve raw base ctx referrer = .ok u)
    (hraw : ∀ c ∈ raw, p c) (hbase : ∀ c ∈ base.getD [], p c) (hcdn : ∀ c ∈ ctx.packageCdn, p c)
    (hversions : ∀ pinned ∈ ctx.packageVersions, ∀ c ∈ pinned.2, p c) : ∀ c ∈ u, p c := by
  obtain ⟨url, hnames, hcanonical, -⟩ := exists_names_of_resolve h
  have hspec : ∀ c ∈ Text.strip raw, p c := fun c hc => hraw c (mem_of_mem_strip c hc)
  apply hp.of_canonical hcanonical
  apply Url.forall_mem_clean
  cases hnames with
  | joined hj => exact hp.of_join hj hbase hspec
  | repository hg => exact forall_mem_expandGithub? hp hg hspec
  | package he => exact forall_mem_expandPackage hp he hspec hcdn hversions

end Specifier

end CompileGate
