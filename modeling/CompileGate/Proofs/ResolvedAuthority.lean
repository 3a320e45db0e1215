/-
CompileGate/Proofs/ResolvedAuthority.lean

The authority of a resolved URL.

A relative specifier leaves the scheme and the authority of its base as they are, and
a short form is appended to its site behind a slash; neither can reach what stands
before the path.  The canonical form keeps both, apart from capitals and the default
port.  So the form of a specifier decides the authority (`resolved_authority`), with
one exception: of an authority that is nothing but the default port, nothing is left
in the canonical form.  For a relative specifier there is no URL then, since no two
slashes meet in its path; but a package path can have two at its front, and what
stands behind them becomes the authority.
-/
import CompileGate.Proofs.HostKey
import CompileGate.Proofs.ResolutionFailures

namespace CompileGate

variable {τ : Type}

namespace Url

open Text

variable {t u : Text} {url : Url}

/-! ### The authority of a canonical form -/

/-- Where something is left of the authority, it is the one of the canonical form. -/
theorem split_of_canonical_left (hs : split t = .ok url) (hcanonical : canonical t = .ok u)
    (hleft : canonicalAuthority url.scheme url.authority ≠ [])
    (haccepted : Accepted (canonicalAuthority url.scheme url.authority)) :
    ∃ k, split u = .ok k ∧ k.scheme = url.scheme
      ∧ k.authority = canonicalAuthority url.scheme url.authority := by
  rw [split_of_canonicalAuthority hs hcanonical hleft, checked_of_accepted haccepted]
  exact ⟨_, rfl, rfl, rfl⟩

/-- It may stand in a URL if the canonical form has a host. -/
theorem accepted_of_canonical (hs : split t = .ok url) (hcanonical : canonical t = .ok u)
    (hleft : canonicalAuthority url.scheme url.authority ≠ []) (hhost : hostOf u ≠ []) :
    Accepted (canonicalAuthority url.scheme url.authority) := by
  obtain ⟨k, hk, -⟩ := exists_split_of_hostOf hhost
  rw [split_of_canonicalAuthority hs hcanonical hleft] at hk
  exact (checked_eq_ok_iff.mp hk).1

/-- Where nothing is left of the authority of a web URL, its canonical form has a host only if the
path names one: what stands behind two slashes at its front. -/
theorem split_of_canonical_none (hs : split t = .ok url) (hweb : url.IsWeb)
    (hcanonical : canonical t = .ok u)
    (hnone : canonicalAuthority url.scheme url.authority = []) (hhost : hostOf u ≠ []) :
    ∃ k, split u = .ok k ∧ k.scheme = url.scheme
      ∧ k.authority = (takeAuthority (joinRoot (pathOf url))).1 := by
  obtain ⟨k, hk, hkey⟩ := exists_split_of_hostOf hhost
  have hkept := kept_of_canonical hcanonical
  have hscheme : IsScheme url.scheme :=
    (readable_of_split hs).scheme.resolve_left hweb.scheme_ne_nil
  rw [canonical_eq hs hweb.authority] at hcanonical
  obtain ⟨-, hu⟩ := checked_eq_ok_iff.mp hcanonical
  rw [canonicalParts, hnone, unsplit_of_no_authority hweb.scheme_ne_nil] at hu
  rw [hu] at hkept hk
  obtain ⟨-, rfl⟩ := split_eq_ok_iff.mp hk
  obtain ⟨hsame, hread⟩ := parts_of_takeScheme? (front_of_scheme hscheme hkept)
  rw [← hu] at hk hsame hread hkey
  refine ⟨_, hk, hsame, ?_⟩
  show authorityOf u = _
  rw [hread]
  cases hstart : Text.startsWith "//" (joinRoot (pathOf url)) with
  | true =>
    have htake := takeAuthority_append_of_ends hstart
      (show _ = ((takeAuthority (joinRoot (pathOf url))).1,
        (takeAuthority (joinRoot (pathOf url))).2) from rfl)
      (endsAuthority_marked (show endsAuthority '?' = true from rfl) url.query)
    rw [Bool.not_true, Bool.and_false, if_neg Bool.false_ne_true, htake]
  | false =>
    -- then the path stands behind an authority that is empty, and there is no host
    have hknown : authoritySchemes.contains url.scheme = true := by
      rcases hweb.scheme with e | e
      · rw [e]
        decide
      · rw [e]
        decide
    have htake := takeAuthority_append (show ∀ c ∈ ([] : Text), endsAuthority c = false by simp)
      (forall_head?_append (endsAuthority_rooted (joinRoot (pathOf url)))
        (endsAuthority_marked (show endsAuthority '?' = true from rfl) url.query))
    rw [hknown, hstart, Bool.not_false, Bool.and_self, if_pos rfl, List.append_assoc,
      ← List.nil_append (rooted _ ++ _), htake] at hread
    exact absurd hread (authority_ne_nil hkey)

end Url

namespace Specifier

open Url

/-! ### The form decides the authority -/

variable {spec : Text}

theorem formOf_of_relative (h : IsRelative spec) : formOf spec = .relative := by
  obtain ⟨more, rfl⟩ := h.exists_dot
  have hother : isWebUrl (('.' : CodePoint) :: more) = false
      ∧ Text.startsWith "github:" (('.' : CodePoint) :: more) = false
      ∧ (Text.startsWith "npm:" (('.' : CodePoint) :: more)
        || isBarePackage (('.' : CodePoint) :: more)) = false := ⟨rfl, rfl, rfl⟩
  unfold formOf
  rw [hother.1, hother.2.1, hother.2.2, if_neg Bool.false_ne_true, if_neg Bool.false_ne_true,
    if_neg Bool.false_ne_true, if_pos ((Bool.or_eq_true _ _).mpr h)]

theorem formOf_of_repository (h : Text.startsWith "github:" spec = true) :
    formOf spec = .repository := by
  obtain ⟨rest, hrest⟩ := Option.isSome_iff_exists.mp h
  have hweb : isWebUrl spec = false := by
    rw [Text.eq_append_of_afterStart? hrest]
    rfl
  unfold formOf
  rw [hweb, if_neg Bool.false_ne_true, if_pos h]

theorem mem_of_afterCaseless? {letters t rest : Text}
    (h : Text.afterCaseless? letters t = some rest) : ∀ c ∈ rest, c ∈ t := by
  induction letters generalizing t with
  | nil =>
    obtain rfl := Option.some.inj h
    exact fun c hc => hc
  | cons letter letters ih =>
    cases t with
    | nil => cases h
    | cons d t =>
      rw [Text.afterCaseless?] at h
      split at h
      · exact fun c hc => List.mem_cons_of_mem _ (ih h c hc)
      · cases h

theorem colon_mem_of_isWebUrl (h : isWebUrl spec = true) : (':' : CodePoint) ∈ spec := by
  have hstart : ∀ t, Text.startsWith "://" t = true → (':' : CodePoint) ∈ t := by
    intro t ht
    obtain ⟨rest, hrest⟩ := Option.isSome_iff_exists.mp ht
    rw [Text.eq_append_of_afterStart? hrest]
    exact List.mem_append_left _ (by decide)
  unfold isWebUrl at h
  cases hrest : Text.afterCaseless? "http" spec with
  | none =>
    rw [hrest] at h
    cases h
  | some rest =>
    rw [hrest] at h
    dsimp only at h
    refine mem_of_afterCaseless? hrest _ ?_
    rcases (Bool.or_eq_true _ _).mp h with h | h
    · exact hstart rest h
    · cases hsecure : Text.afterCaseless? "s" rest with
      | none =>
        rw [hsecure] at h
        cases h
      | some rest' =>
        rw [hsecure] at h
        exact mem_of_afterCaseless? hsecure _ (hstart rest' h)

/-- A package path, with or without its prefix. -/
def IsPackage (spec : Text) : Prop :=
  Text.startsWith "npm:" spec = true ∨ isBarePackage spec = true

theorem formOf_of_package (h : IsPackage spec) : formOf spec = .package := by
  have hother : isWebUrl spec = false ∧ Text.startsWith "github:" spec = false := by
    rcases h with h | h
    · obtain ⟨rest, hrest⟩ := Option.isSome_iff_exists.mp h
      rw [Text.eq_append_of_afterStart? hrest]
      exact ⟨rfl, rfl⟩
    · have hcolon : (':' : CodePoint) ∉ spec := by
        cases spec with
        | nil => cases h
        | cons c more =>
          simp only [isBarePackage, Bool.and_eq_true, Bool.not_eq_true'] at h
          intro hmem
          rw [List.contains_iff_mem.mpr hmem] at h
          cases h.1.2
      constructor
      · rw [← Bool.not_eq_true]
        exact fun hweb => hcolon (colon_mem_of_isWebUrl hweb)
      · rw [← Bool.not_eq_true]
        intro hstart
        obtain ⟨rest, hrest⟩ := Option.isSome_iff_exists.mp hstart
        rw [Text.eq_append_of_afterStart? hrest] at hcolon
        exact hcolon (List.mem_append_left _ (by decide))
  unfold formOf
  rw [hother.1, hother.2, if_neg Bool.false_ne_true, if_neg Bool.false_ne_true,
    if_pos ((Bool.or_eq_true _ _).mpr h)]

variable {raw K site : Text} {url : Url} {base : Option Text} {ctx : Context τ}
  {referrer : Option Text}

/-- The canonical form of a text has this scheme and this authority. -/
def HasSite (t scheme authority : Text) : Prop :=
  ∃ c k, canonical t = .ok c ∧ split c = .ok k ∧ k.scheme = scheme ∧ k.authority = authority

/-- Below a site of which something is left, a URL has its scheme and its authority, as the site
itself has them in its canonical form. -/
theorem authority_below (hs : split site = .ok url) (hweb : url.IsWeb)
    (hleft : canonicalAuthority url.scheme url.authority ≠ []) {more : Text}
    (h : admitted (site ++ ('/' : CodePoint) :: more) ctx raw referrer = .ok K) :
    ∃ k, split K = .ok k ∧ k.scheme = url.scheme
      ∧ k.authority = canonicalAuthority url.scheme url.authority
      ∧ HasSite site k.scheme k.authority := by
  obtain ⟨hcanonical, hallowed⟩ := admitted_eq_ok h
  obtain ⟨url', hs', hscheme, hauthority, -⟩ :=
    split_append hs hweb.authority more
  rw [← hscheme, ← hauthority] at hleft ⊢
  have haccepted := accepted_of_canonical hs' hcanonical hleft hallowed.1
  obtain ⟨k, hk, hkscheme, hkauthority⟩ := split_of_canonical_left hs' hcanonical hleft haccepted
  refine ⟨k, hk, hkscheme, hkauthority, ?_⟩
  obtain ⟨c, hc⟩ := exists_canonical_iff.mpr
    (Legible.of_append hs hweb (exists_canonical_iff.mp ⟨K, hcanonical⟩))
  rw [hscheme, hauthority] at hkauthority hleft haccepted
  obtain ⟨k', hk', hscheme', hauthority'⟩ := split_of_canonical_left hs hc hleft haccepted
  exact ⟨c, k', hc, hk', (hscheme'.trans hscheme.symm).trans hkscheme.symm,
    hauthority'.trans hkauthority.symm⟩

/-- Below a site of which nothing is left, the path of a URL decides its authority. -/
theorem authority_below_none (hs : split site = .ok url) (hweb : url.IsWeb)
    (hnone : canonicalAuthority url.scheme url.authority = []) {more : Text}
    (h : admitted (site ++ ('/' : CodePoint) :: more) ctx raw referrer = .ok K) :
    ∃ k parts, split K = .ok k ∧ k.scheme = url.scheme
      ∧ split (site ++ ('/' : CodePoint) :: more) = .ok parts
      ∧ k.authority = (takeAuthority (joinRoot (pathOf parts))).1 := by
  obtain ⟨hcanonical, hallowed⟩ := admitted_eq_ok h
  obtain ⟨url', hs', hscheme, hauthority, -⟩ :=
    split_append hs hweb.authority more
  have hweb' : url'.IsWeb := ⟨by rw [hscheme]; exact hweb.scheme, by rw [hauthority]; exact hweb.authority⟩
  rw [← hscheme, ← hauthority] at hnone
  obtain ⟨k, hk, hkscheme, hkauthority⟩ :=
    split_of_canonical_none hs' hweb' hcanonical hnone hallowed.1
  exact ⟨k, url', hk, hkscheme.trans hscheme, hs', hkauthority⟩

/-- A relative specifier leaves the scheme and the authority of its base. -/
theorem authority_of_relative {b : Text} (hs : split b = .ok url) (hweb : url.IsWeb)
    (hspec : IsRelative spec) (h : resolveJoined raw spec b ctx referrer = .ok K) :
    ∃ k, split K = .ok k ∧ k.scheme = url.scheme
      ∧ k.authority = canonicalAuthority url.scheme url.authority
      ∧ ∀ c, canonical b = .ok c → HasSite b k.scheme k.authority := by
  obtain ⟨joined, hjoin, hreadable, hscheme, hauthority, hsingle⟩ := join_relative hs hweb hspec
  unfold resolveJoined at h
  rw [hjoin] at h
  obtain ⟨hcanonical, hallowed⟩ := admitted_eq_ok h
  have hne : joined.authority ≠ [] := by
    rw [hauthority]
    exact hweb.authority
  have hs' := split_unsplit hreadable hne
  rw [checked_of_accepted (by rw [hauthority]; exact accepted_of_split hs)] at hs'
  have hleft : canonicalAuthority url.scheme url.authority ≠ [] := by
    intro hnone
    rw [← hscheme, ← hauthority] at hnone
    exact hallowed.1 (hostOf_eq_nil_of_canonical hs' hcanonical hnone hsingle)
  have hleft' := hleft
  rw [← hscheme, ← hauthority] at hleft'
  have haccepted := accepted_of_canonical hs' hcanonical hleft' hallowed.1
  obtain ⟨k, hk, hkscheme, hkauthority⟩ := split_of_canonical_left hs' hcanonical hleft' haccepted
  dsimp only at hkscheme hkauthority haccepted
  rw [hscheme, hauthority] at hkauthority haccepted
  rw [hscheme] at hkscheme
  refine ⟨k, hk, hkscheme, hkauthority, fun c hc => ?_⟩
  obtain ⟨k', hk', hscheme', hauthority'⟩ := split_of_canonical_left hs hc hleft haccepted
  exact ⟨c, k', hc, hk', hscheme'.trans hkscheme.symm, hauthority'.trans hkauthority.symm⟩

/-- **The form of a specifier decides the authority** of the URL that it resolves to, whatever else
stands in it: a relative one leaves that of its base, and a short form names its site.  Where the
authority of the package source is nothing but the default port, the path decides instead. -/
theorem resolved_authority (h : resolve raw base ctx referrer = .ok K) {cdn : Url}
    (hcdn : split ctx.packageCdn = .ok cdn) (hweb : cdn.IsWeb)
    (hbase : ∀ b, base = some b → ∃ url, split b = .ok url ∧ url.IsWeb) :
    ∃ k, split K = .ok k
      ∧ (IsRelative (Text.strip raw) → ∃ b url, base = some b ∧ split b = .ok url
        ∧ k.scheme = url.scheme ∧ k.authority = canonicalAuthority url.scheme url.authority
        ∧ ∀ c, canonical b = .ok c → HasSite b k.scheme k.authority)
      ∧ (Text.startsWith "github:" (Text.strip raw) = true →
        k.scheme = "https" ∧ k.authority = "raw.githubusercontent.com")
      ∧ (IsPackage (Text.strip raw) →
        (canonicalAuthority cdn.scheme cdn.authority ≠ [] → k.scheme = cdn.scheme
          ∧ k.authority = canonicalAuthority cdn.scheme cdn.authority
          ∧ HasSite ctx.packageCdn k.scheme k.authority)
        ∧ (canonicalAuthority cdn.scheme cdn.authority = [] → k.scheme = cdn.scheme
          ∧ ∃ named parts, expandPackage (Text.strip raw) ctx referrer = .ok named
            ∧ split named = .ok parts
            ∧ k.authority = (takeAuthority (joinRoot (pathOf parts))).1)) := by
  obtain ⟨_, -, -, hallowed⟩ := exists_names_of_resolve h
  obtain ⟨k, hk, -⟩ := exists_split_of_hostOf hallowed.1
  have hunique : ∀ {k'}, split K = .ok k' → k' = k := fun hk' => Except.ok.inj (hk'.symm.trans hk)
  rw [resolve_eq] at h
  refine ⟨k, hk, fun hrelative => ?_, fun hrepository => ?_, fun hpackage => ?_⟩
  · rw [formOf_of_relative hrelative] at h
    dsimp only at h
    cases base with
    | none => cases h
    | some b =>
      obtain ⟨url, hs, hurl⟩ := hbase b rfl
      split at h
      · cases h
      · obtain ⟨k', hk', hsite⟩ := authority_of_relative hs hurl hrelative h
        obtain rfl := hunique hk'
        exact ⟨b, url, rfl, hs, hsite⟩
  · rw [formOf_of_repository hrepository] at h
    dsimp only at h
    split at h
    · cases h
    · next url hexpand =>
      obtain ⟨more, rfl, -⟩ := exists_below_repositorySite hexpand
      obtain ⟨k', hk', hscheme, hauthority, -⟩ := authority_below split_repositorySite
        ⟨Or.inr rfl, by decide⟩ (by decide +kernel) h
      obtain rfl := hunique hk'
      refine ⟨hscheme, hauthority.trans ?_⟩
      decide +kernel
  · rw [formOf_of_package hpackage] at h
    dsimp only at h
    split at h
    · cases h
    · next named hexpand =>
      obtain ⟨more, rfl, -⟩ := exists_below_packageCdn hexpand
      constructor
      · intro hleft
        obtain ⟨k', hk', hsite⟩ := authority_below hcdn hweb hleft h
        obtain rfl := hunique hk'
        exact hsite
      · intro hnone
        obtain ⟨k', parts, hk', hscheme, hparts, hauthority⟩ :=
          authority_below_none hcdn hweb hnone h
        obtain rfl := hunique hk'
        exact ⟨hscheme, _, parts, hexpand, hparts, hauthority⟩

/-- A context with two hosts on its list, and this package source. -/
def sourceContext (packageCdn : Text) : Context Int where
  maxSources := 1
  maxTotalBytes := 100
  allowedHosts := ["cdn.example", "evil.com"]
  packageCdn := packageCdn
  packageVersions := []
  deadline := none
  timeout := none

/-- A package path that leads far above the root of its source, and from there to a host. -/
def climbingSpecifier : Text := "npm:pkg@1/../..///evil.com/x.sol"

theorem climbing_stays_below :
    resolve climbingSpecifier none (sourceContext "HTTPS://CDN.example:443") none
        = .ok "https://cdn.example//evil.com/x.sol"
      ∧ HasSite "HTTPS://CDN.example:443" "https" "cdn.example"
      ∧ ∃ k, split "https://cdn.example//evil.com/x.sol" = .ok k ∧ k.scheme = "https"
        ∧ k.authority = "cdn.example" := by
  have hform : formOf (Text.strip climbingSpecifier) = .package := by decide +kernel
  have hresolve : resolve climbingSpecifier none (sourceContext "HTTPS://CDN.example:443") none
      = .ok "https://cdn.example//evil.com/x.sol" := by
    rw [resolve_eq, hform]
    rfl
  obtain ⟨k, hk, -, -, hpackage⟩ := resolved_authority hresolve
    (show split "HTTPS://CDN.example:443" = .ok ⟨"https", "CDN.example:443", [], [], []⟩ by
      decide +kernel) ⟨Or.inr rfl, by decide⟩ (by simp)
  obtain ⟨hscheme, hauthority, hsite⟩ :=
    (hpackage (Or.inl (by decide +kernel))).1 (by decide +kernel)
  have hlower : canonicalAuthority "https" "CDN.example:443" = "cdn.example" := by decide +kernel
  rw [hscheme, hauthority, hlower] at hsite
  exact ⟨hresolve, hsite, k, hk, hscheme, hauthority.trans hlower⟩

/-- Of a package source whose authority is nothing but the default port, the same specifier leaves
the site. -/
theorem climbing_leaves_site :
    resolve climbingSpecifier none (sourceContext "https://:443") none = .ok "https://evil.com/x.sol"
      ∧ split "https://evil.com/x.sol" = .ok ⟨"https", "evil.com", "/x.sol", [], []⟩
      ∧ split "https://:443" = .ok ⟨"https", ":443", [], [], []⟩
      ∧ HasSite "https://:443" "https" [] := by
  have hform : formOf (Text.strip climbingSpecifier) = .package := by decide +kernel
  refine ⟨?_, by decide +kernel, by decide +kernel, "https:///",
    ⟨"https", [], "/", [], []⟩, by decide +kernel, by decide +kernel, rfl, rfl⟩
  rw [resolve_eq, hform]
  rfl

end Specifier

end CompileGate
