/-
CompileGate/Proofs/CanonicalShape.lean

What a canonical form looks like.

A text with a host has a canonical form with a scheme and an authority in lower case,
a path that starts with a slash, the query of the text, and no fragment.  Two things
that one would expect of it are exact under a condition only (`canonical_shape`):

* the port that the scheme implies is dropped where it is written as its plain
  decimal; with zeros in front it is read as the same number and stays
  (`namesDefaultPort_iff`);
* the segments `.` and `..` are resolved unless the path starts with `//` and
  something that can be taken for an authority; behind that the path stays as it
  is, but for a `;` at its end (`hasDots_iff`).
-/
import CompileGate.Proofs.HostKey

namespace CompileGate
namespace Url

open Text

/-! ### The port in an authority -/

/-- The port that is read from the authority is the one that the scheme implies. -/
def NamesDefaultPort (url : Url) : Prop :=
  ∃ port, defaultPort? url.scheme = some port ∧ readPort? url.portText = some (some port)

/-- The port is written as the plain decimal of the one that the scheme implies. -/
def WritesDefaultPort (url : Url) : Prop :=
  ∃ port, defaultPort? url.scheme = some port ∧ url.portText = Text.ofNat port

theorem isSuffix_cutAt (mark : CodePoint) (t : Text) : (cutAt mark t).2 = []
    ∨ mark :: (cutAt mark t).2 <:+ t := by
  by_cases hmem : mark ∈ t
  · exact Or.inr ⟨(cutAt mark t).1, (cutAt_fst_append hmem).symm⟩
  · left
    rw [cutAt_of_not_mem hmem]

theorem isSuffix_hostPart (authority : Text) : hostPart authority <:+ authority := by
  unfold hostPart
  cases hcut : Text.cutLast? '@' authority with
  | none => exact List.suffix_refl authority
  | some parts =>
    obtain ⟨heq, -⟩ := eq_append_of_cutLast? hcut
    refine ⟨parts.1 ++ [('@' : CodePoint)], ?_⟩
    dsimp only
    rw [List.append_assoc]
    exact heq.symm

/-- A port stands at the end of its authority, behind a colon. -/
theorem isSuffix_portText {url : Url} (h : url.portText ≠ []) :
    (':' : CodePoint) :: url.portText <:+ url.authority := by
  refine List.IsSuffix.trans ?_ (isSuffix_hostPart url.authority)
  unfold portText at h ⊢
  -- behind a bracket the port begins after the closing one
  cases hopen : Text.cutFirst? '[' (hostPart url.authority) with
  | none =>
    rw [hostAndPort_of_plain hopen] at h ⊢
    exact (isSuffix_cutAt ':' _).resolve_left h
  | some parts =>
    obtain ⟨before, rest⟩ := parts
    rw [hostAndPort_of_open hopen] at h ⊢
    have hport := (isSuffix_cutAt ':' (cutAt ']' rest).2).resolve_left h
    -- what is behind the bracket holds the colon, so the bracket is there
    have hclose : (cutAt ']' rest).2 <:+ rest := by
      rcases isSuffix_cutAt ']' rest with hnil | hsuffix
      · rw [hnil]
        exact List.nil_suffix
      · exact (List.suffix_cons _ _).trans hsuffix
    have hrest : rest <:+ hostPart url.authority :=
      ⟨before ++ [('[' : CodePoint)], by
        rw [List.append_assoc]
        exact (eq_append_of_cutFirst? hopen).1.symm⟩
    exact hport.trans (hclose.trans hrest)

theorem readPort?_toLower (url : Url) :
    readPort? (portText { url with authority := toLower url.authority })
      = readPort? url.portText :=
  readPort?_of_lowers (hostAndPort_toLower url.authority).2.1

/-- An authority with the default port written at its end has no port without it, and names the
default port in no other way. -/
theorem of_written {url : Url} {port : Nat} {rest : Text} (hkey : url.allowKey ≠ [])
    (hdefault : defaultPort? url.scheme = some port)
    (hauthority : url.authority = rest ++ (':' : CodePoint) :: Text.ofNat port) :
    (hostAndPort rest).2 = [] ∧ (url.NamesDefaultPort → url.WritesDefaultPort) := by
  have hread : readPort? url.portText ≠ none := fun hnone =>
    hkey (allowKey_eq_nil_iff.mpr (Or.inr hnone))
  -- the digits are the port, or stand behind another port, or behind a bracket that is not closed
  have hsplit := hostAndPort_append (digits_of_defaultPort? hdefault).1 rest
  rw [← hauthority] at hsplit
  rcases hsplit with ⟨hport, hnone⟩ | hmore | ⟨hopen, hnone⟩
  · refine ⟨hnone, fun _ => ⟨port, hdefault, ?_⟩⟩
    rw [portText, hport]
  · refine absurd ?_ hread
    rw [portText, hmore]
    exact readPort?_eq_none_of_colon (List.mem_append_right _ List.mem_cons_self)
  · refine ⟨hnone, ?_⟩
    rintro ⟨port', -, hport'⟩
    rw [portText, hopen] at hport'
    cases (show some none = some (some port') from hport')

/-- The default port is written at the end of its authority. -/
theorem WritesDefaultPort.exists_eq {url : Url} (h : url.WritesDefaultPort) :
    ∃ port rest, defaultPort? url.scheme = some port
      ∧ url.authority = rest ++ (':' : CodePoint) :: Text.ofNat port := by
  obtain ⟨port, hdefault, hport⟩ := h
  have hne : url.portText ≠ [] := by
    rw [hport]
    rcases defaultPort?_eq_some hdefault with rfl | rfl
    · decide
    · decide
  obtain ⟨rest, hrest⟩ := isSuffix_portText hne
  rw [hport] at hrest
  exact ⟨port, rest, hdefault, hrest.symm⟩

theorem namesDefaultPort_toLower (url : Url) :
    NamesDefaultPort { url with authority := toLower url.authority } ↔ url.NamesDefaultPort := by
  unfold NamesDefaultPort
  rw [readPort?_toLower]

/-- A port is dropped where it is written as the default port in plain decimal, and then none is
left; any other spelling of it stays. -/
theorem namesDefaultPort_iff {url : Url} (hkey : url.allowKey ≠ []) :
    NamesDefaultPort { url with authority := canonicalAuthority url.scheme url.authority }
      ↔ url.NamesDefaultPort ∧ ¬ url.WritesDefaultPort := by
  -- either the digits of the default port are cut off the end, or no end of the authority is they
  rcases canonicalAuthority_cases url with ⟨port, rest, hdefault, hauthority, hcut⟩ | ⟨hnot, hlower⟩
  · rw [colon_append] at hauthority
    obtain ⟨hnone, hwritten⟩ := of_written hkey hdefault hauthority
    rw [hcut, namesDefaultPort_toLower { url with authority := rest }]
    refine iff_of_false ?_ fun h => h.2 (hwritten h.1)
    rintro ⟨port', -, hport'⟩
    rw [show portText { url with authority := rest } = [] from hnone] at hport'
    cases hport'
  · rw [hlower, namesDefaultPort_toLower]
    refine (and_iff_left fun hwritten => ?_).symm
    obtain ⟨port, rest, hdefault, hauthority⟩ := hwritten.exists_eq
    exact hnot port rest hdefault hauthority

/-! ### Segments that are dots -/

/-- One of the segments of a path is `.` or `..`. -/
def HasDots (path : Text) : Prop := ∃ s ∈ Text.splitOn '/' path, IsDots s

instance (path : Text) : Decidable (HasDots path) :=
  inferInstanceAs (Decidable (∃ s ∈ Text.splitOn '/' path, IsDots s))

theorem hasDots_append {before after : Text} :
    HasDots (before ++ ('/' : CodePoint) :: after) ↔ HasDots before ∨ HasDots after := by
  unfold HasDots
  rw [splitOn_append]
  simp only [List.mem_append, or_and_right, exists_or]

theorem hasDots_of_not_mem {name : Text} (h : ('/' : CodePoint) ∉ name) :
    HasDots name ↔ IsDots name := by
  unfold HasDots
  rw [splitOn_of_not_mem h]
  simp

theorem not_hasDots_nil : ¬ HasDots [] := by decide

theorem hasDots_slash {path : Text} : HasDots (('/' : CodePoint) :: path) ↔ HasDots path := by
  have h : HasDots ([] ++ ('/' : CodePoint) :: path) ↔ HasDots [] ∨ HasDots path := hasDots_append
  rwa [or_iff_right not_hasDots_nil] at h

theorem not_isDots_of_mem {name : Text} (h : (';' : CodePoint) ∈ name) : ¬ IsDots name := by
  rintro (rfl | rfl)
  · exact absurd h (by decide)
  · exact absurd h (by decide)

/-- Parameters make no segment dots, whatever they are. -/
theorem not_hasDots_withParameters {path parameters : Text} (hpath : Plain path)
    (hslash : ('/' : CodePoint) ∉ parameters) (h : ¬ HasDots path) :
    ¬ HasDots (withParameters path parameters) := by
  by_cases hnil : parameters = []
  · rw [hnil]
    exact h
  -- only the last segment gets the parameters, and their `;` is in neither kind of dots
  have hlast : ∀ name : Text, ('/' : CodePoint) ∉ name →
      ¬ HasDots (name ++ (';' : CodePoint) :: parameters) := by
    intro name hname
    have hmark : ('/' : CodePoint) ≠ ';' := by decide
    have hnot : ('/' : CodePoint) ∉ name ++ (';' : CodePoint) :: parameters := by
      simp [hname, hslash, hmark]
    rw [hasDots_of_not_mem hnot]
    exact not_isDots_of_mem (by simp)
  rw [withParameters_of_ne_nil hnil]
  cases hpath with
  | name hname _ => exact hlast _ hname
  | below directory hname _ =>
    rw [List.append_assoc, List.cons_append, hasDots_append]
    rintro (hdirectory | hname')
    · exact h (hasDots_append.mpr (Or.inl hdirectory))
    · exact hlast _ hname hname'

/-- A path without a `;` at its end. -/
def withoutEnd (path : Text) : Text :=
  withParameters (cutParameters path).1 (cutParameters path).2

/-- A path that stands as it is, dots and all: behind `//` and what can be taken for an authority,
which may itself be dots. -/
def KeepsDots (path : Text) : Prop :=
  (takeAuthority path).1 ≠ []
    ∧ (IsDots (takeAuthority path).1 ∨ HasDots (withoutEnd (takeAuthority path).2))

instance (path : Text) : Decidable (KeepsDots path) :=
  inferInstanceAs (Decidable (_ ∧ (_ ∨ _)))

theorem hasDots_append_rooted {authority rest : Text} (hauthority : ('/' : CodePoint) ∉ authority)
    (hrest : rest = [] ∨ ∃ more, rest = ('/' : CodePoint) :: more) :
    HasDots (authority ++ rest) ↔ IsDots authority ∨ HasDots rest := by
  rcases hrest with rfl | ⟨more, rfl⟩
  · rw [List.append_nil, hasDots_of_not_mem hauthority, or_iff_left not_hasDots_nil]
  · rw [hasDots_append, hasDots_of_not_mem hauthority, hasDots_slash]

/-- The path of a canonical form has dots exactly if it had been kept from being resolved. -/
theorem hasDots_iff {path : Text} (h : IsPath path) :
    HasDots (rooted (joinRoot path)) ↔ KeepsDots path := by
  obtain ⟨authority, rest, htake⟩ : ∃ authority rest, takeAuthority path = (authority, rest) :=
    ⟨_, _, rfl⟩
  by_cases hne : authority = []
  · -- without an authority of its own the path is resolved
    subst hne
    obtain ⟨plain, parameters, heq, hplain, hslash, -, hdots⟩ := exists_resolved h htake
    rw [heq]
    refine iff_of_false (not_hasDots_withParameters hplain hslash ?_) ?_
    · rintro ⟨s, hs, hs'⟩
      exact hdots s hs hs'
    · rintro ⟨hauthority, -⟩
      exact hauthority (by rw [htake])
  · -- behind an authority all that changes is the `;` at the end
    obtain ⟨plain, parameters, hcut, -⟩ := cutParameters_spec rest
    have hends : ('/' : CodePoint) ∉ authority := by
      rcases takeAuthority_path h with ⟨authority', rest', -, htake', hends, -⟩ | ⟨-, htake'⟩
      · obtain ⟨rfl, -⟩ := Prod.mk.inj (htake.symm.trans htake')
        exact fun hmem => absurd (hends _ hmem) (by decide)
      · exact absurd (Prod.mk.inj (htake.symm.trans htake')).1 hne
    have hkept : KeepsDots path
        ↔ IsDots authority ∨ HasDots (withParameters plain parameters) := by
      unfold KeepsDots withoutEnd
      rw [htake, hcut]
      exact and_iff_right hne
    have hslashes : ∀ t : Text, HasDots ("//" ++ t) ↔ HasDots t := fun t =>
      hasDots_slash.trans hasDots_slash
    rw [rooted_joinRoot_of_authority hne htake hcut, hslashes, hkept]
    exact hasDots_append_rooted hends (withParameters_of_cut (rest_of_takeAuthority h htake) hcut)

/-! ### The form -/

/-- **The shape of a canonical form.**  The canonical form of a text with a host is put together
from these parts, and is taken apart into them if their authority may stand in a URL: the scheme and
the authority are in lower case, the path starts with a slash, the query is the one of the text, and
there is no fragment.  The authority names the default port exactly if the text does so in another
spelling than the plain decimal, and the path has `.` or `..` exactly if the one of the text keeps
them behind an authority of its own. -/
theorem canonical_shape {t u : Text} (hhost : hostOf t ≠ []) (hcanonical : canonical t = .ok u) :
    ∃ url form, split t = .ok url ∧ u = unsplit form ∧ split u = checked form.authority form
      ∧ (form.scheme = url.scheme ∧ Text.toAsciiLower form.scheme = form.scheme)
      ∧ Text.toLower form.authority = form.authority
      ∧ (∃ more, form.path = ('/' : CodePoint) :: more)
      ∧ form.query = url.query ∧ form.fragment = []
      ∧ (form.NamesDefaultPort ↔ url.NamesDefaultPort ∧ ¬ url.WritesDefaultPort)
      ∧ (HasDots form.path ↔ KeepsDots url.path) := by
  obtain ⟨url, hs, hkey⟩ := exists_split_of_hostOf hhost
  have hne := authority_ne_nil hkey
  have hleft := canonicalAuthority_ne_nil hkey
  have hpath := isPath_pathOf hs hne
  have hlower : Text.toAsciiLower url.scheme = url.scheme := by
    rcases (readable_of_split hs).scheme with hnil | hscheme
    · rw [hnil]
      rfl
    · exact hscheme.lower
  have hu : u = unsplit { canonicalParts url with path := rooted (joinRoot (pathOf url)) } := by
    have hmade := canonical_eq hs hne
    rw [hcanonical] at hmade
    rw [(checked_eq_ok_iff.mp hmade.symm).2]
    exact (unsplit_rooted (canonicalParts url) hleft).symm
  -- an empty path counts as the root, and neither has dots
  have hdots : KeepsDots (pathOf url) ↔ KeepsDots url.path := by
    unfold pathOf
    split
    · next hempty =>
      rw [List.isEmpty_iff.mp hempty]
      exact iff_of_false (by decide) (by decide)
    · exact Iff.rfl
  refine ⟨url, _, hs, hu, split_of_canonicalAuthority hs hcanonical hleft, ⟨rfl, hlower⟩,
    toLower_canonicalAuthority _ _, (isPath_rooted_joinRoot hpath).start, rfl, rfl, ?_, ?_⟩
  · exact namesDefaultPort_iff hkey
  · exact (hasDots_iff hpath).trans hdots

/-- Capitals, the default port, dots, a query and a fragment. -/
def untidyUrl : Text := "HTTP://User@Host:80/x/.././a.sol;v=1?Q=..#end"

theorem canonical_shape_untidy : hostOf untidyUrl ≠ []
    ∧ canonical untidyUrl = .ok "http://user@host/a.sol;v=1?Q=.."
    ∧ ∃ form, split "http://user@host/a.sol;v=1?Q=.." = .ok form
      ∧ Text.toLower form.authority = form.authority ∧ form.query = "Q=.." ∧ form.fragment = []
      ∧ (∃ more, form.path = ('/' : CodePoint) :: more)
      ∧ ¬ form.NamesDefaultPort ∧ ¬ HasDots form.path := by
  have hhost : hostOf untidyUrl ≠ [] := by decide +kernel
  have hcanonical : canonical untidyUrl = .ok "http://user@host/a.sol;v=1?Q=.." := by
    decide +kernel
  obtain ⟨url, form, hs, -, hsplit, -, hlower, hstart, hquery, hfragment, hport, hdots⟩ :=
    canonical_shape hhost hcanonical
  have hparts : split untidyUrl
      = .ok ⟨"http", "User@Host:80", "/x/.././a.sol;v=1", "Q=..", "end"⟩ := by decide +kernel
  have hform : split "http://user@host/a.sol;v=1?Q=.."
      = .ok ⟨"http", "user@host", "/a.sol;v=1", "Q=..", []⟩ := by decide +kernel
  rw [hparts] at hs
  obtain rfl := Except.ok.inj hs
  -- the form that the theorem gives is the one that was computed
  obtain ⟨haccepted, -⟩ := checked_eq_ok_iff.mp (hsplit.symm.trans hform)
  rw [checked_of_accepted haccepted] at hsplit
  refine ⟨hhost, hcanonical, form, hsplit, hlower, hquery, hfragment, hstart, ?_, ?_⟩
  · rw [hport]
    exact fun h => h.2 ⟨80, by decide, by decide +kernel⟩
  · rw [hdots]
    decide +kernel

/-- A default port with a zero in front stays, and so do the dots of a path that starts with two
slashes and a name: both texts are their own canonical forms. -/
theorem canonical_shape_slips :
    (hostOf "http://host:080/a.sol" = "host"
        ∧ canonical "http://host:080/a.sol" = .ok "http://host:080/a.sol"
        ∧ ∃ form, split "http://host:080/a.sol" = .ok form ∧ form.NamesDefaultPort)
      ∧ hostOf "https://host//a/../b.sol" = "host"
      ∧ canonical "https://host//a/../b.sol" = .ok "https://host//a/../b.sol"
      ∧ ∃ form, split "https://host//a/../b.sol" = .ok form ∧ HasDots form.path := by
  refine ⟨⟨by decide +kernel, by decide +kernel,
      ⟨"http", "host:080", "/a.sol", [], []⟩, by decide +kernel, 80, by decide, by decide +kernel⟩,
    by decide +kernel, by decide +kernel,
    ⟨"https", "host", "//a/../b.sol", [], []⟩, by decide +kernel, by decide +kernel⟩

end Url

end CompileGate
