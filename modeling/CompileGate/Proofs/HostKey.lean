/-
CompileGate/Proofs/HostKey.lean

What the allow-list is asked about, for a URL and for its canonical form.

Two places decide what the port of a URL is.  `allowKey` reads the text behind the
host as a number; `canonicalAuthority` cuts the default port off the end of the
authority, as a text.  The main result is `host_key_exact`:

* the allow-list is asked about the host, with its port unless the scheme implies
  it; only the port 0 is never named (`allowKey_of_port`);
* the canonical form has the same host unless the default port that is cut off was
  not the port, and what is left can be read (`PortsAgree`).

The second part needs something that is left of the authority, or a path in which
no two slashes meet: behind an empty authority a `//` of the path is taken for the
one before an authority.
-/
import CompileGate.Proofs.LoweredAuthority
import CompileGate.Proofs.ResolvedUrl
import CompileGate.Proofs.SingleSlashes

namespace CompileGate
namespace Url

open Text

/-! ### The host of a canonical form -/

theorem accepted_of_split {t : Text} {url : Url} (h : split t = .ok url) :
    Accepted url.authority := by
  simp only [split, splitWith, bind, Except.bind] at h
  split at h
  · cases h
  · next hbrackets =>
    split at h
    · cases h
    · next hhidden =>
      obtain rfl := Except.ok.inj h
      exact ⟨hbrackets, hhidden⟩

/-- Where the scheme's port ends the authority, it is the port, or the rest has no readable port
either. -/
def PortsAgree (url : Url) : Prop :=
  ∀ port rest, defaultPort? url.scheme = some port →
    url.authority = rest ++ (":" ++ Text.ofNat port) → url.host ≠ [] →
    url.portText = Text.ofNat port ∨ readPort? (hostAndPort rest).2 = none

theorem portsAgree_iff {url : Url} {port : Nat} {rest : Text}
    (hdefault : defaultPort? url.scheme = some port)
    (hauthority : url.authority = rest ++ (":" ++ Text.ofNat port)) : url.PortsAgree
      ↔ (url.host ≠ [] →
        url.portText = Text.ofNat port ∨ readPort? (hostAndPort rest).2 = none) := by
  constructor
  · exact fun h => h port rest hdefault hauthority
  · intro h port' rest' hdefault' hauthority' hhost
    obtain rfl : port = port' := Option.some.inj (hdefault.symm.trans hdefault')
    obtain rfl : rest = rest' := List.append_cancel_right (hauthority.symm.trans hauthority')
    exact h hhost

theorem hostOf_of_canonical {t u : Text} {url : Url} (hs : split t = .ok url)
    (hcanonical : canonical t = .ok u)
    (hleft : canonicalAuthority url.scheme url.authority ≠ []) :
    (Accepted (canonicalAuthority url.scheme url.authority) → hostOf u
        = allowKey { url with authority := canonicalAuthority url.scheme url.authority })
      ∧ (¬ Accepted (canonicalAuthority url.scheme url.authority) → hostOf u = []) := by
  have hsplit := split_of_canonicalAuthority hs hcanonical hleft
  unfold hostOf
  rw [hsplit]
  constructor
  · intro haccepted
    rw [canonicalParts, checked_of_accepted haccepted]
    rfl
  · intro hrefused
    cases hchecked : checked (canonicalAuthority url.scheme url.authority) _ with
    | error defect => rfl
    | ok url' => exact absurd (checked_eq_ok_iff.mp hchecked).1 hrefused

section CutPort

variable {url : Url} {port : Nat} {rest : Text}

/-- A port that is the scheme's can be cut off: the host is the same without it. -/
theorem allowKey_of_cut_port (hdefault : defaultPort? url.scheme = some port)
    (hport : hostAndPort url.authority = ((hostAndPort rest).1, Text.ofNat port))
    (hrest : (hostAndPort rest).2 = []) :
    allowKey { url with authority := rest } = url.allowKey := by
  have hread : readPort? url.portText = some (some port) := by
    rw [portText, hport]
    exact (digits_of_defaultPort? hdefault).2
  have hread' : readPort? (portText { url with authority := rest }) = some none := by
    rw [portText, hrest]
    rfl
  have hhost : host { url with authority := rest } = url.host := by
    rw [host, host, hport]
  have hnamed : url.namedKey (some port) = toLower url.host := if_pos hdefault
  rw [allowKey_eq, allowKey_eq, hread, hread']
  dsimp only
  rw [hnamed, namedKey, hhost, ite_self, ite_self]

/-- A port that ends a text which is no port can be read when it is cut off, or not. -/
theorem allowKey_of_cut_more (hread : readPort? url.portText = none)
    (hhost : host { url with authority := rest } = url.host) :
    allowKey { url with authority := rest } = url.allowKey
      ↔ (url.host ≠ [] → readPort? (hostAndPort rest).2 = none) := by
  rw [allowKey_eq_nil_iff.mpr (Or.inr hread), allowKey_eq_nil_iff, hhost, or_iff_not_imp_left]
  exact Iff.rfl

/-- Digits that belong to an address are missing from it when they are cut off. -/
theorem allowKey_of_cut_host {digits : Text} (hdigits : digits.all CodePoint.isAsciiDigit = true)
    (hopen : hostAndPort url.authority
      = ((hostAndPort rest).1 ++ (':' : CodePoint) :: digits, []))
    (hrest : (hostAndPort rest).2 = []) :
    url.allowKey ≠ [] ∧ allowKey { url with authority := rest } ≠ url.allowKey := by
  have hhost : url.host = host { url with authority := rest } ++ (':' : CodePoint) :: digits := by
    rw [host, hopen]
    rfl
  have hread : readPort? url.portText = some none := by
    rw [portText, hopen]
    rfl
  have hread' : readPort? (portText { url with authority := rest }) = some none := by
    rw [portText, hrest]
    rfl
  have hne : url.host ≠ [] := by
    rw [hhost]
    simp
  have hkey : url.allowKey
      = toLower (host { url with authority := rest }) ++ (':' : CodePoint) :: digits := by
    rw [allowKey_of_port hne hread, if_neg (Option.some_ne_none 0).symm, namedKey, hhost,
      toLower_append_port hdigits]
  have hkeyNe : url.allowKey ≠ [] := by
    rw [hkey]
    simp
  refine ⟨hkeyNe, ?_⟩
  by_cases hhost' : host { url with authority := rest } = []
  · rw [allowKey_eq_nil_iff.mpr (Or.inl hhost')]
    exact hkeyNe.symm
  · rw [hkey, allowKey_of_port hhost' hread', if_neg (Option.some_ne_none 0).symm, namedKey]
    exact fun h => absurd (List.self_eq_append_right.mp h) (List.cons_ne_nil _ _)

end CutPort

/-- Where something is left of the authority, the canonical form has the same host exactly if the
ports agree. -/
theorem hostOf_canonical_eq_iff {t u : Text} {url : Url} (hs : split t = .ok url)
    (hcanonical : canonical t = .ok u)
    (hleft : canonicalAuthority url.scheme url.authority ≠ []) :
    hostOf u = url.allowKey ↔ url.PortsAgree := by
  have haccepted := accepted_of_split hs
  obtain ⟨hkey, hrefused⟩ := hostOf_of_canonical hs hcanonical hleft
  rcases canonicalAuthority_cases url with ⟨port, rest, hdefault, hauthority, hcut⟩ | ⟨hnot, hlower⟩
  · obtain ⟨hdigits, hread⟩ := digits_of_defaultPort? hdefault
    rw [portsAgree_iff hdefault hauthority]
    rw [colon_append] at hauthority
    rw [hcut] at hkey hrefused
    have hcutKey : Accepted rest → hostOf u = allowKey { url with authority := rest } :=
      fun h => (hkey h.toLower).trans (allowKey_toLower { url with authority := rest })
    have hrest : (hostAndPort (rest ++ (':' : CodePoint) :: Text.ofNat port)).1
        = (hostAndPort rest).1 → Accepted rest := fun hhost =>
      (hauthority ▸ haccepted).of_append_port hdigits hhost
    -- what the port at the end is: the port, the end of more, or a part of the host
    rcases hostAndPort_append hdigits rest with ⟨hport, hnone⟩ | hmore | ⟨hopen, hnone⟩
    · rw [hcutKey (hrest (by rw [hport]))]
      rw [← hauthority] at hport
      exact iff_of_true (allowKey_of_cut_port hdefault hport hnone) fun _ =>
        Or.inl (by rw [portText, hport])
    · rw [hcutKey (hrest (by rw [hmore]))]
      rw [← hauthority] at hmore
      have hunread : readPort? url.portText = none := by
        rw [portText, hmore]
        exact readPort?_eq_none_of_colon (by simp)
      have hne : url.portText ≠ Text.ofNat port := by
        intro h
        rw [h, hread] at hunread
        cases hunread
      have hhost : host { url with authority := rest } = url.host := by
        rw [host, host, hmore]
      rw [allowKey_of_cut_more hunread hhost, or_iff_right hne]
    · rw [← hauthority] at hopen
      obtain ⟨hkeyNe, hkeyCut⟩ := allowKey_of_cut_host hdigits hopen hnone
      have hagree : ¬ (url.host ≠ [] →
          url.portText = Text.ofNat port ∨ readPort? (hostAndPort rest).2 = none) := by
        have hnil : url.portText = [] := by
          rw [portText, hopen]
        have hhost : url.host ≠ [] := fun h => hkeyNe (allowKey_eq_nil_iff.mpr (Or.inl h))
        intro h
        rcases h hhost with hport | hunread
        · rw [← hport, hnil] at hread
          cases (show some none = some (some port) from hread)
        · rw [hnone] at hunread
          cases hunread
      refine iff_of_false ?_ hagree
      by_cases hlowered : Accepted (toLower rest)
      · rw [hkey hlowered]
        exact (allowKey_toLower { url with authority := rest }).trans_ne hkeyCut
      · rw [hrefused hlowered]
        exact hkeyNe.symm
  · rw [hlower] at hkey
    rw [hkey haccepted.toLower, allowKey_toLower]
    exact iff_of_true rfl fun port rest hdefault hauthority => absurd hauthority
      (hnot port rest hdefault)

/-! ### The decision -/

variable {τ : Type}

/-- **The host that the allow-list is asked about.**  A URL with a host and a readable port is
allowed exactly if its host with its port is listed, where a port that the scheme implies is not
named, and neither is the port 0.  And unless two slashes meet in the path behind nothing that is
left of an authority, its canonical form has the same host exactly if the ports agree. -/
theorem host_key_exact {t : Text} {url : Url} (hs : split t = .ok url) :
    (∀ port, url.host ≠ [] → readPort? url.portText = some port →
        (hostOf t = url.namedKey port ↔ port ≠ some 0)
          ∧ ∀ (ctx : Context τ) (specifier referrer : Option Text),
            Specifier.assertAllowed t ctx specifier referrer = .ok t
              ↔ (if port = some 0 then toLower url.host else url.namedKey port)
                ∈ ctx.allowedHosts)
      ∧ ∀ u, canonical t = .ok u →
        canonicalAuthority url.scheme url.authority ≠ [] ∨ SingleSlashes url.path →
        (hostOf u = hostOf t ↔ url.PortsAgree) := by
  have hkey : hostOf t = url.allowKey := by
    rw [hostOf, hs]
  constructor
  · intro port hhost hport
    have hnamed := allowKey_of_port hhost hport
    refine ⟨?_, fun ctx specifier referrer => ?_⟩
    · rw [hkey, hnamed]
      by_cases hzero : port = some 0
      · rw [if_pos hzero, hzero]
        exact iff_of_false namedKey_zero_ne fun h => h rfl
      · rw [if_neg hzero]
        exact iff_of_true rfl hzero
    · have hne : hostOf t ≠ [] := by
        rw [hkey]
        intro hnil
        rcases allowKey_eq_nil_iff.mp hnil with h | h
        · exact hhost h
        · rw [hport] at h
          cases h
      rw [assertAllowed_eq_ok_iff, and_iff_right rfl, Allowed, and_iff_right hne, hkey, hnamed]
  · intro u hcanonical hor
    rw [hkey]
    by_cases hleft : canonicalAuthority url.scheme url.authority = []
    · -- nothing but the default port: no host on either side
      have hhost := host_eq_nil_of_canonicalAuthority hleft
      rw [hostOf_eq_nil_of_canonical hs hcanonical hleft (hor.resolve_left (not_not.mpr hleft)),
        allowKey_eq_nil_iff.mpr (Or.inl hhost)]
      exact iff_of_true rfl fun _ _ _ _ h => absurd hhost h
    · exact hostOf_canonical_eq_iff hs hcanonical hleft

/-- A URL in capitals, with a port that the scheme does not imply. -/
def capitalUrl : Text := "HTTP://Host:8080/x/../a.sol#end"

theorem host_key_capital : ∃ url, split capitalUrl = .ok url
    ∧ url.host = "Host" ∧ readPort? url.portText = some (some 8080)
    ∧ hostOf capitalUrl = "host:8080"
    ∧ (∀ (ctx : Context Int) (specifier referrer : Option Text),
        Specifier.assertAllowed capitalUrl ctx specifier referrer = .ok capitalUrl
          ↔ ("host:8080" : Text) ∈ ctx.allowedHosts)
    ∧ canonical capitalUrl = .ok "http://host:8080/a.sol"
    ∧ hostOf "http://host:8080/a.sol" = hostOf capitalUrl := by
  have hs : split capitalUrl = .ok ⟨"http", "Host:8080", "/x/../a.sol", [], "end"⟩ := by
    decide +kernel
  have hcanonical : canonical capitalUrl = .ok "http://host:8080/a.sol" := by decide +kernel
  obtain ⟨hport, hsame⟩ := host_key_exact (τ := Int) hs
  obtain ⟨hnamed, hallowed⟩ := hport (some 8080) (by decide +kernel) (by decide +kernel)
  refine ⟨_, hs, by decide +kernel, by decide +kernel, hnamed.mpr (by decide), hallowed,
    hcanonical, ?_⟩
  refine (hsame _ hcanonical (Or.inl (by decide +kernel))).mpr ?_
  -- the authority does not end in the default port
  intro port rest hdefault hauthority
  obtain rfl : 80 = port := Option.some.inj hdefault
  have hend := beforeEnd?_append (":" ++ Text.ofNat 80) rest
  rw [← hauthority] at hend
  exact absurd hend (by
    rw [show Text.beforeEnd? (":" ++ Text.ofNat 80) "Host:8080" = none by decide +kernel]
    exact (Option.some_ne_none rest).symm)

/-- A context with one host on its list, which is named without a port. -/
def portlessContext : Context Int where
  maxSources := 1
  maxTotalBytes := 100
  allowedHosts := ["host"]
  packageCdn := []
  packageVersions := []
  deadline := none
  timeout := none

/-- The port 0 is not named, so a host is allowed that is not listed with it.  And two URLs without
a host have a canonical form with one: of two ports the second one is cut off, and the slashes of a
path are taken for those before an authority. -/
theorem host_key_slips :
    ((∃ url, split "http://host:0/a.sol" = .ok url ∧ url.host = "host"
          ∧ readPort? url.portText = some (some 0) ∧ url.namedKey (some 0) = "host:0")
        ∧ Specifier.assertAllowed "http://host:0/a.sol" portlessContext none none
          = .ok "http://host:0/a.sol"
        ∧ ("host:0" : Text) ∉ portlessContext.allowedHosts)
      ∧ (canonical "http://host:80:80/a.sol" = .ok "http://host:80/a.sol"
        ∧ hostOf "http://host:80:80/a.sol" = [] ∧ hostOf "http://host:80/a.sol" = "host")
      ∧ canonical "http:////host/a.sol" = .ok "http://host/a.sol"
        ∧ hostOf "http:////host/a.sol" = [] ∧ hostOf "http://host/a.sol" = "host" := by
  refine ⟨⟨⟨⟨"http", "host:0", "/a.sol", [], []⟩, ?_⟩, ?_, by decide +kernel⟩, ?_, ?_⟩
  · decide +kernel
  · exact assertAllowed_eq_ok_iff.mpr ⟨rfl, by decide +kernel⟩
  · decide +kernel
  · decide +kernel

end Url

end CompileGate
