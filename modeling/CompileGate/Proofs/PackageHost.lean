/-
CompileGate/Proofs/PackageHost.lean

Packages can be fetched, whatever the allow-list says.

The host of the package source is put on the allow-list as a gateway starts, and it is
asked about again for the canonical form of every package URL.  In between, the slashes
at the end of the source are dropped, a path is appended, and the whole is
canonicalised.  The first two leave scheme and authority alone, so package URLs have the
host of their source before they are canonicalised (`split_dropSlashes_append`).  And
the canonical form keeps that host unless the source hides its port (`HidesPort`): then
the default port that is cut off the end of the authority was part of the host, which can
only be behind a bracket (`not_hidesPort_of_not_mem`).

Main result: `package_host_listed`.  That the source has a host is needed for there to be
a host that is listed, and for the ports: a host that cannot be read hides nothing.
-/
import CompileGate.Proofs.CanonicalShape
import CompileGate.Proofs.ResolvedAuthority

namespace CompileGate

namespace Url

open Text

variable {t : Text} {url : Url}

/-! ### Slashes at the end -/

/-- A slash at the end adds nothing to an authority, and does not begin one. -/
theorem takeAuthority_fst_concat_slash (t : Text) :
    (takeAuthority (t ++ [('/' : CodePoint)])).1 = (takeAuthority t).1 := by
  cases hstart : Text.startsWith "//" t with
  | true =>
    obtain ⟨authority, rest, htake⟩ : ∃ authority rest, takeAuthority t = (authority, rest) :=
      ⟨_, _, rfl⟩
    rw [takeAuthority_append_slash hstart htake, htake]
  | false =>
    rw [takeAuthority_of_not_startsWith hstart]
    cases hstart' : Text.startsWith "//" (t ++ [('/' : CodePoint)]) with
    | false => rw [takeAuthority_of_not_startsWith hstart']
    | true =>
      -- only a slash becomes two slashes, and there is nothing behind them
      obtain ⟨rest, hrest⟩ := Option.isSome_iff_exists.mp hstart'
      have heq : t ++ [('/' : CodePoint)] = "//" ++ rest := eq_append_of_afterStart? hrest
      rcases List.eq_nil_or_concat rest with rfl | ⟨rest, c, rfl⟩
      · rw [heq]
        rfl
      · rw [List.concat_eq_append, ← List.append_assoc] at heq
        rw [List.append_inj_left' heq rfl, Text.startsWith, afterStart?_append] at hstart
        cases hstart

theorem authorityOf_concat_slash (t : Text) :
    authorityOf (t ++ [('/' : CodePoint)]) = authorityOf t := by
  rw [authorityOf, afterScheme_append_slash]
  exact takeAuthority_fst_concat_slash (afterScheme t)

theorem parts_append_slashes {slashes : Text} (h : ∀ c ∈ slashes, c = '/') (t : Text) :
    authorityOf (t ++ slashes) = authorityOf t
      ∧ (partsWith [] (t ++ slashes)).scheme = (partsWith [] t).scheme := by
  induction slashes generalizing t with
  | nil =>
    rw [List.append_nil]
    exact ⟨rfl, rfl⟩
  | cons c slashes ih =>
    obtain ⟨hauthority, hscheme⟩ := ih (fun d hd => h d (List.mem_cons_of_mem _ hd)) (t ++ [c])
    rw [List.append_assoc, List.singleton_append] at hauthority hscheme
    obtain rfl : c = '/' := h c List.mem_cons_self
    exact ⟨hauthority.trans (authorityOf_concat_slash t),
      hscheme.trans (scheme_append_slash t [])⟩

/-- **Below a source is what it is without the slashes at its end**: a URL with the scheme and the
authority of the source. -/
theorem split_dropSlashes_append (hs : split t = .ok url) (hne : url.authority ≠ [])
    (more : Text) : ∃ url', split (Config.dropSlashes t ++ ('/' : CodePoint) :: more) = .ok url'
      ∧ url'.scheme = url.scheme ∧ url'.authority = url.authority := by
  obtain ⟨haccepted, rfl⟩ := split_eq_ok_iff.mp hs
  obtain ⟨slashes, ht, hslashes⟩ := exists_trimEnd_append (fun c : CodePoint => c = '/') t
  obtain ⟨hauthority, hscheme⟩ := parts_append_slashes
    (fun c hc => of_decide_eq_true (hslashes c hc)) (Config.dropSlashes t)
  rw [Config.dropSlashes, ← ht] at hauthority hscheme
  have hs' : split (Config.dropSlashes t) = .ok (partsWith [] (Config.dropSlashes t)) :=
    split_eq_ok_iff.mpr ⟨by rwa [Config.dropSlashes, ← hauthority], rfl⟩
  obtain ⟨url', hsplit, hscheme', hauthority', -⟩ :=
    split_append hs' (ne_of_eq_of_ne hauthority.symm hne) more
  exact ⟨url', hsplit, hscheme'.trans hscheme.symm, hauthority'.trans hauthority.symm⟩

/-! ### Hidden ports -/

/-- The default port ends the authority, but no port is read from it: it belongs to the host. -/
def HidesPort (url : Url) : Prop :=
  ∃ port, defaultPort? url.scheme = some port ∧ (":" : Text) ++ Text.ofNat port <:+ url.authority
    ∧ url.portText = []

/-- Where a host can be read, the ports disagree only if one is hidden. -/
theorem portsAgree_iff_of_allowKey (hkey : url.allowKey ≠ []) :
    url.PortsAgree ↔ ¬ url.HidesPort := by
  obtain ⟨hhost, hread⟩ := not_or.mp (mt allowKey_eq_nil_iff.mpr hkey)
  rcases canonicalAuthority_cases url with ⟨port, rest, hdefault, hauthority, -⟩ | ⟨hnot, -⟩
  · obtain ⟨hdigits, hdigitsRead⟩ := digits_of_defaultPort? hdefault
    have hne : Text.ofNat port ≠ [] := by
      intro hnil
      rw [hnil] at hdigitsRead
      cases (show some none = some (some port) from hdigitsRead)
    have hhides : url.HidesPort ↔ url.portText = [] := by
      constructor
      · rintro ⟨-, -, -, hnil⟩
        exact hnil
      · exact fun hnil => ⟨port, hdefault, ⟨rest, hauthority.symm⟩, hnil⟩
    rw [portsAgree_iff hdefault hauthority, hhides, forall_prop_of_true hhost]
    rw [colon_append] at hauthority
    -- the digits at the end are the port, the end of a text that is none, or part of the host
    rcases hostAndPort_append hdigits rest with ⟨hport, -⟩ | hmore | ⟨hopen, hnone⟩
    · have hportText : url.portText = Text.ofNat port := by
        rw [portText, hauthority, hport]
      rw [hportText]
      exact iff_of_true (Or.inl rfl) hne
    · refine absurd ?_ hread
      rw [portText, hauthority, hmore]
      exact readPort?_eq_none_of_colon (by simp)
    · have hportText : url.portText = [] := by
        rw [portText, hauthority, hopen]
      rw [hportText, hnone]
      refine iff_of_false ?_ fun h => h rfl
      rintro (hnil | hunread)
      · exact hne hnil.symm
      · cases hunread
  · refine iff_of_true (fun port rest hdefault hauthority => absurd hauthority
      (hnot port rest hdefault)) ?_
    rintro ⟨port, hdefault, ⟨rest, hauthority⟩, -⟩
    exact hnot port rest hdefault hauthority.symm

/-- Only behind a bracket can a port be hidden. -/
theorem not_hidesPort_of_not_mem (h : ('[' : CodePoint) ∉ url.authority) : ¬ url.HidesPort := by
  rintro ⟨port, hdefault, ⟨rest, hauthority⟩, hnil⟩
  obtain ⟨hdigits, hread⟩ := digits_of_defaultPort? hdefault
  rw [colon_append] at hauthority
  rw [portText, ← hauthority] at hnil
  rcases hostAndPort_append hdigits rest with ⟨hport, -⟩ | hmore | ⟨hopen, -⟩
  · rw [hport] at hnil
    rw [show Text.ofNat port = [] from hnil] at hread
    cases (show some none = some (some port) from hread)
  · rw [hmore] at hnil
    simp at hnil
  · -- a host that no bracket encloses ends at its first colon
    have hplain : hostAndPort url.authority = cutAt ':' (hostPart url.authority) :=
      hostAndPort_of_plain (cutFirst?_eq_none_iff.mpr fun hmem =>
        h ((isSuffix_hostPart url.authority).subset hmem))
    have hcolon := not_mem_cutAt ':' (hostPart url.authority)
    rw [← hplain, ← hauthority, hopen] at hcolon
    exact hcolon (List.mem_append_right _ List.mem_cons_self)

theorem allowKey_congr {url url' : Url} (hscheme : url'.scheme = url.scheme)
    (hauthority : url'.authority = url.authority) : url'.allowKey = url.allowKey := by
  unfold allowKey
  rw [hscheme, hauthority]

theorem hidesPort_congr {url url' : Url} (hscheme : url'.scheme = url.scheme)
    (hauthority : url'.authority = url.authority) : url'.HidesPort ↔ url.HidesPort := by
  unfold HidesPort portText
  rw [hscheme, hauthority]

/-- The canonical form of what is below a source has the host of the source, unless the source
hides its port. -/
theorem hostOf_below_iff (hs : split t = .ok url) (hkey : url.allowKey ≠ []) {more u : Text}
    (hcanonical : canonical (Config.dropSlashes t ++ ('/' : CodePoint) :: more) = .ok u) :
    hostOf u = hostOf t ↔ ¬ url.HidesPort := by
  obtain ⟨url', hs', hscheme, hauthority⟩ :=
    split_dropSlashes_append hs (authority_ne_nil hkey) more
  have hsame := allowKey_congr hscheme hauthority
  have hhost : hostOf t = url'.allowKey := by
    rw [hostOf, hs, hsame]
  have hkey' : url'.allowKey ≠ [] := ne_of_eq_of_ne hsame hkey
  rw [hhost, hostOf_canonical_eq_iff hs' hcanonical (canonicalAuthority_ne_nil hkey'),
    portsAgree_iff_of_allowKey hkey', hidesPort_congr hscheme hauthority]

end Url

namespace Specifier

open Url

variable {τ : Type}

/-! ### Refusals of package paths -/

section Refusals

variable {ctx : Context τ} {raw spec url : Text} {base referrer : Option Text}

theorem resolve_of_package (h : IsPackage (Text.strip raw)) :
    resolve raw base ctx referrer = match expandPackage (Text.strip raw) ctx referrer with
      | .error e => .error (.gateway e)
      | .ok url => admitted url ctx raw referrer := by
  have heq := resolve_eq raw base ctx referrer
  rw [formOf_of_package h] at heq
  exact heq

/-- Expanding a package path does not ask the allow-list. -/
theorem expandPackage_ne_disallowedHost {u host : Text} {specifier referrer' : Option Text} :
    expandPackage spec ctx referrer ≠ .error (.disallowedHost u host specifier referrer') := by
  intro h
  unfold expandPackage at h
  dsimp only at h
  split at h
  · cases h
  · split at h
    · cases h
    · cases h
    · cases h

/-- The allow-list refuses a URL that is to be admitted exactly if it refuses its canonical form,
which the failure names with its host. -/
theorem admitted_eq_disallowedHost_iff {u host : Text} {specifier referrer' : Option Text} :
    admitted url ctx raw referrer
        = .error (.gateway (.disallowedHost u host specifier referrer'))
      ↔ canonical url = .ok u ∧ ¬ Allowed ctx u
        ∧ host = hostOf u ∧ specifier = some raw ∧ referrer' = referrer := by
  unfold admitted
  cases canonical url with
  | error defect =>
    refine iff_of_false ?_ ?_
    · intro h
      cases h
    · rintro ⟨h, -⟩
      cases h
  | ok u' =>
    show assertAllowed u' ctx (some raw) referrer = _ ↔ _
    rw [assertAllowed_eq]
    by_cases hallowed : Allowed ctx u'
    · rw [if_pos hallowed]
      refine iff_of_false ?_ ?_
      · intro h
        cases h
      · rintro ⟨h, hnot, -⟩
        exact hnot (Except.ok.inj h ▸ hallowed)
    · rw [if_neg hallowed]
      constructor
      · intro h
        cases h
        exact ⟨rfl, hallowed, rfl, rfl, rfl⟩
      · rintro ⟨h, -, rfl, rfl, rfl⟩
        rw [Except.ok.inj h]

theorem resolve_eq_disallowedHost_iff (h : IsPackage (Text.strip raw)) {u host : Text}
    {specifier referrer' : Option Text} :
    resolve raw base ctx referrer
        = .error (.gateway (.disallowedHost u host specifier referrer'))
      ↔ (∃ named, expandPackage (Text.strip raw) ctx referrer = .ok named
          ∧ canonical named = .ok u)
        ∧ ¬ Allowed ctx u ∧ host = hostOf u ∧ specifier = some raw ∧ referrer' = referrer := by
  rw [resolve_of_package h]
  cases hexpand : expandPackage (Text.strip raw) ctx referrer with
  | error e =>
    refine iff_of_false ?_ ?_
    · intro heq
      cases heq
      exact expandPackage_ne_disallowedHost hexpand
    · rintro ⟨⟨named, hnamed, -⟩, -⟩
      cases hnamed
  | ok named =>
    refine admitted_eq_disallowedHost_iff.trans ⟨?_, ?_⟩
    · rintro ⟨hcanonical, hrest⟩
      exact ⟨⟨named, rfl, hcanonical⟩, hrest⟩
    · rintro ⟨⟨named', hnamed, hcanonical⟩, hrest⟩
      rw [Except.ok.inj hnamed]
      exact ⟨hcanonical, hrest⟩

end Refusals

/-! ### The host of the package source -/

/-- The host of the package source is on the list. -/
theorem hostOf_packageCdn_mem {config : Config τ} (hhost : hostOf config.packageCdn ≠ []) :
    hostOf config.packageCdn ∈ (Config.normalize config).allowedHosts := by
  show _ ∈ List.eraseDups _
  rw [if_neg (mt List.isEmpty_iff.mp hhost), List.mem_eraseDups]
  exact List.mem_append_right _ (List.mem_singleton_self _)

/-- **Packages are refused only if their source hides its port.**  Whatever hosts are listed, the
canonical form of a package URL has the host that was added for its source exactly if the source
does not hide its port; so only then can the allow-list refuse one, and it does for every package
URL whose host is not on the list for another reason. -/
theorem package_host_listed [Seconds τ] (config : Config τ) (versions : Table Text) (now : τ)
    (hhost : hostOf config.packageCdn ≠ []) {raw : Text} (base referrer : Option Text)
    (hpackage : IsPackage (Text.strip raw)) :
    ∃ cdn, split config.packageCdn = .ok cdn
      ∧ (∀ named u, expandPackage (Text.strip raw)
            (Context.ofConfig (Config.normalize config) versions now) referrer = .ok named →
          canonical named = .ok u → (hostOf u = hostOf config.packageCdn ↔ ¬ cdn.HidesPort))
      ∧ ∀ u host specifier referrer',
        resolve raw base (Context.ofConfig (Config.normalize config) versions now) referrer
            = .error (.gateway (.disallowedHost u host specifier referrer'))
          ↔ cdn.HidesPort
            ∧ (∃ named, expandPackage (Text.strip raw)
                (Context.ofConfig (Config.normalize config) versions now) referrer = .ok named
              ∧ canonical named = .ok u)
            ∧ ¬ Allowed (Context.ofConfig (Config.normalize config) versions now) u
            ∧ host = hostOf u ∧ specifier = some raw ∧ referrer' = referrer := by
  obtain ⟨cdn, hs, hkey⟩ := exists_split_of_hostOf hhost
  have hsame : ∀ named u, expandPackage (Text.strip raw)
      (Context.ofConfig (Config.normalize config) versions now) referrer = .ok named →
      canonical named = .ok u → (hostOf u = hostOf config.packageCdn ↔ ¬ cdn.HidesPort) := by
    intro named u hexpand hcanonical
    obtain ⟨more, rfl, -⟩ := exists_below_packageCdn hexpand
    exact hostOf_below_iff hs hkey hcanonical
  refine ⟨cdn, hs, hsame, fun u host specifier referrer' => ?_⟩
  rw [resolve_eq_disallowedHost_iff hpackage, iff_and_self]
  rintro ⟨⟨named, hexpand, hcanonical⟩, hrefused, -⟩
  by_contra hshown
  have heq := (hsame named u hexpand hcanonical).mpr hshown
  refine hrefused ⟨?_, ?_⟩
  · rwa [heq]
  · rw [heq]
    exact hostOf_packageCdn_mem hhost

/-- The built-in settings with another package source. -/
def settingsFor (cdn : Text) : Config Float := { Config.builtin with packageCdn := cdn }

/-- What a request without package versions may do under these settings. -/
def contextFor (cdn : Text) : Context Float :=
  Context.ofConfig (Config.normalize (settingsFor cdn)) [] 0

/-- A source in capitals with the default port and slashes at its end. -/
theorem capital_source_listed :
    expandPackage "npm:pkg@1/x.sol" (contextFor "HTTPS://CDN.example:443//") none
        = .ok "HTTPS://CDN.example:443/pkg@1/x.sol"
      ∧ canonical "HTTPS://CDN.example:443/pkg@1/x.sol" = .ok "https://cdn.example/pkg@1/x.sol"
      ∧ hostOf "https://cdn.example/pkg@1/x.sol" = hostOf "HTTPS://CDN.example:443//"
      ∧ ∀ u host specifier referrer,
        resolve "npm:pkg@1/x.sol" none (contextFor "HTTPS://CDN.example:443//") none
          ≠ .error (.gateway (.disallowedHost u host specifier referrer)) := by
  have hexpand : expandPackage "npm:pkg@1/x.sol" (contextFor "HTTPS://CDN.example:443//") none
      = .ok "HTTPS://CDN.example:443/pkg@1/x.sol" := rfl
  have hcanonical : canonical "HTTPS://CDN.example:443/pkg@1/x.sol"
      = .ok "https://cdn.example/pkg@1/x.sol" := by
    decide +kernel
  obtain ⟨cdn, hs, hsame, hrefused⟩ :=
    package_host_listed (settingsFor "HTTPS://CDN.example:443//") [] 0
      (show hostOf "HTTPS://CDN.example:443//" ≠ [] by decide +kernel) none none
      (show IsPackage (Text.strip "npm:pkg@1/x.sol") from Or.inl (by decide +kernel))
  have hshown : ¬ cdn.HidesPort := by
    obtain rfl := Except.ok.inj
      ((show split "HTTPS://CDN.example:443//" = .ok ⟨"https", "CDN.example:443", "//", [], []⟩ by
        decide +kernel).symm.trans hs)
    exact not_hidesPort_of_not_mem (by decide)
  exact ⟨hexpand, hcanonical, (hsame _ _ hexpand hcanonical).mpr hshown,
    fun u host specifier referrer h =>
      hshown ((hrefused u host specifier referrer).mp h).1⟩

/-- A source that hides its port: in front of `@` a bracket is closed, and behind it one is opened
that is not closed, so the port is read as the end of the address. -/
theorem hidden_port_refused :
    hostOf "https://]@[::1:443" = "::1:443"
      ∧ ("::1:443" : Text) ∈ (contextFor "https://]@[::1:443").allowedHosts
      ∧ IsPackage (Text.strip "pkg@1/x.sol")
      ∧ resolve "pkg@1/x.sol" none (contextFor "https://]@[::1:443") none
        = .error (.gateway (.disallowedHost "https://]@[::1/pkg@1/x.sol" "::1"
            (some "pkg@1/x.sol") none)) := by
  have hpackage : IsPackage (Text.strip "pkg@1/x.sol") := Or.inr (by decide +kernel)
  refine ⟨by decide +kernel, by decide +kernel, hpackage,
    (resolve_eq_disallowedHost_iff hpackage).mpr ⟨⟨_, rfl, ?_⟩, ?_, ?_, rfl, rfl⟩⟩
  · decide +kernel
  · decide +kernel
  · decide +kernel

end Specifier

end CompileGate
