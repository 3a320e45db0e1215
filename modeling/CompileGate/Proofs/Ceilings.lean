/-
CompileGate/Proofs/Ceilings.lean

The two ceilings of a walk, on the number of sources and on their bytes, are
exact.

The walk checks them one source at a time and in three places.  Here they are
compared with what does not depend on the walk, the set of all keys that the entry
reaches: the space `Fits` when that set is finite and within both ceilings.  At
every moment the sources found are a part of it (`IsPart`), which gives one
direction, and those of a finished walk are all of it, which gives the other.

A walk also counts bytes, and a text with a surrogate has none to count.  Such a
text ends the walk with a failure of its own, even when a ceiling is exceeded as
well.
-/
import CompileGate.Proofs.Reachability
import Mathlib.Algebra.Order.BigOperators.Group.Finset

namespace CompileGate

open SourceGraph Effect

variable {τ σ : Type}

/-- Every URL is answered, with the given text and however many bytes are wanted. -/
def SourceGraph.Fetcher.Total (fetcher : Fetcher τ σ) (text : Text → Text) : Prop :=
  ∀ url limit s, ∃ t, fetcher.fetch url limit s = .ok (text url) t

namespace SourceSpace

variable {S : SourceSpace} {ctx : Context τ} {sources : List Source}

/-- Every import of every source that the entry reaches names a key. -/
def Resolvable (S : SourceSpace) (ctx : Context τ) : Prop :=
  ∀ key, S.Reaches ctx key → ∀ s ∈ (S.sourceAt key).specifiers,
    ∃ target, Specifier.resolve s (S.sourceAt key).base ctx (some key) = .ok target

/-- Every source that the entry reaches has a UTF-8 form. -/
def Writable (S : SourceSpace) (ctx : Context τ) : Prop :=
  ∀ key, S.Reaches ctx key → Utf8.Encodable (S.sourceAt key).content

/-- The number of bytes of the sources of some keys together. -/
def bytesOf (S : SourceSpace) (keys : Finset Text) : Nat :=
  ∑ key ∈ keys, Utf8.byteLength (S.sourceAt key).content

/-- The keys that the entry reaches are finitely many and within both ceilings. -/
def Fits (S : SourceSpace) (ctx : Context τ) : Prop :=
  ∃ keys : Finset Text, (∀ key, key ∈ keys ↔ S.Reaches ctx key)
    ∧ (keys.card : Int) ≤ ctx.maxSources ∧ (S.bytesOf keys : Int) ≤ ctx.maxTotalBytes

/-! ### Parts of what is reached -/

/-- Sources of the space that the entry reaches, each of them once. -/
structure IsPart (S : SourceSpace) (ctx : Context τ) (sources : List Source) : Prop where
  nodup : (sources.map Source.key).Nodup
  holds : S.Holds sources
  reached : ∀ x ∈ sources, S.Reaches ctx x.key

theorem isPart_of_discovered {targets : List Text} (h : Discovered S.entry ctx sources targets)
    (hS : S.Holds sources) : S.IsPart ctx sources :=
  ⟨h.nodup_keys, hS, reaches_of_discovered h hS⟩

namespace IsPart

theorem card_toFinset (h : S.IsPart ctx sources) :
    (sources.map Source.key).toFinset.card = sources.length := by
  rw [List.toFinset_card_of_nodup h.nodup, List.length_map]

theorem bytesOf_toFinset (h : S.IsPart ctx sources) :
    S.bytesOf (sources.map Source.key).toFinset = totalSize sources := by
  rw [bytesOf, List.sum_toFinset _ h.nodup, List.map_map, totalSize]
  apply congrArg List.sum
  apply List.map_congr_left
  intro x hx
  show Utf8.byteLength (S.sourceAt x.key).content = _
  rw [← h.holds x hx]

/-- A part is within the ceilings that the whole is within. -/
theorem le_of_fits (h : S.IsPart ctx sources) (hfits : S.Fits ctx) :
    (sources.length : Int) ≤ ctx.maxSources ∧ (totalSize sources : Int) ≤ ctx.maxTotalBytes := by
  obtain ⟨keys, hmem, hcard, hbytes⟩ := hfits
  have hsub : (sources.map Source.key).toFinset ⊆ keys := by
    intro key hkey
    obtain ⟨x, hx, rfl⟩ := List.mem_map.mp (List.mem_toFinset.mp hkey)
    exact (hmem _).mpr (h.reached x hx)
  have hlength := Finset.card_le_card hsub
  have htotal : S.bytesOf (sources.map Source.key).toFinset ≤ S.bytesOf keys :=
    Finset.sum_le_sum_of_subset hsub
  rw [h.card_toFinset] at hlength
  rw [h.bytesOf_toFinset] at htotal
  constructor
  · omega
  · omega

theorem encodable (h : S.IsPart ctx sources) (hw : S.Writable ctx) :
    ∀ x ∈ sources, Utf8.Encodable x.content := by
  intro x hx
  rw [h.holds x hx]
  exact hw x.key (h.reached x hx)

end IsPart

theorem isPart_entry : S.IsPart ctx [S.entry] := by
  refine ⟨List.nodup_singleton _, holds_entry, ?_⟩
  intro x hx
  obtain rfl := List.mem_singleton.mp hx
  exact Relation.ReflTransGen.refl

/-- The source of a new key makes a part larger by one. -/
theorem isPart_append {x : Source} {child content : Text}
    (hp : Pending S.entry ctx sources x child)
    (hS : S.Holds (sources ++ [.fetched child content])) :
    S.IsPart ctx (sources ++ [.fetched child content]) := by
  obtain ⟨targets, hd⟩ := hp.discovered
  have hS' : S.Holds sources := fun y hy => hS y (List.mem_append_left _ hy)
  have hreached := reaches_of_discovered hd hS'
  refine ⟨?_, hS, ?_⟩
  · rw [List.map_append, List.nodup_append]
    refine ⟨hd.nodup_keys, List.nodup_singleton _, ?_⟩
    rintro key hkey _ hchild rfl
    obtain rfl := List.mem_singleton.mp hchild
    exact hp.fresh hkey
  · intro y hy
    rcases List.mem_append.mp hy with hy | hy
    · exact hreached y hy
    · obtain rfl := List.mem_singleton.mp hy
      exact reaches_of_target (hS' x hp.importer_mem) (hreached x hp.importer_mem) hp.target

/-! ### Both outcomes -/

variable [Seconds τ]

/-- The failure names one of the two ceilings. -/
def NamesCeiling (ctx : Context τ) (e : Failure τ) : Prop :=
  ∃ referrer url, e = .gateway (.resourceLimitExceeded .sources ctx.maxSources referrer url)
    ∨ e = .gateway (.resourceLimitExceeded .totalBytes ctx.maxTotalBytes referrer url)

theorem keeps_of_total {fetcher : Fetcher τ σ} (htotal : fetcher.Total S.text) :
    fetcher.Keeps S.entry ctx (fun sources _ => S.Holds sources) fun _ _ _ _ => False := by
  intro sources x child s hp _ _ hj
  obtain ⟨targets, hd⟩ := hp.discovered
  obtain ⟨t, ht⟩ := htotal child (ctx.maxTotalBytes - totalSize sources) s
  unfold Ensures
  rw [ht]
  exact holds_append hj hd.entry_mem hp.fresh

/-- Among the causes of a failure only a ceiling and a text without a UTF-8 form are left. -/
theorem cause_of_stopped {fetcher : Fetcher τ σ} (hdeadline : ctx.deadline = none)
    (hres : S.Resolvable ctx) {e : Failure τ} {s : σ}
    (h : Stopped S.entry ctx fetcher (fun sources _ => S.Holds sources) (fun _ _ _ _ => False)
      e s) :
    NamesCeiling ctx e ∧ ¬ S.Fits ctx ∨ (∃ e', e = .unencodable e') ∧ ¬ S.Writable ctx := by
  cases h with
  | entryUnencodable he =>
    refine Or.inr ⟨⟨_, rfl⟩, fun hw => Utf8.not_encodable_of_size he ?_⟩
    exact isPart_entry.encodable hw _ (List.mem_singleton.mpr rfl)
  | entryTooLarge _ hlt =>
    refine Or.inl ⟨⟨_, _, Or.inr rfl⟩, fun hfits => ?_⟩
    have hle := (isPart_entry.le_of_fits hfits).2
    rw [totalSize_singleton] at hle
    omega
  | entryTooMany _ hlt =>
    refine Or.inl ⟨⟨_, _, Or.inl rfl⟩, fun hfits => ?_⟩
    have hle := (isPart_entry.le_of_fits hfits).1
    rw [List.length_singleton] at hle
    omega
  | @unresolved sources targets x specifier _ _ hd hx hs he hj =>
    -- the specifier is one of a source that is reached, so it resolves
    obtain ⟨target, ht⟩ := hres x.key (reaches_of_discovered hd hj x hx) specifier
      (by rw [← hj x hx]; exact hs)
    rw [← hj x hx, he] at ht
    cases ht
  | @tooMany sources x child _ hp hle hj =>
    -- the key that was not fetched is reached as well, and with it there are too many
    obtain ⟨targets, hd⟩ := hp.discovered
    refine Or.inl ⟨⟨_, _, Or.inl rfl⟩, fun hfits => ?_⟩
    have hpart := isPart_append hp (holds_append hj hd.entry_mem hp.fresh)
    have hle' := (hpart.le_of_fits hfits).1
    rw [List.length_append, List.length_singleton] at hle'
    omega
  | late _ hover =>
    -- without a deadline it is never too late
    rw [Context.isOver, Context.secondsLeft, hdeadline] at hover
    cases hover
  | unfetched _ _ hfalse => exact hfalse.elim
  | unencodable hp _ he hj =>
    refine Or.inr ⟨⟨_, rfl⟩, fun hw => Utf8.not_encodable_of_size he ?_⟩
    exact (isPart_append hp hj).encodable hw _
      (List.mem_append_right _ (List.mem_singleton.mpr rfl))
  | tooLarge hp _ _ hlt hj =>
    refine Or.inl ⟨⟨_, _, Or.inr rfl⟩, fun hfits => ?_⟩
    have hle := ((isPart_append hp hj).le_of_fits hfits).2
    rw [totalSize_append, totalSize_singleton] at hle
    exact absurd hlt (not_lt.mpr hle)

omit [Seconds τ] in
/-- What a finished walk has found is all that is reached, and within the ceilings. -/
theorem fits_of_finished {g : SourceGraph} (hfin : Finished S.entry ctx g)
    (hS : S.Holds (g.nodes.map SourceNode.source)) : S.Writable ctx ∧ S.Fits ctx := by
  have hpart := isPart_of_discovered hfin.discovered hS
  have hmem := mem_keys_iff_reaches hfin.discovered hS
  constructor
  · intro key hkey
    obtain ⟨x, hx, rfl⟩ := List.mem_map.mp ((hmem key).mpr hkey)
    rw [← hS x hx]
    exact hfin.discovered.encodable x hx
  · refine ⟨((g.nodes.map SourceNode.source).map Source.key).toFinset, ?_, ?_, ?_⟩
    · intro key
      rw [List.mem_toFinset]
      exact hmem key
    · rw [hpart.card_toFinset]
      exact hfin.discovered.length_le
    · rw [hpart.bytesOf_toFinset]
      exact hfin.discovered.totalSize_le

/-- **The ceilings are exact**: a walk with nothing else to fail at returns if and only if all that
the entry reaches can be written and fits, and it fails at a ceiling only if it does not fit. -/
theorem exists_build_iff_fits (S : SourceSpace) (ctx : Context τ) (fetcher : Fetcher τ σ)
    (htotal : fetcher.Total S.text) (hdeadline : ctx.deadline = none) (hres : S.Resolvable ctx)
    (s : σ) :
    ((∃ g t, build ctx fetcher S.entry.key S.entry.content S.entry.base s = .ok g t)
        ↔ S.Writable ctx ∧ S.Fits ctx)
      ∧ ∀ e t, build ctx fetcher S.entry.key S.entry.content S.entry.base s = .error e t →
        NamesCeiling ctx e ∧ ¬ S.Fits ctx
          ∨ (∃ e', e = .unencodable e') ∧ ¬ S.Writable ctx := by
  have hkeeps : fetcher.Keeps S.entry ctx (fun sources _ => S.Holds sources) fun _ _ _ _ => False :=
    keeps_of_total htotal
  have hbuild := build_ensures hkeeps (s := s) holds_entry
  have hfailed : ∀ e t, build ctx fetcher S.entry.key S.entry.content S.entry.base s
      = .error e t → NamesCeiling ctx e ∧ ¬ S.Fits ctx
        ∨ (∃ e', e = .unencodable e') ∧ ¬ S.Writable ctx := by
    intro e t he
    exact cause_of_stopped hdeadline hres (hbuild.of_error he)
  refine ⟨⟨?_, ?_⟩, hfailed⟩
  · rintro ⟨g, t, hg⟩
    obtain ⟨hfin, hS⟩ := hbuild.of_ok hg
    exact fits_of_finished hfin hS
  · rintro ⟨hwritable, hfits⟩
    cases h : build ctx fetcher S.entry.key S.entry.content S.entry.base s with
    | ok g t => exact ⟨g, t, rfl⟩
    | error e t =>
      rcases hfailed e t h with ⟨-, hnot⟩ | ⟨-, hnot⟩
      · exact absurd hfits hnot
      · exact absurd hwritable hnot

/-! ### Spaces with known keys -/

/-- All imports of the sources of `keys` resolve, and to some of `keys`. -/
def closes (S : SourceSpace) (ctx : Context τ) (keys : List Text) : Bool :=
  keys.all fun key => (S.sourceAt key).specifiers.all fun s =>
    match Specifier.resolve s (S.sourceAt key).base ctx (some key) with
    | .ok target => keys.contains target
    | .error _ => false

omit [Seconds τ] in
theorem resolvable_of_closes {keys : List Text} (hentry : S.entry.key ∈ keys)
    (hcloses : S.closes ctx keys = true) : S.Resolvable ctx := by
  have hresolve : ∀ key ∈ keys, ∀ s ∈ (S.sourceAt key).specifiers, ∃ target ∈ keys,
      Specifier.resolve s (S.sourceAt key).base ctx (some key) = .ok target := by
    intro key hkey s hs
    have h := List.all_eq_true.mp (List.all_eq_true.mp hcloses key hkey) s hs
    cases hr : Specifier.resolve s (S.sourceAt key).base ctx (some key) with
    | ok target =>
      rw [hr] at h
      exact ⟨target, List.contains_iff_mem.mp h, rfl⟩
    | error e =>
      rw [hr] at h
      cases h
  have hclosed : ∀ key ∈ keys, ∀ target ∈ S.importsOf ctx key, target ∈ keys := by
    intro key hkey target htarget
    obtain ⟨s, hs, ht⟩ := List.mem_filterMap.mp htarget
    obtain ⟨target', hmem, hr⟩ := hresolve key hkey s hs
    rw [Specifier.resolve_ok_congr hr none] at ht
    obtain rfl : target' = target := Option.some.inj ht
    exact hmem
  intro key hkey s hs
  obtain ⟨target, -, hr⟩ := hresolve key (mem_of_reaches hentry hclosed hkey) s hs
  exact ⟨target, hr⟩

/-- The ring has three sources: it fits under a ceiling of three and not under one of two. -/
theorem ring_fits_three_not_two : ringFetcher.Total ring.text
    ∧ ring.Resolvable ringContext ∧ ring.Fits ringContext
    ∧ ring.Resolvable { ringContext with maxSources := 2 }
    ∧ ¬ ring.Fits { ringContext with maxSources := 2 } := by
  have htotal : ringFetcher.Total ring.text := fun _ _ s => ⟨s, rfl⟩
  have hentry : ring.entry.key ∈ ringKeys := by decide
  have hres : ring.Resolvable ringContext :=
    resolvable_of_closes hentry (by decide +kernel)
  have hres' : ring.Resolvable { ringContext with maxSources := 2 } :=
    resolvable_of_closes hentry (by decide +kernel)
  have hrun : (match build ringContext ringFetcher ring.entry.key ring.entry.content
      ring.entry.base () with
      | .ok _ _ => true
      | .error _ _ => false) = true := by decide +kernel
  have hrun' : (match build { ringContext with maxSources := 2 } ringFetcher ring.entry.key
      ring.entry.content ring.entry.base () with
      | .error (.gateway _) _ => true
      | _ => false) = true := by decide +kernel
  refine ⟨htotal, hres, ?_, hres', ?_⟩
  · have h := exists_build_iff_fits ring ringContext ringFetcher htotal rfl hres ()
    cases hb : build ringContext ringFetcher ring.entry.key ring.entry.content
        ring.entry.base () with
    | ok g t => exact (h.1.mp ⟨g, t, hb⟩).2
    | error e t =>
      rw [hb] at hrun
      cases hrun
  · have h := exists_build_iff_fits ring { ringContext with maxSources := 2 } ringFetcher htotal rfl
      hres' ()
    cases hb : build { ringContext with maxSources := 2 } ringFetcher ring.entry.key
        ring.entry.content ring.entry.base () with
    | ok g t =>
      rw [hb] at hrun'
      cases hrun'
    | error e t =>
      rcases h.2 e t hb with ⟨-, hnot⟩ | ⟨⟨e', rfl⟩, -⟩
      · exact hnot
      · rw [hb] at hrun'
        cases hrun'

/-! ### A text without a UTF-8 form -/

/-- An entry that holds a surrogate, and nothing to import. -/
def unpaired : SourceSpace where
  entry := ⟨"e.sol", [.ofNat 0xD800], none⟩
  text _ := []

def unpairedFetcher : Fetcher Float Unit where
  fetch url _ := pure (unpaired.text url)
  now _ := 0

/-- The entry alone exceeds a ceiling of no sources, and yet the failure is that of its text. -/
theorem unencodable_of_build_unpaired : unpairedFetcher.Total unpaired.text
    ∧ unpaired.Resolvable { ringContext with maxSources := 0 }
    ∧ ¬ unpaired.Fits { ringContext with maxSources := 0 }
    ∧ ∃ e t, build { ringContext with maxSources := 0 } unpairedFetcher unpaired.entry.key
        unpaired.entry.content unpaired.entry.base () = .error e t
      ∧ ¬ NamesCeiling { ringContext with maxSources := 0 } e := by
  refine ⟨fun _ _ s => ⟨s, rfl⟩,
    resolvable_of_closes (List.mem_singleton.mpr rfl) (by decide), fun hfits => ?_,
    .unencodable ⟨.ofNat 0xD800, 0, 1⟩, (), by rfl, ?_⟩
  · have hle := (isPart_entry.le_of_fits hfits).1
    exact absurd hle (by decide)
  · rintro ⟨referrer, url, h | h⟩
    · cases h
    · cases h

end SourceSpace

end CompileGate
