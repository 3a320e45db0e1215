/-
CompileGate/Proofs/UrlPoints.lean

Where the code points of a URL come from.

Taking a URL apart, joining and canonicalising it move code points about and add
marks and lower-case letters of their own.  A class of code points that holds all
of the latter (`Closed`) is therefore not left: what is made of texts in the class
is in the class.  Such classes are the code points other than quotes, those that
cleaning keeps (`Kept`), and those that are no surrogates.

A canonical URL is made of a cleaned text, so it holds no tab and no line end,
whatever it was made of.
-/
import CompileGate.Url.Canonical
import CompileGate.Proofs.LowerCase
import CompileGate.Proofs.StatementGrammar

namespace CompileGate

namespace Url

/-- A class of code points that URL operations do not leave: it holds what they add, which is `#`
and code points above the quotes that are no surrogates. -/
structure Closed (p : CodePoint → Prop) : Prop where
  high : ∀ c : CodePoint, 39 < c.toNat ∧ c.isSurrogate = false → p c
  hash : p '#'

variable {p : CodePoint → Prop}

/-- Marks that URL operations add. -/
theorem Closed.marks (hp : Closed p) {t : Text}
    (h : ∀ c ∈ t, 39 < c.toNat ∧ c.isSurrogate = false) : ∀ c ∈ t, p c :=
  fun c hc => hp.high c (h c hc)

/-- Quotes come before everything that URL operations add, but for `#`. -/
theorem closed_notQuote : Closed fun c => Import.isQuote c = false := by
  refine ⟨fun c hc => ?_, rfl⟩
  have hhigh : decide (39 < c.toNat) = true := decide_eq_true hc.1
  exact Import.not_isQuote_of (q := fun c => decide (39 < c.toNat)) (by decide) (by decide) hhigh

/-- A code point that is no tab and ends no line: one that is not removed from inside a URL. -/
def Kept (c : CodePoint) : Prop := c ≠ '\t' ∧ c ≠ '\r' ∧ c ≠ '\n'

instance (c : CodePoint) : Decidable (Kept c) :=
  inferInstanceAs (Decidable (c ≠ '\t' ∧ c ≠ '\r' ∧ c ≠ '\n'))

/-- What cleaning removes is never added again. -/
theorem closed_kept : Closed Kept := by
  refine ⟨fun c hc => ⟨?_, ?_, ?_⟩, by decide⟩
  · rintro rfl
    exact absurd hc (by decide)
  · rintro rfl
    exact absurd hc (by decide)
  · rintro rfl
    exact absurd hc (by decide)

/-- No URL operation makes half of a pair. -/
theorem closed_notSurrogate : Closed fun c => c.isSurrogate = false := ⟨fun _ hc => hc.2, rfl⟩

/-- Lowering leaves a code point, or puts lower-case ones in its place, which are above the
quotes. -/
theorem Closed.of_toLower (hp : Closed p) {t : Text} (h : ∀ c ∈ t, p c) :
    ∀ c ∈ Text.toLower t, p c := by
  intro c hc
  rcases (Text.mem_toLowerAfter hc).2 with hmem | ⟨hlt, hplain⟩
  · exact h c hmem
  · exact hp.high c ⟨by omega, hplain⟩

/-- Schemes are lowered in their ASCII letters only. -/
theorem Closed.of_toAsciiLower (hp : Closed p) {t : Text} (h : ∀ c ∈ t, p c) :
    ∀ c ∈ Text.toAsciiLower t, p c := by
  intro c hc
  obtain ⟨d, hd, rfl⟩ := List.mem_map.mp hc
  rcases d.toAsciiLower_eq_or_lt with e | ⟨hlt, hplain⟩
  · rw [e]
    exact h d hd
  · exact hp.high _ ⟨by omega, hplain⟩

/-! ### Cutting -/

theorem mem_of_afterStart? {start t rest : Text} (h : Text.afterStart? start t = some rest) :
    ∀ c ∈ rest, c ∈ t := by
  intro c hc
  rw [Text.eq_append_of_afterStart? h]
  exact List.mem_append_right _ hc

theorem mem_of_cutFirst? {sep : CodePoint} {t before after : Text}
    (h : Text.cutFirst? sep t = some (before, after)) :
    (∀ c ∈ before, c ∈ t) ∧ ∀ c ∈ after, c ∈ t := by
  obtain ⟨rfl, -⟩ := Text.eq_append_of_cutFirst? h
  exact ⟨fun c hc => by simp [hc], fun c hc => by simp [hc]⟩

theorem mem_of_cutAt {mark c : CodePoint} {t : Text} :
    (c ∈ (cutAt mark t).1 → c ∈ t) ∧ (c ∈ (cutAt mark t).2 → c ∈ t) := by
  unfold cutAt
  cases h : Text.cutFirst? mark t with
  | none => simp
  | some parts =>
    obtain ⟨before, after⟩ := parts
    obtain ⟨hbefore, hafter⟩ := mem_of_cutFirst? h
    exact ⟨hbefore c, hafter c⟩

/-- Both sides of the last separator, which is the first one of the reversed text. -/
theorem mem_of_cutLast? {sep : CodePoint} {t before after : Text}
    (h : Text.cutLast? sep t = some (before, after)) :
    (∀ c ∈ before, c ∈ t) ∧ ∀ c ∈ after, c ∈ t := by
  rw [Text.cutLast?, Option.map_eq_some_iff] at h
  obtain ⟨⟨a, b⟩, hcut, heq⟩ := h
  obtain ⟨ha, hb⟩ := mem_of_cutFirst? hcut
  obtain ⟨rfl, rfl⟩ := Prod.mk.inj heq
  constructor
  · exact fun c hc => List.mem_reverse.mp (hb c (List.mem_reverse.mp hc))
  · exact fun c hc => List.mem_reverse.mp (ha c (List.mem_reverse.mp hc))

/-- An authority and what follows it stand behind the two slashes. -/
theorem mem_of_mem_takeAuthority {c : CodePoint} {t : Text} :
    (c ∈ (takeAuthority t).1 → c ∈ t) ∧ (c ∈ (takeAuthority t).2 → c ∈ t) := by
  unfold takeAuthority
  cases h : Text.afterStart? "//" t with
  | none => simp
  | some rest =>
    have hspan := (span_spec (fun c => !endsAuthority c) rest).1
    constructor
    · intro hc
      apply mem_of_afterStart? h
      rw [hspan]
      exact List.mem_append_left _ hc
    · intro hc
      apply mem_of_afterStart? h
      rw [hspan]
      exact List.mem_append_right _ hc

/-- Cleaning drops code points, those that are not kept among them. -/
theorem mem_of_mem_clean {c : CodePoint} {t : Text} (h : c ∈ clean t) : c ∈ t ∧ Kept c := by
  obtain ⟨hmem, hne⟩ := List.mem_filter.mp h
  simp only [ne_eq, Bool.and_eq_true, decide_eq_true_iff] at hne
  exact ⟨(List.dropWhile_sublist _).subset hmem, hne.1.1, hne.1.2, hne.2⟩

/-! ### The parts of a URL -/

/-- All code points of all parts are in the class. -/
structure Within (p : CodePoint → Prop) (url : Url) : Prop where
  scheme : ∀ c ∈ url.scheme, p c
  authority : ∀ c ∈ url.authority, p c
  path : ∀ c ∈ url.path, p c
  query : ∀ c ∈ url.query, p c
  fragment : ∀ c ∈ url.fragment, p c

/-- The parts of a text that has parts. -/
theorem splitWith_eq_ok {scheme t : Text} {url : Url} (h : splitWith scheme t = .ok url) :
    ∃ rest, (takeScheme? (clean t)).getD (scheme, clean t) = (url.scheme, rest)
      ∧ url.authority = (takeAuthority rest).1
      ∧ url.path = (cutAt '?' (cutAt '#' (takeAuthority rest).2).1).1
      ∧ url.query = (cutAt '?' (cutAt '#' (takeAuthority rest).2).1).2
      ∧ url.fragment = (cutAt '#' (takeAuthority rest).2).2 := by
  obtain ⟨scheme', rest, hscheme⟩ : ∃ scheme' rest,
      (takeScheme? (clean t)).getD (scheme, clean t) = (scheme', rest) := ⟨_, _, rfl⟩
  simp only [splitWith, hscheme, bind, Except.bind] at h
  cases hb : checkBrackets (takeAuthority rest).1 with
  | error defect =>
    rw [hb] at h
    cases h
  | ok _ =>
    rw [hb] at h
    cases hh : checkHidden (takeAuthority rest).1 with
    | error defect =>
      simp only [hh] at h
      cases h
    | ok _ =>
      simp only [hh] at h
      obtain rfl := Except.ok.inj h
      exact ⟨rest, hscheme, rfl, rfl, rfl, rfl⟩

/-- A scheme is what stands before the first colon, in lower case, if it can be one. -/
theorem takeScheme?_eq_some {t scheme rest : Text} (h : takeScheme? t = some (scheme, rest)) :
    ∃ c more, t = (c :: more) ++ (':' : CodePoint) :: rest
      ∧ scheme = Text.toAsciiLower (c :: more) ∧ c.isAsciiLetter = true
      ∧ ∀ d ∈ c :: more, isSchemePoint d = true := by
  unfold takeScheme? at h
  split at h
  case h_1 c name rest' hcut =>
    by_cases hname : (c.isAsciiLetter && name.all isSchemePoint) = true
    · rw [if_pos hname] at h
      obtain ⟨rfl, rfl⟩ := Prod.mk.inj (Option.some.inj h)
      obtain ⟨hletter, hall⟩ := (Bool.and_eq_true _ _).mp hname
      refine ⟨c, name, (Text.eq_append_of_cutFirst? hcut).1, rfl, hletter, ?_⟩
      intro d hd
      rcases List.mem_cons.mp hd with rfl | hd
      · simp [isSchemePoint, hletter]
      · exact List.all_eq_true.mp hall d hd
    · rw [if_neg hname] at h
      cases h
  case h_2 => cases h

/-- A cleaned text in the class has all its parts in the class. -/
theorem Closed.within (hp : Closed p) {scheme t : Text} {url : Url}
    (h : splitWith scheme t = .ok url) (hscheme : ∀ c ∈ scheme, p c) (ht : ∀ c ∈ clean t, p c) :
    url.Within p := by
  obtain ⟨rest, hfront, hauthority, hpath, hquery, hfragment⟩ := splitWith_eq_ok h
  -- the scheme is the one that is written, in lower case, or the one that was given
  have hscheme' : (∀ c ∈ url.scheme, p c) ∧ ∀ c ∈ rest, p c := by
    cases hs : takeScheme? (clean t) with
    | none =>
      rw [hs] at hfront
      obtain ⟨rfl, rfl⟩ := Prod.mk.inj hfront
      exact ⟨hscheme, ht⟩
    | some parts =>
      obtain ⟨scheme', rest'⟩ := parts
      rw [hs] at hfront
      obtain ⟨rfl, rfl⟩ := Prod.mk.inj hfront
      obtain ⟨c, more, hname, hlower, -, -⟩ := takeScheme?_eq_some hs
      rw [hname] at ht
      rw [hlower]
      exact ⟨hp.of_toAsciiLower fun c hc => ht c (List.mem_append_left _ hc),
        fun c hc => ht c (by simp [hc])⟩
  -- the other parts are cut off what follows the authority, one by one
  have htail : ∀ c ∈ (takeAuthority rest).2, p c := fun c hc =>
    hscheme'.2 c (mem_of_mem_takeAuthority.2 hc)
  have hfront' : ∀ c ∈ (cutAt '#' (takeAuthority rest).2).1, p c := fun c hc =>
    htail c (mem_of_cutAt.1 hc)
  refine ⟨hscheme'.1, ?_, ?_, ?_, ?_⟩
  · rw [hauthority]
    exact fun c hc => hscheme'.2 c (mem_of_mem_takeAuthority.1 hc)
  · rw [hpath]
    exact fun c hc => hfront' c (mem_of_cutAt.1 hc)
  · rw [hquery]
    exact fun c hc => hfront' c (mem_of_cutAt.2 hc)
  · rw [hfragment]
    exact fun c hc => htail c (mem_of_cutAt.2 hc)

/-- Putting the parts together adds slashes, a colon and the two marks. -/
theorem Closed.of_unsplit (hp : Closed p) {url : Url} (h : url.Within p) :
    ∀ c ∈ unsplit url, p c := by
  have hslash : p '/' := hp.high _ (by decide)
  have hmark : p '?' := hp.high _ (by decide)
  have hcolon : ∀ c ∈ (":" : Text), p c := hp.marks (by decide)
  have hslashes : ∀ c ∈ ("//" : Text), p c := hp.marks (by decide)
  unfold unsplit
  dsimp only
  rw [List.forall_mem_append, List.forall_mem_append, List.forall_mem_append]
  -- scheme, authority with path, query, fragment
  refine ⟨⟨⟨?_, ?_⟩, ?_⟩, ?_⟩
  · split
    · simp
    · rw [List.forall_mem_append]
      exact ⟨h.scheme, hcolon⟩
  · split
    · rw [List.forall_mem_append, List.forall_mem_append]
      refine ⟨⟨hslashes, h.authority⟩, ?_⟩
      split
      · rw [List.forall_mem_cons]
        exact ⟨hslash, h.path⟩
      · exact h.path
    · exact h.path
  · split
    · simp
    · rw [List.forall_mem_cons]
      exact ⟨hmark, h.query⟩
  · split
    · simp
    · rw [List.forall_mem_cons]
      exact ⟨hp.hash, h.fragment⟩

/-! ### Joining -/

/-- Taking the parameters off puts a slash back before the last segment. -/
theorem forall_mem_cutParameters (hslash : ∀ c ∈ ("/" : Text), p c) {path : Text}
    (h : ∀ c ∈ path, p c) :
    (∀ c ∈ (cutParameters path).1, p c) ∧ ∀ c ∈ (cutParameters path).2, p c := by
  unfold cutParameters
  cases hcut : Text.cutLast? '/' path with
  | none => exact ⟨fun c hc => h c (mem_of_cutAt.1 hc), fun c hc => h c (mem_of_cutAt.2 hc)⟩
  | some parts =>
    obtain ⟨directory, last⟩ := parts
    obtain ⟨hdirectory, hlast⟩ := mem_of_cutLast? hcut
    dsimp only
    rw [List.forall_mem_append, List.forall_mem_append]
    exact ⟨⟨⟨fun c hc => h c (hdirectory c hc), hslash⟩,
      fun c hc => h c (hlast c (mem_of_cutAt.1 hc))⟩, fun c hc => h c (hlast c (mem_of_cutAt.2 hc))⟩

/-- A target is a URL in its parts, with the parameters of its path apart from them. -/
theorem Closed.target_within (hp : Closed p) {scheme t : Text} {target : Target}
    (h : Target.ofText scheme t = .ok target) (hscheme : ∀ c ∈ scheme, p c)
    (ht : ∀ c ∈ clean t, p c) : target.url.Within p ∧ ∀ c ∈ target.parameters, p c := by
  simp only [Target.ofText, bind, Except.bind] at h
  cases hs : splitWith scheme t with
  | error defect =>
    rw [hs] at h
    cases h
  | ok url =>
    have hurl := hp.within hs hscheme ht
    rw [hs] at h
    dsimp only at h
    split at h
    · obtain rfl := Except.ok.inj h
      obtain ⟨hpath, hparameters⟩ :=
        forall_mem_cutParameters (hp.marks (by decide)) hurl.path
      exact ⟨⟨hurl.scheme, hurl.authority, hpath, hurl.query, hurl.fragment⟩, hparameters⟩
    · obtain rfl := Except.ok.inj h
      exact ⟨hurl, by simp⟩

/-- Writing a target puts the parameters back behind a semicolon. -/
theorem Closed.of_toText (hp : Closed p) {target : Target} (h : target.url.Within p)
    (hparameters : ∀ c ∈ target.parameters, p c) : ∀ c ∈ target.toText, p c := by
  have hsemicolon : ∀ c ∈ (";" : Text), p c := hp.marks (by decide)
  unfold Target.toText
  split
  · exact hp.of_unsplit h
  · apply hp.of_unsplit
    refine ⟨h.scheme, h.authority, ?_, h.query, h.fragment⟩
    dsimp only
    rw [List.forall_mem_append, List.forall_mem_append]
    exact ⟨⟨h.path, hsemicolon⟩, hparameters⟩

theorem mem_of_mem_splitOn {sep : CodePoint} {t piece : Text} (h : piece ∈ Text.splitOn sep t) :
    ∀ c ∈ piece, c ∈ t := by
  induction t generalizing piece with
  | nil =>
    obtain rfl := List.mem_singleton.mp h
    simp
  | cons d t ih =>
    intro c hc
    rw [Text.splitOn] at h
    split at h
    · rcases List.mem_cons.mp h with rfl | h
      · cases hc
      · exact List.mem_cons_of_mem _ (ih h c hc)
    · split at h
      case h_1 =>
        obtain rfl := List.mem_singleton.mp h
        obtain rfl := List.mem_singleton.mp hc
        exact List.mem_cons_self
      case h_2 first pieces hsplit =>
        have hfirst : ∀ c ∈ first, c ∈ t := ih (by rw [hsplit]; exact List.mem_cons_self)
        -- the code point goes before the first piece of the rest
        rcases List.mem_cons.mp h with rfl | h
        · rcases List.mem_cons.mp hc with rfl | hc
          · exact List.mem_cons_self
          · exact List.mem_cons_of_mem _ (hfirst c hc)
        · exact List.mem_cons_of_mem _ (ih (by rw [hsplit]; exact List.mem_cons_of_mem _ h) c hc)

/-- Resolving takes segments away and makes none. -/
theorem mem_of_mem_resolveSegments {done segments : List Text} {s : Text}
    (h : s ∈ resolveSegments done segments) : s ∈ done ∨ s ∈ segments := by
  induction segments generalizing done with
  | nil => exact Or.inl (List.mem_reverse.mp h)
  | cons segment rest ih =>
    -- the cases are those of the first segment: the parent, the directory itself, or a name
    rw [resolveSegments] at h
    split at h
    · rcases ih h with hs | hs
      · exact Or.inl (List.mem_of_mem_tail hs)
      · exact Or.inr (List.mem_cons_of_mem _ hs)
    · split at h
      · rcases ih h with hs | hs
        · exact Or.inl hs
        · exact Or.inr (List.mem_cons_of_mem _ hs)
      · rcases ih h with hs | hs
        · rcases List.mem_cons.mp hs with rfl | hs
          · exact Or.inr List.mem_cons_self
          · exact Or.inl hs
        · exact Or.inr (List.mem_cons_of_mem _ hs)

/-- Of the empty segments only inner ones are dropped, and nothing is added. -/
theorem mem_of_mem_dropInnerEmpty {segments : List Text} {s : Text}
    (h : s ∈ dropInnerEmpty segments) : s ∈ segments := by
  cases segments with
  | nil => cases h
  | cons first rest =>
    rw [dropInnerEmpty, List.cons_append] at h
    rcases List.mem_cons.mp h with rfl | h
    · exact List.mem_cons_self
    · apply List.mem_cons_of_mem
      rcases List.mem_append.mp h with h | h
      · exact List.dropLast_subset _ (List.mem_filter.mp h).1
      · exact List.mem_of_mem_drop h

/-- The segments of the directory are those of the path, perhaps without the last. -/
theorem mem_of_mem_directorySegments {path s : Text} (h : s ∈ directorySegments path) :
    s ∈ Text.splitOn '/' path := by
  unfold directorySegments at h
  dsimp only at h
  split at h
  · exact h
  · exact List.dropLast_subset _ h

/-- A joined text is made of its pieces and of the separators between them. -/
theorem forall_mem_join {pieces : List Text} {sep : Text} (hsep : ∀ c ∈ sep, p c)
    (h : ∀ piece ∈ pieces, ∀ c ∈ piece, p c) : ∀ c ∈ Text.join sep pieces, p c := by
  unfold Text.join
  match pieces with
  | [] => simp
  | [piece] => simpa using h
  | piece :: piece' :: rest =>
    have ih := forall_mem_join hsep fun s hs => h s (List.mem_cons_of_mem _ hs)
    unfold Text.join at ih
    rw [List.intercalate_cons_cons, List.forall_mem_append, List.forall_mem_append]
    exact ⟨⟨h piece List.mem_cons_self, hsep⟩, ih⟩

/-- A path that is joined to another is made of both and of slashes. -/
theorem forall_mem_joinPaths (hslash : ∀ c ∈ ("/" : Text), p c) {base path : Text}
    (hbase : ∀ c ∈ base, p c) (hpath : ∀ c ∈ path, p c) : ∀ c ∈ joinPaths base path, p c := by
  have hpieces : ∀ piece ∈ Text.splitOn '/' path, ∀ c ∈ piece, p c := fun piece hpiece c hc =>
    hpath c (mem_of_mem_splitOn hpiece c hc)
  have hsegments : ∀ segment ∈ (if Text.startsWith "/" path then Text.splitOn '/' path
      else dropInnerEmpty (directorySegments base ++ Text.splitOn '/' path)),
      ∀ c ∈ segment, p c := by
    split
    · exact hpieces
    · intro segment hsegment
      rcases List.mem_append.mp (mem_of_mem_dropInnerEmpty hsegment) with hmem | hmem
      · intro c hc
        exact hbase c (mem_of_mem_splitOn (mem_of_mem_directorySegments hmem) c hc)
      · exact hpieces segment hmem
  obtain ⟨segments, hs⟩ : ∃ segments, (if Text.startsWith "/" path then Text.splitOn '/' path
      else dropInnerEmpty (directorySegments base ++ Text.splitOn '/' path)) = segments := ⟨_, rfl⟩
  rw [hs] at hsegments
  -- `last` is the empty piece that keeps a slash at the end
  have hjoined : ∀ last : List Text, (∀ piece ∈ last, piece = []) →
      ∀ c ∈ Text.join "/" (resolveSegments [] segments ++ last), p c := by
    intro last hlast
    apply forall_mem_join hslash
    intro piece hpiece
    rcases List.mem_append.mp hpiece with hpiece | hpiece
    · rcases mem_of_mem_resolveSegments hpiece with hdone | hsegment
      · cases hdone
      · exact hsegments piece hsegment
    · rw [hlast piece hpiece]
      simp
  unfold joinPaths
  rw [hs]
  dsimp only
  split
  · split
    · exact hslash
    · exact hjoined [[]] (by simp)
  · split
    · exact hslash
    · exact hjoined [] (by simp)

theorem forall_mem_clean {t : Text} (h : ∀ c ∈ t, p c) : ∀ c ∈ clean t, p c :=
  fun c hc => h c (mem_of_mem_clean hc).1

/-- Joining takes every part from the base or from the reference. -/
theorem Closed.of_join (hp : Closed p) {base reference t : Text} (h : join base reference = .ok t)
    (hbase : ∀ c ∈ base, p c) (hreference : ∀ c ∈ reference, p c) : ∀ c ∈ t, p c := by
  unfold join at h
  by_cases hb : base.isEmpty = true
  · rw [if_pos hb] at h
    obtain rfl := Except.ok.inj h
    exact hreference
  rw [if_neg hb] at h
  by_cases hr : reference.isEmpty = true
  · rw [if_pos hr] at h
    obtain rfl := Except.ok.inj h
    exact hbase
  rw [if_neg hr] at h
  cases hb : Target.ofText [] base with
  | error defect =>
    rw [hb] at h
    cases h
  | ok b =>
    obtain ⟨hburl, hbparameters⟩ := hp.target_within hb (by simp) (forall_mem_clean hbase)
    cases hr : Target.ofText b.url.scheme reference with
    | error defect =>
      simp only [hb, hr, bind, Except.bind] at h
      cases h
    | ok r =>
      obtain ⟨hrurl, hrparameters⟩ :=
        hp.target_within hr hburl.scheme (forall_mem_clean hreference)
      have hauthority : ∀ c ∈ (if authoritySchemes.contains r.url.scheme then b.url.authority
          else r.url.authority), p c := by
        split
        · exact hburl.authority
        · exact hrurl.authority
      simp only [hb, hr, bind, Except.bind] at h
      split at h
      -- a reference of another scheme stays as it is
      · obtain rfl := Except.ok.inj h
        exact hreference
      split at h
      -- one with a host takes nothing but the scheme from the base
      · obtain rfl := Except.ok.inj h
        exact hp.of_toText hrurl hrparameters
      split at h
      -- one without a path takes the path of the base
      · obtain rfl := Except.ok.inj h
        refine hp.of_toText ⟨hrurl.scheme, hauthority, hburl.path, ?_, hrurl.fragment⟩ hbparameters
        dsimp only
        split
        · exact hburl.query
        · exact hrurl.query
      · obtain rfl := Except.ok.inj h
        exact hp.of_toText ⟨hrurl.scheme, hauthority,
          forall_mem_joinPaths (hp.marks (by decide)) hburl.path hrurl.path, hrurl.query,
          hrurl.fragment⟩ hrparameters

/-! ### Canonical forms -/

theorem mem_of_beforeEnd? {ending t rest : Text} (h : Text.beforeEnd? ending t = some rest) :
    ∀ c ∈ rest, c ∈ t := by
  unfold Text.beforeEnd? at h
  obtain ⟨back, hback, rfl⟩ := Option.map_eq_some_iff.mp h
  intro c hc
  exact List.mem_reverse.mp (mem_of_afterStart? hback c (List.mem_reverse.mp hc))

/-- A canonical authority is the lowered one, perhaps without a port at its end. -/
theorem mem_toLower_of_mem_canonicalAuthority {scheme authority : Text} {c : CodePoint}
    (h : c ∈ canonicalAuthority scheme authority) : c ∈ Text.toLower authority := by
  unfold canonicalAuthority at h
  dsimp only at h
  split at h
  · exact h
  case h_2 port _ =>
    cases he : Text.beforeEnd? (":" ++ Text.ofNat port) (Text.toLower authority) with
    | none =>
      rw [he] at h
      exact h
    | some rest =>
      rw [he] at h
      exact mem_of_beforeEnd? he c h

/-- Lowering is all that brings new code points into a canonical authority. -/
theorem Closed.of_canonicalAuthority (hp : Closed p) {scheme authority : Text}
    (h : ∀ c ∈ authority, p c) : ∀ c ∈ canonicalAuthority scheme authority, p c :=
  fun c hc => hp.of_toLower h c (mem_toLower_of_mem_canonicalAuthority hc)

/-- A canonical URL is made of the cleaned text: its fragment is dropped, its path is joined to the
root. -/
theorem Closed.of_canonical (hp : Closed p) {t u : Text} (h : canonical t = .ok u)
    (ht : ∀ c ∈ clean t, p c) : ∀ c ∈ u, p c := by
  have hslash : ∀ c ∈ ("/" : Text), p c := hp.marks (by decide)
  unfold canonical at h
  cases hs : split t with
  | error defect =>
    rw [hs] at h
    cases h
  | ok url =>
    have hurl : url.Within p := hp.within hs (by simp) ht
    rw [hs] at h
    obtain ⟨path, hpath, rfl⟩ : ∃ path, (∀ c ∈ path, p c) ∧ u = Url.unsplit
        ⟨url.scheme, canonicalAuthority url.scheme url.authority, path, url.query, []⟩ := by
      simp only [bind, Except.bind] at h
      -- an empty path becomes the root without a join
      split at h
      · exact ⟨_, hslash, (Except.ok.inj h).symm⟩
      · cases hj : join "/" url.path with
        | error defect =>
          rw [hj] at h
          cases h
        | ok path =>
          rw [hj] at h
          exact ⟨path, hp.of_join hj hslash hurl.path, (Except.ok.inj h).symm⟩
    exact hp.of_unsplit ⟨hurl.scheme, hp.of_canonicalAuthority hurl.authority, hpath, hurl.query,
      by simp⟩

/-- A canonical URL holds no tab and no line end. -/
theorem kept_of_canonical {t u : Text} (h : canonical t = .ok u) : ∀ c ∈ u, Kept c :=
  closed_kept.of_canonical h fun _ hc => (mem_of_mem_clean hc).2

end Url

end CompileGate
