/-
CompileGate/Proofs/KeptAuthority.lean

What leaves the authority of a URL as it is.

* Whatever is appended behind a slash: the authority ends at that slash at the
  latest, so scheme and authority stay what they were (`split_append`).
* A relative reference: it has neither a scheme nor an authority, and takes both
  from its base; no two slashes meet in the path that comes of it
  (`join_relative`).

Such a URL is legible where its authority may stand in a URL and its path brings no
authority of its own (`legible_of_relative`, `legible_append`).
-/
import CompileGate.Proofs.Readability

namespace CompileGate
namespace Url

open Text

/-- The parts of a URL of the web: its scheme is `http` or `https`, and it has an authority. -/
structure IsWeb (url : Url) : Prop where
  scheme : url.scheme = "http" ∨ url.scheme = "https"
  authority : url.authority ≠ []

theorem IsWeb.scheme_ne_nil {url : Url} (h : url.IsWeb) : url.scheme ≠ [] := by
  rcases h.scheme with e | e
  · rw [e]
    decide
  · rw [e]
    decide

/-! ### Appending -/

/-- What cleaning leaves of a text that does not stand at the front. -/
def keptOf (t : Text) : Text :=
  t.filter fun c : CodePoint => c ≠ '\t' && c ≠ '\r' && c ≠ '\n'

/-- The path that is read from a text behind another path. -/
def pathBehind (t : Text) : Text := (cutAt '?' (cutAt '#' (keptOf t)).1).1

/-- Nothing behind a slash stands at the front. -/
theorem clean_append_slash (t more : Text) :
    clean (t ++ ('/' : CodePoint) :: more) = clean t ++ ('/' : CodePoint) :: keptOf more := by
  rw [clean, List.dropWhile_append]
  split
  · next hnil =>
    rw [clean, List.isEmpty_iff.mp hnil, List.dropWhile_cons_of_neg (by decide)]
    rfl
  · rw [List.filter_append]
    rfl

theorem takeScheme?_of_name {c : CodePoint} {name : Text} (hletter : c.isAsciiLetter = true)
    (hpoints : ∀ d ∈ c :: name, isSchemePoint d = true) (rest : Text) :
    takeScheme? ((c :: name) ++ (':' : CodePoint) :: rest)
      = some (Text.toAsciiLower (c :: name), rest) := by
  have hcolon : (':' : CodePoint) ∉ c :: name := fun hmem => absurd (hpoints _ hmem) (by decide)
  have hname : (c.isAsciiLetter && name.all isSchemePoint) = true := by
    rw [hletter, Bool.true_and, List.all_eq_true]
    exact fun d hd => hpoints d (List.mem_cons_of_mem _ hd)
  rw [takeScheme?, cutFirst?_append hcolon]
  exact if_pos hname

/-- Neither a slash nor what follows it belongs to a scheme. -/
theorem takeScheme?_append_slash (t more : Text) : takeScheme? (t ++ ('/' : CodePoint) :: more)
    = (takeScheme? t).map fun parts => (parts.1, parts.2 ++ ('/' : CodePoint) :: more) := by
  -- what is a scheme stays one, and a new one would need a slash in it
  cases htake : takeScheme? t with
  | some parts =>
    obtain ⟨scheme, rest⟩ := parts
    obtain ⟨c, name, rfl, rfl, hletter, hpoints⟩ := takeScheme?_eq_some htake
    rw [List.append_assoc]
    exact takeScheme?_of_name hletter hpoints _
  | none =>
    cases htake' : takeScheme? (t ++ ('/' : CodePoint) :: more) with
    | none => rfl
    | some parts =>
      obtain ⟨scheme, rest⟩ := parts
      obtain ⟨c, name, heq, -, hletter, hpoints⟩ := takeScheme?_eq_some htake'
      -- the colon stands in front of the slash, so the text had this scheme before
      rcases List.append_eq_append_iff.mp heq with ⟨more', hname, hmore⟩ | ⟨rest', rfl, hrest⟩
      · cases more' with
        | nil => exact absurd (List.cons.inj hmore).1 (by decide)
        | cons d more' =>
          rw [List.cons_append] at hmore
          refine absurd (hpoints '/' ?_) (by decide)
          rw [hname, (List.cons.inj hmore).1]
          exact List.mem_append_right _ List.mem_cons_self
      · cases rest' with
        | nil => exact absurd (List.cons.inj hrest).1 (by decide)
        | cons d rest' =>
          rw [List.cons_append] at hrest
          rw [← (List.cons.inj hrest).1, takeScheme?_of_name hletter hpoints] at htake
          cases htake

theorem afterScheme_append_slash (t more : Text) : afterScheme (t ++ ('/' : CodePoint) :: more)
    = afterScheme t ++ ('/' : CodePoint) :: keptOf more := by
  rw [afterScheme, clean_append_slash, takeScheme?_append_slash, afterScheme]
  cases takeScheme? (clean t) with
  | none => rfl
  | some parts => rfl

theorem scheme_append_slash (t more : Text) :
    (partsWith [] (t ++ ('/' : CodePoint) :: more)).scheme = (partsWith [] t).scheme := by
  show ((takeScheme? (clean (t ++ ('/' : CodePoint) :: more))).getD _).1
    = ((takeScheme? (clean t)).getD _).1
  rw [clean_append_slash, takeScheme?_append_slash]
  cases takeScheme? (clean t) with
  | none => rfl
  | some parts => rfl

/-- What is appended to a text with an authority follows it, if it begins with a mark that ends
one. -/
theorem takeAuthority_append_of_ends {t authority rest more : Text}
    (hstart : Text.startsWith "//" t = true) (h : takeAuthority t = (authority, rest))
    (hmore : ∀ c ∈ more.head?, endsAuthority c = true) :
    takeAuthority (t ++ more) = (authority, rest ++ more) := by
  obtain ⟨tail, htail⟩ := Option.isSome_iff_exists.mp hstart
  rw [takeAuthority, htail] at h
  obtain ⟨rfl, hauthority, hrest⟩ := span_eq_iff.mp h
  rw [eq_append_of_afterStart? htail, List.append_assoc, List.append_assoc]
  apply takeAuthority_append
  · exact fun c hc => by simpa using hauthority c hc
  · intro c hc
    cases rest with
    | nil => exact hmore c hc
    | cons d rest => simpa using hrest c hc

theorem takeAuthority_append_slash {t authority rest : Text}
    (hstart : Text.startsWith "//" t = true) (h : takeAuthority t = (authority, rest))
    (more : Text) : takeAuthority (t ++ ('/' : CodePoint) :: more)
      = (authority, rest ++ ('/' : CodePoint) :: more) := by
  refine takeAuthority_append_of_ends hstart h fun c hc => ?_
  obtain rfl : ('/' : CodePoint) = c := Option.some.inj hc
  rfl

/-- Behind a mark, what is appended is cut off. -/
theorem cutAt_fst_append_or (mark : CodePoint) (t more : Text) :
    (cutAt mark (t ++ more)).1 = (cutAt mark t).1
      ∨ (cutAt mark t).1 = t ∧ (cutAt mark (t ++ more)).1 = t ++ (cutAt mark more).1 := by
  -- the first mark cuts, wherever it stands
  by_cases h : mark ∈ t
  · left
    rw [cutAt_fst_append h, List.append_assoc, List.cons_append,
      cutAt_append (not_mem_cutAt mark t), cutAt_append (not_mem_cutAt mark t)]
  · right
    rw [cutAt_of_not_mem h]
    refine ⟨rfl, ?_⟩
    by_cases hmore : mark ∈ more
    · rw [cutAt_fst_append hmore, ← List.append_assoc, cutAt_append, cutAt_append]
      · exact not_mem_cutAt mark more
      · exact fun hmem => (List.mem_append.mp hmem).elim h (not_mem_cutAt mark more)
    · rw [cutAt_of_not_mem hmore,
        cutAt_of_not_mem fun hmem => (List.mem_append.mp hmem).elim h hmore]

theorem cutAt_slash {mark : CodePoint} (h : mark ≠ '/') (t : Text) :
    (cutAt mark (('/' : CodePoint) :: t)).1 = ('/' : CodePoint) :: (cutAt mark t).1 := by
  rw [cutAt_cons h.symm]

variable {t : Text} {url : Url}

theorem startsWith_of_takeAuthority {t : Text} (h : (takeAuthority t).1 ≠ []) :
    Text.startsWith "//" t = true := by
  cases hstart : Text.startsWith "//" t with
  | true => rfl
  | false =>
    rw [takeAuthority_of_not_startsWith hstart] at h
    exact absurd rfl h

/-- **Appending keeps the authority.**  Of what is appended to a URL behind a slash, only the path
can notice. -/
theorem split_append (hs : split t = .ok url) (hne : url.authority ≠ []) (more : Text) :
    ∃ url', split (t ++ ('/' : CodePoint) :: more) = .ok url'
      ∧ url'.scheme = url.scheme ∧ url'.authority = url.authority
      ∧ (url'.path = url.path ∨ url'.path = url.path ++ ('/' : CodePoint) :: pathBehind more) := by
  obtain ⟨haccepted, rfl⟩ := split_eq_ok_iff.mp hs
  have hauthority : takeAuthority (afterScheme (t ++ ('/' : CodePoint) :: more))
      = (authorityOf t, afterAuthority t ++ ('/' : CodePoint) :: keptOf more) := by
    rw [afterScheme_append_slash]
    exact takeAuthority_append_slash (startsWith_of_takeAuthority hne) rfl _
  have hsame : authorityOf (t ++ ('/' : CodePoint) :: more) = authorityOf t := by
    rw [authorityOf, hauthority]
  refine ⟨_, split_eq_ok_iff.mpr ⟨by rwa [hsame], rfl⟩, scheme_append_slash t more, hsame, ?_⟩
  have hpath : (partsWith [] (t ++ ('/' : CodePoint) :: more)).path = (cutAt '?'
      (cutAt '#' (afterAuthority t ++ ('/' : CodePoint) :: keptOf more)).1).1 := by
    show (cutAt '?' (cutAt '#' (afterAuthority (t ++ ('/' : CodePoint) :: more))).1).1 = _
    rw [afterAuthority, hauthority]
  rw [hpath]
  show _ = (cutAt '?' (cutAt '#' (afterAuthority t)).1).1
    ∨ _ = (cutAt '?' (cutAt '#' (afterAuthority t)).1).1 ++ ('/' : CodePoint) :: pathBehind more
  rcases cutAt_fst_append_or '#' (afterAuthority t) (('/' : CodePoint) :: keptOf more) with
    hhash | ⟨hself, hhash⟩
  · exact Or.inl (by rw [hhash])
  · -- no fragment yet, so the slash is behind the path or behind a query
    rw [hhash, hself, cutAt_slash (by decide)]
    rcases cutAt_fst_append_or '?' (afterAuthority t)
      (('/' : CodePoint) :: (cutAt '#' (keptOf more)).1) with hquestion | ⟨hself', hquestion⟩
    · exact Or.inl hquestion
    · rw [hquestion, hself', cutAt_slash (by decide)]
      exact Or.inr rfl

/-! ### Relative references -/

/-- A reference that starts with `./` or `../`. -/
def IsRelative (reference : Text) : Prop :=
  Text.startsWith "./" reference = true ∨ Text.startsWith "../" reference = true

theorem IsRelative.exists_dot {reference : Text} (h : IsRelative reference) :
    ∃ more, reference = ('.' : CodePoint) :: more := by
  rcases h with h | h
  all_goals
    obtain ⟨rest, hrest⟩ := Option.isSome_iff_exists.mp h
    exact ⟨_, eq_append_of_afterStart? hrest⟩

/-- A reference that starts with a point has neither a scheme nor an authority. -/
theorem split_of_dot {reference more : Text} (h : reference = ('.' : CodePoint) :: more) :
    ∃ path query fragment, (∀ scheme, partsWith scheme reference
        = ⟨scheme, [], ('.' : CodePoint) :: path, query, fragment⟩)
      ∧ split reference = .ok ⟨[], [], ('.' : CodePoint) :: path, query, fragment⟩ := by
  have hclean : clean reference = ('.' : CodePoint) :: keptOf more := by
    rw [h]
    rfl
  -- a scheme begins with a letter
  have hscheme : takeScheme? (clean reference) = none := by
    cases htake : takeScheme? (clean reference) with
    | none => rfl
    | some parts =>
      obtain ⟨scheme, rest⟩ := parts
      obtain ⟨c, name, heq, -, hletter, -⟩ := takeScheme?_eq_some htake
      rw [hclean] at heq
      rw [← (List.cons.inj heq).1] at hletter
      exact absurd hletter (by decide)
  have hafter : afterScheme reference = ('.' : CodePoint) :: keptOf more := by
    rw [afterScheme, hscheme, hclean]
    rfl
  have htake : takeAuthority (afterScheme reference) = ([], ('.' : CodePoint) :: keptOf more) := by
    rw [hafter]
    exact takeAuthority_of_not_startsWith rfl
  have hparts : ∀ scheme, partsWith scheme reference
      = ⟨scheme, [], ('.' : CodePoint) :: (cutAt '?' (cutAt '#' (keptOf more)).1).1,
        (cutAt '?' (cutAt '#' (keptOf more)).1).2, (cutAt '#' (keptOf more)).2⟩ := by
    intro scheme
    unfold partsWith authorityOf afterAuthority
    rw [hscheme, htake]
    dsimp only
    rw [cutAt_cons (by decide), cutAt_cons (by decide)]
    rfl
  refine ⟨_, _, _, hparts, split_eq_ok_iff.mpr ⟨?_, (hparts []).symm⟩⟩
  rw [authorityOf, htake]
  exact accepted_nil

theorem targetOf_of_web (url : Url) (hweb : url.scheme = "http" ∨ url.scheme = "https") :
    targetOf url
      = ⟨{ url with path := (cutParameters url.path).1 }, (cutParameters url.path).2⟩ := by
  have hscheme : parameterSchemes.contains url.scheme = true := by
    rcases hweb with e | e
    · rw [e]
      decide
    · rw [e]
      decide
  exact if_pos hscheme

/-- Two web targets, of which the second has no authority but a path: the scheme and the authority
are those of the first. -/
theorem joinTargets_of_web {b r : Target} {reference : Text}
    (hweb : b.url.scheme = "http" ∨ b.url.scheme = "https") (hscheme : r.url.scheme = b.url.scheme)
    (hauthority : r.url.authority = []) (hpath : r.url.path ≠ []) : joinTargets b r reference
      = unsplit ⟨b.url.scheme, b.url.authority,
        withParameters (joinPaths b.url.path r.url.path) r.parameters, r.url.query,
        r.url.fragment⟩ := by
  have hknown : relativeSchemes.contains b.url.scheme = true
      ∧ authoritySchemes.contains b.url.scheme = true := by
    rcases hweb with e | e
    · rw [e]
      exact ⟨by decide, by decide⟩
    · rw [e]
      exact ⟨by decide, by decide⟩
  have hnotEmpty : r.url.path.isEmpty = false := List.isEmpty_eq_false_iff.mpr hpath
  unfold joinTargets
  -- of the branches of the join, the one for a relative path is left
  simp only [hscheme, hauthority, hknown.1, hknown.2, hnotEmpty, ne_eq, not_true_eq_false,
    decide_false, Bool.not_true, Bool.or_self, List.isEmpty_nil, Bool.and_false, Bool.false_and,
    Bool.false_eq_true, if_false, if_true]
  exact toText_eq _

theorem singleSlashes_rooted {path : Text} (h : SingleSlashes path) :
    SingleSlashes (rooted path) := by
  unfold rooted
  split
  · next hslash =>
    rintro ⟨before, after, heq⟩
    rw [Bool.and_eq_true, Bool.not_eq_true', Bool.not_eq_true'] at hslash
    cases before with
    | nil =>
      change ('/' : CodePoint) :: ('/' : CodePoint) :: after = _ at heq
      rw [← (List.cons.inj heq).2, startsWith_slash] at hslash
      cases hslash.2
    | cons c before => exact h ⟨before, after, (List.cons.inj heq).2⟩
  · exact h

/-- **A relative reference keeps the authority of its base**, and no two slashes meet in the path
that it leads to. -/
theorem join_relative {base reference : Text} {b : Url} (hs : split base = .ok b) (hb : b.IsWeb)
    (hreference : IsRelative reference) : ∃ url, join base reference = .ok (unsplit url)
      ∧ url.Readable ∧ url.scheme = b.scheme ∧ url.authority = b.authority
      ∧ SingleSlashes (rooted url.path) := by
  obtain ⟨more, hdot⟩ := hreference.exists_dot
  obtain ⟨path, query, fragment, hparts, hs'⟩ := split_of_dot hdot
  have haccepted := split_eq_ok_iff.mp hs
  have hreadable := readable_of_split hs
  have hreadable' := readable_of_split hs'
  obtain ⟨plain, parameters, hcut, -, -, hplain⟩ := cutParameters_spec b.path
  obtain ⟨plain', parameters', hcut', -, hslash', hplain'⟩ :=
    cutParameters_spec (('.' : CodePoint) :: path)
  have hbase : base ≠ [] := by
    rintro rfl
    exact hb.authority (congrArg Url.authority haccepted.2)
  have hne : reference ≠ [] := by
    rw [hdot]
    exact List.cons_ne_nil _ _
  have hbaseTarget : baseTarget base = ⟨{ b with path := plain }, parameters⟩ := by
    rw [baseTarget, ← haccepted.2, targetOf_of_web b hb.scheme, hcut]
  have hreferenceTarget : referenceTarget base reference
      = ⟨⟨b.scheme, [], plain', query, fragment⟩, parameters'⟩ := by
    rw [referenceTarget, hbaseTarget, hparts,
      targetOf_of_web ⟨b.scheme, [], ('.' : CodePoint) :: path, query, fragment⟩ hb.scheme]
    dsimp only
    rw [hcut']
  -- the path of the reference starts with its point, also without its parameters
  have hplainDot : ∃ rest, plain' = ('.' : CodePoint) :: rest := by
    rcases hplain' with ⟨e, -⟩ | e
    · exact ⟨path, e.symm⟩
    · cases plain' with
      | nil => exact absurd (List.cons.inj e).1 (by decide)
      | cons c rest => exact ⟨rest, by rw [(List.cons.inj e).1]⟩
  obtain ⟨rest, hrest⟩ := hplainDot
  -- the two targets, and what joining them gives
  have hjoined : joinTargets (baseTarget base) (referenceTarget base reference) reference
      = unsplit ⟨b.scheme, b.authority, withParameters (joinPaths plain plain') parameters', query,
        fragment⟩ := by
    rw [hbaseTarget, hreferenceTarget]
    exact joinTargets_of_web hb.scheme rfl rfl (by rw [hrest]; exact List.cons_ne_nil _ _)
  have hdirectory : plain = [] ∨ ∃ more, plain = ('/' : CodePoint) :: more := by
    rcases path_of_split hs hb.authority with hnil | ⟨more, hmore⟩
    · rw [hnil] at hcut
      exact Or.inl (Prod.mk.inj hcut).1.symm
    · rw [hmore] at hcut
      exact Or.inr (cutParameters_slash hcut)
  have hsingle : SingleSlashes (joinPaths plain plain') := by
    obtain ⟨inner, last, hsegments, hinner, hslash⟩ :=
      exists_segments_below hdirectory (show Text.startsWith "/" plain' = false by rw [hrest]; rfl)
    exact singleSlashes_of_segments hsegments hinner hslash
  -- the path that comes of it is made of the two paths and of marks that may stand in it
  have hmem : ∀ p : CodePoint → Prop, p '/' → p ';' → p '.' → (∀ c ∈ b.path, p c) →
      (∀ c ∈ ('.' : CodePoint) :: path, p c) →
      ∀ c ∈ withParameters (joinPaths plain plain') parameters', p c := by
    intro p hslash hmark hpoint hpath hpath'
    have hroot : ∀ c ∈ ("/" : Text), p c := List.forall_mem_singleton.mpr hslash
    have hparts := forall_mem_cutParameters hroot hpath
    have hparts' := forall_mem_cutParameters hroot hpath'
    rw [hcut] at hparts
    rw [hcut'] at hparts'
    exact forall_mem_withParameters hmark (forall_mem_joinPaths hroot hparts.1 hparts'.1) hparts'.2
  refine ⟨_, (join_eq_ok_iff hbase hne).mpr ⟨⟨haccepted.1, ?_⟩, hjoined.symm⟩, ?_, rfl, rfl,
    singleSlashes_rooted (singleSlashes_withParameters hsingle hslash')⟩
  · exact (split_eq_ok_iff.mp hs').1
  · refine ⟨hreadable.scheme, hreadable.authority, ?_, hreadable'.query, ?_⟩
    · exact hmem _ (by decide) (by decide) (by decide) hreadable.path hreadable'.path
    · exact ⟨hreadable.kept.scheme, hreadable.kept.authority,
        hmem _ (by decide) (by decide) (by decide) hreadable.kept.path hreadable'.kept.path,
        hreadable'.kept.query, hreadable'.kept.fragment⟩

/-! ### Legible URLs -/

theorem takeAuthority_of_singleSlashes {path : Text} (h : SingleSlashes path) :
    takeAuthority path = ([], path) := by
  apply takeAuthority_of_not_startsWith
  have happend := h.not_startsWith_append (show ([] : Text).head? ≠ _ by simp)
  rwa [List.append_nil] at happend

theorem authorityOf_of_isPath {path : Text} (h : IsPath path) :
    authorityOf path = (takeAuthority path).1 := by
  have hsplit := splitWith_path h
  rw [splitWith_eq] at hsplit
  obtain ⟨more, rfl⟩ := h.start
  have hclean : clean (('/' : CodePoint) :: more) = ('/' : CodePoint) :: more := by
    apply clean_eq_self h.kept
    rintro c ⟨⟩
    decide
  rw [authorityOf, afterScheme, hclean, takeScheme?_slash]
  rfl

/-- What a relative reference leads to is legible. -/
theorem legible_of_relative {base reference t : Text} {b : Url} (hs : split base = .ok b)
    (hb : b.IsWeb) (hreference : IsRelative reference) (hjoin : join base reference = .ok t) :
    Legible t := by
  obtain ⟨url, hjoin', hreadable, -, hauthority, hsingle⟩ := join_relative hs hb hreference
  rw [hjoin] at hjoin'
  obtain rfl := Except.ok.inj hjoin'
  have hne : url.authority ≠ [] := by
    rw [hauthority]
    exact hb.authority
  have haccepted : Accepted url.authority := by
    rw [hauthority, (split_eq_ok_iff.mp hs).2]
    exact (split_eq_ok_iff.mp hs).1
  have hsplit := split_unsplit hreadable hne
  rw [checked_of_accepted haccepted] at hsplit
  refine ⟨(split_eq_ok_iff.mp hsplit).1, ?_⟩
  have hpath : pathAt (unsplit url) = rooted url.path :=
    (congrArg Url.path (split_eq_ok_iff.mp hsplit).2).symm
  rw [hpath]
  -- the path is read once more by itself, and must bring no authority
  rcases rooted_eq_nil_or url.path with hnil | hslash
  · rw [hnil]
    exact accepted_authorityOf_nil
  · have hisPath : IsPath (rooted url.path) :=
      ⟨hslash, forall_mem_rooted (by decide) hreadable.kept.path,
        forall_mem_rooted (by decide) hreadable.path⟩
    rw [authorityOf_of_isPath hisPath, takeAuthority_of_singleSlashes hsingle]
    exact accepted_nil

theorem head?_of_cutAt {mark c : CodePoint} {t : Text} (h : (cutAt mark t).1.head? = some c) :
    t.head? = some c := by
  cases t with
  | nil => exact h
  | cons d t =>
    by_cases hd : d = mark
    · subst hd
      rw [show cutAt d (d :: t) = ([], t) from cutAt_append List.not_mem_nil t] at h
      cases h
    · rwa [cutAt_cons hd] at h

/-- A slash alone begins no authority. -/
theorem takeAuthority_slash {t : Text} (h : t.head? ≠ some ('/' : CodePoint)) :
    takeAuthority (('/' : CodePoint) :: t) = ([], ('/' : CodePoint) :: t) :=
  takeAuthority_of_not_startsWith
    ((show SingleSlashes "/" by decide).not_startsWith_append h)

/-- What is appended to a legible URL of the web is legible, if it does not put a second slash
behind one that stands alone. -/
theorem legible_append (hs : split t = .ok url) (hweb : url.IsWeb) (hlegible : Legible t)
    (hroot : url.path ≠ "/") {more : Text} (hmore : (keptOf more).head? ≠ some ('/' : CodePoint)) :
    Legible (t ++ ('/' : CodePoint) :: more) := by
  obtain ⟨url', hs', hscheme, hauthority, hpath⟩ :=
    split_append hs hweb.authority more
  have hne : url'.authority ≠ [] := by
    rw [hauthority]
    exact hweb.authority
  have hpathAt : pathAt t = url.path := (congrArg Url.path (split_eq_ok_iff.mp hs).2).symm
  have hpathAt' : pathAt (t ++ ('/' : CodePoint) :: more) = url'.path :=
    (congrArg Url.path (split_eq_ok_iff.mp hs').2).symm
  refine ⟨(split_eq_ok_iff.mp hs').1, ?_⟩
  rw [hpathAt']
  have hold := hlegible.2
  rw [hpathAt] at hold
  rcases hpath with hsame | hpath
  · rwa [hsame]
  -- the head of what follows the new slash
  have hhead : (pathBehind more).head? ≠ some ('/' : CodePoint) := by
    intro h
    apply hmore
    have hmem := List.mem_of_mem_head? h
    exact head?_of_cutAt (head?_of_cutAt h)
  have hreadable' := readable_of_split hs'
  have hisPath' : IsPath url'.path := by
    refine ⟨?_, hreadable'.kept.path, hreadable'.path⟩
    refine (path_of_split hs' hne).resolve_left fun hnil => ?_
    rw [hnil] at hpath
    exact absurd hpath.symm (by simp)
  rw [authorityOf_of_isPath hisPath', hpath]
  rcases path_of_split hs hweb.authority with hnil | ⟨rest, hrest⟩
  · rw [hnil, List.nil_append, takeAuthority_slash hhead]
    exact accepted_nil
  · have hreadable := readable_of_split hs
    rw [authorityOf_of_isPath ⟨⟨rest, hrest⟩, hreadable.kept.path, hreadable.path⟩] at hold
    cases hstart : Text.startsWith "//" url.path with
    | true => rwa [takeAuthority_append_slash hstart rfl]
    | false =>
      -- a single slash and more, which does not begin with one
      have hrestHead : (rest ++ ('/' : CodePoint) :: pathBehind more).head? ≠ some '/' := by
        cases rest with
        | nil => exact absurd hrest hroot
        | cons d rest =>
          intro h
          obtain rfl : d = '/' := Option.some.inj h
          rw [hrest] at hstart
          cases hstart
      rw [hrest, List.cons_append, takeAuthority_slash hrestHead]
      exact accepted_nil

/-- What something legible was appended to is legible. -/
theorem Legible.of_append (hs : split t = .ok url) (hweb : url.IsWeb) {more : Text}
    (h : Legible (t ++ ('/' : CodePoint) :: more)) : Legible t := by
  obtain ⟨url', hs', -, hauthority, hpath⟩ := split_append hs hweb.authority more
  have hreadable := readable_of_split hs
  have hreadable' := readable_of_split hs'
  have hpathAt : pathAt t = url.path := (congrArg Url.path (split_eq_ok_iff.mp hs).2).symm
  have hpathAt' : pathAt (t ++ ('/' : CodePoint) :: more) = url'.path :=
    (congrArg Url.path (split_eq_ok_iff.mp hs').2).symm
  refine ⟨(split_eq_ok_iff.mp hs).1, ?_⟩
  rw [hpathAt]
  have hnew := h.2
  rw [hpathAt'] at hnew
  rcases hpath with hsame | hpath
  · rwa [hsame] at hnew
  rcases path_of_split hs hweb.authority with hnil | ⟨rest, hrest⟩
  · rw [hnil]
    exact accepted_authorityOf_nil
  · rw [authorityOf_of_isPath ⟨⟨rest, hrest⟩, hreadable.kept.path, hreadable.path⟩]
    -- an authority in the path is there with and without what was appended
    cases hstart : Text.startsWith "//" url.path with
    | true =>
      rw [authorityOf_of_isPath ⟨⟨_, by rw [hpath, hrest]; rfl⟩, hreadable'.kept.path,
        hreadable'.path⟩, hpath, takeAuthority_append_slash hstart rfl] at hnew
      exact hnew
    | false =>
      rw [takeAuthority_of_not_startsWith hstart]
      exact accepted_nil

end Url

end CompileGate
