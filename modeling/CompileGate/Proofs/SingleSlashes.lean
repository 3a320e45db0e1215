/-
CompileGate/Proofs/SingleSlashes.lean

Paths without `//`.

A text has an authority only behind a `//`.  Joined with the root, a path in which no
two slashes meet stays such a path: its inner segments are not empty
(`singleSlashes_join`), and resolving takes segments away without emptying one
(`ne_nil_of_mem_tail_resolveSegments`).  So where nothing is left of an authority,
the canonical form has no host either (`hostOf_eq_nil_of_canonical`).
-/
import CompileGate.Proofs.CanonicalForm

namespace CompileGate
namespace Url

open Text

/-! ### Texts without two slashes in a row -/

/-- No two slashes meet. -/
def SingleSlashes (t : Text) : Prop := ¬ ("//" : Text) <:+: t

instance (t : Text) : Decidable (SingleSlashes t) :=
  inferInstanceAs (Decidable (¬ _ <:+: t))

theorem SingleSlashes.of_isInfix {t u : Text} (h : SingleSlashes u) (hpart : t <:+: u) :
    SingleSlashes t := fun hslashes => h (hslashes.trans hpart)

/-- What does not begin with a slash brings no `//` to a text without one. -/
theorem SingleSlashes.not_startsWith_append {t more : Text} (h : SingleSlashes t)
    (hmore : more.head? ≠ some ('/' : CodePoint)) : Text.startsWith "//" (t ++ more) = false := by
  rw [← Bool.not_eq_true, startsWith, Option.isSome_iff_exists]
  rintro ⟨rest, hrest⟩
  have heq := eq_append_of_afterStart? hrest
  change t ++ more = ('/' : CodePoint) :: ('/' : CodePoint) :: rest at heq
  cases t with
  | nil => exact hmore (congrArg List.head? heq)
  | cons c t =>
    rw [List.cons_append] at heq
    obtain ⟨rfl, htail⟩ := List.cons.inj heq
    cases t with
    | nil => exact hmore (congrArg List.head? htail)
    | cons d t =>
      rw [List.cons_append] at htail
      obtain ⟨rfl, -⟩ := List.cons.inj htail
      exact h ⟨[], t, rfl⟩

theorem SingleSlashes.append {t more : Text} (h : SingleSlashes t)
    (hmore : ('/' : CodePoint) ∉ more) : SingleSlashes (t ++ more) := by
  rintro ⟨before, after, heq⟩
  have hslashes : ("//" : Text) = [('/' : CodePoint), '/'] := rfl
  rcases List.append_eq_append_iff.mp ((List.append_assoc _ _ _).symm.trans heq) with
    ⟨middle, rfl, hmiddle⟩ | ⟨middle, rfl, hmiddle⟩
  · -- the two slashes would begin what follows `before`
    have hstart := (h.of_isInfix (List.suffix_append before middle).isInfix).not_startsWith_append
      fun hhead => hmore (List.mem_of_mem_head? hhead)
    rw [← hmiddle] at hstart
    exact absurd hstart (by rw [startsWith, afterStart?_append]; exact Bool.noConfusion)
  · refine hmore ?_
    rw [hmiddle, hslashes]
    simp

theorem takeAuthority_of_not_startsWith {t : Text} (h : Text.startsWith "//" t = false) :
    takeAuthority t = ([], t) := by
  rw [startsWith, Option.isSome_eq_false_iff, Option.isNone_iff_eq_none] at h
  rw [takeAuthority, h]

/-! ### Segments -/

/-- Between pieces that are not empty, apart from the two at the ends, no two slashes meet. -/
theorem singleSlashes_join {pieces : List Text} {last : Text}
    (hslash : ∀ piece ∈ pieces ++ [last], ('/' : CodePoint) ∉ piece)
    (hinner : ∀ piece ∈ pieces.tail, piece ≠ []) :
    SingleSlashes (Text.join "/" (pieces ++ [last])) := by
  rintro ⟨before, after, heq⟩
  -- Text.splitOn '/' after = pieces ++ [last] := by :: two slashes that meet would have an empty
  -- piece between them
  have hsegments : Text.splitOn '/' before ++ [] :: Text.splitOn '/' after = pieces ++ [last] := by
    have hsplit := congrArg (Text.splitOn '/') heq
    rw [slash_eq, splitOn_join hslash (by simp)] at hsplit
    rw [← hsplit, List.append_assoc, show ("//" : Text) ++ after
      = ('/' : CodePoint) :: ('/' : CodePoint) :: after from rfl, splitOn_append, splitOn_slash]
  obtain ⟨first, firsts, hbefore⟩ := List.exists_cons_of_ne_nil (splitOn_ne_nil '/' before)
  obtain ⟨init, final, hafter⟩ : ∃ init final, Text.splitOn '/' after = init ++ [final] :=
    ⟨_, _, (List.dropLast_concat_getLast (splitOn_ne_nil '/' after)).symm⟩
  have hpieces : first :: (firsts ++ [] :: init) = pieces := by
    rw [hbefore, hafter] at hsegments
    refine (List.append_inj' (?_ : _ ++ [final] = pieces ++ [last]) rfl).1
    rw [← hsegments]
    simp
  exact hinner [] (by rw [← hpieces]; simp) rfl

/-- The inner segments of a path are not empty if no two of its slashes meet. -/
theorem ne_nil_of_mem_segments {path last : Text} {inner : List Text}
    (h : SingleSlashes (('/' : CodePoint) :: path))
    (hsegments : Text.splitOn '/' path = inner ++ [last]) : ∀ segment ∈ inner, segment ≠ [] := by
  rintro _ hmem rfl
  obtain ⟨before, after, rfl⟩ := List.append_of_mem hmem
  apply h
  have hpath : ('/' : CodePoint) :: path
      = Text.join "/" (([] :: before) ++ ([[]] ++ (after ++ [last]))) := by
    have hjoin := join_splitOn '/' (('/' : CodePoint) :: path)
    rw [splitOn_slash, hsegments] at hjoin
    rw [← hjoin, slash_eq]
    simp
  rw [hpath, join_append (List.cons_ne_nil _ _) (by simp), join_append (by simp) (by simp)]
  exact ⟨Text.join "/" ([] :: before), Text.join "/" (after ++ [last]), by
    rw [Text.join, Text.join, Text.join, List.intercalate_singleton, slash_eq,
      show ("//" : Text) = ([('/' : CodePoint)] ++ [('/' : CodePoint)]) from rfl]
    simp only [List.append_assoc, List.nil_append]⟩

/-- Resolving empties no segment but the first. -/
theorem ne_nil_of_mem_tail_resolveSegments {done segments : List Text}
    (hdone : ∀ s ∈ done.dropLast, s ≠ []) (hsegments : ∀ s ∈ segments, s ≠ []) :
    ∀ s ∈ (resolveSegments done segments).tail, s ≠ [] := by
  -- along the segments; those that are done stand in reverse, the first of them last
  induction segments generalizing done with
  | nil =>
    intro s hs
    rw [resolveSegments, List.tail_reverse, List.mem_reverse] at hs
    exact hdone s hs
  | cons segment rest ih =>
    obtain ⟨hsegment, hrest⟩ := List.forall_mem_cons.mp hsegments
    rw [resolveSegments]
    split
    · refine ih (fun s hs => hdone s ?_) hrest
      rw [← List.tail_dropLast] at hs
      exact List.mem_of_mem_tail hs
    · split
      · exact ih hdone hrest
      · refine ih ?_ hrest
        cases done with
        | nil => simp
        | cons first more =>
          rw [List.dropLast_cons_of_ne_nil (List.cons_ne_nil _ _)]
          exact List.forall_mem_cons.mpr ⟨hsegment, hdone⟩

/-- The segments of a directory behind a slash. -/
theorem directorySegments_of_slash {base : Text}
    (hbase : base = [] ∨ ∃ more, base = ('/' : CodePoint) :: more) : ∃ segments,
    directorySegments base = [] :: segments ∧ ∀ s ∈ segments, ('/' : CodePoint) ∉ s := by
  rcases hbase with rfl | ⟨more, rfl⟩
  · exact ⟨[], rfl, by simp⟩
  · have hslash : ∀ s ∈ Text.splitOn '/' more, ('/' : CodePoint) ∉ s := fun _ =>
      not_mem_of_mem_splitOn
    unfold directorySegments
    rw [splitOn_slash]
    dsimp only
    split
    · exact ⟨_, rfl, hslash⟩
    · rw [List.dropLast_cons_of_ne_nil (splitOn_ne_nil '/' more)]
      exact ⟨_, rfl, fun s hs => hslash s (List.dropLast_subset _ hs)⟩

/-- The segments of a path that is resolved against a base: those between the first and the last
are not empty. -/
theorem exists_segments_below {base path : Text}
    (hbase : base = [] ∨ ∃ more, base = ('/' : CodePoint) :: more)
    (hpath : Text.startsWith "/" path = false) : ∃ inner last,
    (if Text.startsWith "/" path then Text.splitOn '/' path
      else dropInnerEmpty (directorySegments base ++ Text.splitOn '/' path)) = [] :: (inner ++ [last])
    ∧ (∀ segment ∈ inner, segment ≠ [])
    ∧ ∀ segment ∈ inner ++ [last], ('/' : CodePoint) ∉ segment := by
  obtain ⟨directory, hdirectory, hslash⟩ := directorySegments_of_slash hbase
  obtain ⟨init, last, hsegments⟩ := exists_splitOn_concat '/' path
  have hslash' : ∀ segment ∈ init ++ [last], ('/' : CodePoint) ∉ segment := by
    rw [← hsegments]
    exact fun _ => not_mem_of_mem_splitOn
  obtain ⟨hinit, hlast⟩ := List.forall_mem_append.mp hslash'
  refine ⟨(directory ++ init).filter fun s => !s.isEmpty, last, ?_, ?_, ?_⟩
  · rw [hpath, if_neg Bool.false_ne_true, hdirectory, hsegments, List.cons_append,
      ← List.append_assoc, dropInnerEmpty, List.dropLast_concat, List.length_append,
      List.length_singleton, Nat.add_sub_cancel, List.drop_left]
    rfl
  · intro s hs
    simpa using (List.mem_filter.mp hs).2
  · refine List.forall_mem_append.mpr ⟨fun s hs => ?_, hlast⟩
    exact List.forall_mem_append.mpr ⟨hslash, hinit⟩ s (List.mem_filter.mp hs).1

/-- The segments of a path that is joined with the root. -/
theorem exists_segments {path : Text} (h : SingleSlashes path) : ∃ inner last,
    (if Text.startsWith "/" path then Text.splitOn '/' path
      else dropInnerEmpty (directorySegments "/" ++ Text.splitOn '/' path)) = [] :: (inner ++ [last])
    ∧ (∀ segment ∈ inner, segment ≠ [])
    ∧ ∀ segment ∈ inner ++ [last], ('/' : CodePoint) ∉ segment := by
  -- a path behind a slash stands by itself, any other is put below the root
  cases hstart : Text.afterStart? "/" path with
  | some rest =>
    obtain rfl : path = ('/' : CodePoint) :: rest := eq_append_of_afterStart? hstart
    obtain ⟨inner, last, hsegments⟩ := exists_splitOn_concat '/' rest
    refine ⟨inner, last, ?_, ne_nil_of_mem_segments h hsegments, ?_⟩
    · rw [if_pos (startsWith_slash rest), splitOn_slash, hsegments]
    · rw [← hsegments]
      exact fun _ => not_mem_of_mem_splitOn
  | none =>
    exact exists_segments_below (Or.inr ⟨[], rfl⟩) (by rw [startsWith, hstart]; rfl)

/-- Resolved segments of which none is empty but the first and the last leave no two slashes that
meet. -/
theorem singleSlashes_of_segments {base path last : Text} {inner : List Text}
    (hsegments : (if Text.startsWith "/" path then Text.splitOn '/' path
      else dropInnerEmpty (directorySegments base ++ Text.splitOn '/' path))
        = [] :: (inner ++ [last]))
    (hinner : ∀ segment ∈ inner, segment ≠ [])
    (hslash : ∀ segment ∈ inner ++ [last], ('/' : CodePoint) ∉ segment) :
    SingleSlashes (joinPaths base path) := by
  have hroot : ∀ s ∈ [([] : Text)].dropLast, s ≠ [] := by simp
  have hfront : ∀ segments, resolveSegments [] ([] :: segments) = resolveSegments [[]] segments :=
    fun _ => rfl
  -- what is joined: pieces of which none is empty but the first and the last
  obtain ⟨pieces, final, hpieces, htail, hslash'⟩ : ∃ pieces final,
      resolveSegments [] ([] :: (inner ++ [last]))
          ++ (if last = "." || last = ".." then [[]] else []) = pieces ++ [final]
        ∧ (∀ piece ∈ pieces.tail, piece ≠ [])
        ∧ ∀ piece ∈ pieces ++ [final], ('/' : CodePoint) ∉ piece := by
    have hmem : ∀ piece ∈ resolveSegments [[]] (inner ++ [last]), ('/' : CodePoint) ∉ piece := by
      intro piece hpiece
      rcases mem_of_mem_resolveSegments hpiece with hpiece | hpiece
      · obtain rfl := List.mem_singleton.mp hpiece
        exact List.not_mem_nil
      · exact hslash piece hpiece
    rw [hfront]
    by_cases hdots : IsDots last
    · have hor : (last = "." || last = ".." : Bool) = true := by
        rw [Bool.or_eq_true, decide_eq_true_iff, decide_eq_true_iff]
        exact hdots
      have hlast : last ≠ [] := by
        rintro rfl
        exact not_isDots_nil hdots
      rw [if_pos hor]
      refine ⟨_, [], rfl, ne_nil_of_mem_tail_resolveSegments hroot ?_, ?_⟩
      · exact List.forall_mem_append.mpr ⟨hinner, List.forall_mem_singleton.mpr hlast⟩
      · exact List.forall_mem_append.mpr
          ⟨hmem, List.forall_mem_singleton.mpr List.not_mem_nil⟩
    · have hor : ¬ (last = "." || last = ".." : Bool) = true := by
        rw [Bool.or_eq_true, decide_eq_true_iff, decide_eq_true_iff]
        exact hdots
      rw [resolveSegments_concat hdots] at hmem ⊢
      rw [if_neg hor, List.append_nil]
      exact ⟨_, last, rfl, ne_nil_of_mem_tail_resolveSegments hroot hinner, hmem⟩
  have hlast : ([] :: (inner ++ [last])).getLast?.getD [] = last := by
    rw [← List.cons_append, List.getLast?_concat, Option.getD_some]
  unfold joinPaths
  dsimp only
  rw [hsegments, hlast, hpieces]
  split
  · decide
  · exact singleSlashes_join hslash' htail

theorem singleSlashes_joinPaths {path : Text} (h : SingleSlashes path) :
    SingleSlashes (joinPaths "/" path) := by
  obtain ⟨inner, last, hsegments, hinner, hslash⟩ := exists_segments h
  exact singleSlashes_of_segments hsegments hinner hslash

/-! ### What is read behind a scheme -/

/-- A query with its mark, or nothing. -/
def IsQuery (query : Text) : Prop := query = [] ∨ query.head? = some ('?' : CodePoint)

theorem isQuery_marked (part : Text) : IsQuery (marked '?' part) := by
  unfold marked
  split
  · exact Or.inl rfl
  · exact Or.inr rfl

theorem IsQuery.head?_ne {query : Text} (h : IsQuery query) {c : CodePoint} (hc : c ≠ '?') :
    query.head? ≠ some c := by
  rcases h with rfl | hmark
  · exact (Option.some_ne_none c).symm
  · rw [hmark]
    exact fun h => hc (Option.some.inj h).symm

/-- Only a scheme is taken from a text before its query. -/
theorem exists_rest_of_takeScheme? {t query scheme rest : Text} (hquery : IsQuery query)
    (h : takeScheme? (t ++ query) = some (scheme, rest)) :
    ∃ rest', rest = rest' ++ query ∧ rest' <:+: t := by
  obtain ⟨c, more, heq, -, -, hpoints⟩ := takeScheme?_eq_some h
  have hcolon : query.head? ≠ some (':' : CodePoint) := hquery.head?_ne (by decide)
  -- the colon stands before the query or in it
  rcases List.append_eq_append_iff.mp heq with ⟨middle, hname, hmiddle⟩ | ⟨middle, rfl, hmiddle⟩
  · -- the scheme would end inside of the query
    exfalso
    cases middle with
    | nil => exact hcolon (by rw [← List.nil_append query]; exact congrArg List.head? hmiddle)
    | cons d middle =>
      obtain rfl : d = '?' := by
        rcases hquery with hnil | hmark
        · rw [hnil] at hmiddle
          exact absurd hmiddle.symm (List.cons_ne_nil _ _)
        · rw [hmiddle] at hmark
          exact Option.some.inj hmark
      have hmem : ('?' : CodePoint) ∈ c :: more := by
        rw [hname]
        simp
      exact absurd (hpoints _ hmem) (by decide)
  · cases middle with
    | nil => exact absurd (congrArg List.head? hmiddle).symm hcolon
    | cons d middle =>
      obtain ⟨-, hrest⟩ := List.cons.inj hmiddle
      exact ⟨middle, hrest, (List.suffix_append (c :: more ++ [d]) middle).isInfix.trans (by simp)⟩

/-- What is read behind the scheme of a text is the end of the text. -/
theorem exists_rest {t query scheme rest : Text} (hkept : ∀ c ∈ t ++ query, Kept c)
    (hquery : IsQuery query)
    (h : (takeScheme? (clean (t ++ query))).getD ([], clean (t ++ query)) = (scheme, rest)) :
    ∃ rest', rest = rest' ++ query ∧ rest' <:+: t := by
  obtain ⟨front, hclean, hfront⟩ : ∃ front, clean (t ++ query) = front ++ query ∧ front <:+: t := by
    have hfilter : clean (t ++ query) = (t ++ query).dropWhile fun c => c.toNat ≤ 0x20 := by
      rw [clean, List.filter_eq_self]
      intro c hc
      obtain ⟨htab, hreturn, hfeed⟩ := hkept c ((List.dropWhile_sublist _).subset hc)
      simp [htab, hreturn, hfeed]
    -- a query begins with its mark, which is no blank
    have hself : (query.dropWhile fun c => c.toNat ≤ 0x20) = query := by
      rcases hquery with rfl | hmark
      · rfl
      · cases query with
        | nil => rfl
        | cons c query =>
          obtain rfl : c = '?' := Option.some.inj hmark
          rw [List.dropWhile_cons, if_neg (by decide)]
    refine ⟨t.dropWhile fun c => c.toNat ≤ 0x20, ?_, (List.dropWhile_suffix _).isInfix⟩
    rw [hfilter, List.dropWhile_append, hself]
    split
    · next hempty => rw [List.isEmpty_iff.mp hempty, List.nil_append]
    · rfl
  rw [hclean] at h
  cases htake : takeScheme? (front ++ query) with
  | none =>
    rw [htake] at h
    exact ⟨front, (Prod.mk.inj h).2.symm, hfront⟩
  | some parts =>
    rw [htake] at h
    obtain rfl : parts = (scheme, rest) := h
    obtain ⟨rest', hrest, hpart⟩ := exists_rest_of_takeScheme? hquery htake
    exact ⟨rest', hrest, hpart.trans hfront⟩

/-! ### A path joined with the root -/

/-- What is read from a path in which no two slashes meet has no authority. -/
theorem splitWith_of_singleSlashes {path : Text} (h : SingleSlashes path)
    (hkept : ∀ c ∈ path, Kept c) (hmarks : ∀ c ∈ path, c ≠ '?' ∧ c ≠ '#') : ∃ scheme rest,
      splitWith [] path = .ok ⟨scheme, [], rest, [], []⟩ ∧ SingleSlashes rest := by
  obtain ⟨scheme, rest, hscheme⟩ : ∃ scheme rest,
      (takeScheme? (clean path)).getD ([], clean path) = (scheme, rest) := ⟨_, _, rfl⟩
  have hpart : rest <:+: path := by
    rw [← List.append_nil path] at hscheme hkept
    obtain ⟨rest', hrest, hpart⟩ := exists_rest hkept (Or.inl rfl) hscheme
    rw [hrest, List.append_nil]
    exact hpart
  have hsingle := h.of_isInfix hpart
  have hstart : Text.startsWith "//" rest = false := by
    have happend := hsingle.not_startsWith_append (show ([] : Text).head? ≠ _ by simp)
    rw [List.append_nil] at happend
    exact happend
  have hhash : cutAt '#' rest = (rest, []) :=
    cutAt_of_not_mem fun hmem => (hmarks _ (hpart.subset hmem)).2 rfl
  have hquestion : cutAt '?' rest = (rest, []) :=
    cutAt_of_not_mem fun hmem => (hmarks _ (hpart.subset hmem)).1 rfl
  refine ⟨scheme, rest, ?_, hsingle⟩
  unfold splitWith
  dsimp only
  rw [hscheme]
  dsimp only
  rw [takeAuthority_of_not_startsWith hstart]
  dsimp only
  rw [hhash]
  dsimp only
  rw [hquestion]
  rfl

theorem singleSlashes_withParameters {path parameters : Text} (h : SingleSlashes path)
    (hslash : ('/' : CodePoint) ∉ parameters) : SingleSlashes (withParameters path parameters) := by
  by_cases hnil : parameters = []
  · rw [hnil]
    exact h
  · rw [withParameters_of_ne_nil hnil]
    exact h.append (List.not_mem_cons_of_ne_of_not_mem (by decide) hslash)

theorem ofText_eq {scheme t : Text} {url : Url} (h : splitWith scheme t = .ok url) :
    Target.ofText scheme t = .ok (if parameterSchemes.contains url.scheme
      then ⟨{ url with path := (cutParameters url.path).1 }, (cutParameters url.path).2⟩
      else ⟨url, []⟩) := by
  unfold Target.ofText
  rw [h]
  show (if parameterSchemes.contains url.scheme = true then _ else _ : Except Defect Target) = _
  split_ifs
  · rfl
  · rfl

/-- Joined with the root, a path in which no two slashes meet stays such a path. -/
theorem singleSlashes_of_join_root {path joined : Text} (h : SingleSlashes path)
    (hkept : ∀ c ∈ path, Kept c) (hmarks : ∀ c ∈ path, c ≠ '?' ∧ c ≠ '#')
    (hjoin : join "/" path = .ok joined) : SingleSlashes joined := by
  obtain ⟨scheme, rest, hsplit, hsingle⟩ := splitWith_of_singleSlashes h hkept hmarks
  obtain ⟨plain, parameters, hcut, -, hslash, hrest⟩ := cutParameters_spec rest
  have hbase : Target.ofText [] "/" = .ok ⟨⟨[], [], "/", [], []⟩, []⟩ := rfl
  unfold join at hjoin
  rw [if_neg (by decide)] at hjoin
  split_ifs at hjoin with hempty
  · obtain rfl := Except.ok.inj hjoin
    decide
  rw [hbase] at hjoin
  change (Target.ofText [] path >>= _) = _ at hjoin
  rw [ofText_eq hsplit] at hjoin
  -- a text before a colon may be taken for a scheme here, too
  by_cases hscheme : scheme = []
  · subst hscheme
    have hplain : SingleSlashes plain := by
      rcases hrest with ⟨rfl, -⟩ | rfl
      · exact hsingle
      · exact hsingle.of_isInfix (List.prefix_append _ _).isInfix
    have hparameters : parameterSchemes.contains ([] : Text) = true := by decide
    have hauthority : authoritySchemes.contains ([] : Text) = true := by decide
    simp only [hparameters, hauthority, if_true, hcut, bind, Except.bind, List.isEmpty_nil] at hjoin
    rw [if_neg (by decide), if_neg (by decide)] at hjoin
    by_cases hboth : (plain.isEmpty && parameters.isEmpty) = true
    · rw [if_pos hboth] at hjoin
      obtain rfl := Except.ok.inj hjoin
      decide
    · rw [if_neg hboth] at hjoin
      obtain rfl := Except.ok.inj hjoin
      rw [toText_eq, unsplit_path]
      exact singleSlashes_withParameters (singleSlashes_joinPaths hplain) hslash
  · -- a path with a scheme stands for itself
    obtain ⟨target, htarget⟩ : ∃ target, (if parameterSchemes.contains scheme
        then ⟨⟨scheme, [], (cutParameters rest).1, [], []⟩, (cutParameters rest).2⟩
        else ⟨⟨scheme, [], rest, [], []⟩, []⟩ : Target) = target := ⟨_, rfl⟩
    have htargetScheme : target.url.scheme = scheme := by
      rw [← htarget]
      split_ifs
      · rfl
      · rfl
    simp only [htarget, htargetScheme, bind, Except.bind] at hjoin
    rw [if_pos (by simp [hscheme])] at hjoin
    obtain rfl := Except.ok.inj hjoin
    exact h

/-! ### Nothing left of an authority -/

/-- A text has no authority if none is read behind its scheme. -/
theorem hostOf_eq_nil {t : Text} (h : ∀ scheme rest,
    (takeScheme? (clean t)).getD ([], clean t) = (scheme, rest) → (takeAuthority rest).1 = []) :
    hostOf t = [] := by
  unfold hostOf
  cases hs : split t with
  | error defect => rfl
  | ok url =>
    obtain ⟨rest, hfront, hauthority, -⟩ := splitWith_eq_ok hs
    by_contra hkey
    exact authority_ne_nil hkey (hauthority.trans (h _ _ hfront))

/-- Where nothing is left of an authority, and no two slashes meet in the path, the canonical form
has no host. -/
theorem hostOf_eq_nil_of_canonical {t u : Text} {url : Url} (hs : split t = .ok url)
    (hcanonical : canonical t = .ok u)
    (hauthority : canonicalAuthority url.scheme url.authority = [])
    (hpath : SingleSlashes url.path) : hostOf u = [] := by
  have hreadable := readable_of_split hs
  have hkept := kept_of_canonical hcanonical
  obtain ⟨path, hu, hsingle⟩ : ∃ path, u = unsplit ⟨url.scheme, [], path, url.query, []⟩
      ∧ SingleSlashes path := by
    unfold canonical at hcanonical
    simp only [hs, bind, Except.bind, hauthority] at hcanonical
    by_cases hempty : url.path.isEmpty = true
    · rw [if_pos hempty] at hcanonical
      exact ⟨"/", (Except.ok.inj hcanonical).symm, by decide⟩
    · rw [if_neg hempty] at hcanonical
      cases hjoin : join "/" url.path with
      | error defect =>
        rw [hjoin] at hcanonical
        cases hcanonical
      | ok path =>
        rw [hjoin] at hcanonical
        exact ⟨path, (Except.ok.inj hcanonical).symm,
          singleSlashes_of_join_root hpath hreadable.kept.path hreadable.path hjoin⟩
  have hmark : IsQuery (marked '?' url.query) := isQuery_marked url.query
  have hslash : (marked '?' url.query).head? ≠ some ('/' : CodePoint) :=
    hmark.head?_ne (by decide)
  apply hostOf_eq_nil
  intro scheme rest hfront
  rcases hreadable.scheme with hnil | hscheme
  · have hu' : u = path ++ marked '?' url.query := by
      rw [hu, hnil]
      simp [unsplit, marked]
    rw [hu'] at hfront hkept
    obtain ⟨rest', rfl, hpart⟩ := exists_rest hkept hmark hfront
    rw [takeAuthority_of_not_startsWith ((hsingle.of_isInfix hpart).not_startsWith_append hslash)]
  · -- behind the scheme stands the path, or `//` with nothing before the path
    rw [unsplit_of_no_authority hscheme.ne_nil] at hu
    rw [hu] at hfront hkept
    rw [front_of_scheme hscheme hkept] at hfront
    obtain ⟨-, rfl⟩ := Prod.mk.inj hfront
    split
    · have htake := takeAuthority_append (show ∀ c ∈ ([] : Text), endsAuthority c = false by simp)
        (forall_head?_append (endsAuthority_rooted path)
          (endsAuthority_marked (show endsAuthority '?' = true from rfl) url.query))
      rw [List.nil_append] at htake
      rw [List.append_assoc, htake]
    · rw [takeAuthority_of_not_startsWith (hsingle.not_startsWith_append hslash)]

end Url

end CompileGate
