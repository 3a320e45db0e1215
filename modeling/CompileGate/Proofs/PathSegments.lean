/-
CompileGate/Proofs/PathSegments.lean

Paths as segments with slashes between them.

Cutting a path into segments and joining them again are inverse to each other, so
what is true of the resolved segments can be read off the resolved path:

    joinPaths base path = Text.join "/" pieces

for pieces without slashes, none of which is `.` or `..` (`exists_pieces_joinPaths`).
A path without such segments is therefore its own resolved form, and no other
path is one.

The last segment may have parameters after a `;`.  A path without them is `Plain`,
and cutting parameters off takes a path apart into a plain one and the rest.
-/
import CompileGate.Proofs.UrlPoints

namespace CompileGate

namespace Text

variable {sep : CodePoint} {t before after : Text}

/-! ### Cutting at a separator -/

/-- A text without the separator before it is what the first cut finds. -/
theorem cutFirst?_append (h : sep ∉ before) :
    cutFirst? sep (before ++ sep :: after) = some (before, after) := by
  induction before with
  | nil => simp [cutFirst?]
  | cons c before ih =>
    obtain ⟨hc, hbefore⟩ := List.ne_and_not_mem_of_not_mem_cons h
    rw [List.cons_append, cutFirst?, if_neg (Ne.symm hc), ih hbefore]
    rfl

/-- There is no first cut exactly in a text without the separator. -/
theorem cutFirst?_eq_none_iff : cutFirst? sep t = none ↔ sep ∉ t := by
  induction t with
  | nil => simp [cutFirst?]
  | cons c t ih =>
    by_cases hc : c = sep
    · simp [cutFirst?, hc]
    · rw [cutFirst?, if_neg hc, Option.map_eq_none_iff, ih, List.mem_cons, not_or]
      exact ⟨fun h => ⟨Ne.symm hc, h⟩, And.right⟩

theorem cutLast?_append (h : sep ∉ after) :
    cutLast? sep (before ++ sep :: after) = some (before, after) := by
  have hreverse : (before ++ sep :: after).reverse = after.reverse ++ sep :: before.reverse := by
    simp
  rw [cutLast?, hreverse, cutFirst?_append (by simpa using h)]
  simp

theorem cutLast?_eq_none_iff : cutLast? sep t = none ↔ sep ∉ t := by
  rw [cutLast?, Option.map_eq_none_iff, cutFirst?_eq_none_iff, List.mem_reverse]

/-- The last cut takes a text apart, and no separator follows it. -/
theorem eq_append_of_cutLast? (h : cutLast? sep t = some (before, after)) :
    t = before ++ sep :: after ∧ sep ∉ after := by
  obtain ⟨⟨a, b⟩, hcut, heq⟩ := Option.map_eq_some_iff.mp h
  obtain ⟨hreverse, hnot⟩ := eq_append_of_cutFirst? hcut
  obtain ⟨rfl, rfl⟩ := Prod.mk.inj heq
  refine ⟨?_, by simpa using hnot⟩
  rw [← List.reverse_reverse t, hreverse]
  simp

/-! ### Pieces -/

/-- Pieces are those of `List.splitOn`, whose lemmas carry over. -/
theorem splitOn_eq (sep : CodePoint) (t : Text) : splitOn sep t = List.splitOn sep t := by
  induction t with
  | nil => rfl
  | cons c t ih =>
    rw [splitOn, List.splitOn_cons_eq_if_modifyHead, ih]
    by_cases hc : c = sep
    · rw [if_pos hc, if_pos (beq_iff_eq.mpr hc)]
    · rw [if_neg hc, if_neg (mt beq_iff_eq.mp hc)]
      cases hpieces : List.splitOn sep t with
      | nil => exact absurd hpieces (List.splitOn_ne_nil sep t)
      | cons piece pieces => rfl

theorem splitOn_ne_nil (sep : CodePoint) (t : Text) : splitOn sep t ≠ [] := by
  rw [splitOn_eq]
  exact List.splitOn_ne_nil sep t

theorem exists_splitOn_concat (sep : CodePoint) (t : Text) :
    ∃ init last, splitOn sep t = init ++ [last] :=
  ⟨_, _, (List.dropLast_concat_getLast (splitOn_ne_nil sep t)).symm⟩

/-- Joining the pieces gives the text back. -/
theorem join_splitOn (sep : CodePoint) (t : Text) : join [sep] (splitOn sep t) = t := by
  rw [splitOn_eq]
  exact List.intercalate_splitOn sep

/-- Splitting gives the pieces back, if the separator is in none of them. -/
theorem splitOn_join {pieces : List Text} (h : ∀ piece ∈ pieces, sep ∉ piece)
    (hne : pieces ≠ []) : splitOn sep (join [sep] pieces) = pieces := by
  rw [splitOn_eq]
  exact List.splitOn_intercalate sep h hne

/-- A separator between two texts parts their pieces. -/
theorem splitOn_append (sep : CodePoint) (t u : Text) :
    splitOn sep (t ++ sep :: u) = splitOn sep t ++ splitOn sep u := by
  rw [splitOn_eq, splitOn_eq, splitOn_eq]
  exact List.splitOn_append_cons_self t u

theorem splitOn_of_not_mem (h : sep ∉ t) : splitOn sep t = [t] := by
  rw [splitOn_eq]
  exact List.splitOn_eq_singleton h

theorem not_mem_of_mem_splitOn {piece : Text} (h : piece ∈ splitOn sep t) : sep ∉ piece := by
  induction t generalizing piece with
  | nil =>
    obtain rfl := List.mem_singleton.mp h
    exact List.not_mem_nil
  | cons c t ih =>
    by_cases hc : c = sep
    · rw [splitOn, if_pos hc] at h
      rcases List.mem_cons.mp h with rfl | h
      · exact List.not_mem_nil
      · exact ih h
    · rw [splitOn, if_neg hc] at h
      cases hpieces : splitOn sep t with
      | nil => exact absurd hpieces (splitOn_ne_nil sep t)
      | cons first pieces =>
        rw [hpieces] at h ih
        rcases List.mem_cons.mp h with rfl | h
        · exact List.not_mem_cons_of_ne_of_not_mem (Ne.symm hc) (ih List.mem_cons_self)
        · exact ih (List.mem_cons_of_mem _ h)

/-- Two rows of pieces are joined with a separator between them. -/
theorem join_append {front back : List Text} (hfront : front ≠ []) (hback : back ≠ [])
    (sep : Text) : join sep (front ++ back) = join sep front ++ sep ++ join sep back := by
  induction front with
  | nil => exact absurd rfl hfront
  | cons piece front ih =>
    cases front with
    | nil =>
      obtain ⟨piece', back', rfl⟩ := List.exists_cons_of_ne_nil hback
      rw [List.singleton_append, join, List.intercalate_cons_cons, join, join,
        List.intercalate_singleton, List.append_assoc]
    | cons piece' front =>
      have ih' := ih (List.cons_ne_nil _ _)
      simp only [join, List.cons_append, List.intercalate_cons_cons] at ih' ⊢
      rw [ih']
      simp only [List.append_assoc]

theorem join_concat {pieces : List Text} (hne : pieces ≠ []) (sep last : Text) :
    join sep (pieces ++ [last]) = join sep pieces ++ sep ++ last := by
  rw [join_append hne (List.cons_ne_nil last []), join, join, List.intercalate_singleton]

end Text

namespace Url

/-! ### Resolved segments -/

/-- The segments that name a directory relative to another one. -/
def IsDots (segment : Text) : Prop := segment = "." ∨ segment = ".."

instance (segment : Text) : Decidable (IsDots segment) :=
  inferInstanceAs (Decidable (segment = "." ∨ segment = ".."))

theorem not_isDots_nil : ¬ IsDots [] := by decide

/-- After resolving no segment names a directory relative to another. -/
theorem not_isDots_of_mem_resolveSegments {done segments : List Text}
    (hdone : ∀ s ∈ done, ¬ IsDots s) : ∀ s ∈ resolveSegments done segments, ¬ IsDots s := by
  induction segments generalizing done with
  | nil => exact fun s hs => hdone s (List.mem_reverse.mp hs)
  | cons segment rest ih =>
    -- only a segment that is a name is put on top of those done
    rw [resolveSegments]
    split
    · exact ih fun s hs => hdone s (List.mem_of_mem_tail hs)
    · split
      · exact ih hdone
      · next hparent hself =>
        exact ih (List.forall_mem_cons.mpr ⟨fun h => h.elim hself hparent, hdone⟩)

/-- Names alone are all kept, in their order. -/
theorem resolveSegments_of_not_isDots {done segments : List Text}
    (h : ∀ s ∈ segments, ¬ IsDots s) :
    resolveSegments done segments = done.reverse ++ segments := by
  induction segments generalizing done with
  | nil => simp [resolveSegments]
  | cons segment rest ih =>
    obtain ⟨hsegment, hrest⟩ := List.forall_mem_cons.mp h
    obtain ⟨hself, hparent⟩ := not_or.mp hsegment
    rw [resolveSegments, if_neg hparent, if_neg hself, ih hrest]
    simp

/-- A last segment that names itself stays the last one. -/
theorem resolveSegments_concat {done segments : List Text} {last : Text} (h : ¬ IsDots last) :
    resolveSegments done (segments ++ [last]) = resolveSegments done segments ++ [last] := by
  obtain ⟨hself, hparent⟩ := not_or.mp h
  induction segments generalizing done with
  | nil => simp [resolveSegments, hself, hparent]
  | cons segment rest ih =>
    rw [List.cons_append, resolveSegments, resolveSegments]
    split
    · exact ih
    · split
      · exact ih
      · exact ih

/-! ### Parameters -/

/-- A path whose last segment has no parameters. -/
inductive Plain : Text → Prop
  | name {name : Text} (hslash : ('/' : CodePoint) ∉ name) (hmark : (';' : CodePoint) ∉ name) :
    Plain name
  | below (directory : Text) {name : Text} (hslash : ('/' : CodePoint) ∉ name)
    (hmark : (';' : CodePoint) ∉ name) : Plain (directory ++ ('/' : CodePoint) :: name)

/-- A path with its parameters back in place. -/
def withParameters (path parameters : Text) : Text :=
  if parameters.isEmpty then path else path ++ ";" ++ parameters

theorem withParameters_nil (path : Text) : withParameters path [] = path := rfl

theorem withParameters_of_ne_nil {path parameters : Text} (h : parameters ≠ []) :
    withParameters path parameters = path ++ (';' : CodePoint) :: parameters := by
  have hmark : (";" : Text) = [(';' : CodePoint)] := rfl
  rw [withParameters, if_neg (mt List.isEmpty_iff.mp h), hmark, List.append_assoc]
  rfl

/-- Whether a path is plain shows behind its last slash, so what is put before it does not
matter. -/
theorem Plain.append {path : Text} (h : Plain (('/' : CodePoint) :: path)) (start : Text) :
    Plain (start ++ ('/' : CodePoint) :: path) := by
  generalize hp : ('/' : CodePoint) :: path = whole at h
  cases h with
  | name hslash _ =>
    rw [← hp] at hslash
    exact absurd List.mem_cons_self hslash
  | below directory hslash hmark =>
    rw [← List.append_assoc]
    exact .below _ hslash hmark

/-- A plain path stays plain with a slash before it. -/
theorem Plain.slash_cons {path : Text} (h : Plain path) : Plain (('/' : CodePoint) :: path) := by
  cases h with
  | name hslash hmark => exact .below [] hslash hmark
  | below directory hslash hmark => exact .below (('/' : CodePoint) :: directory) hslash hmark

/-- The parameters come off a plain path, if there is no slash in them. -/
theorem cutParameters_append {path parameters : Text} (h : Plain path)
    (hslash : ('/' : CodePoint) ∉ parameters) :
    cutParameters (path ++ (';' : CodePoint) :: parameters) = (path, parameters) := by
  -- the last slash of the whole is that of the path
  have hmark : ∀ {name : Text}, ('/' : CodePoint) ∉ name →
      ('/' : CodePoint) ∉ name ++ (';' : CodePoint) :: parameters := by
    intro name hname hmem
    rcases List.mem_append.mp hmem with hmem | hmem
    · exact hname hmem
    · rcases List.mem_cons.mp hmem with e | hmem
      · exact absurd e (by decide)
      · exact hslash hmem
  cases h with
  | name hname hplain =>
    rw [cutParameters, Text.cutLast?_eq_none_iff.mpr (hmark hname)]
    show cutAt ';' _ = _
    rw [cutAt, Text.cutFirst?_append hplain]
    rfl
  | below directory hname hplain =>
    rw [cutParameters, List.append_assoc, List.cons_append, Text.cutLast?_append (hmark hname)]
    dsimp only
    rw [cutAt, Text.cutFirst?_append hplain]
    show (directory ++ [('/' : CodePoint)] ++ _, _) = _
    simp

/-- From a plain path nothing comes off. -/
theorem cutParameters_of_plain {path : Text} (h : Plain path) :
    cutParameters path = (path, []) := by
  cases h with
  | name hname hplain =>
    rw [cutParameters, Text.cutLast?_eq_none_iff.mpr hname]
    show cutAt ';' _ = _
    rw [cutAt, Text.cutFirst?_eq_none_iff.mpr hplain]
    rfl
  | below directory hname hplain =>
    rw [cutParameters, Text.cutLast?_append hname]
    dsimp only
    rw [cutAt, Text.cutFirst?_eq_none_iff.mpr hplain]
    show (directory ++ [('/' : CodePoint)] ++ _, _) = _
    simp

theorem cutParameters_nil : cutParameters [] = ([], []) := rfl

/-- Parameters that were put back come off again. -/
theorem cutParameters_withParameters {path parameters : Text} (h : Plain path)
    (hslash : ('/' : CodePoint) ∉ parameters) :
    cutParameters (withParameters path parameters) = (path, parameters) := by
  by_cases hnil : parameters = []
  · subst hnil
    exact cutParameters_of_plain h
  · rw [withParameters_of_ne_nil hnil]
    exact cutParameters_append h hslash

/-- A path is plain, or has its first mark after the last slash behind a plain one. -/
theorem plain_or_exists_parameters (path : Text) : Plain path
    ∨ ∃ plain parameters, path = plain ++ (';' : CodePoint) :: parameters ∧ Plain plain
      ∧ ('/' : CodePoint) ∉ parameters := by
  -- only the last segment counts: all of the path, or what follows the last slash
  cases hlast : Text.cutLast? '/' path with
  | none =>
    have hslash := Text.cutLast?_eq_none_iff.mp hlast
    cases hfirst : Text.cutFirst? ';' path with
    | none => exact Or.inl (.name hslash (Text.cutFirst?_eq_none_iff.mp hfirst))
    | some parts =>
      obtain ⟨name, parameters⟩ := parts
      obtain ⟨rfl, hmark⟩ := Text.eq_append_of_cutFirst? hfirst
      have hname : ('/' : CodePoint) ∉ name := fun h => hslash (by simp [h])
      exact Or.inr ⟨name, parameters, rfl, .name hname hmark, fun h => hslash (by simp [h])⟩
  | some parts =>
    obtain ⟨directory, last⟩ := parts
    obtain ⟨rfl, hslash⟩ := Text.eq_append_of_cutLast? hlast
    cases hfirst : Text.cutFirst? ';' last with
    | none => exact Or.inl (.below _ hslash (Text.cutFirst?_eq_none_iff.mp hfirst))
    | some parts =>
      obtain ⟨name, parameters⟩ := parts
      obtain ⟨rfl, hmark⟩ := Text.eq_append_of_cutFirst? hfirst
      have hname : ('/' : CodePoint) ∉ name := fun h => hslash (by simp [h])
      exact Or.inr ⟨directory ++ ('/' : CodePoint) :: name, parameters, by simp,
        .below _ hname hmark, fun h => hslash (by simp [h])⟩

/-- What comes off is what follows the first semicolon of the last segment. -/
theorem cutParameters_spec (path : Text) : ∃ plain parameters,
    cutParameters path = (plain, parameters) ∧ Plain plain ∧ ('/' : CodePoint) ∉ parameters
      ∧ (path = plain ∧ parameters = [] ∨ path = plain ++ (';' : CodePoint) :: parameters) := by
  rcases plain_or_exists_parameters path with h | ⟨plain, parameters, rfl, h, hslash⟩
  · exact ⟨path, [], cutParameters_of_plain h, h, List.not_mem_nil, Or.inl ⟨rfl, rfl⟩⟩
  · exact ⟨plain, parameters, cutParameters_append h hslash, h, hslash, Or.inr rfl⟩

/-! ### Resolved paths -/

/-- The separator of segments, as a text and as a code point. -/
theorem slash_eq : ("/" : Text) = [('/' : CodePoint)] := rfl

/-- The last segment of a plain path holds no semicolon. -/
theorem splitOn_of_plain {path : Text} (h : Plain path) : ∃ directory name,
    Text.splitOn '/' path = directory ++ [name] ∧ (';' : CodePoint) ∉ name := by
  cases h with
  | name hslash hmark => exact ⟨[], _, Text.splitOn_of_not_mem hslash, hmark⟩
  | below directory hslash hmark =>
    refine ⟨Text.splitOn '/' directory, _, ?_, hmark⟩
    rw [Text.splitOn_append, Text.splitOn_of_not_mem hslash]

/-- A last piece without slash and semicolon makes a joined path plain. -/
theorem plain_join {pieces : List Text} {last : Text} (hslash : ('/' : CodePoint) ∉ last)
    (hmark : (';' : CodePoint) ∉ last) : Plain (Text.join "/" (pieces ++ [last])) := by
  by_cases hne : pieces = []
  · subst hne
    rw [List.nil_append, Text.join, List.intercalate_singleton]
    exact .name hslash hmark
  · rw [Text.join_concat hne, slash_eq, List.append_assoc]
    exact .below _ hslash hmark

/-- What is known of a segment of a resolved path. -/
structure IsResolved (segment : Text) : Prop where
  notDots : ¬ IsDots segment
  notSlash : ('/' : CodePoint) ∉ segment

theorem isResolved_nil : IsResolved [] := ⟨not_isDots_nil, List.not_mem_nil⟩

/-- The segments of a resolved path: those of the path without `.` and `..`, and an empty one
where the last of them was such a segment. -/
theorem exists_pieces_joinPaths (base : Text) {path : Text}
    (hstart : Text.startsWith "/" path = true) (hpath : Plain path) : ∃ pieces last,
      joinPaths base path = Text.join "/" (pieces ++ [last]) ∧ joinPaths base path ≠ []
        ∧ (';' : CodePoint) ∉ last ∧ ∀ piece ∈ pieces ++ [last], IsResolved piece := by
  obtain ⟨directory, name, hsegments, hmark⟩ := splitOn_of_plain hpath
  -- resolving keeps segments of the path only, and of those no dots
  have hresolved : ∀ piece ∈ resolveSegments [] (Text.splitOn '/' path), IsResolved piece := by
    intro piece hpiece
    have hmem : piece ∈ Text.splitOn '/' path :=
      (mem_of_mem_resolveSegments hpiece).resolve_left List.not_mem_nil
    exact ⟨not_isDots_of_mem_resolveSegments (by simp) piece hpiece,
      Text.not_mem_of_mem_splitOn hmem⟩
  -- the pieces, of which the last is the empty one or the last segment
  obtain ⟨pieces, last, hpieces, hlast, hall⟩ : ∃ pieces last,
      resolveSegments [] (Text.splitOn '/' path)
          ++ (if name = "." || name = ".." then [[]] else []) = pieces ++ [last]
        ∧ (';' : CodePoint) ∉ last ∧ ∀ piece ∈ pieces ++ [last], IsResolved piece := by
    by_cases hdots : IsDots name
    · -- dots at the end leave a slash there: the last piece is empty
      have hor : (name = "." || name = ".." : Bool) = true := by
        rw [Bool.or_eq_true, decide_eq_true_iff, decide_eq_true_iff]
        exact hdots
      rw [if_pos hor]
      refine ⟨_, [], rfl, List.not_mem_nil, ?_⟩
      intro piece hpiece
      rcases List.mem_append.mp hpiece with hpiece | hpiece
      · exact hresolved piece hpiece
      · obtain rfl := List.mem_singleton.mp hpiece
        exact isResolved_nil
    · -- a name at the end is the last piece
      have hor : ¬ (name = "." || name = ".." : Bool) = true := by
        rw [Bool.or_eq_true, decide_eq_true_iff, decide_eq_true_iff]
        exact hdots
      rw [hsegments, resolveSegments_concat hdots] at hresolved ⊢
      rw [if_neg hor, List.append_nil]
      exact ⟨_, name, rfl, hmark, hresolved⟩
  have hjoined : joinPaths base path = if (Text.join "/" (pieces ++ [last])).isEmpty
      then ("/" : Text) else Text.join "/" (pieces ++ [last]) := by
    rw [hsegments] at hpieces
    unfold joinPaths
    rw [if_pos hstart, hsegments]
    dsimp only
    rw [List.getLast?_concat, Option.getD_some, hpieces]
  by_cases hempty : Text.join "/" (pieces ++ [last]) = []
  · -- nothing is left but the root, which is written as one slash
    rw [hempty] at hjoined
    refine ⟨[[]], [], hjoined, ?_, List.not_mem_nil, ?_⟩
    · rw [hjoined]
      decide
    · intro piece hpiece
      obtain rfl : piece = [] := by simpa using hpiece
      exact isResolved_nil
  · rw [if_neg (mt List.isEmpty_iff.mp hempty)] at hjoined
    exact ⟨pieces, last, hjoined, by rw [hjoined]; exact hempty, hlast, hall⟩

/-- Resolving a plain path brings no semicolon into its last segment. -/
theorem plain_joinPaths (base : Text) {path : Text} (hstart : Text.startsWith "/" path = true)
    (hpath : Plain path) : Plain (joinPaths base path) := by
  obtain ⟨pieces, last, hjoin, -, hmark, hall⟩ := exists_pieces_joinPaths base hstart hpath
  rw [hjoin]
  exact plain_join (hall last (by simp)).notSlash hmark

/-- A resolved path holds no `.` and no `..`. -/
theorem not_isDots_joinPaths (base : Text) {path : Text}
    (hstart : Text.startsWith "/" path = true) (hpath : Plain path) :
    ∀ s ∈ Text.splitOn '/' (joinPaths base path), ¬ IsDots s := by
  obtain ⟨pieces, last, hjoin, -, -, hall⟩ := exists_pieces_joinPaths base hstart hpath
  rw [hjoin, slash_eq, Text.splitOn_join (fun piece hpiece => (hall piece hpiece).notSlash)
    (by simp)]
  exact fun s hs => (hall s hs).notDots

/-- A path without `.` and `..` is its own resolved form. -/
theorem joinPaths_eq_self (base : Text) {path : Text} (hstart : Text.startsWith "/" path = true)
    (hdots : ∀ s ∈ Text.splitOn '/' path, ¬ IsDots s) : joinPaths base path = path := by
  have hne : path ≠ [] := by
    rintro rfl
    cases hstart
  -- so no slash has to be kept at the end either
  have hlast : ¬ IsDots ((Text.splitOn '/' path).getLast?.getD []) := by
    rw [List.getLast?_eq_some_getLast (Text.splitOn_ne_nil '/' path), Option.getD_some]
    exact hdots _ (List.getLast_mem _)
  have hor : ¬ ((Text.splitOn '/' path).getLast?.getD [] = "."
      || (Text.splitOn '/' path).getLast?.getD [] = ".." : Bool) = true := by
    rw [Bool.or_eq_true, decide_eq_true_iff, decide_eq_true_iff]
    exact hlast
  unfold joinPaths
  rw [if_pos hstart]
  dsimp only
  rw [if_neg hor, resolveSegments_of_not_isDots hdots, slash_eq, List.append_nil,
    List.reverse_nil, List.nil_append, Text.join_splitOn,
    if_neg (mt List.isEmpty_iff.mp hne)]

end Url

end CompileGate
