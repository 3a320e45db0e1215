/-
CompileGate/Proofs/WrittenAssignment.lean

Assignments in files of variables are read as they were written.

`Spells value written` lists the ways in which a value can stand behind `=`: between
double quotes with its backslashes and double quotes escaped, between single quotes if
it holds none, or bare if nothing in it would be taken for a mark or trimmed.  Behind the
closing quote, or behind `#`, anything may follow.

A line is trimmed first, then cut at `=`, then trimmed again on both sides.  None of
this reaches into a name (`IsName`) or into a value: the mark `=`, the quotes and `#` are
no blanks, so of what follows a value only the end can be trimmed
(`strip_append_cons`).  What remains is the loop over a quoted value, and for it the two
quotes are two different languages (`unquote_escape`, `unquote_single`).

Main result: `written_assignment_read`.
-/
import CompileGate.Cli.Dotenv
import CompileGate.Proofs.LoweredAuthority

namespace CompileGate

namespace Text

/-! ### Trimming -/

variable {t : Text} {d : CodePoint}

/-- A text that trimming leaves as it is starts with no blank. -/
theorem head?_of_strip (h : strip t = t) : ∀ c ∈ t.head?, c.isBlank = false := by
  intro c hc
  cases t with
  | nil => cases hc
  | cons d t =>
    obtain rfl := Option.some.inj hc
    by_contra hblank
    rw [Bool.not_eq_false] at hblank
    have hshort : (strip (d :: t)).length ≤ t.length := by
      rw [strip, trimBoth, List.dropWhile_cons_of_pos hblank, trimEnd, List.length_reverse]
      refine (List.length_dropWhile_le _ _).trans ?_
      rw [List.length_reverse]
      exact List.length_dropWhile_le _ _
    rw [h, List.length_cons] at hshort
    omega

/-- Of a text with marks at both ends, only what follows the last one is trimmed. -/
theorem strip_append_cons {front : Text} (hfront : ∀ c ∈ (front ++ [d]).head?, c.isBlank = false)
    (hd : d.isBlank = false) (rest : Text) :
    strip (front ++ d :: rest) = front ++ d :: trimEnd CodePoint.isBlank rest := by
  have hdrop : (front ++ d :: rest).dropWhile CodePoint.isBlank = front ++ d :: rest := by
    cases front with
    | nil => exact List.dropWhile_cons_of_neg (by simp [hd])
    | cons c front => exact List.dropWhile_cons_of_neg (by simp [hfront c rfl])
  rw [strip, trimBoth, hdrop, trimEnd_append_cons hd]

theorem strip_trimEnd (t : Text) : strip (trimEnd CodePoint.isBlank t) = strip t := by
  obtain ⟨blanks, ht, hblanks⟩ := exists_trimEnd_append CodePoint.isBlank t
  have hdrop : (trimEnd CodePoint.isBlank t ++ blanks).dropWhile CodePoint.isBlank
      = (trimEnd CodePoint.isBlank t).dropWhile CodePoint.isBlank ++ blanks
        ∨ (trimEnd CodePoint.isBlank t ++ blanks).dropWhile CodePoint.isBlank = []
          ∧ (trimEnd CodePoint.isBlank t).dropWhile CodePoint.isBlank = [] := by
    rw [List.dropWhile_append]
    split
    · next hnil =>
      exact Or.inr ⟨List.dropWhile_eq_nil_iff.mpr hblanks, List.isEmpty_iff.mp hnil⟩
    · exact Or.inl rfl
  conv_rhs => rw [ht]
  rw [strip, trimBoth, strip, trimBoth]
  rcases hdrop with hdrop | ⟨hdrop, hnil⟩
  · rw [hdrop, trimEnd_append_of_all hblanks]
  · rw [hdrop, hnil]

end Text

namespace Dotenv

/-! ### Names -/

/-- A name that an assignment can have. -/
structure IsName (name : Text) : Prop where
  ne_nil : name ≠ []
  no_equals : ('=' : CodePoint) ∉ name
  stripped : Text.strip name = name
  no_comment : Text.startsWith "#" name = false
  no_export : Text.startsWith "export " name = false

/-- A beginning without a mark is found before the mark or not at all. -/
theorem startsWith_append_cons {start : Text} {mark : CodePoint} (hmark : mark ∉ start)
    (front rest : Text) :
    Text.startsWith start (front ++ mark :: rest) = Text.startsWith start front := by
  induction start generalizing front with
  | nil => rfl
  | cons a start ih =>
    rw [List.mem_cons, not_or] at hmark
    unfold Text.startsWith at ih ⊢
    cases front with
    | nil =>
      have hnone : Text.afterStart? (a :: start) (mark :: rest) = none := if_neg hmark.1
      rw [List.nil_append, hnone, Text.afterStart?]
    | cons c front =>
      rw [List.cons_append, Text.afterStart?, Text.afterStart?]
      split
      · exact ih hmark.2 front
      · rfl

variable {name value written : Text}

theorem IsName.head?_append (h : IsName name) (rest : Text) :
    ∀ c ∈ (name ++ rest).head?, c.isBlank = false := by
  have hhead := Text.head?_of_strip h.stripped
  obtain ⟨c, more, rfl⟩ := List.exists_cons_of_ne_nil h.ne_nil
  exact hhead

theorem IsName.readAssignment?_append (h : IsName name) (rest : Text) :
    readAssignment? (name ++ ('=' : CodePoint) :: rest)
      = some (name, readValue (Text.strip rest)) := by
  rw [readAssignment?, Text.cutFirst?_append h.no_equals]
  dsimp only
  rw [h.stripped, if_neg (mt List.isEmpty_iff.mp h.ne_nil)]

/-- **A line is read as its name and its value**, with the word `export` before it or without. -/
theorem IsName.readLine?_append (h : IsName name) (rest : Text) {front : Text}
    (hfront : front = [] ∨ front = "export ") :
    readLine? (front ++ (name ++ ('=' : CodePoint) :: rest))
      = some (name, readValue (Text.strip rest)) := by
  have hstrip : Text.strip (front ++ (name ++ ('=' : CodePoint) :: rest))
      = front ++ (name ++ ('=' : CodePoint) :: Text.trimEnd CodePoint.isBlank rest) := by
    rw [← List.append_assoc, ← List.append_assoc]
    refine Text.strip_append_cons ?_ (by decide) rest
    rw [List.append_assoc]
    rcases hfront with rfl | rfl
    · exact h.head?_append _
    · rintro _ ⟨⟩
      decide
  have hstart : Text.startsWith "#"
      (front ++ (name ++ ('=' : CodePoint) :: Text.trimEnd CodePoint.isBlank rest)) = false := by
    rcases hfront with rfl | rfl
    · exact (startsWith_append_cons (by decide) name _).trans h.no_comment
    · rfl
  have hdrop : dropExport
      (front ++ (name ++ ('=' : CodePoint) :: Text.trimEnd CodePoint.isBlank rest))
        = name ++ ('=' : CodePoint) :: Text.trimEnd CodePoint.isBlank rest := by
    unfold dropExport
    rcases hfront with rfl | rfl
    · have hnone : Text.afterStart? "export "
          (name ++ ('=' : CodePoint) :: Text.trimEnd CodePoint.isBlank rest) = none := by
        rw [← Option.not_isSome_iff_eq_none, Bool.not_eq_true]
        exact (startsWith_append_cons (by decide) name _).trans h.no_export
      rw [List.nil_append, hnone]
    · rw [Text.afterStart?_append]
      obtain ⟨c, more, hcons⟩ := List.exists_cons_of_ne_nil h.ne_nil
      have hc := h.head?_append [] c (by rw [List.append_nil, hcons]; rfl)
      rw [hcons]
      exact List.dropWhile_cons_of_neg (by simp [hc])
  have hne : front ++ (name ++ ('=' : CodePoint) :: Text.trimEnd CodePoint.isBlank rest) ≠ [] := by
    simp
  unfold readLine?
  dsimp only
  rw [hstrip, if_neg (by simp [hstart]), hdrop, h.readAssignment?_append, Text.strip_trimEnd]

/-! ### Values -/

/-- A code point between double quotes. -/
def escapePoint (c : CodePoint) : Text :=
  if c = '\\' ∨ c = '"' then [('\\' : CodePoint), c] else [c]

/-- A value with a backslash before each backslash and each double quote. -/
def escape (value : Text) : Text := value.flatMap escapePoint

/-- A value that needs no quotes. -/
structure IsBare (value : Text) : Prop where
  no_comment : ('#' : CodePoint) ∉ value
  stripped : Text.strip value = value
  unquoted : ∀ c ∈ value.head?, c ≠ '\'' ∧ c ≠ '"'

/-- The ways to write a value behind `=`, with what may follow it on the line. -/
inductive Spells (value : Text) : Text → Prop
  | double (rest : Text) :
      Spells value (('"' : CodePoint) :: (escape value ++ ('"' : CodePoint) :: rest))
  | single (rest : Text) : ('\'' : CodePoint) ∉ value →
      Spells value (('\'' : CodePoint) :: (value ++ ('\'' : CodePoint) :: rest))
  | commented (rest : Text) : IsBare value → Spells value (value ++ ('#' : CodePoint) :: rest)
  | bare : IsBare value → Spells value value

theorem unquote_cons (quote c : CodePoint) (rest : Text) : unquote quote (c :: rest)
    = if quote = '"' ∧ c = '\\' then
        match rest with
        | [] => []
        | d :: rest => d :: unquote quote rest
      else if c = quote then []
      else c :: unquote quote rest := by
  cases rest with
  | nil => rfl
  | cons d rest => rfl

/-- Between double quotes, what was escaped is read as it was. -/
theorem unquote_escape (value rest : Text) :
    unquote '"' (escape value ++ ('"' : CodePoint) :: rest) = value := by
  induction value with
  | nil => exact (unquote_cons _ _ _).trans rfl
  | cons c value ih =>
    rw [escape, List.flatMap_cons, List.append_assoc, ← escape, escapePoint]
    split
    · -- the backslash takes what follows it
      rw [List.cons_append, List.singleton_append, unquote_cons, if_pos ⟨rfl, rfl⟩]
      dsimp only
      rw [ih]
    · next hplain =>
      rw [not_or] at hplain
      rw [List.singleton_append, unquote_cons, if_neg fun h => hplain.1 h.2, if_neg hplain.2, ih]

/-- Between single quotes, nothing is escaped. -/
theorem unquote_single (h : ('\'' : CodePoint) ∉ value) (rest : Text) :
    unquote '\'' (value ++ ('\'' : CodePoint) :: rest) = value := by
  induction value with
  | nil => exact (unquote_cons _ _ _).trans rfl
  | cons c value ih =>
    rw [List.mem_cons, not_or] at h
    rw [List.cons_append, unquote_cons, if_neg fun hquote => absurd hquote.1 (by decide),
      if_neg (Ne.symm h.1), ih h.2]

/-- Without quotes, a value ends at `#`. -/
theorem readValue_of_unquoted {t : Text} (h : ∀ c ∈ t.head?, c ≠ '\'' ∧ c ≠ '"') :
    readValue t = Text.strip (Text.before '#' t) := by
  cases t with
  | nil => rfl
  | cons c t =>
    obtain ⟨hsingle, hdouble⟩ := h c rfl
    rw [readValue, if_neg (by simp [hsingle, hdouble])]

/-- **A value is read as it was written.** -/
theorem Spells.readValue_eq (h : Spells value written) :
    readValue (Text.strip written) = value := by
  cases h with
  | double rest =>
    rw [← List.cons_append, Text.strip_append_cons (by rintro _ ⟨⟩; decide) (by decide),
      List.cons_append, readValue, if_pos (Or.inr rfl), unquote_escape]
  | single rest hfree =>
    rw [← List.cons_append, Text.strip_append_cons (by rintro _ ⟨⟩; decide) (by decide),
      List.cons_append, readValue, if_pos (Or.inl rfl), unquote_single hfree]
  | commented rest hbare =>
    have hblank : ∀ c ∈ (value ++ [('#' : CodePoint)]).head?, c.isBlank = false :=
      Url.forall_head?_append (Text.head?_of_strip hbare.stripped) (by rintro _ ⟨⟩; decide)
    have hquote : ∀ more : Text,
        ∀ c ∈ (value ++ ('#' : CodePoint) :: more).head?, c ≠ '\'' ∧ c ≠ '"' := fun more =>
      Url.forall_head?_append hbare.unquoted (by rintro _ ⟨⟩; decide)
    rw [Text.strip_append_cons hblank (by decide), readValue_of_unquoted (hquote _),
      Url.before_eq, Url.cutAt_append hbare.no_comment, hbare.stripped]
  | bare hbare =>
    rw [hbare.stripped, readValue_of_unquoted hbare.unquoted,
      Url.before_eq, Url.cutAt_of_not_mem hbare.no_comment, hbare.stripped]

/-- **An assignment is read as it was written**, in whichever way its value is written and whatever
follows it, with the word `export` before it or without. -/
theorem written_assignment_read (hname : IsName name) (hvalue : Spells value written) :
    readLine? (name ++ ('=' : CodePoint) :: written) = some (name, value)
      ∧ readLine? ("export " ++ (name ++ ('=' : CodePoint) :: written)) = some (name, value) := by
  rw [hname.readLine?_append written (Or.inr rfl), hvalue.readValue_eq,
    ← List.nil_append (name ++ _), hname.readLine?_append written (Or.inl rfl),
    hvalue.readValue_eq]
  exact ⟨rfl, rfl⟩

/-- A value with both kinds of marks that double quotes give a meaning. -/
def markedValue : Text := " a\\\"#b='c' "

/-- Quotes, backslashes, comments and blanks come back, and nothing of what follows. -/
theorem marked_value_read :
    readLine? "K=\" a\\\\\\\"#b='c' \" trailing \"text\" # comment "
        = some (("K" : Text), markedValue)
      ∧ readLine? "export K=' a\\' # '" = some (("K" : Text), (" a\\" : Text))
      ∧ readLine? "K=a=b\"c# d " = some (("K" : Text), ("a=b\"c" : Text)) := by
  have hname : IsName "K" :=
    ⟨by decide, by decide, by decide +kernel, by decide +kernel, by decide +kernel⟩
  have hbare : IsBare "a=b\"c" := ⟨by decide, by decide +kernel, by rintro _ ⟨⟩; decide⟩
  exact ⟨(written_assignment_read hname (show Spells markedValue _ from .double _)).1,
    (written_assignment_read hname (show Spells " a\\" _ from .single " # '" (by decide))).2,
    (written_assignment_read hname (.commented " d " hbare)).1⟩

end Dotenv

end CompileGate
