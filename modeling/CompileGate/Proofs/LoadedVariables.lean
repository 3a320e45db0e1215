/-
CompileGate/Proofs/LoadedVariables.lean

What a file of variables leaves in the environment that it is read into.

The loop asks the environment that it changes whether a variable is set.  So an
assignment finds what the earlier ones of the same file have set, and whether the first
or the last one of a name counts depends on what is done with variables that are set:

* when they keep their values, the environment comes first, then the assignments in
  the order of the file;
* when they are replaced, the assignments come first, from the end of the file, then
  the environment.

One assignment is a table of one entry, put before or behind the environment
(`get?_assign`), and a run of them puts one behind the other (`get?_assignAll`).  That no
name and no value holds a NUL is needed for one thing only, that no assignment stops the
run (`exists_assignAll`).

Main result: `variables_after_load`.
-/
import CompileGate.Cli.Dotenv
import Mathlib.Data.List.Basic

namespace CompileGate

namespace Dotenv

variable {replace : Bool} {env after : Environment} {a : Text × Text} {as : List (Text × Text)}

/-! ### One assignment -/

/-- What a variable holds in the end, from what it held and what is assigned to it. -/
def settle (replace : Bool) (held assigned : Option Text) : Option Text :=
  if replace then assigned.or held else held.or assigned

theorem get?_assign (h : assign replace env a = some after) (name : Text) :
    Table.get? name after = settle replace (Table.get? name env) (Table.get? name [a]) := by
  obtain ⟨key, value⟩ := a
  unfold assign at h
  split at h
  · -- the variable is set and keeps its value
    rename_i hkept
    obtain ⟨hreplace, hset⟩ := Bool.and_eq_true_iff.mp hkept
    rw [Bool.not_eq_true'] at hreplace
    obtain rfl := Option.some.inj h
    rw [settle, hreplace, if_neg Bool.false_ne_true, Table.get?_or_of_has hset]
  · rename_i hfree
    split at h
    · cases h
    · obtain rfl := Option.some.inj h
      cases replace with
      | true => exact Table.get?_insert_eq_or name key value env
      | false =>
        -- the variable is not set, so nothing stands before its entry
        rw [Bool.not_false, Bool.true_and] at hfree
        exact Table.get?_insert_of_new hfree name value

theorem exists_assign (hname : nul ∉ a.1) (hvalue : nul ∉ a.2) (replace : Bool)
    (env : Environment) : ∃ after, assign replace env a = some after := by
  have hpossible : ¬ (a.1.contains nul || a.2.contains nul) = true := by
    simp [hname, hvalue]
  rw [assign, if_neg hpossible]
  split
  · exact ⟨env, rfl⟩
  · exact ⟨Table.insert a.1 a.2 env, rfl⟩

/-! ### A run of assignments -/

/-- Assignments, or the lines that hold them, in the order in which they count. -/
def ranked {α : Type} (replace : Bool) (l : List α) : List α := if replace then l.reverse else l

theorem mem_ranked {α : Type} (replace : Bool) {l : List α} {x : α} :
    x ∈ ranked replace l ↔ x ∈ l := by
  cases replace with
  | true => exact List.mem_reverse
  | false => exact Iff.rfl

theorem ranked_filterMap {α β : Type} (f : α → Option β) (l : List α) :
    ranked replace (l.filterMap f) = (ranked replace l).filterMap f := by
  cases replace with
  | true => exact List.filterMap_reverse.symm
  | false => rfl

theorem get?_assignAll (h : assignAll replace as env = (true, after)) (name : Text) :
    Table.get? name after
      = settle replace (Table.get? name env) (Table.get? name (ranked replace as)) := by
  -- along the assignments, with the environment that the earlier ones left
  induction as generalizing env with
  | nil =>
    obtain rfl := (Prod.mk.inj h).2
    cases replace with
    | true => rfl
    | false => exact (Option.or_none).symm
  | cons a as ih =>
    rw [assignAll] at h
    split at h
    · rename_i mid hmid
      rw [ih h, get?_assign hmid]
      cases replace with
      | true =>
        have hranked : ranked true (a :: as) = as.reverse ++ [a] := List.reverse_cons
        rw [hranked, Table.get?_append]
        exact Option.or_assoc.symm
      | false =>
        have hranked : ranked false (a :: as) = [a] ++ as := rfl
        rw [hranked, Table.get?_append]
        exact Option.or_assoc
    · cases h

theorem exists_assignAll (h : ∀ a ∈ as, nul ∉ a.1 ∧ nul ∉ a.2) (replace : Bool)
    (env : Environment) : ∃ after, assignAll replace as env = (true, after) := by
  induction as generalizing env with
  | nil => exact ⟨env, rfl⟩
  | cons a as ih =>
    obtain ⟨ha, has⟩ := List.forall_mem_cons.mp h
    obtain ⟨mid, hmid⟩ := exists_assign ha.1 ha.2 replace env
    rw [assignAll, hmid]
    exact ih has mid

/-! ### The lines of a file -/

/-- The line assigns something to the variable. -/
def Assigns (line name : Text) : Prop := ∃ value, readLine? line = some (name, value)

/-- The first of the lines that assign something to the variable assigns this value. -/
def FirstAssigns (lines : List Text) (name value : Text) : Prop :=
  ∃ front line back, lines = front ++ line :: back ∧ readLine? line = some (name, value)
    ∧ ∀ earlier ∈ front, ¬ Assigns earlier name

/-- The last of the lines that assign something to the variable assigns this value. -/
def LastAssigns (lines : List Text) (name value : Text) : Prop :=
  ∃ front line back, lines = front ++ line :: back ∧ readLine? line = some (name, value)
    ∧ ∀ later ∈ back, ¬ Assigns later name

variable {lines : List Text} {name value : Text}

theorem get?_filterMap_eq_none_iff :
    Table.get? name (lines.filterMap readLine?) = none ↔ ∀ line ∈ lines, ¬ Assigns line name := by
  rw [Table.get?_eq_none_iff]
  constructor
  · rintro hnone line hline ⟨value, hread⟩
    exact hnone (List.mem_map.mpr ⟨_, List.mem_filterMap.mpr ⟨line, hline, hread⟩, rfl⟩)
  · intro hnone hmem
    obtain ⟨⟨key, value⟩, hentry, rfl⟩ := List.mem_map.mp hmem
    obtain ⟨line, hline, hread⟩ := List.mem_filterMap.mp hentry
    exact hnone line hline ⟨value, hread⟩

theorem FirstAssigns.get?_eq (h : FirstAssigns lines name value) :
    Table.get? name (lines.filterMap readLine?) = some value := by
  obtain ⟨front, line, back, rfl, hread, hfront⟩ := h
  rw [List.filterMap_append, Table.get?_append, get?_filterMap_eq_none_iff.mpr hfront,
    List.filterMap_cons_some hread, Option.none_or, Table.get?, if_pos rfl]

theorem exists_firstAssigns (h : ∃ line ∈ lines, Assigns line name) :
    ∃ value, FirstAssigns lines name value := by
  induction lines with
  | nil =>
    obtain ⟨_, hline, -⟩ := h
    cases hline
  | cons line lines ih =>
    by_cases hfirst : Assigns line name
    · obtain ⟨value, hread⟩ := hfirst
      exact ⟨value, [], line, lines, rfl, hread, by simp⟩
    · obtain ⟨found, hfound, hassigns⟩ := h
      rcases List.mem_cons.mp hfound with rfl | hfound
      · exact absurd hassigns hfirst
      · obtain ⟨value, front, next, back, rfl, hread, hfront⟩ := ih ⟨found, hfound, hassigns⟩
        exact ⟨value, line :: front, next, back, rfl, hread,
          List.forall_mem_cons.mpr ⟨hfirst, hfront⟩⟩

/-- The last line is the first one from the end. -/
theorem lastAssigns_iff_reverse :
    LastAssigns lines name value ↔ FirstAssigns lines.reverse name value := by
  constructor
  · rintro ⟨front, line, back, rfl, hread, hback⟩
    exact ⟨back.reverse, line, front.reverse, by simp, hread, fun later hlater =>
      hback later (List.mem_reverse.mp hlater)⟩
  · rintro ⟨front, line, back, hlines, hread, hfront⟩
    have hsplit : lines = back.reverse ++ line :: front.reverse := by
      rw [← List.reverse_reverse lines, hlines]
      simp
    exact ⟨back.reverse, line, front.reverse, hsplit, hread, fun later hlater =>
      hfront later (List.mem_reverse.mp hlater)⟩

/-- What lines of assignments leave in an environment. -/
structure Settled (replace : Bool) (lines : List Text) (env after : Environment) : Prop where
  /-- Without replacement a variable that was set keeps its value. -/
  kept : replace = false → ∀ name, Table.has name env = true →
    Table.get? name after = Table.get? name env
  /-- Without replacement any other variable that is assigned has its first value. -/
  first : replace = false → ∀ name, Table.has name env = false →
    (∃ line ∈ lines, Assigns line name) →
    ∃ value, FirstAssigns lines name value ∧ Table.get? name after = some value
  /-- With replacement every variable that is assigned has its last value. -/
  last : replace = true → ∀ name, (∃ line ∈ lines, Assigns line name) →
    ∃ value, LastAssigns lines name value ∧ Table.get? name after = some value
  /-- A variable that no line assigns is as it was. -/
  untouched : ∀ name, (∀ line ∈ lines, ¬ Assigns line name) →
    Table.get? name after = Table.get? name env

theorem settled_of_assignAll
    (h : assignAll replace (lines.filterMap readLine?) env = (true, after)) :
    Settled replace lines env after := by
  have hget : ∀ name, Table.get? name after = settle replace (Table.get? name env)
      (Table.get? name ((ranked replace lines).filterMap readLine?)) := by
    intro name
    rw [get?_assignAll h, ranked_filterMap]
  -- a variable that some line assigns, with the line that counts
  have hcounts : ∀ name, (∃ line ∈ lines, Assigns line name) →
      ∃ value, FirstAssigns (ranked replace lines) name value :=
    fun name ⟨line, hline, hassigns⟩ =>
      exists_firstAssigns ⟨line, (mem_ranked replace).mpr hline, hassigns⟩
  refine ⟨?_, ?_, ?_, ?_⟩
  · rintro rfl name hset
    obtain ⟨held, hheld⟩ := Option.isSome_iff_exists.mp hset
    rw [hget, hheld]
    rfl
  · rintro rfl name hset hassigned
    obtain ⟨value, hfirst⟩ := hcounts name hassigned
    have hnew : Table.get? name env = none :=
      Option.isNone_iff_eq_none.mp (Option.isSome_eq_false_iff.mp hset)
    refine ⟨value, hfirst, ?_⟩
    rw [hget, hnew, hfirst.get?_eq]
    rfl
  · rintro rfl name hassigned
    obtain ⟨value, hfirst⟩ := hcounts name hassigned
    refine ⟨value, lastAssigns_iff_reverse.mpr hfirst, ?_⟩
    rw [hget, hfirst.get?_eq]
    rfl
  · intro name hnone
    have hunassigned := get?_filterMap_eq_none_iff.mpr fun line hline =>
      hnone line ((mem_ranked replace).mp hline)
    rw [hget, hunassigned]
    cases replace with
    | true => rfl
    | false => exact Option.or_none

/-! ### Files -/

variable {τ : Type} {files : Files} {path : Text} {bytes : List UInt8} {t t' : Text}

theorem load_of_assignAll (hfile : files.read? path = some bytes)
    (htext : Utf8.decode bytes = .ok t) (h : assignAll replace (assignments t) env = (true, after)) :
    (load replace files path env : Except (Failure τ) Bool × Environment) = (.ok true, after) := by
  simp only [load, hfile, htext, h]

/-- Lines that assign nothing have no part in what a text assigns. -/
theorem assignments_of_filter
    (h : Text.lines t' = (Text.lines t).filter fun line => (readLine? line).isSome) :
    assignments t' = assignments t := by
  rw [assignments, h, assignments, List.filterMap_filter]
  refine List.filterMap_congr fun line _ => ?_
  cases readLine? line with
  | none => rfl
  | some a => rfl

/-- **A file of variables is read into an environment as its lines say**, whichever of them assign
the same variables: the first or the last of them counts, all other variables stay, and a file
without the lines that assign nothing leaves the same environment. -/
theorem variables_after_load (hfile : files.read? path = some bytes)
    (htext : Utf8.decode bytes = .ok t)
    (hnul : ∀ a ∈ assignments t, nul ∉ a.1 ∧ nul ∉ a.2)
    (replace : Bool) (env : Environment) :
    ∃ after, (load replace files path env : Except (Failure τ) Bool × Environment)
        = (.ok true, after)
      ∧ Settled replace (Text.lines t) env after
      ∧ ∀ (files' : Files) (path' : Text) (bytes' : List UInt8) (t' : Text),
          files'.read? path' = some bytes' → Utf8.decode bytes' = .ok t' →
          Text.lines t' = (Text.lines t).filter (fun line => (readLine? line).isSome) →
          (load replace files' path' env : Except (Failure τ) Bool × Environment)
            = (.ok true, after) := by
  obtain ⟨after, hafter⟩ := exists_assignAll hnul replace env
  refine ⟨after, load_of_assignAll hfile htext hafter, settled_of_assignAll hafter, ?_⟩
  intro files' path' bytes' t' hfile' htext' hlines
  rw [← assignments_of_filter hlines] at hafter
  exact load_of_assignAll hfile' htext' hafter

/-- A file that assigns two variables twice, with lines between that assign nothing. -/
def repeatedText : Text := "# A=9\nA=1\r\nexport B='x' # B=8\nA\nA=2\n\n=7\n B = \"y\" "

/-- The same file without these lines. -/
def assigningText : Text := "A=1\nexport B='x' # B=8\nA=2\n B = \"y\" "

def repeatedFiles : Files := [
  (".env", some (Utf8.encodeLenient repeatedText)),
  ("short.env", some (Utf8.encodeLenient assigningText))]

/-- Where one of the variables was set, and a third one. -/
def heldVariables : Environment := [("A", "0"), ("HOME", "/")]

/-- The set variable stays and the other has its first value, or both have their last one. -/
theorem variables_after_repeated :
    (∃ after, (load false repeatedFiles ".env" heldVariables :
          Except (Failure Float) Bool × Environment) = (.ok true, after)
        ∧ Table.get? "A" after = some "0" ∧ Table.get? "B" after = some "x"
        ∧ Table.get? "HOME" after = some "/"
        ∧ (load false repeatedFiles "short.env" heldVariables :
          Except (Failure Float) Bool × Environment) = (.ok true, after))
      ∧ ∃ after, (load true repeatedFiles ".env" heldVariables :
          Except (Failure Float) Bool × Environment) = (.ok true, after)
        ∧ Table.get? "A" after = some "2" ∧ Table.get? "B" after = some "y"
        ∧ Table.get? "HOME" after = some "/" := by
  have hfile : repeatedFiles.read? ".env" = some (Utf8.encodeLenient repeatedText) := rfl
  have htext : Utf8.decode (Utf8.encodeLenient repeatedText) = .ok repeatedText := by
    decide +kernel
  have hnul : ∀ a ∈ assignments repeatedText, nul ∉ a.1 ∧ nul ∉ a.2 := by decide +kernel
  have hassigned : ∀ name ∈ (["A", "B"] : List Text),
      ∃ line ∈ Text.lines repeatedText, Assigns line name := by
    have hread : ∀ name ∈ (["A", "B"] : List Text), ∃ line ∈ Text.lines repeatedText,
        (readLine? line).map Prod.fst = some name := by decide +kernel
    intro name hname
    obtain ⟨line, hline, hfst⟩ := hread name hname
    obtain ⟨⟨_, value⟩, hvalue, rfl⟩ := Option.map_eq_some_iff.mp hfst
    exact ⟨line, hline, value, hvalue⟩
  have hhome : ∀ line ∈ Text.lines repeatedText, ¬ Assigns line "HOME" :=
    get?_filterMap_eq_none_iff.mp (by decide +kernel)
  constructor
  · obtain ⟨after, hload, hsettled, hshort⟩ :=
      variables_after_load (τ := Float) hfile htext hnul false heldVariables
    obtain ⟨b, hfirst, hb⟩ := hsettled.first rfl "B" (by decide) (hassigned _ (by decide))
    have hx : some b = some ("x" : Text) := hfirst.get?_eq.symm.trans (by decide +kernel)
    refine ⟨after, hload, hsettled.kept rfl "A" (by decide), hb.trans hx,
      hsettled.untouched "HOME" hhome, ?_⟩
    exact hshort repeatedFiles "short.env" (Utf8.encodeLenient assigningText) assigningText rfl
      (by decide +kernel) (by decide +kernel)
  · obtain ⟨after, hload, hsettled, -⟩ :=
      variables_after_load (τ := Float) hfile htext hnul true heldVariables
    obtain ⟨a, hlast, ha⟩ := hsettled.last rfl "A" (hassigned _ (by decide))
    have htwo : some a = some ("2" : Text) :=
      (lastAssigns_iff_reverse.mp hlast).get?_eq.symm.trans (by decide +kernel)
    obtain ⟨b, hlast', hb⟩ := hsettled.last rfl "B" (hassigned _ (by decide))
    have hy : some b = some ("y" : Text) :=
      (lastAssigns_iff_reverse.mp hlast').get?_eq.symm.trans (by decide +kernel)
    exact ⟨after, hload, ha.trans htwo, hb.trans hy, hsettled.untouched "HOME" hhome⟩

end Dotenv

end CompileGate
