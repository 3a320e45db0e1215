/-
CompileGate/Table.lean

Tables: lists of named entries in the order in which the names first came.  A
second entry under a name replaces the value and keeps the place.  JSON objects,
package versions, environments and the edges of imports are tables.
-/
import CompileGate.Text.Basic

namespace CompileGate

/-- Named entries, in order; each name stands once when the table is built by `insert`. -/
abbrev Table (α : Type u) := List (Text × α)

namespace Table

variable {α : Type u}

/-- The entry under a name. -/
def get? (name : Text) : Table α → Option α
  | [] => none
  | (key, value) :: rest => if key = name then some value else get? name rest

/-- Whether a name has an entry. -/
def has (name : Text) (table : Table α) : Bool := (get? name table).isSome

/-- The table with an entry under a name: in the old place if there was one, else at the end. -/
def insert (name : Text) (value : α) : Table α → Table α
  | [] => [(name, value)]
  | (key, old) :: rest =>
    if key = name then (key, value) :: rest else (key, old) :: insert name value rest

/-- The table with a list of entries put into it, one after the other. -/
def insertAll (entries : List (Text × α)) (table : Table α) : Table α :=
  entries.foldl (fun table entry => insert entry.1 entry.2 table) table

/-- The table of a list of entries, later ones replacing earlier ones of the same name. -/
def ofList (entries : List (Text × α)) : Table α := insertAll entries []

/-- The names, in order. -/
def names (table : Table α) : List Text := table.map Prod.fst

/-- The table without the entry under a name. -/
def erase (name : Text) (table : Table α) : Table α := table.filter fun entry => entry.1 ≠ name

/-! ### What an insertion changes -/

@[simp] theorem get?_nil (name : Text) : get? name ([] : Table α) = none := rfl

theorem get?_insert (name other : Text) (value : α) (table : Table α) :
    get? other (insert name value table) =
      if other = name then some value else get? other table := by
  induction table with
  | nil =>
    by_cases h : other = name
    · simp [insert, get?, h]
    · simp [insert, get?, h, Ne.symm h]
  | cons entry rest ih =>
    obtain ⟨key, old⟩ := entry
    by_cases hk : key = name
    · subst hk
      by_cases h : other = key
      · subst h; simp [insert, get?]
      · simp [insert, get?, h, Ne.symm h]
    · by_cases h : other = name
      · subst h; simp [insert, get?, hk, ih]
      · by_cases hko : key = other
        · subst hko; simp [insert, get?, hk]
        · simp [insert, get?, hk, hko, h, ih]

@[simp] theorem get?_insert_self (name : Text) (value : α) (table : Table α) :
    get? name (insert name value table) = some value := by
  simp [get?_insert]

/-- An insertion puts one entry before all others. -/
theorem get?_insert_eq_or (name key : Text) (value : α) (table : Table α) :
    get? name (insert key value table) = (get? name [(key, value)]).or (get? name table) := by
  rw [get?_insert, get?, get?_nil]
  by_cases h : name = key
  · rw [if_pos h, if_pos h.symm, Option.some_or]
  · rw [if_neg h, if_neg (Ne.symm h), Option.none_or]

theorem get?_append (name : Text) (front back : Table α) :
    get? name (front ++ back) = (get? name front).or (get? name back) := by
  induction front with
  | nil => rfl
  | cons entry front ih =>
    obtain ⟨key, value⟩ := entry
    rw [List.cons_append, get?, get?, ih]
    split
    · rfl
    · rfl

theorem names_insert (name : Text) (value : α) (table : Table α) :
    names (insert name value table) =
      if name ∈ names table then names table else names table ++ [name] := by
  induction table with
  | nil => simp [insert, names]
  | cons entry rest ih =>
    obtain ⟨key, old⟩ := entry
    by_cases hk : key = name
    · subst hk; simp [insert, names]
    · simp only [insert, hk, if_false, names, List.map_cons, List.mem_cons, Ne.symm hk,
        false_or] at ih ⊢
      rw [ih]
      by_cases hm : name ∈ List.map Prod.fst rest <;> simp [hm]

theorem get?_eq_none_iff {name : Text} {table : Table α} :
    get? name table = none ↔ name ∉ names table := by
  induction table with
  | nil => simp [names]
  | cons entry rest ih =>
    obtain ⟨key, old⟩ := entry
    by_cases hk : key = name
    · simp [get?, names, hk]
    · simp only [names, List.map_cons, List.mem_cons, not_or, get?, hk, if_false] at ih ⊢
      simp [ih, Ne.symm hk]

theorem has_iff_mem {name : Text} {table : Table α} : has name table = true ↔ name ∈ names table := by
  rw [has, Option.isSome_iff_ne_none, Ne, get?_eq_none_iff, Classical.not_not]

theorem mem_of_get? {name : Text} {value : α} {table : Table α} (h : get? name table = some value) :
    (name, value) ∈ table := by
  induction table with
  | nil => cases h
  | cons entry rest ih =>
    obtain ⟨key, old⟩ := entry
    rw [get?] at h
    split at h
    · rename_i hk
      obtain rfl := Option.some.inj h
      rw [hk]
      exact List.mem_cons_self
    · exact List.mem_cons_of_mem _ (ih h)

theorem mem_of_mem_insert {name : Text} {value : α} {table : Table α} {entry : Text × α}
    (h : entry ∈ insert name value table) : entry.2 = value ∨ entry ∈ table := by
  induction table with
  | nil =>
    obtain rfl := List.mem_singleton.mp h
    exact Or.inl rfl
  | cons first rest ih =>
    obtain ⟨key, old⟩ := first
    rw [insert] at h
    split at h
    · rcases List.mem_cons.mp h with rfl | h
      · exact Or.inl rfl
      · exact Or.inr (List.mem_cons_of_mem _ h)
    · rcases List.mem_cons.mp h with rfl | h
      · exact Or.inr List.mem_cons_self
      · exact (ih h).imp_right (List.mem_cons_of_mem _)

/-- A new name comes last. -/
theorem insert_of_notMem {name : Text} {value : α} {table : Table α} (h : name ∉ names table) :
    insert name value table = table ++ [(name, value)] := by
  induction table with
  | nil => rfl
  | cons entry rest ih =>
    obtain ⟨key, old⟩ := entry
    simp only [names, List.map_cons, List.mem_cons, not_or] at h ih
    rw [insert, if_neg (Ne.symm h.1), ih h.2, List.cons_append]

/-- An entry behind another one of its name is not found. -/
theorem get?_or_of_has {key : Text} {table : Table α} (h : has key table = true) (name : Text)
    (value : α) : (get? name table).or (get? name [(key, value)]) = get? name table := by
  rw [get?, get?_nil]
  by_cases hname : key = name
  · subst hname
    obtain ⟨old, hold⟩ := Option.isSome_iff_exists.mp h
    rw [hold, Option.some_or]
  · rw [if_neg hname, Option.or_none]

/-- An entry of a new name is found behind all others. -/
theorem get?_insert_of_new {key : Text} {table : Table α} (h : ¬ has key table = true)
    (name : Text) (value : α) :
    get? name (insert key value table) = (get? name table).or (get? name [(key, value)]) := by
  rw [insert_of_notMem (mt has_iff_mem.mpr h), get?_append]

theorem nodup_names_insert {name : Text} {value : α} {table : Table α} (h : (names table).Nodup) :
    (names (insert name value table)).Nodup := by
  rw [names_insert]
  split
  · exact h
  · rename_i hn
    rw [List.nodup_append]
    refine ⟨h, by simp, ?_⟩
    intro a ha b hb
    simp only [List.mem_singleton] at hb
    subst hb
    exact fun e => hn (e ▸ ha)

/-- What holds of a new entry and of all old ones holds of all entries after the insertion. -/
theorem forall_mem_insert {P : Text × α → Prop} {name : Text} {value : α} {table : Table α}
    (hnew : P (name, value)) (h : ∀ entry ∈ table, P entry) :
    ∀ entry ∈ insert name value table, P entry := by
  induction table with
  | nil =>
    intro entry hentry
    rw [List.mem_singleton.mp hentry]
    exact hnew
  | cons first rest ih =>
    obtain ⟨key, old⟩ := first
    obtain ⟨hfirst, hrest⟩ := List.forall_mem_cons.mp h
    rw [insert]
    split
    · rename_i heq
      exact List.forall_mem_cons.mpr ⟨heq ▸ hnew, hrest⟩
    · exact List.forall_mem_cons.mpr ⟨hfirst, ih hrest⟩

/-! ### Many insertions -/

section InsertAll

variable {entries more : List (Text × α)} {table : Table α}

/-- What holds of two tables holds of the one with the entries of the first put into the second. -/
theorem forall_mem_insertAll {P : Text × α → Prop} (hmore : ∀ entry ∈ more, P entry)
    (h : ∀ entry ∈ table, P entry) : ∀ entry ∈ insertAll more table, P entry := by
  -- along the entries that are still to be inserted, whatever the table has become
  induction more generalizing table with
  | nil => exact h
  | cons entry more ih =>
    obtain ⟨hentry, hmore⟩ := List.forall_mem_cons.mp hmore
    exact ih hmore (forall_mem_insert hentry h)

theorem nodup_names_insertAll (more : List (Text × α)) (h : (names table).Nodup) :
    (names (insertAll more table)).Nodup := by
  induction more generalizing table with
  | nil => exact h
  | cons entry more ih => exact ih (nodup_names_insert h)

/-- Entries whose names are all new come last, in their order. -/
theorem insertAll_of_nodup (h : (names (table ++ more)).Nodup) :
    insertAll more table = table ++ more := by
  induction more generalizing table with
  | nil => exact (List.append_nil table).symm
  | cons first more ih =>
    have hnew : first.1 ∉ names table := by
      intro hmem
      simp only [names, List.map_append, List.map_cons] at h hmem
      exact List.nodup_append.mp h |>.2.2 _ hmem _ List.mem_cons_self rfl
    have hsplit : table ++ first :: more = (table ++ [first]) ++ more := by simp
    rw [hsplit] at h ⊢
    rw [insertAll, List.foldl_cons, insert_of_notMem hnew]
    exact ih h

/-- What is found under a name stays if no entry of that name is put into the table. -/
theorem get?_insertAll_of_notMem {name : Text} (h : name ∉ names more) :
    get? name (insertAll more table) = get? name table := by
  induction more generalizing table with
  | nil => rfl
  | cons entry more ih =>
    obtain ⟨hne, hmore⟩ := List.ne_and_not_mem_of_not_mem_cons h
    have hrest : get? name (insertAll more (insert entry.1 entry.2 table))
        = get? name (insert entry.1 entry.2 table) := ih hmore
    rw [insertAll, List.foldl_cons, ← insertAll, hrest, get?_insert, if_neg hne]

/-- An entry that is put into a table is found there, if no later one has its name. -/
theorem get?_insertAll {name : Text} {value : α} (hnames : (names more).Nodup)
    (h : get? name more = some value) : get? name (insertAll more table) = some value := by
  induction more generalizing table with
  | nil => cases h
  | cons entry more ih =>
    obtain ⟨key, first⟩ := entry
    obtain ⟨hnew, hrest⟩ := List.nodup_cons.mp hnames
    rw [get?] at h
    split at h
    · rename_i heq
      obtain rfl := Option.some.inj h
      subst heq
      rw [insertAll, List.foldl_cons, ← insertAll, get?_insertAll_of_notMem hnew, get?_insert_self]
    · exact ih hrest h

/-! ### Tables of lists -/

/-- What holds of all values in a list holds of the values in its table, which are some of them. -/
theorem forall_mem_ofList {P : α → Prop} (h : ∀ entry ∈ entries, P entry.2) :
    ∀ entry ∈ ofList entries, P entry.2 :=
  forall_mem_insertAll (P := fun entry => P entry.2) h (List.forall_mem_nil _)

theorem nodup_names_ofList (entries : List (Text × α)) : (names (ofList entries)).Nodup :=
  nodup_names_insertAll entries List.nodup_nil

/-- A list without two entries of one name is its own table. -/
theorem ofList_of_nodup (h : (names entries).Nodup) : ofList entries = entries :=
  show insertAll entries [] = [] ++ entries from insertAll_of_nodup h

end InsertAll

end Table

end CompileGate
