/-
CompileGate/Proofs/ReorderedJson.lean

The text that is hashed stands for one document, whatever the order of its members.

Two documents are the same up to the order of members if exchanging members of one object
after the other, at any depth, leads from one to the other (`Reordered`).  One such
exchange does not change the canonical text (`Reorders.print_canonical`): sorting by name
gives one list only, since no object has two members of one name.  Conversely the
canonical text is the text in order of the value whose members are sorted
(`print_arranged`), that value is a reordering of the given one, and a value that is
printed in its order is read as it was.

Both directions need what the reader guarantees of its values (`IsExact`): no two members
of one name in an object, and no whole number that is too long to be read again.
Floating-point numbers are left out, of which several are printed alike.

Main result: `canonical_text_exact`.
-/
import CompileGate.Proofs.PrintedJson
import Mathlib.Data.List.Nodup
import Mathlib.Logic.Relation

namespace CompileGate

/-! ### The order of names -/

namespace Text

theorem le_total (s t : Text) : le s t = true ∨ le t s = true := by
  induction s generalizing t with
  | nil => exact Or.inl rfl
  | cons a s ih =>
    cases t with
    | nil => exact Or.inr rfl
    | cons b t =>
      rw [le, le]
      -- the first code points decide unless they are equal
      by_cases h : a.toNat = b.toNat
      · rw [if_pos h, if_pos h.symm]
        exact ih t
      · rw [if_neg h, if_neg (Ne.symm h), decide_eq_true_iff, decide_eq_true_iff]
        omega

theorem le_trans {s t u : Text} (hst : le s t = true) (htu : le t u = true) : le s u = true := by
  induction s generalizing t u with
  | nil => rfl
  | cons a s ih =>
    cases t with
    | nil => cases hst
    | cons b t =>
      cases u with
      | nil => cases htu
      | cons c u =>
        rw [le] at hst htu ⊢
        split_ifs at hst htu ⊢
        · exact ih hst htu
        all_goals
          simp only [decide_eq_true_eq] at *
          omega

theorem le_antisymm {s t : Text} (hst : le s t = true) (hts : le t s = true) : s = t := by
  induction s generalizing t with
  | nil =>
    cases t with
    | nil => rfl
    | cons b t => cases hts
  | cons a s ih =>
    cases t with
    | nil => cases hst
    | cons b t =>
      rw [le] at hst hts
      by_cases h : a.toNat = b.toNat
      · rw [if_pos h] at hst
        rw [if_pos h.symm] at hts
        obtain ⟨a, ha⟩ := a
        obtain ⟨b, hb⟩ := b
        obtain rfl : a = b := h
        rw [ih hst hts]
      · rw [if_neg h, decide_eq_true_iff] at hst
        rw [if_neg (Ne.symm h), decide_eq_true_iff] at hts
        omega

end Text

namespace Json

/-! ### Reordering -/

/-- One value becomes the other when the members of one object in it change places. -/
inductive Reorders : Json → Json → Prop
  | members {members members' : List (Text × Json)} : members.Perm members' →
      Reorders (.object members) (.object members')
  | item (before after : List Json) {a b : Json} : Reorders a b →
      Reorders (.array (before ++ a :: after)) (.array (before ++ b :: after))
  | member (before after : List (Text × Json)) (name : Text) {a b : Json} : Reorders a b →
      Reorders (.object (before ++ (name, a) :: after)) (.object (before ++ (name, b) :: after))

/-- The values are equal up to the order of members, at every depth. -/
def Reordered : Json → Json → Prop := Relation.ReflTransGen Reorders

theorem Reorders.symm {a b : Json} (h : Reorders a b) : Reorders b a := by
  induction h with
  | members hperm => exact .members hperm.symm
  | item before after _ ih => exact .item before after ih
  | member before after name _ ih => exact .member before after name ih

theorem Reordered.symm {a b : Json} (h : Reordered a b) : Reordered b a := by
  induction h with
  | refl => exact .refl
  | tail _ hstep ih => exact .head hstep.symm ih

/-- Items may be reordered one after the other. -/
theorem reordered_array {f : Json → Json} {items : List Json} (before : List Json)
    (h : ∀ item ∈ items, Reordered item (f item)) :
    Reordered (.array (before ++ items)) (.array (before ++ items.map f)) := by
  -- along the items, those that are done being `before`
  induction items generalizing before with
  | nil => exact .refl
  | cons item items ih =>
    obtain ⟨hfirst, hrest⟩ := List.forall_mem_cons.mp h
    have hstep : Reordered (.array (before ++ item :: items))
        (.array (before ++ f item :: items)) :=
      Relation.ReflTransGen.lift (p := Reorders) (fun v => .array (before ++ v :: items))
        (fun _ _ => Reorders.item before items) _ _ hfirst
    have hmore := ih (before ++ [f item]) hrest
    rw [List.append_assoc, List.append_assoc] at hmore
    exact hstep.trans hmore

theorem reordered_object {f : Json → Json} {members : List (Text × Json)}
    (before : List (Text × Json)) (h : ∀ m ∈ members, Reordered m.2 (f m.2)) :
    Reordered (.object (before ++ members))
      (.object (before ++ members.map fun m => (m.1, f m.2))) := by
  induction members generalizing before with
  | nil => exact .refl
  | cons m members ih =>
    obtain ⟨hfirst, hrest⟩ := List.forall_mem_cons.mp h
    have hstep : Reordered (.object (before ++ m :: members))
        (.object (before ++ (m.1, f m.2) :: members)) :=
      Relation.ReflTransGen.lift (p := Reorders) (fun v => .object (before ++ (m.1, v) :: members))
        (fun _ _ => Reorders.member before members m.1) _ _ hfirst
    have hmore := ih (before ++ [(m.1, f m.2)]) hrest
    rw [List.append_assoc, List.append_assoc] at hmore
    exact hstep.trans hmore

/-! ### Values that are read as they were printed -/

/-- No number in a value is a floating-point number. -/
inductive IsFloatFree : Json → Prop
  | null : IsFloatFree .null
  | bool (b : Bool) : IsFloatFree (.bool b)
  | int (n : Int) : IsFloatFree (.int n)
  | string (s : Text) : IsFloatFree (.string s)
  | array {items : List Json} : (∀ item ∈ items, IsFloatFree item) → IsFloatFree (.array items)
  | object {members : List (Text × Json)} : (∀ m ∈ members, IsFloatFree m.2) →
      IsFloatFree (.object members)

/-- A value that is read as it was printed: whole numbers only, none of them too long, and no two
members of one name. -/
inductive IsExact : Json → Prop
  | null : IsExact .null
  | bool (b : Bool) : IsExact (.bool b)
  | int {n : Int} : IsShort n → IsExact (.int n)
  | string (s : Text) : IsExact (.string s)
  | array {items : List Json} : (∀ item ∈ items, IsExact item) → IsExact (.array items)
  | object {members : List (Text × Json)} : (Table.names members).Nodup →
      (∀ m ∈ members, IsExact m.2) → IsExact (.object members)

theorem IsExact.isReadable {v : Json} (h : IsExact v) : IsReadable v := by
  induction h with
  | null => exact .null
  | bool b => exact .bool b
  | int hn => exact .int hn
  | string s => exact .string s
  | array _ ih => exact .array ih
  | object _ _ ih => exact .object ih

theorem IsExact.isFloatFree {v : Json} (h : IsExact v) : IsFloatFree v := by
  induction h with
  | null => exact .null
  | bool b => exact .bool b
  | int _ => exact .int _
  | string s => exact .string s
  | array _ ih => exact .array ih
  | object _ _ ih => exact .object ih

/-- What is read is exact, floating-point numbers apart. -/
theorem isExact_of_read {t : Text} {v : Json} (h : read t = .ok v) (hv : IsFloatFree v) :
    IsExact v := by
  -- a closure of the reader: scalars, strings, arrays and objects
  refine forall_of_read (P := fun v => IsFloatFree v → IsExact v) ⟨?_, ?_, ?_, ?_⟩ h hv
  · rintro v hscalar hv
    cases hscalar with
    | null => exact .null
    | bool b => exact .bool b
    | int hn => exact .int hn
    | float x => cases hv
  · exact fun s _ => .string s
  · rintro items hitems (_ | _ | _ | _ | hv | _)
    exact .array fun item hitem => hitems item hitem (hv item hitem)
  · rintro members hmembers (_ | _ | _ | _ | _ | hv)
    exact .object (Table.nodup_names_ofList members) fun m hm =>
      Table.forall_mem_ofList (P := fun v => IsFloatFree v → IsExact v) hmembers m hm (hv m hm)

/-! ### Members in order -/

/-- Members by their names. -/
def byName {α : Type} (m n : Text × α) : Bool := Text.le m.1 n.1

theorem pairwise_mergeSort_byName {α : Type} (members : List (Text × α)) :
    (members.mergeSort byName).Pairwise fun m n => byName m n = true := by
  have htrans : ∀ l m n : Text × α, byName l m = true → byName m n = true → byName l n = true :=
    fun _ _ _ => Text.le_trans
  have htotal : ∀ m n : Text × α, (byName m n || byName n m) = true := fun m n =>
    (Bool.or_eq_true _ _).mpr (Text.le_total m.1 n.1)
  exact List.pairwise_mergeSort htrans htotal members

/-- Members whose names are different are sorted in one way only. -/
theorem mergeSort_eq_of_perm {α : Type} {members members' : List (Text × α)}
    (hperm : members.Perm members') (hnames : (Table.names members).Nodup) :
    members.mergeSort byName = members'.mergeSort byName := by
  refine List.Perm.eq_of_pairwise ?_ (pairwise_mergeSort_byName members)
    (pairwise_mergeSort_byName members') ((List.mergeSort_perm members byName).trans
      (hperm.trans (List.mergeSort_perm members' byName).symm))
  -- two members that are each before the other have one name, and so are one
  intro m n hm hn hmn hnm
  rw [List.mem_mergeSort] at hm hn
  exact List.inj_on_of_nodup_map hnames hm (hperm.mem_iff.mpr hn) (Text.le_antisymm hmn hnm)

/-- The canonical style without the sorting. -/
def Style.inOrder : Style := ⟨",", ":", false, false⟩

theorem Style.isPlain_inOrder : Style.inOrder.IsPlain :=
  ⟨⟨[], rfl, by simp⟩, ⟨[], rfl, by simp⟩, rfl⟩

/-- The text of an object of which the members are printed. -/
def objectText (printed : List (Text × Text)) : Text :=
  ('{' : CodePoint) :: Text.join "," (printed.map fun m => printString false m.1 ++ ":" ++ m.2)
    ++ [('}' : CodePoint)]

theorem print_canonical_object (members : List (Text × Json)) : print .canonical (.object members)
    = objectText ((members.map fun m => (m.1, print .canonical m.2)).mergeSort byName) := by
  rw [print, printMembers_eq_map]
  rfl

theorem print_inOrder_object (members : List (Text × Json)) : print .inOrder (.object members)
    = objectText (members.map fun m => (m.1, print .inOrder m.2)) := by
  rw [print, printMembers_eq_map]
  rfl

/-! ### Reordering keeps the text -/

/-- **An exchange of members does not change the canonical text**, and keeps what makes a value
exact. -/
theorem Reorders.print_canonical {a b : Json} (h : Reorders a b) (ha : IsExact a) :
    IsExact b ∧ print .canonical a = print .canonical b := by
  -- along the path to the object whose members change places
  induction h with
  | @members members members' hperm =>
    obtain _ | _ | _ | _ | _ | ⟨hnames, hmembers⟩ := ha
    constructor
    · exact .object ((hperm.map Prod.fst).nodup_iff.mp hnames) fun m hm =>
        hmembers m (hperm.mem_iff.mpr hm)
    · rw [print_canonical_object, print_canonical_object, mergeSort_eq_of_perm (hperm.map _)]
      simpa [Table.names, Function.comp_def] using hnames
  | @item before after a b _ ih =>
    obtain _ | _ | _ | _ | hitems | _ := ha
    obtain ⟨hbefore, hrest⟩ := List.forall_mem_append.mp hitems
    obtain ⟨hitem, hafter⟩ := List.forall_mem_cons.mp hrest
    obtain ⟨hb, hprint⟩ := ih hitem
    constructor
    · exact .array (List.forall_mem_append.mpr ⟨hbefore, List.forall_mem_cons.mpr ⟨hb, hafter⟩⟩)
    · rw [print, print, printItems_eq_map, printItems_eq_map, List.map_append, List.map_append,
        List.map_cons, List.map_cons, hprint]
  | @member before after name a b _ ih =>
    obtain _ | _ | _ | _ | _ | ⟨hnames, hmembers⟩ := ha
    obtain ⟨hbefore, hrest⟩ := List.forall_mem_append.mp hmembers
    obtain ⟨hmember, hafter⟩ := List.forall_mem_cons.mp hrest
    obtain ⟨hb, hprint⟩ := ih hmember
    constructor
    · refine .object ?_
        (List.forall_mem_append.mpr ⟨hbefore, List.forall_mem_cons.mpr ⟨hb, hafter⟩⟩)
      rw [Table.names, List.map_append, List.map_cons] at hnames ⊢
      exact hnames
    · rw [print_canonical_object, print_canonical_object, List.map_append, List.map_append,
        List.map_cons, List.map_cons, hprint]

/-- So no number of exchanges does. -/
theorem Reordered.print_canonical {a b : Json} (h : Reordered a b) (ha : IsExact a) :
    IsExact b ∧ print .canonical a = print .canonical b := by
  induction h with
  | refl => exact ⟨ha, rfl⟩
  | tail _ hstep ih =>
    obtain ⟨hb, hprint⟩ := ih
    obtain ⟨hc, hprint'⟩ := hstep.print_canonical hb
    exact ⟨hc, hprint.trans hprint'⟩

/-! ### The text keeps the value -/

mutual

/-- The value with the members of all objects sorted by name. -/
def arranged : Json → Json
  | .null => .null
  | .bool b => .bool b
  | .int n => .int n
  | .float x => .float x
  | .string s => .string s
  | .array items => .array (arrangedItems items)
  | .object members => .object ((arrangedMembers members).mergeSort byName)

def arrangedItems : List Json → List Json
  | [] => []
  | item :: rest => arranged item :: arrangedItems rest

def arrangedMembers : List (Text × Json) → List (Text × Json)
  | [] => []
  | (name, value) :: rest => (name, arranged value) :: arrangedMembers rest

end

theorem arrangedItems_eq_map (items : List Json) : arrangedItems items = items.map arranged := by
  induction items with
  | nil => rfl
  | cons item rest ih => rw [arrangedItems, ih, List.map_cons]

theorem arrangedMembers_eq_map (members : List (Text × Json)) :
    arrangedMembers members = members.map fun m => (m.1, arranged m.2) := by
  induction members with
  | nil => rfl
  | cons m rest ih => rw [arrangedMembers, ih, List.map_cons]

theorem reordered_arranged {v : Json} (hv : IsExact v) : Reordered v (arranged v) := by
  induction hv with
  | null => exact .refl
  | bool b => exact .refl
  | int hn => exact .refl
  | string s => exact .refl
  | array _ ih =>
    rw [arranged, arrangedItems_eq_map]
    exact reordered_array [] ih
  | object _ _ ih =>
    rw [arranged, arrangedMembers_eq_map]
    exact (reordered_object [] ih).tail (.members (List.mergeSort_perm _ byName).symm)

/-- Sorting the members before printing or after makes no difference. -/
theorem print_arranged {v : Json} (hv : IsExact v) :
    print .inOrder (arranged v) = print .canonical v := by
  induction hv with
  | null => rfl
  | bool b =>
    cases b with
    | true => rfl
    | false => rfl
  | int hn => rfl
  | string s => rfl
  | @array items _ ih =>
    have hprinted : (items.map arranged).map (print .inOrder) = items.map (print .canonical) := by
      rw [List.map_map]
      exact List.map_congr_left ih
    rw [arranged, arrangedItems_eq_map, print, print, printItems_eq_map, printItems_eq_map,
      hprinted]
    rfl
  | @object members _ _ ih =>
    have hprinted : (members.map fun m => (m.1, arranged m.2)).map
        (fun m => (m.1, print .inOrder m.2))
          = members.map fun m => (m.1, print .canonical m.2) := by
      rw [List.map_map]
      exact List.map_congr_left fun m hm => Prod.ext rfl (ih m hm)
    -- sorting by name does not look at what the members hold
    have hsorted : ((members.map fun m => (m.1, arranged m.2)).mergeSort byName).map
        (fun m => (m.1, print .inOrder m.2)) = ((members.map fun m => (m.1, arranged m.2)).map
          (fun m => (m.1, print .inOrder m.2))).mergeSort byName :=
      List.map_mergeSort fun _ _ _ _ => rfl
    rw [arranged, arrangedMembers_eq_map, print_inOrder_object, print_canonical_object, hsorted,
      hprinted]

/-- Exact values are read as they were printed, where no code points are escaped that need not
be. -/
theorem reread_eq_self {style : Style} (hstyle : style.asciiOnly = false) {v : Json}
    (hv : IsExact v) : reread style v = v := by
  have htext : ∀ s, rereadText style.asciiOnly s = s := fun s => by
    rw [hstyle, rereadText, if_neg Bool.false_ne_true]
  induction hv with
  | null => rfl
  | bool b => rfl
  | int hn => rfl
  | string s => rw [reread, htext]
  | array _ ih =>
    rw [reread, rereadItems_eq_map, List.map_congr_left ih, List.map_id']
  | @object members hnames _ ih =>
    have hmember : ∀ m ∈ members,
        (rereadText style.asciiOnly m.1, reread style m.2) = id m := fun m hm =>
      Prod.ext (htext m.1) (ih m hm)
    rw [reread, rereadMembers_eq_map, List.map_congr_left hmember, List.map_id,
      Table.ofList_of_nodup hnames]

/-- Every exact value is read from some text. -/
theorem IsExact.exists_read {v : Json} (hv : IsExact v) : ∃ t, read t = .ok v :=
  ⟨print .inOrder v, by rw [read_print Style.isPlain_inOrder hv.isReadable, reread_eq_self rfl hv]⟩

/-- The text in order is the text of one exact value only. -/
theorem eq_of_print_inOrder {a b : Json} (ha : IsExact a) (hb : IsExact b)
    (h : print .inOrder a = print .inOrder b) : a = b := by
  -- the text is read as the one and as the other
  have hread := read_print Style.isPlain_inOrder ha.isReadable
  rw [h, read_print Style.isPlain_inOrder hb.isReadable, reread_eq_self rfl ha,
    reread_eq_self rfl hb] at hread
  exact (Except.ok.inj hread).symm

/-- **The canonical text is one for all orders of members and for no two documents**: two texts
without floating-point numbers are read as values of the same canonical text exactly if the values
are equal up to the order of members, at every depth. -/
theorem canonical_text_exact {s t : Text} {a b : Json} (hs : read s = .ok a) (ht : read t = .ok b)
    (ha : IsFloatFree a) (hb : IsFloatFree b) :
    print .canonical a = print .canonical b ↔ Reordered a b := by
  have hexact := isExact_of_read hs ha
  have hexact' := isExact_of_read ht hb
  have harranged := reordered_arranged hexact
  have harranged' := reordered_arranged hexact'
  constructor
  · intro h
    -- the sorted values are printed alike, and they are exact as well
    have hsame : arranged a = arranged b := by
      apply eq_of_print_inOrder (harranged.print_canonical hexact).1
        (harranged'.print_canonical hexact').1
      rw [print_arranged hexact, print_arranged hexact', h]
    rw [← hsame] at harranged'
    exact harranged.trans harranged'.symm
  · exact fun h => (h.print_canonical hexact).2

/-- A document with its members out of order, at two depths. -/
def shuffledDocument : Json :=
  .object [("b", .int 1), ("a", .array [.object [("y", .string "é"), ("x", .null)]])]

/-- Its text. -/
def shuffledText : Text := "\x7b\"b\":1,\"a\":[\x7b\"y\":\"\\u00e9\",\"x\":null\x7d]\x7d"

/-- The same document in order. -/
def orderedDocument : Json :=
  .object [("a", .array [.object [("x", .null), ("y", .string "é")]]), ("b", .int 1)]

def orderedText : Text := "\x7b\"a\":[\x7b\"x\":null,\"y\":\"\\u00e9\"\x7d],\"b\":1\x7d"

/-- The two texts of a document have one canonical text; a truth value and a number have two. -/
theorem shuffled_text_same :
    (read shuffledText = .ok shuffledDocument
        ∧ read orderedText = .ok orderedDocument
        ∧ print .canonical shuffledDocument = print .canonical orderedDocument)
      ∧ read "[true]" = .ok (.array [.bool true]) ∧ read "[1]" = .ok (.array [.int 1])
        ∧ ¬ Reordered (.array [.bool true]) (.array [.int 1]) := by
  have hinner : Reorders (.array [.object [("y", .string "é"), ("x", .null)]])
      (.array [.object [("x", .null), ("y", .string "é")]]) :=
    .item [] [] (.members (.swap _ _ _))
  -- two exchanges, the inner one first
  have hreordered : Reordered shuffledDocument orderedDocument :=
    (Relation.ReflTransGen.single (.member [("b", .int 1)] [] "a" hinner)).tail
      (.members (.swap _ _ _))
  have hexact : IsExact shuffledDocument := by
    have hitem : IsExact (.object [("y", .string "é"), ("x", .null)]) :=
      .object (by decide) (List.forall_mem_cons.mpr
        ⟨.string _, List.forall_mem_singleton.mpr .null⟩)
    have hone : IsShort 1 := show (Text.ofNat 1).length ≤ Integer.maxDigits by decide
    exact .object (by decide) (List.forall_mem_cons.mpr ⟨.int hone,
      List.forall_mem_singleton.mpr (.array (List.forall_mem_singleton.mpr hitem))⟩)
  have hexact' : IsExact orderedDocument := (hreordered.print_canonical hexact).1
  have hread : read shuffledText = .ok shuffledDocument := by
    have htext : print .compact shuffledDocument = shuffledText := by decide +kernel
    rw [← htext, read_print Style.isPlain_compact hexact.isReadable]
    rfl
  have hread' : read orderedText = .ok orderedDocument := by
    have htext : print .compact orderedDocument = orderedText := by decide +kernel
    rw [← htext, read_print Style.isPlain_compact hexact'.isReadable]
    rfl
  have htrue : read "[true]" = .ok (.array [.bool true]) := rfl
  have hone : read "[1]" = .ok (.array [.int 1]) := rfl
  refine ⟨⟨hread, hread', (canonical_text_exact hread hread' hexact.isFloatFree
    hexact'.isFloatFree).mpr hreordered⟩, htrue, hone, ?_⟩
  intro h
  have hsame := (canonical_text_exact htrue hone
    (.array (List.forall_mem_singleton.mpr (.bool true)))
    (.array (List.forall_mem_singleton.mpr (.int 1)))).mpr h
  exact absurd hsame (by decide +kernel)

end Json

end CompileGate
