/-
CompileGate/Proofs/PrintedJson.lean

Printed values are read again.

What a printed value is read as is `reread`: the value itself, except that a
floating-point number is read as its digits say, that surrogates in strings are joined
where code points are escaped, and that of two members of one name the later one counts.
A whole number must not be too long to be read (`IsReadable`).

The reader takes all of a printed value and nothing else, if there is room for the containers
in it that are inside each other (`readsAgain`); the proof goes along the value, and twice the
length of the printed text is enough fuel for the reader.  In a text in which only ASCII is
used a printed value shows no other code points, and no control characters in any
(`isShown_print`).

What is read has every property that scalars and strings have and that arrays and tables
take over from their parts (`forall_of_read`).  So it is readable (`isReadable_of_read`),
and can be printed and read again.

Main results: `readWithin_print`, `get?_reread` and `isReadable_of_read`.
-/
import CompileGate.Proofs.PrintedFloat
import CompileGate.Proofs.PrintedString

namespace CompileGate

namespace Json

/-! ### What can be read again -/

/-- No whole number in a value is too long to be read. -/
inductive IsReadable : Json → Prop
  | null : IsReadable .null
  | bool (b : Bool) : IsReadable (.bool b)
  | int {n : Int} : IsShort n → IsReadable (.int n)
  | float (x : Binary64) : IsReadable (.float x)
  | string (s : Text) : IsReadable (.string s)
  | array {items : List Json} : (∀ item ∈ items, IsReadable item) → IsReadable (.array items)
  | object {members : List (Text × Json)} : (∀ m ∈ members, IsReadable m.2) →
      IsReadable (.object members)

mutual

/-- What a value is read as when it is printed. -/
def reread (style : Style) : Json → Json
  | .null => .null
  | .bool b => .bool b
  | .int n => .int n
  | .float x => .float (rereadFloat x)
  | .string s => .string (rereadText style.asciiOnly s)
  | .array items => .array (rereadItems style items)
  | .object members => .object (Table.ofList (rereadMembers style members))

/-- What the items of an array are read as. -/
def rereadItems (style : Style) : List Json → List Json
  | [] => []
  | item :: rest => reread style item :: rereadItems style rest

/-- What the members of an object are read as. -/
def rereadMembers (style : Style) : List (Text × Json) → List (Text × Json)
  | [] => []
  | (name, value) :: rest =>
    (rereadText style.asciiOnly name, reread style value) :: rereadMembers style rest

end

theorem rereadItems_eq_map (style : Style) (items : List Json) :
    rereadItems style items = items.map (reread style) := by
  induction items with
  | nil => rfl
  | cons item rest ih => rw [rereadItems, ih, List.map_cons]

theorem rereadMembers_eq_map (style : Style) (members : List (Text × Json)) :
    rereadMembers style members
      = members.map fun m => (rereadText style.asciiOnly m.1, reread style m.2) := by
  induction members with
  | nil => rfl
  | cons m rest ih => rw [rereadMembers, ih, List.map_cons]

/-- A style that writes members in their order, and nothing but spaces after its marks. -/
structure Style.IsPlain (style : Style) : Prop where
  item : ∃ spaces, style.itemSeparator = (',' : CodePoint) :: spaces ∧ ∀ c ∈ spaces, c = ' '
  name : ∃ spaces, style.nameSeparator = (':' : CodePoint) :: spaces ∧ ∀ c ∈ spaces, c = ' '
  unsorted : style.sorted = false

theorem Style.isPlain_compact : Style.compact.IsPlain :=
  ⟨⟨[], rfl, by simp⟩, ⟨[], rfl, by simp⟩, rfl⟩

theorem Style.isPlain_logLine : Style.logLine.IsPlain :=
  ⟨⟨[' '], rfl, by simp⟩, ⟨[' '], rfl, by simp⟩, rfl⟩

/-! ### Room for what is inside -/

mutual

/-- How many containers of a value are inside each other. -/
def depth : Json → Nat
  | .array items => depthOfItems items + 1
  | .object members => depthOfMembers members + 1
  | _ => 0

/-- How many containers of an item are inside each other, at the most. -/
def depthOfItems : List Json → Nat
  | [] => 0
  | item :: rest => max (depth item) (depthOfItems rest)

/-- How many containers of a member are inside each other, at the most. -/
def depthOfMembers : List (Text × Json) → Nat
  | [] => 0
  | (_, value) :: rest => max (depth value) (depthOfMembers rest)

end

/-- An array is as deep as its deepest item, and one more. -/
theorem depth_le_depthOfItems {items : List Json} {v : Json} (h : v ∈ items) :
    v.depth ≤ depthOfItems items := by
  induction items with
  | nil => cases h
  | cons item rest ih =>
    rw [depthOfItems]
    rcases List.mem_cons.mp h with rfl | h
    · exact Nat.le_max_left _ _
    · exact (ih h).trans (Nat.le_max_right _ _)

theorem depth_le_depthOfMembers {members : List (Text × Json)} {m : Text × Json}
    (h : m ∈ members) : m.2.depth ≤ depthOfMembers members := by
  induction members with
  | nil => cases h
  | cons first rest ih =>
    rw [depthOfMembers]
    rcases List.mem_cons.mp h with rfl | h
    · exact Nat.le_max_left _ _
    · exact (ih h).trans (Nat.le_max_right _ _)

/-- There is room for the containers of a value that are inside each other. -/
def HasRoom (room : Option Nat) (v : Json) : Prop := ∀ count, room = some count → v.depth ≤ count

theorem hasRoom_none (v : Json) : HasRoom none v := nofun

/-- Where there is room for a container there is room inside for what is in it. -/
theorem exists_enter_eq_ok {room : Option Nat} {inside : Nat} (container : Container)
    (h : ∀ count, room = some count → inside + 1 ≤ count) :
    ∃ inner, enter container room = .ok inner ∧ ∀ count, inner = some count → inside ≤ count := by
  rcases room with - | - | count
  · exact ⟨none, rfl, nofun⟩
  · exact absurd (h 0 rfl) (Nat.not_succ_le_zero inside)
  · refine ⟨some count, rfl, ?_⟩
    rintro _ ⟨⟩
    exact Nat.le_of_succ_le_succ (h _ rfl)

/-- A step into an array for which there is room. -/
theorem exists_enter_array {room : Option Nat} {items : List Json}
    (h : HasRoom room (.array items)) :
    ∃ inner, enter .array room = .ok inner ∧ ∀ v ∈ items, HasRoom inner v := by
  obtain ⟨inner, henter, hinner⟩ := exists_enter_eq_ok .array h
  exact ⟨inner, henter, fun v hv count hcount =>
    (depth_le_depthOfItems hv).trans (hinner count hcount)⟩

/-- A step into an object for which there is room. -/
theorem exists_enter_object {room : Option Nat} {members : List (Text × Json)}
    (h : HasRoom room (.object members)) :
    ∃ inner, enter .object room = .ok inner ∧ ∀ m ∈ members, HasRoom inner m.2 := by
  obtain ⟨inner, henter, hinner⟩ := exists_enter_eq_ok .object h
  exact ⟨inner, henter, fun m hm count hcount =>
    (depth_le_depthOfMembers hm).trans (hinner count hcount)⟩

/-! ### Spaces -/

theorem skipSpace_cons {c : CodePoint} (hc : isSpace c = false) (t : Text) :
    skipSpace (c :: t) = c :: t :=
  List.dropWhile_cons_of_neg (by simp [hc])

/-- The spaces of a plain style are all skipped. -/
theorem skipSpace_append {spaces : Text} (hspaces : ∀ c ∈ spaces, c = ' ') {c : CodePoint}
    (hc : isSpace c = false) (t : Text) : skipSpace (spaces ++ c :: t) = c :: t := by
  have hdrop : skipSpace (spaces ++ c :: t) = skipSpace (c :: t) :=
    List.dropWhile_append_of_pos fun d hd => by
      rw [hspaces d hd]
      rfl
  rw [hdrop, skipSpace_cons hc]

/-! ### The front of a printed value -/

variable {style : Style} {room : Option Nat} {fuel : Nat} {rest : Text}

/-- A code point that a number or a word can start with. -/
def StartsScalar (c : CodePoint) : Prop :=
  (isSpace c = false ∧ c ≠ ']' ∧ c.toNat < 0x80) ∧ c ≠ '"' ∧ c ≠ '[' ∧ c ≠ '{'

instance (c : CodePoint) : Decidable (StartsScalar c) := inferInstanceAs (Decidable (_ ∧ _))

/-- Digits start numbers and nothing else. -/
theorem startsScalar_of_isAsciiDigit {c : CodePoint} (h : c.isAsciiDigit = true) :
    StartsScalar c := by
  have hne : ∀ {d : CodePoint}, d.isAsciiDigit = false → c ≠ d := fun hd =>
    CodePoint.ne_of_isAsciiDigit h hd
  have hrange := CodePoint.isAsciiDigit_iff.mp h
  refine ⟨⟨?_, hne rfl, by omega⟩, hne rfl, hne rfl, hne rfl⟩
  have h1 : c ≠ ' ' := hne rfl
  have h2 : c ≠ '\t' := hne rfl
  have h3 : c ≠ '\n' := hne rfl
  have h4 : c ≠ '\r' := hne rfl
  simp [isSpace, h1, h2, h3, h4]

/-- What starts neither a string nor a container is read as a number or a word. -/
theorem readValue_scalar {c : CodePoint} (hc : StartsScalar c) (t : Text) :
    readValue room (fuel + 1) (c :: t) = readScalar (c :: t) := by
  obtain ⟨-, hquote, harray, hobject⟩ := hc
  rw [readValue, if_neg hquote, if_neg harray, if_neg hobject]

/-- A text that a number or a word starts with. -/
def StartsAsScalar (t : Text) : Prop := ∃ c more, t = c :: more ∧ StartsScalar c

/-- A numeral starts with its sign or with a digit. -/
theorem startsAsScalar_numeral {n : Numeral} (h : n.IsWritten) : StartsAsScalar n.text := by
  obtain ⟨c, more, hcons, hdigit⟩ := h.exists_cons
  unfold Numeral.text
  cases n.negative with
  | true => exact ⟨_, _, rfl, by decide⟩
  | false =>
    rw [hcons]
    exact ⟨_, _, rfl, startsScalar_of_isAsciiDigit hdigit⟩

theorem startsAsScalar_ofInt (n : Int) : StartsAsScalar (Text.ofInt n) := by
  rw [← text_ofInt]
  exact startsAsScalar_numeral (isWritten_ofInt n)

/-- A float is one of three words, or a numeral. -/
theorem startsAsScalar_printFloat (x : Binary64) : StartsAsScalar (printFloat x) := by
  rcases printFloat_cases x with hword | ⟨n, hn, htext⟩
  · simp only [List.mem_cons, List.not_mem_nil, or_false] at hword
    rcases hword with hword | hword | hword
    · exact ⟨_, _, hword, by decide⟩
    · exact ⟨_, _, hword, by decide⟩
    · exact ⟨_, _, hword, by decide⟩
  · rw [← htext]
    exact startsAsScalar_numeral hn.written

/-- A printed value starts with no space, with no end of an array, and in ASCII. -/
theorem exists_print_eq_cons (style : Style) (v : Json) :
    ∃ c more, print style v = c :: more ∧ isSpace c = false ∧ c ≠ ']' ∧ c.toNat < 0x80 := by
  -- words and numbers start with no mark at all
  have hscalar : ∀ {t : Text}, StartsAsScalar t →
      ∃ c more, t = c :: more ∧ isSpace c = false ∧ c ≠ ']' ∧ c.toNat < 0x80 := by
    rintro t ⟨c, more, rfl, hfront, -⟩
    exact ⟨c, more, rfl, hfront⟩
  cases v with
  | null => exact ⟨_, _, rfl, by decide⟩
  | bool b =>
    cases b with
    | true => exact ⟨_, _, rfl, by decide⟩
    | false => exact ⟨_, _, rfl, by decide⟩
  | int n => exact hscalar (startsAsScalar_ofInt n)
  | float x => exact hscalar (startsAsScalar_printFloat x)
  | string s => exact ⟨_, _, rfl, by decide⟩
  | array items => exact ⟨_, _, rfl, by decide⟩
  | object members => exact ⟨_, _, rfl, by decide⟩

/-! ### Reading a printed value -/

/-- The items of an array with their separators. -/
def itemsText (style : Style) (items : List Json) : Text :=
  Text.join style.itemSeparator (printItems style items)

/-- The name and the value of a member. -/
def memberText (style : Style) (m : Text × Json) : Text :=
  printString style.asciiOnly m.1 ++ style.nameSeparator ++ print style m.2

/-- The members of an object with their separators. -/
def membersText (style : Style) (members : List (Text × Json)) : Text :=
  Text.join style.itemSeparator (members.map (memberText style))

/-- In a plain style the members are printed in their order. -/
theorem print_object (h : style.IsPlain) (members : List (Text × Json)) :
    print style (.object members)
      = ('{' : CodePoint) :: membersText style members ++ [('}' : CodePoint)] := by
  rw [print, arrange, h.unsorted, if_neg Bool.false_ne_true, printMembers_eq_map, List.map_map]
  rfl

theorem join_singleton (separator piece : Text) : Text.join separator [piece] = piece := by
  simp [Text.join, List.intercalate]

theorem join_cons (separator piece next : Text) (pieces : List Text) :
    Text.join separator (piece :: next :: pieces)
      = piece ++ (separator ++ Text.join separator (next :: pieces)) := by
  simp [Text.join, List.intercalate]

theorem itemsText_singleton (item : Json) : itemsText style [item] = print style item :=
  join_singleton _ _

theorem itemsText_cons (item next : Json) (items : List Json) :
    itemsText style (item :: next :: items)
      = print style item ++ (style.itemSeparator ++ itemsText style (next :: items)) :=
  join_cons _ _ _ _

theorem membersText_singleton (m : Text × Json) : membersText style [m] = memberText style m :=
  join_singleton _ _

theorem membersText_cons (m next : Text × Json) (members : List (Text × Json)) :
    membersText style (m :: next :: members)
      = memberText style m ++ (style.itemSeparator ++ membersText style (next :: members)) :=
  join_cons _ _ _ _

/-- The name of a member is read with the colon and the spaces after it. -/
theorem readName_print (h : style.IsPlain) (name : Text) (v : Json) (rest : Text) :
    readName (printString style.asciiOnly name ++ style.nameSeparator ++ (print style v ++ rest))
      = .ok (rereadText style.asciiOnly name, print style v ++ rest) := by
  obtain ⟨spaces, hname, hspaces⟩ := h.name
  obtain ⟨c, more, hprint, hspace, -⟩ := exists_print_eq_cons style v
  have hstring : printString style.asciiOnly name ++ style.nameSeparator ++ (print style v ++ rest)
      = ('"' : CodePoint) :: (name.flatMap (escapePoint style.asciiOnly)
        ++ ('"' : CodePoint) :: (':' : CodePoint) :: (spaces ++ c :: (more ++ rest))) := by
    rw [hname, hprint]
    simp [printString]
  rw [hstring, readName, if_pos rfl, readString_print]
  dsimp only [bind, Except.bind]
  rw [skipSpace_cons (by decide)]
  dsimp only
  rw [if_pos rfl, skipSpace_append hspaces hspace, hprint]
  rfl

/-- The reader takes a printed value where there is room for it and no number goes on, and nothing
else. -/
def ReadsAgain (style : Style) (v : Json) : Prop :=
  ∀ room fuel rest, HasRoom room v → EndsNumber rest → 2 * (print style v).length ≤ fuel →
    readValue room fuel (print style v ++ rest) = .ok (reread style v, rest)

/-- No number goes on with a mark that is none of its own. -/
theorem endsNumber_cons {c : CodePoint}
    (hc : c.isAsciiDigit = false ∧ c ≠ '.' ∧ c ≠ 'e' ∧ c ≠ 'E') (t : Text) :
    EndsNumber (c :: t) := by
  intro d hd
  obtain rfl := Option.some.inj hd
  exact hc

/-- No value is printed as an empty text. -/
theorem length_print_pos (style : Style) (v : Json) : 0 < (print style v).length := by
  obtain ⟨c, more, hprint, -⟩ := exists_print_eq_cons style v
  rw [hprint]
  exact Nat.succ_pos more.length

/-- Items start as the first of them, so the reader does not take them for the end of an array. -/
theorem exists_itemsText_eq_cons (style : Style) (item : Json) (items : List Json) :
    ∃ c more, itemsText style (item :: items) = c :: more ∧ isSpace c = false ∧ c ≠ ']' := by
  obtain ⟨c, more, hprint, hspace, hend, -⟩ := exists_print_eq_cons style item
  cases items with
  | nil => exact ⟨c, more, (itemsText_singleton item).trans hprint, hspace, hend⟩
  | cons next items => exact ⟨c, _, by rw [itemsText_cons, hprint]; rfl, hspace, hend⟩

/-- Members start with the quote of the first name. -/
theorem exists_membersText_eq_cons (style : Style) (m : Text × Json)
    (members : List (Text × Json)) :
    ∃ more, membersText style (m :: members) = ('"' : CodePoint) :: more := by
  cases members with
  | nil => exact ⟨_, membersText_singleton m⟩
  | cons next members => exact ⟨_, membersText_cons m next members⟩

/-- A separator is a comma, and spaces that the reader skips. -/
theorem Style.IsPlain.exists_gap (h : style.IsPlain) {c : CodePoint} (hc : isSpace c = false)
    (t : Text) : ∃ gap, style.itemSeparator ++ c :: t = (',' : CodePoint) :: gap
      ∧ skipSpace gap = c :: t := by
  obtain ⟨spaces, hseparator, hspaces⟩ := h.item
  refine ⟨spaces ++ c :: t, ?_, skipSpace_append hspaces hc t⟩
  rw [hseparator]
  rfl

/-- Each separator leaves fuel for the item behind it. -/
theorem Style.IsPlain.length_pos (h : style.IsPlain) : 0 < style.itemSeparator.length := by
  obtain ⟨spaces, hseparator, -⟩ := h.item
  rw [hseparator]
  exact Nat.succ_pos spaces.length

/-- Items that are read again one by one are read again in a row. -/
theorem readItems_print (h : style.IsPlain) {item : Json} {items : List Json}
    (hitems : ∀ v ∈ item :: items, ReadsAgain style v)
    (hroom : ∀ v ∈ item :: items, HasRoom room v)
    (hfuel : 2 * (itemsText style (item :: items)).length + 1 ≤ fuel) :
    readItems room fuel (itemsText style (item :: items) ++ (']' : CodePoint) :: rest)
      = .ok (rereadItems style (item :: items), rest) := by
  obtain ⟨fuel, rfl⟩ : ∃ k, fuel = k + 1 := ⟨fuel - 1, by omega⟩
  -- along the items
  induction items generalizing item fuel with
  | nil =>
    have hitem := hitems item List.mem_cons_self
    have hfits := hroom item List.mem_cons_self
    rw [itemsText_singleton] at hfuel ⊢
    rw [readItems, hitem room fuel _ hfits (endsNumber_cons (by decide) rest) (by omega)]
    dsimp only [bind, Except.bind]
    rw [skipSpace_cons (by decide)]
    rfl
  | cons next items ih =>
    have hitem := hitems item List.mem_cons_self
    have hfits := hroom item List.mem_cons_self
    obtain ⟨c, more, hnext, hspace, -⟩ := exists_itemsText_eq_cons style next items
    obtain ⟨gap, hgap, hskip⟩ := h.exists_gap hspace (more ++ (']' : CodePoint) :: rest)
    have htext : itemsText style (item :: next :: items) ++ (']' : CodePoint) :: rest
        = print style item ++ (',' : CodePoint) :: gap := by
      rw [itemsText_cons, hnext, ← hgap]
      simp
    have hseparator := h.length_pos
    have hlength : (itemsText style (item :: next :: items)).length = (print style item).length
        + (style.itemSeparator.length + (itemsText style (next :: items)).length) := by
      rw [itemsText_cons, List.length_append, List.length_append]
    obtain ⟨fuel, rfl⟩ : ∃ k, fuel = k + 1 := ⟨fuel - 1, by omega⟩
    have hrest := ih (fun v hv => hitems v (List.mem_cons_of_mem item hv))
      (fun v hv => hroom v (List.mem_cons_of_mem item hv)) fuel (by omega)
    rw [hnext, List.cons_append] at hrest
    -- the item, the comma, the spaces after it, and then what the induction says
    rw [htext, readItems, hitem room (fuel + 1) _ hfits (endsNumber_cons (by decide) _) (by omega)]
    dsimp only [bind, Except.bind]
    rw [skipSpace_cons (by decide)]
    dsimp only
    rw [if_neg (by decide), if_pos rfl, hskip, hrest]
    rfl

/-- The value of a member is no longer than the member. -/
theorem length_print_le_memberText (style : Style) (m : Text × Json) :
    (print style m.2).length ≤ (memberText style m).length := by
  rw [memberText, List.length_append]
  exact Nat.le_add_left _ _

/-- The same for members, each with its name before it. -/
theorem readMembers_print (h : style.IsPlain) {m : Text × Json} {members : List (Text × Json)}
    (hmembers : ∀ n ∈ m :: members, ReadsAgain style n.2)
    (hroom : ∀ n ∈ m :: members, HasRoom room n.2)
    (hfuel : 2 * (membersText style (m :: members)).length + 1 ≤ fuel) :
    readMembers room fuel (membersText style (m :: members) ++ ('}' : CodePoint) :: rest)
      = .ok (rereadMembers style (m :: members), rest) := by
  obtain ⟨fuel, rfl⟩ : ∃ k, fuel = k + 1 := ⟨fuel - 1, by omega⟩
  -- along the members
  induction members generalizing m fuel with
  | nil =>
    have hvalue := hmembers m List.mem_cons_self
    have hfits := hroom m List.mem_cons_self
    have hle := length_print_le_memberText style m
    rw [membersText_singleton] at hfuel ⊢
    rw [memberText, List.append_assoc, readMembers, readName_print h]
    dsimp only [bind, Except.bind]
    rw [hvalue room fuel _ hfits (endsNumber_cons (by decide) rest) (by omega)]
    dsimp only
    rw [skipSpace_cons (by decide)]
    rfl
  | cons next members ih =>
    have hvalue := hmembers m List.mem_cons_self
    have hfits := hroom m List.mem_cons_self
    have hle := length_print_le_memberText style m
    obtain ⟨more, hnext⟩ := exists_membersText_eq_cons style next members
    obtain ⟨gap, hgap, hskip⟩ := h.exists_gap (c := '"') (by decide)
      (more ++ ('}' : CodePoint) :: rest)
    have htext : membersText style (m :: next :: members) ++ ('}' : CodePoint) :: rest
        = printString style.asciiOnly m.1 ++ style.nameSeparator
          ++ (print style m.2 ++ (',' : CodePoint) :: gap) := by
      rw [membersText_cons, hnext, ← hgap, memberText]
      simp
    have hseparator := h.length_pos
    have hlength : (membersText style (m :: next :: members)).length = (memberText style m).length
        + (style.itemSeparator.length + (membersText style (next :: members)).length) := by
      rw [membersText_cons, List.length_append, List.length_append]
    obtain ⟨fuel, rfl⟩ : ∃ k, fuel = k + 1 := ⟨fuel - 1, by omega⟩
    have hrest := ih (fun n hn => hmembers n (List.mem_cons_of_mem m hn))
      (fun n hn => hroom n (List.mem_cons_of_mem m hn)) fuel (by omega)
    rw [hnext, List.cons_append] at hrest
    rw [htext, readMembers, readName_print h]
    dsimp only [bind, Except.bind]
    rw [hvalue room (fuel + 1) _ hfits (endsNumber_cons (by decide) _) (by omega)]
    dsimp only
    rw [skipSpace_cons (by decide)]
    dsimp only
    rw [if_neg (by decide), if_pos rfl, hskip, hrest]
    rfl

/-- A number or a word needs no room and no more than one step. -/
theorem readsAgain_scalar {v : Json} (hstart : StartsAsScalar (print style v))
    (hread : ∀ rest, EndsNumber rest →
      readScalar (print style v ++ rest) = .ok (reread style v, rest)) : ReadsAgain style v := by
  intro room fuel rest _ hrest hfuel
  have hpos := length_print_pos style v
  obtain ⟨fuel, rfl⟩ : ∃ k, fuel = k + 1 := ⟨fuel - 1, by omega⟩
  obtain ⟨c, more, hcons, hc⟩ := hstart
  rw [← hread rest hrest, hcons]
  exact readValue_scalar hc _

/-- Strings are read in one step as well. -/
theorem readsAgain_string (s : Text) : ReadsAgain style (.string s) := by
  intro room fuel rest _ _ hfuel
  have hpos := length_print_pos style (.string s)
  obtain ⟨fuel, rfl⟩ : ∃ k, fuel = k + 1 := ⟨fuel - 1, by omega⟩
  have htext : print style (.string s) ++ rest = ('"' : CodePoint)
      :: (s.flatMap (escapePoint style.asciiOnly) ++ ('"' : CodePoint) :: rest) := by
    simp [print, printString]
  rw [htext, readValue, if_pos rfl, readString_print]
  rfl

/-- An array is read in the room that is left inside it. -/
theorem readsAgain_array (h : style.IsPlain) {items : List Json}
    (hitems : ∀ v ∈ items, ReadsAgain style v) : ReadsAgain style (.array items) := by
  intro room fuel rest hroom _ hfuel
  have hpos := length_print_pos style (.array items)
  obtain ⟨fuel, rfl⟩ : ∃ k, fuel = k + 1 := ⟨fuel - 1, by omega⟩
  obtain ⟨inner, henter, hinner⟩ := exists_enter_array hroom
  -- the reader tells an empty array by what follows its bracket
  cases items with
  | nil =>
    have htext : print style (.array []) ++ rest = ('[' : CodePoint) :: (']' : CodePoint) :: rest :=
      rfl
    rw [htext, readValue, if_neg (by decide), if_pos rfl, henter]
    rfl
  | cons item items =>
    obtain ⟨c, more, hfront, hspace, hend⟩ := exists_itemsText_eq_cons style item items
    have htext : print style (.array (item :: items)) ++ rest = ('[' : CodePoint)
        :: c :: (more ++ (']' : CodePoint) :: rest) := by
      rw [← List.cons_append, ← hfront]
      simp [print, itemsText]
    have hlength : (print style (.array (item :: items))).length
        = (itemsText style (item :: items)).length + 2 := by
      simp [print, itemsText]
    have hread : readItems inner fuel (itemsText style (item :: items) ++ (']' : CodePoint) :: rest)
        = .ok (rereadItems style (item :: items), rest) :=
      readItems_print h hitems hinner (by omega)
    rw [hfront, List.cons_append] at hread
    rw [htext, readValue, if_neg (by decide), if_pos rfl, henter, skipSpace_cons hspace]
    dsimp only [bind, Except.bind]
    rw [if_neg hend, hread]
    rfl

/-- An object is read like an array, member by member. -/
theorem readsAgain_object (h : style.IsPlain) {members : List (Text × Json)}
    (hmembers : ∀ m ∈ members, ReadsAgain style m.2) : ReadsAgain style (.object members) := by
  intro room fuel rest hroom _ hfuel
  have hpos := length_print_pos style (.object members)
  obtain ⟨fuel, rfl⟩ : ∃ k, fuel = k + 1 := ⟨fuel - 1, by omega⟩
  obtain ⟨inner, henter, hinner⟩ := exists_enter_object hroom
  rw [print_object h] at hfuel ⊢
  -- again the empty one is told apart at once
  cases members with
  | nil =>
    have htext : ('{' : CodePoint) :: membersText style [] ++ [('}' : CodePoint)] ++ rest
        = ('{' : CodePoint) :: ('}' : CodePoint) :: rest := rfl
    rw [htext, readValue, if_neg (by decide), if_neg (by decide), if_pos rfl, henter]
    rfl
  | cons m members =>
    obtain ⟨more, hfront⟩ := exists_membersText_eq_cons style m members
    have hfuel' : 2 * (membersText style (m :: members)).length + 1 ≤ fuel := by
      simp only [List.length_append, List.length_cons] at hfuel
      omega
    have hread : readMembers inner fuel
          (membersText style (m :: members) ++ ('}' : CodePoint) :: rest)
        = .ok (rereadMembers style (m :: members), rest) :=
      readMembers_print h hmembers hinner hfuel'
    rw [hfront, List.cons_append] at hread
    rw [hfront, List.cons_append, List.cons_append, List.append_assoc, List.cons_append, readValue,
      if_neg (by decide), if_neg (by decide), if_pos rfl, henter, skipSpace_cons (by decide)]
    dsimp only [bind, Except.bind]
    rw [if_neg (by decide), List.singleton_append, hread]
    rfl

/-- **A printed value is read as a whole, and nothing else with it.** -/
theorem readsAgain (h : style.IsPlain) {v : Json} (hv : IsReadable v) : ReadsAgain style v := by
  induction hv with
  | null => exact readsAgain_scalar ⟨_, _, rfl, by decide⟩ fun _ _ => rfl
  | bool b =>
    cases b with
    | true => exact readsAgain_scalar ⟨_, _, rfl, by decide⟩ fun _ _ => rfl
    | false => exact readsAgain_scalar ⟨_, _, rfl, by decide⟩ fun _ _ => rfl
  | int hn => exact readsAgain_scalar (startsAsScalar_ofInt _) fun _ => readScalar_int hn
  | float x =>
    exact readsAgain_scalar (startsAsScalar_printFloat x) fun _ => readScalar_printFloat x
  | string s => exact readsAgain_string s
  | array _ ih => exact readsAgain_array h ih
  | object _ ih => exact readsAgain_object h ih

/-- **What a printed value is read as**, where there is room for it. -/
theorem readWithin_print (h : style.IsPlain) {v : Json} (hv : IsReadable v)
    (hroom : HasRoom room v) : readWithin room (print style v) = .ok (reread style v) := by
  have hread := readsAgain h hv room (2 * (print style v).length + 2) [] hroom
    (by simp [EndsNumber]) (by omega)
  rw [List.append_nil] at hread
  obtain ⟨c, more, hfront, hspace, -, hascii⟩ := exists_print_eq_cons style v
  -- no space before the value, no mark of byte order, and nothing after it
  have hskip : skipSpace (print style v) = print style v := by
    rw [hfront, skipSpace_cons hspace]
  have hmark : (print style v).head? ≠ some (CodePoint.ofNat 0xFEFF) := by
    rw [hfront]
    rintro heq
    obtain rfl := Option.some.inj heq
    exact absurd hascii (by decide)
  have hall : readAll room (print style v) = .ok (reread style v) := by
    rw [readAll, if_neg hmark, hskip, hread]
    rfl
  rw [readWithin, hall]

/-- Without a limit every readable value is read again. -/
theorem read_print (h : style.IsPlain) {v : Json} (hv : IsReadable v) :
    read (print style v) = .ok (reread style v) := readWithin_print h hv (hasRoom_none v)

/-- The members of an object are read as they are, if the names are different and hold no
surrogates. -/
theorem get?_reread (style : Style) {members : Table Json} (hnames : (Table.names members).Nodup)
    (hplain : ∀ name ∈ Table.names members, ∀ c ∈ name, c.isSurrogate = false) :
    ∃ object, reread style (.object members) = .object object
      ∧ ∀ name, Table.get? name object = (Table.get? name members).map (reread style) := by
  have hmap : rereadMembers style members = members.map fun m => (m.1, reread style m.2) := by
    rw [rereadMembers_eq_map]
    exact List.map_congr_left fun m hm =>
      Prod.ext (rereadText_of_not_surrogate (hplain m.1 (List.mem_map_of_mem hm))) rfl
  have hget : ∀ name, Table.get? name (rereadMembers style members)
      = (Table.get? name members).map (reread style) := by
    intro name
    rw [hmap]
    clear hmap hnames hplain
    induction members with
    | nil => rfl
    | cons m members ih =>
      rw [List.map_cons, Table.get?, Table.get?, ih]
      split
      · rfl
      · rfl
  refine ⟨rereadMembers style members, ?_, hget⟩
  rw [reread, Table.ofList_of_nodup]
  rw [hmap]
  simpa [Table.names, Function.comp_def] using hnames

/-! ### What a printed value shows -/

/-- Digits are shown in every style. -/
theorem isShown_of_isAsciiDigit {asciiOnly : Bool} {c : CodePoint} (h : c.isAsciiDigit = true) :
    IsShown asciiOnly c := by
  have hrange := CodePoint.isAsciiDigit_iff.mp h
  exact ⟨by omega, fun _ => by omega⟩

/-- A numeral is made of digits and four marks. -/
theorem isShown_numeral {asciiOnly : Bool} {n : Numeral} (h : n.IsWritten) :
    ∀ c ∈ n.text, IsShown asciiOnly c := by
  have hmark : ∀ mark ∈ ([('-' : CodePoint), '.', 'e', '+'] : Text), IsShown asciiOnly mark := by
    intro mark hmark
    simp only [List.mem_cons, List.not_mem_nil, or_false] at hmark
    rcases hmark with rfl | rfl | rfl | rfl
    all_goals exact ⟨by decide, fun _ => by decide⟩
  have hdigits : ∀ {t : Text}, IsDigits t → ∀ c ∈ t, IsShown asciiOnly c := fun ht c hc =>
    isShown_of_isAsciiDigit (ht c hc)
  have hfraction : ∀ c ∈ Numeral.fractionText n.fraction, IsShown asciiOnly c := by
    intro c hc
    unfold Numeral.fractionText at hc
    split at hc
    · cases hc
    · rcases List.mem_cons.mp hc with rfl | hc
      · exact hmark _ (by simp)
      · exact hdigits h.fraction c hc
  have hexponent : ∀ c ∈ Numeral.exponentText n.exponent, IsShown asciiOnly c := by
    intro c hc
    cases he : n.exponent with
    | none =>
      rw [he] at hc
      cases hc
    | some e =>
      obtain ⟨negative, digits⟩ := e
      rw [he] at hc
      rcases List.mem_cons.mp hc with rfl | hc
      · exact hmark _ (by simp)
      rcases List.mem_cons.mp hc with rfl | hc
      · cases negative with
        | true => exact hmark _ (by simp)
        | false => exact hmark _ (by simp)
      · exact hdigits (h.exponent _ he).2 c hc
  intro c hc
  simp only [Numeral.text, List.mem_append] at hc
  -- sign, whole part, fraction, exponent
  rcases hc with hc | hc | hc | hc
  · split at hc
    · obtain rfl := List.mem_singleton.mp hc
      exact hmark _ (by simp)
    · cases hc
  · exact hdigits h.whole c hc
  · exact hfraction c hc
  · exact hexponent c hc

/-- The words for floats without digits are plain ASCII. -/
theorem isShown_printFloat {asciiOnly : Bool} (x : Binary64) :
    ∀ c ∈ printFloat x, IsShown asciiOnly c := by
  have hwords : ∀ word ∈ (["NaN", "Infinity", "-Infinity"] : List Text), ∀ c ∈ word,
      IsShown true c := by decide
  rcases printFloat_cases x with hword | ⟨n, hn, htext⟩
  · exact fun c hc => ⟨(hwords _ hword c hc).1, fun _ => (hwords _ hword c hc).2 rfl⟩
  · rw [← htext]
    exact isShown_numeral hn.written

/-- What a joined text holds comes from a piece or from the separator. -/
theorem mem_join {separator : Text} {pieces : List Text} {c : CodePoint}
    (h : c ∈ Text.join separator pieces) : c ∈ separator ∨ ∃ piece ∈ pieces, c ∈ piece := by
  induction pieces with
  | nil => cases h
  | cons piece pieces ih =>
    cases pieces with
    | nil =>
      rw [join_singleton] at h
      exact .inr ⟨piece, List.mem_cons_self, h⟩
    | cons next pieces =>
      rw [join_cons] at h
      rcases List.mem_append.mp h with h | h
      · exact .inr ⟨piece, List.mem_cons_self, h⟩
      rcases List.mem_append.mp h with h | h
      · exact .inl h
      · exact (ih h).imp_right fun ⟨found, hfound, hc⟩ =>
          ⟨found, List.mem_cons_of_mem piece hfound, hc⟩

/-- The separators are marks and spaces. -/
theorem Style.IsPlain.isShown (h : style.IsPlain) :
    (∀ c ∈ style.itemSeparator, IsShown style.asciiOnly c)
      ∧ ∀ c ∈ style.nameSeparator, IsShown style.asciiOnly c := by
  have hspace : IsShown style.asciiOnly ' ' := ⟨by decide, fun _ => by decide⟩
  obtain ⟨spaces, hitem, hspaces⟩ := h.item
  obtain ⟨spaces', hname, hspaces'⟩ := h.name
  rw [hitem, hname]
  constructor
  · intro c hc
    rcases List.mem_cons.mp hc with rfl | hc
    · exact ⟨by decide, fun _ => by decide⟩
    · exact hspaces c hc ▸ hspace
  · intro c hc
    rcases List.mem_cons.mp hc with rfl | hc
    · exact ⟨by decide, fun _ => by decide⟩
    · exact hspaces' c hc ▸ hspace

/-- **A printed value shows no control characters**, and ASCII only where the rest is escaped. -/
theorem isShown_print (h : style.IsPlain) {v : Json} (hv : IsReadable v) :
    ∀ c ∈ print style v, IsShown style.asciiOnly c := by
  have hword : ∀ {t : Text}, (∀ c ∈ t, IsShown true c) → ∀ c ∈ t, IsShown style.asciiOnly c :=
    fun ht c hc => ⟨(ht c hc).1, fun _ => (ht c hc).2 rfl⟩
  -- only what is in strings can be anything else
  have hbracket : ∀ mark ∈ ([('[' : CodePoint), ']', '{', '}'] : Text),
      IsShown style.asciiOnly mark := hword (by decide)
  induction hv with
  | null => exact hword (t := "null") (by decide)
  | bool b =>
    cases b with
    | true => exact hword (t := "true") (by decide)
    | false => exact hword (t := "false") (by decide)
  | @int n _ =>
    rw [print, ← text_ofInt]
    exact isShown_numeral (isWritten_ofInt n)
  | float x => exact isShown_printFloat x
  | string s => exact isShown_printString s
  | @array items _ ih =>
    intro c hc
    rw [print, printItems_eq_map] at hc
    rcases List.mem_append.mp hc with hc | hc
    · rcases List.mem_cons.mp hc with rfl | hc
      · exact hbracket _ (by simp)
      · rcases mem_join hc with hc | ⟨piece, hpiece, hc⟩
        · exact h.isShown.1 c hc
        · obtain ⟨item, hitem, rfl⟩ := List.mem_map.mp hpiece
          exact ih item hitem c hc
    · obtain rfl := List.mem_singleton.mp hc
      exact hbracket _ (by simp)
  | @object members _ ih =>
    intro c hc
    rw [print_object h] at hc
    rcases List.mem_append.mp hc with hc | hc
    · rcases List.mem_cons.mp hc with rfl | hc
      · exact hbracket _ (by simp)
      · rcases mem_join hc with hc | ⟨piece, hpiece, hc⟩
        · exact h.isShown.1 c hc
        · obtain ⟨m, hm, rfl⟩ := List.mem_map.mp hpiece
          simp only [memberText, List.mem_append] at hc
          rcases hc with (hc | hc) | hc
          · exact isShown_printString m.1 c hc
          · exact h.isShown.2 c hc
          · exact ih m hm c hc
    · obtain rfl := List.mem_singleton.mp hc
      exact hbracket _ (by simp)

/-! ### What is read can be read again -/

/-- What the reader makes of numbers and words. -/
inductive IsScalar : Json → Prop
  | null : IsScalar .null
  | bool (b : Bool) : IsScalar (.bool b)
  | int {n : Int} : IsShort n → IsScalar (.int n)
  | float (x : Binary64) : IsScalar (.float x)

theorem IsScalar.isReadable {v : Json} (h : IsScalar v) : IsReadable v := by
  cases h with
  | null => exact .null
  | bool b => exact .bool b
  | int hn => exact .int hn
  | float x => exact .float x

/-- A property of all scalars and strings that arrays and tables take over from their parts. -/
structure IsTakenOver (P : Json → Prop) : Prop where
  scalar : ∀ {v}, IsScalar v → P v
  string : ∀ s, P (.string s)
  array : ∀ {items : List Json}, (∀ item ∈ items, P item) → P (.array items)
  object : ∀ {members : List (Text × Json)}, (∀ m ∈ members, P m.2) →
    P (.object (Table.ofList members))

/-- A whole part is a single zero, or digits that start with another one. -/
theorem takeWhole_spec {t whole rest : Text} (h : takeWhole t = some (whole, rest)) :
    IsDigits whole ∧ whole ≠ [] := by
  unfold takeWhole at h
  split at h
  · split at h
    · obtain ⟨rfl, rfl⟩ := Prod.mk.inj (Option.some.inj h)
      rename_i hzero
      rw [hzero]
      exact ⟨Decimal.isDigits_zeros 1, List.cons_ne_nil _ _⟩
    · split at h
      · rename_i c more _ hdigit
        obtain ⟨heq, hdigits, hrest⟩ := span_eq_iff.mp (Option.some.inj h)
        refine ⟨hdigits, ?_⟩
        rintro rfl
        rw [List.nil_append] at heq
        subst heq
        rw [hrest c rfl] at hdigit
        cases hdigit
      · cases h
  · cases h

/-- A number without fraction and exponent is whole, and it was not too long. -/
theorem isScalar_readAfterWhole {negative : Bool} {whole rest after : Text} {v : Json}
    (hwhole : IsDigits whole ∧ whole ≠ [])
    (h : readAfterWhole negative whole rest = .ok (v, after)) : IsScalar v := by
  unfold readAfterWhole at h
  dsimp only at h
  split at h
  · split at h
    · cases h
    · rename_i hshort
      obtain ⟨rfl, -⟩ := Prod.mk.inj (Except.ok.inj h)
      have habs : (if negative then -(Text.digitsValue whole : Int)
          else Text.digitsValue whole).natAbs = Text.digitsValue whole := by
        split
        · simp
        · simp
      refine .int ?_
      rw [IsShort, habs]
      exact (Text.length_ofNat_digitsValue_le hwhole.2 hwhole.1).trans (Nat.not_lt.mp hshort)
  · obtain ⟨rfl, -⟩ := Prod.mk.inj (Except.ok.inj h)
    exact .float _

/-- The words stand for scalars. -/
theorem isScalar_of_mem_words : ∀ entry ∈ words, IsScalar entry.2 := by
  intro entry hentry
  simp only [words, List.mem_cons, List.not_mem_nil, or_false] at hentry
  rcases hentry with rfl | rfl | rfl | rfl | rfl | rfl
  · exact .null
  · exact .bool true
  · exact .bool false
  · exact .float _
  · exact .float _
  · exact .float _

/-- Neither a word nor a number yields anything else. -/
theorem isScalar_readScalar {t rest : Text} {v : Json} (h : readScalar t = .ok (v, rest)) :
    IsScalar v := by
  unfold readScalar at h
  split at h
  · rename_i result hword
    obtain rfl := Except.ok.inj h
    obtain ⟨entry, hentry, hsome⟩ := List.exists_of_findSome?_eq_some hword
    obtain ⟨after, -, heq⟩ := Option.map_eq_some_iff.mp hsome
    obtain ⟨rfl, -⟩ := Prod.mk.inj heq
    exact isScalar_of_mem_words entry hentry
  · split at h
    · rename_i step hnumber
      obtain ⟨negative, unsigned, heq⟩ := exists_readNumber?_eq t
      rw [heq] at hnumber
      obtain ⟨⟨whole, after⟩, hwhole, rfl⟩ := Option.map_eq_some_iff.mp hnumber
      exact isScalar_readAfterWhole (takeWhole_spec hwhole) h
    · cases h

theorem exists_of_bind_eq_ok {ε α β : Type} {x : Except ε α} {f : α → Except ε β} {b : β}
    (h : x >>= f = .ok b) : ∃ a, x = .ok a ∧ f a = .ok b := by
  cases x with
  | error e => cases h
  | ok a => exact ⟨a, rfl, h⟩

/-- The values, items and members that the reader gives have what is taken over. -/
theorem forall_of_reads {P : Json → Prop} (hP : IsTakenOver P) (fuel : Nat) :
    (∀ {room t v rest}, readValue room fuel t = .ok (v, rest) → P v)
      ∧ (∀ {room t items rest}, readItems room fuel t = .ok (items, rest) → ∀ v ∈ items, P v)
      ∧ ∀ {room t members rest}, readMembers room fuel t = .ok (members, rest) →
        ∀ m ∈ members, P m.2 := by
  -- on the fuel, for values, items and members at once
  induction fuel with
  | zero => exact ⟨nofun, nofun, nofun⟩
  | succ fuel ih =>
    obtain ⟨hvalue, hitems, hmembers⟩ := ih
    refine ⟨?_, ?_, ?_⟩
    · -- a value: a string, an array, an object or a scalar, as its first code point says
      intro room t v rest h
      cases t with
      | nil => cases h
      | cons c t =>
        rw [readValue] at h
        split at h
        · obtain ⟨r, -, h⟩ := exists_of_bind_eq_ok h
          obtain ⟨rfl, -⟩ := Prod.mk.inj (Except.ok.inj h)
          exact hP.string _
        split at h
        · obtain ⟨inner, -, h⟩ := exists_of_bind_eq_ok h
          split at h
          · cases h
          · split at h
            · obtain ⟨rfl, -⟩ := Prod.mk.inj (Except.ok.inj h)
              exact hP.array (by simp)
            · obtain ⟨r, hread, h⟩ := exists_of_bind_eq_ok h
              obtain ⟨rfl, -⟩ := Prod.mk.inj (Except.ok.inj h)
              exact hP.array (hitems hread)
        split at h
        · obtain ⟨inner, -, h⟩ := exists_of_bind_eq_ok h
          split at h
          · cases h
          · split at h
            · obtain ⟨rfl, -⟩ := Prod.mk.inj (Except.ok.inj h)
              exact hP.object (List.forall_mem_nil _)
            · obtain ⟨r, hread, h⟩ := exists_of_bind_eq_ok h
              obtain ⟨rfl, -⟩ := Prod.mk.inj (Except.ok.inj h)
              exact hP.object (hmembers hread)
        · exact hP.scalar (isScalar_readScalar h)
    · -- items: one, and then the end or a comma and more
      intro room t items rest h
      rw [readItems] at h
      obtain ⟨r, hread, h⟩ := exists_of_bind_eq_ok h
      have hfirst := hvalue hread
      dsimp only at h
      split at h
      · cases h
      · split at h
        · obtain ⟨rfl, -⟩ := Prod.mk.inj (Except.ok.inj h)
          simpa using hfirst
        · split at h
          · obtain ⟨r', hread', h⟩ := exists_of_bind_eq_ok h
            obtain ⟨rfl, -⟩ := Prod.mk.inj (Except.ok.inj h)
            exact List.forall_mem_cons.mpr ⟨hfirst, hitems hread'⟩
          · cases h
    · -- members: a name, a value, and then the same
      intro room t members rest h
      rw [readMembers] at h
      obtain ⟨r, -, h⟩ := exists_of_bind_eq_ok h
      obtain ⟨r', hread, h⟩ := exists_of_bind_eq_ok h
      have hfirst := hvalue hread
      dsimp only at h
      split at h
      · cases h
      · split at h
        · obtain ⟨rfl, -⟩ := Prod.mk.inj (Except.ok.inj h)
          simpa using hfirst
        · split at h
          · obtain ⟨r'', hread', h⟩ := exists_of_bind_eq_ok h
            obtain ⟨rfl, -⟩ := Prod.mk.inj (Except.ok.inj h)
            exact List.forall_mem_cons.mpr ⟨hfirst, hmembers hread'⟩
          · cases h

/-- So it is for a text that is read as a whole. -/
theorem forall_of_read {P : Json → Prop} (hP : IsTakenOver P) {t : Text} {v : Json}
    (h : read t = .ok v) : P v := by
  have hall : readAll none t = .ok v := by
    unfold read readWithin at h
    split at h
    · rename_i v' hread
      rw [hread, Except.ok.inj h]
    · cases h
  unfold readAll at hall
  split at hall
  · cases hall
  · obtain ⟨r, hread, hall⟩ := exists_of_bind_eq_ok hall
    dsimp only at hall
    split at hall
    · rw [← Except.ok.inj hall]
      exact (forall_of_reads hP _).1 hread
    · cases hall

/-- **What is read can be printed and read again.** -/
theorem isReadable_of_read {t : Text} {v : Json} (h : read t = .ok v) : IsReadable v :=
  forall_of_read ⟨IsScalar.isReadable, .string, .array,
    fun hmembers => .object (Table.forall_mem_ofList hmembers)⟩ h

end Json

end CompileGate
