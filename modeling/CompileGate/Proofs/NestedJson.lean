/-
CompileGate/Proofs/NestedJson.lean

Reading where there is room for only so many containers inside each other.

A limit changes nothing but one thing: a reader that comes to a container for which it has
no room stops there.  Up to this point it does what a reader without a limit does, so its
outcome is that reader's, or it is this one failure (`readWithin_eq_or`).  In particular a
value that was read is the one that the text writes (`read_of_readWithin`).

The proof goes along the calls of the reader.  The two readers differ in the room that they
hand on, and `Agrees` is what is left of their equality then; it goes through everything that
the reader does with a part that was read (`Agrees.bind`).

The failure is met: more brackets than there is room for are too many, whatever stands behind
them (`readWithin_brackets`).
-/
import CompileGate.Proofs.PrintedJson

namespace CompileGate

namespace Json

/-! ### Outcomes that agree -/

/-- The first outcome is the second one, unless there was no room for a container. -/
def Agrees {α : Type} (r r' : Except Halt α) : Prop :=
  r = r' ∨ ∃ container, r = .error (.tooDeep container)

namespace Agrees

variable {α β : Type} {r r' : Except Halt α}

theorem of_eq (h : r = r') : Agrees r r' := .inl h

theorem bind {f f' : α → Except Halt β} (h : Agrees r r') (hf : ∀ a, Agrees (f a) (f' a)) :
    Agrees (r >>= f) (r' >>= f') := by
  rcases h with rfl | ⟨container, rfl⟩
  · cases r with
    | ok a => exact hf a
    | error e => exact .of_eq rfl
  · exact .inr ⟨container, rfl⟩

/-- A step into a container is taken by both readers, or the first one stops. -/
theorem enter_bind {container : Container} {room : Option Nat}
    {f : Option Nat → Except Halt α} (hf : ∀ inner, Agrees (f inner) r') :
    Agrees (enter container room >>= f) r' := by
  unfold enter
  split
  · exact hf none
  · exact .inr ⟨container, rfl⟩
  · rename_i inner
    exact hf (some inner)

end Agrees

/-! ### The reader -/

/-- What is done with a part that was read does not depend on the room. -/
theorem agrees_reads (fuel : Nat) :
    (∀ room t, Agrees (readValue room fuel t) (readValue none fuel t))
      ∧ (∀ room t, Agrees (readItems room fuel t) (readItems none fuel t))
      ∧ ∀ room t, Agrees (readMembers room fuel t) (readMembers none fuel t) := by
  induction fuel with
  | zero =>
    refine ⟨fun room t => .of_eq ?_, fun room t => .of_eq ?_, fun room t => .of_eq ?_⟩
    · rw [readValue, readValue]
    · rw [readItems, readItems]
    · rw [readMembers, readMembers]
  | succ fuel ih =>
    obtain ⟨hvalue, hitems, hmembers⟩ := ih
    refine ⟨fun room t => ?_, fun room t => ?_, fun room t => ?_⟩
    · cases t with
      | nil =>
        rw [readValue, readValue]
        exact .of_eq rfl
      | cons c t =>
        rw [readValue, readValue]
        split_ifs
        · exact .of_eq rfl
        · -- an array
          refine .enter_bind fun inner => ?_
          dsimp only [enter, bind, Except.bind]
          split
          · exact .of_eq rfl
          · split_ifs
            · exact .of_eq rfl
            · exact (hitems inner _).bind fun _ => .of_eq rfl
        · -- an object
          refine .enter_bind fun inner => ?_
          dsimp only [enter, bind, Except.bind]
          split
          · exact .of_eq rfl
          · split_ifs
            · exact .of_eq rfl
            · exact (hmembers inner _).bind fun _ => .of_eq rfl
        · exact .of_eq rfl
    · rw [readItems, readItems]
      refine (hvalue room t).bind fun item => ?_
      dsimp only
      split
      · exact .of_eq rfl
      · split_ifs
        · exact .of_eq rfl
        · exact (hitems room _).bind fun _ => .of_eq rfl
        · exact .of_eq rfl
    · rw [readMembers, readMembers]
      refine Agrees.bind (.of_eq rfl) fun name => ?_
      refine (hvalue room name.2).bind fun value => ?_
      dsimp only
      split
      · exact .of_eq rfl
      · split_ifs
        · exact .of_eq rfl
        · exact (hmembers room _).bind fun _ => .of_eq rfl
        · exact .of_eq rfl

theorem agrees_readAll (room : Option Nat) (t : Text) :
    Agrees (readAll room t) (readAll none t) := by
  unfold readAll
  split_ifs
  · exact .of_eq rfl
  · exact ((agrees_reads _).1 room _).bind fun _ => .of_eq rfl

/-- **A limit on the room only makes the reader stop at a container.** -/
theorem readWithin_eq_or (room : Option Nat) (t : Text) :
    readWithin room t = read t
      ∨ ∃ container, readWithin room t = .error (.tooDeep container) := by
  rw [read, readWithin, readWithin]
  rcases agrees_readAll room t with heq | ⟨container, hdeep⟩
  · exact .inl (by rw [heq])
  · exact .inr ⟨container, by rw [hdeep]; rfl⟩

/-- What is read within a limit is what the text writes. -/
theorem read_of_readWithin {room : Option Nat} {t : Text} {v : Json}
    (h : readWithin room t = .ok v) : read t = .ok v := by
  rcases readWithin_eq_or room t with heq | ⟨container, hdeep⟩
  · rw [← heq, h]
  · rw [hdeep] at h
    cases h

/-! ### Too many brackets -/

/-- The reader takes one bracket after the other, until there is no room. -/
theorem readValue_brackets {room n fuel : Nat} (hroom : room < n) (hfuel : 2 * n ≤ fuel)
    (rest : Text) :
    readValue (some room) fuel (List.replicate n ('[' : CodePoint) ++ rest)
      = .error (.tooDeep .array) := by
  induction room generalizing n fuel with
  | zero =>
    obtain ⟨n, rfl⟩ : ∃ k, n = k + 1 := ⟨n - 1, by omega⟩
    obtain ⟨fuel, rfl⟩ : ∃ k, fuel = k + 1 := ⟨fuel - 1, by omega⟩
    rw [List.replicate_succ, List.cons_append, readValue, if_neg (by decide), if_pos rfl]
    rfl
  | succ room ih =>
    obtain ⟨n, rfl⟩ : ∃ k, n = k + 2 := ⟨n - 2, by omega⟩
    -- an array takes two calls: one for its items and one for the first of them
    obtain ⟨fuel, rfl⟩ : ∃ k, fuel = k + 2 := ⟨fuel - 2, by omega⟩
    have hinner : readValue (some room) fuel
        (('[' : CodePoint) :: (List.replicate n ('[' : CodePoint) ++ rest))
          = .error (.tooDeep .array) := ih (n := n + 1) (by omega) (by omega)
    rw [List.replicate_succ, List.cons_append, readValue, if_neg (by decide), if_pos rfl,
      List.replicate_succ, List.cons_append, skipSpace_cons (by decide)]
    dsimp only [enter, bind, Except.bind]
    rw [if_neg (by decide), readItems, hinner]
    rfl

/-- **Brackets for which there is no room are not read**, whatever stands behind them. -/
theorem readWithin_brackets {room n : Nat} (h : room < n) (rest : Text) :
    readWithin (some room) (List.replicate n ('[' : CodePoint) ++ rest)
      = .error (.tooDeep .array) := by
  obtain ⟨n, rfl⟩ : ∃ k, n = k + 1 := ⟨n - 1, by omega⟩
  have hfuel : 2 * (n + 1)
      ≤ 2 * (List.replicate (n + 1) ('[' : CodePoint) ++ rest).length + 2 := by
    rw [List.length_append, List.length_replicate]
    omega
  have hread := readValue_brackets h hfuel rest
  rw [List.replicate_succ, List.cons_append] at hread ⊢
  have hmark : (('[' : CodePoint) :: (List.replicate n ('[' : CodePoint) ++ rest)).head?
      ≠ some (CodePoint.ofNat 0xFEFF) := by
    rw [List.head?_cons]
    decide
  have hall : readAll (some room) (('[' : CodePoint) :: (List.replicate n ('[' : CodePoint) ++ rest))
      = .error (.tooDeep .array) := by
    rw [readAll, if_neg hmark, skipSpace_cons (by decide), hread]
    rfl
  rw [readWithin, hall]
  rfl

end Json

end CompileGate
