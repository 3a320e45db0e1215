/-
CompileGate/Proofs/ClientWindows.lean

Each client has a limit of its own.

The limiter holds the windows of all clients in one table, and while it answers one
client it may drop the windows of others.  What it drops has run out, and a window
that has run out counts as none, at that time and ever after (`current_filter`).  So
as far as later calls can tell, a call changes the window of its client alone, and in
a way that depends on that window alone (`current_afterCall`).

A client among others thus meets a single window that is carried along its own calls
(`Window.answers`, `Window.after`), whatever the others do (`answers_of_holds`).

Of time this needs no more than that it is steady (`SteadySeconds`): clock readings are
ordered, and a later one is further away.  Rounded numbers are steady, too.

Main result: `answers_alone`.
-/
import CompileGate.Proofs.SessionWalk
import CompileGate.RateLimiter

namespace CompileGate

variable {τ : Type} [Seconds τ]

/-- Clock readings are ordered, and the time between two of them grows as they move apart. -/
class SteadySeconds (τ : Type) [Seconds τ] : Prop where
  le_trans : ∀ a b c : τ, a ≤ b → b ≤ c → a ≤ c
  le_total : ∀ a b : τ, a ≤ b ∨ b ≤ a
  not_le : ∀ a b : τ, ¬ a ≤ b ↔ b < a
  sub_self : ∀ a : τ, a - a = 0
  sub_le_sub : ∀ a b c d : τ, a ≤ b → c ≤ d → a - d ≤ b - c

instance steadySecondsOfInt : SteadySeconds Int where
  le_trans _ _ _ := Int.le_trans
  le_total := Int.le_total
  not_le _ _ := Int.not_le
  sub_self := Int.sub_self
  sub_le_sub _ _ _ _ := Int.sub_le_sub

namespace SteadySeconds

variable [SteadySeconds τ] {a b c : τ}

theorem le_refl (a : τ) : a ≤ a := (le_total a a).elim id id

theorem le_of_not_le (h : ¬ a ≤ b) : b ≤ a := (le_total a b).resolve_left h

theorem lt_of_le_of_lt (h : a ≤ b) (h' : b < c) : a < c := by
  rw [← not_le] at h' ⊢
  exact fun hca => h' (le_trans _ _ _ hca h)

end SteadySeconds

open RateLimiter (current hasRunOut dropRunOut)

/-! ### A single window -/

namespace Window

/-- What a call makes of the window that it falls into: the answer, and the window afterwards. -/
def accept (limit : Int) (w : Window τ) : Bool × Window τ :=
  if limit ≤ w.count then (false, w) else (true, { w with count := w.count + 1 })

/-- The answers to calls at these times when a single window is carried along. -/
def answers (limit : Int) (length : τ) : Option (Window τ) → List τ → List (τ × Bool)
  | _, [] => []
  | held, now :: rest =>
    let (allowed, w) := accept limit (current length now held)
    (now, allowed) :: answers limit length (some w) rest

/-- The window after calls at these times. -/
def after (limit : Int) (length : τ) (held : Option (Window τ)) (times : List τ) :
    Option (Window τ) :=
  times.foldl (fun held now => some (accept limit (current length now held)).2) held

theorem answers_concat (limit : Int) (length : τ) (held : Option (Window τ)) (times : List τ)
    (now : τ) :
    answers limit length held (times ++ [now])
      = answers limit length held times
        ++ [(now, (accept limit (current length now (after limit length held times))).1)] := by
  -- along the times, with the window that the first one leaves
  induction times generalizing held with
  | nil => rfl
  | cons first rest ih =>
    show (first, _) :: answers limit length (some _) (rest ++ [now]) = (first, _) :: _
    rw [ih]
    rfl

theorem after_concat (limit : Int) (length : τ) (held : Option (Window τ)) (times : List τ)
    (now : τ) :
    after limit length held (times ++ [now])
      = some (accept limit (current length now (after limit length held times))).2 := by
  rw [after, List.foldl_append]
  rfl

end Window

/-! ### Runs of the limiter -/

namespace RateLimiter

/-- A client asks at a clock reading whether it may make a request. -/
structure Call (τ : Type) where
  client : Text
  now : τ

/-- The answer to a call. -/
def answer (r : RateLimiter τ) (c : Call τ) : Bool := (allow c.now c.client r).1

/-- The limiter after a call. -/
def afterCall (r : RateLimiter τ) (c : Call τ) : RateLimiter τ := (allow c.now c.client r).2

/-- Calls that are made one after the other, each with its answer. -/
def answers (r : RateLimiter τ) : List (Call τ) → List (Call τ × Bool)
  | [] => []
  | c :: rest => (c, r.answer c) :: (r.afterCall c).answers rest

/-- The limiter after calls that are made one after the other. -/
def after (r : RateLimiter τ) (calls : List (Call τ)) : RateLimiter τ := calls.foldl afterCall r

/-- The calls are made at clock readings that do not go back. -/
def InTurn (calls : List (Call τ)) : Prop := calls.Pairwise fun a b => a.now ≤ b.now

/-- When a client calls. -/
def timesOf (client : Text) (calls : List (Call τ)) : List τ :=
  (calls.filter fun c => c.client = client).map Call.now

variable {r : RateLimiter τ} {c : Call τ}

omit [Seconds τ] in
theorem timesOf_cons_self (c : Call τ) (rest : List (Call τ)) :
    timesOf c.client (c :: rest) = c.now :: timesOf c.client rest := by
  simp [timesOf]

omit [Seconds τ] in
theorem timesOf_cons_of_ne {client : Text} (h : c.client ≠ client) (rest : List (Call τ)) :
    timesOf client (c :: rest) = timesOf client rest := by
  simp [timesOf, h]

/-- Every call is answered. -/
theorem map_fst_answers (r : RateLimiter τ) (calls : List (Call τ)) :
    (r.answers calls).map Prod.fst = calls := by
  induction calls generalizing r with
  | nil => rfl
  | cons c rest ih => rw [answers, List.map_cons, ih]

/-! ### One call -/

theorem answer_eq (hlimit : 0 < r.limit) :
    r.answer c = (Window.accept r.limit (current r.length c.now r.windows[c.client]?)).1 := by
  have hpositive : ¬ r.limit ≤ 0 := Int.not_le.mpr hlimit
  rw [answer, allow, if_neg hpositive, Window.accept]
  dsimp only
  split
  · rfl
  · rfl

@[simp] theorem limit_afterCall : (r.afterCall c).limit = r.limit := by
  unfold afterCall allow
  split
  · rfl
  · dsimp only
    split
    · rfl
    · rfl

@[simp] theorem length_afterCall : (r.afterCall c).length = r.length := by
  unfold afterCall allow
  split
  · rfl
  · dsimp only
    split
    · rfl
    · rfl

@[simp] theorem limit_after (calls : List (Call τ)) : (r.after calls).limit = r.limit := by
  induction calls generalizing r with
  | nil => rfl
  | cons c rest ih => exact ih.trans limit_afterCall

@[simp] theorem length_after (calls : List (Call τ)) : (r.after calls).length = r.length := by
  induction calls generalizing r with
  | nil => rfl
  | cons c rest ih => exact ih.trans length_afterCall

variable [SteadySeconds τ]

/-- A window that has run out has run out ever after. -/
theorem hasRunOut_of_le {length now t : τ} {w : Window τ} (ht : now ≤ t)
    (h : hasRunOut length now w = true) : hasRunOut length t w = true := by
  unfold hasRunOut at h ⊢
  rw [decide_eq_true_eq] at h ⊢
  have hsub : now - w.opened ≤ t - w.opened :=
    SteadySeconds.sub_le_sub _ _ _ _ ht (SteadySeconds.le_refl w.opened)
  exact SteadySeconds.le_trans _ _ _ h hsub

/-- Whether windows that have run out are dropped makes no difference later. -/
theorem current_filter {length now t : τ} (ht : now ≤ t) (held : Option (Window τ)) :
    current length t (held.filter fun w => now - w.opened < length) = current length t held := by
  cases held with
  | none => rfl
  | some w =>
    -- a window that was dropped had run out, and has ever since
    by_cases hkept : now - w.opened < length
    · rw [Option.filter_some, if_pos (decide_eq_true hkept)]
    · have hgone : hasRunOut length now w = true := by
        rw [hasRunOut, decide_eq_true_eq]
        by_contra hle
        exact hkept ((SteadySeconds.not_le _ _).mp hle)
      rw [Option.filter_some, if_neg (by simpa using hkept)]
      show ⟨t, 0⟩ = if hasRunOut length t w then ⟨t, 0⟩ else w
      rw [if_pos (hasRunOut_of_le ht hgone)]

/-- As far as later calls can tell, a call changes the window of its client alone. -/
theorem current_afterCall (hlimit : 0 < r.limit) {t : τ} (ht : c.now ≤ t) (client : Text) :
    current r.length t (r.afterCall c).windows[client]?
      = current r.length t
        (if client = c.client then
          some (Window.accept r.limit (current r.length c.now r.windows[c.client]?)).2
        else r.windows[client]?) := by
  have hpositive : ¬ r.limit ≤ 0 := Int.not_le.mpr hlimit
  -- only the entry of the client is written
  have hlookup : ∀ w : Window τ, (r.windows.insert c.client w)[client]?
      = if client = c.client then some w else r.windows[client]? := by
    intro w
    rw [Std.HashMap.getElem?_insert]
    by_cases hclient : client = c.client
    · rw [if_pos hclient, if_pos (by simp [hclient])]
    · rw [if_neg hclient, if_neg (by simpa using Ne.symm hclient)]
  rw [afterCall, allow, if_neg hpositive, Window.accept]
  dsimp only
  split
  · -- refused: the window is written back as it is
    rw [hlookup]
  · dsimp only
    split
    · -- let in, with a sweep: what it drops makes no difference later
      rw [dropRunOut, Std.HashMap.getElem?_filter', current_filter ht, hlookup]
    · rw [hlookup]

/-! ### Whole runs -/

/-- As far as the calls can tell, the limiter holds a window for a client, or none. -/
def Holds (client : Text) (calls : List (Call τ)) (r : RateLimiter τ) (held : Option (Window τ)) :
    Prop :=
  ∀ c ∈ calls, current r.length c.now r.windows[client]? = current r.length c.now held

omit [SteadySeconds τ] in
theorem Holds.fresh (limit : Int) (length : τ) (client : Text) (calls : List (Call τ)) :
    Holds client calls (fresh limit length) none := by
  intro c _
  rw [RateLimiter.fresh, Std.HashMap.getElem?_empty]

/-- A call of another client changes nothing. -/
theorem Holds.skip {client : Text} {rest : List (Call τ)} {held : Option (Window τ)}
    (h : Holds client (c :: rest) r held) (hlimit : 0 < r.limit)
    (hlater : ∀ d ∈ rest, c.now ≤ d.now) (hclient : c.client ≠ client) :
    Holds client rest (r.afterCall c) held := by
  intro d hd
  rw [length_afterCall, current_afterCall hlimit (hlater d hd), if_neg (Ne.symm hclient)]
  exact h d (List.mem_cons_of_mem c hd)

/-- A call of the client changes the window in its own way. -/
theorem Holds.step {rest : List (Call τ)} {held : Option (Window τ)}
    (h : Holds c.client (c :: rest) r held) (hlimit : 0 < r.limit)
    (hlater : ∀ d ∈ rest, c.now ≤ d.now) :
    Holds c.client rest (r.afterCall c)
      (some (Window.accept r.limit (current r.length c.now held)).2) := by
  intro d hd
  rw [length_afterCall, current_afterCall hlimit (hlater d hd), if_pos rfl,
    h c List.mem_cons_self]

/-- After some calls, the limiter holds what a window of the client's own has become. -/
theorem holds_after (client : Text) {calls later : List (Call τ)} (hcalls : InTurn (calls ++ later))
    (hlimit : 0 < r.limit) {held : Option (Window τ)} (h : Holds client (calls ++ later) r held) :
    Holds client later (r.after calls)
      (Window.after r.limit r.length held (timesOf client calls)) := by
  -- along the calls; the client's own ones change what is held
  induction calls generalizing r held with
  | nil => exact h
  | cons c rest ih =>
    obtain ⟨hlater, hrest⟩ := List.pairwise_cons.mp hcalls
    have hlimit' : 0 < (r.afterCall c).limit := by rw [limit_afterCall]; exact hlimit
    show Holds client later ((r.afterCall c).after rest) _
    by_cases hclient : c.client = client
    · subst hclient
      have hstep := ih hrest hlimit' (h.step hlimit hlater)
      rw [limit_afterCall, length_afterCall] at hstep
      rw [timesOf_cons_self]
      exact hstep
    · have hskip := ih hrest hlimit' (h.skip hlimit hlater hclient)
      rw [limit_afterCall, length_afterCall] at hskip
      rw [timesOf_cons_of_ne hclient]
      exact hskip

/-- The answers that a client gets among others are those of a window of its own. -/
theorem answers_of_holds (client : Text) {calls : List (Call τ)} (hcalls : InTurn calls)
    (hlimit : 0 < r.limit) {held : Option (Window τ)} (h : Holds client calls r held) :
    (r.answers calls).filter (fun a => a.1.client = client)
      = (Window.answers r.limit r.length held (timesOf client calls)).map
        fun a => (⟨client, a.1⟩, a.2) := by
  induction calls generalizing r held with
  | nil => rfl
  | cons c rest ih =>
    obtain ⟨hlater, hrest⟩ := List.pairwise_cons.mp hcalls
    have hlimit' : 0 < (r.afterCall c).limit := by rw [limit_afterCall]; exact hlimit
    by_cases hclient : c.client = client
    · subst hclient
      rw [answers, List.filter_cons_of_pos (by simp), ih hrest hlimit' (h.step hlimit hlater),
        answer_eq hlimit, h c List.mem_cons_self, limit_afterCall, length_afterCall,
        timesOf_cons_self]
      rfl
    · rw [answers, List.filter_cons_of_neg (by simpa using hclient),
        ih hrest hlimit' (h.skip hlimit hlater hclient), limit_afterCall, length_afterCall,
        timesOf_cons_of_ne hclient]

/-- The same for a limiter that has seen no request. -/
theorem answers_fresh {limit : Int} (length : τ) (hlimit : 0 < limit) {calls : List (Call τ)}
    (hcalls : InTurn calls) (client : Text) :
    ((fresh limit length).answers calls).filter (fun a => a.1.client = client)
      = (Window.answers limit length none (timesOf client calls)).map
        fun a => (⟨client, a.1⟩, a.2) :=
  answers_of_holds client hcalls hlimit (.fresh limit length client calls)

/-- A client that is the only one meets a window of its own. -/
theorem answers_own {limit : Int} (length : τ) (hlimit : 0 < limit) {client : Text}
    {calls : List (Call τ)} (hcalls : InTurn calls) (hclient : ∀ c ∈ calls, c.client = client) :
    (fresh limit length).answers calls
      = (Window.answers limit length none (calls.map Call.now)).map
        fun a => (⟨client, a.1⟩, a.2) := by
  have hcall : calls.filter (fun c => c.client = client) = calls :=
    List.filter_eq_self.mpr fun c hc => by simpa using hclient c hc
  -- there is nobody else to filter out
  have hanswer : ((fresh limit length).answers calls).filter (fun a => a.1.client = client)
      = (fresh limit length).answers calls := by
    refine List.filter_eq_self.mpr fun a ha => ?_
    have hmem : a.1 ∈ ((fresh limit length).answers calls).map Prod.fst := List.mem_map_of_mem ha
    rw [map_fst_answers] at hmem
    simpa using hclient a.1 hmem
  rw [← hanswer, answers_fresh length hlimit hcalls client, timesOf, hcall]

/-- **Clients do not influence each other**: the answers that a client gets among any others are
those that a limiter of its own gives to its calls. -/
theorem answers_alone {limit : Int} (length : τ) (hlimit : 0 < limit) {calls : List (Call τ)}
    (hcalls : InTurn calls) (client : Text) :
    ((fresh limit length).answers calls).filter (fun a => a.1.client = client)
      = (fresh limit length).answers (calls.filter fun c => c.client = client) := by
  have hown : ∀ c ∈ calls.filter (fun c => c.client = client), c.client = client := by
    intro c hc
    simpa using (List.mem_filter.mp hc).2
  rw [answers_fresh length hlimit hcalls client, answers_own length hlimit (hcalls.filter _) hown,
    timesOf]

/-! ### A crowd -/

/-- The name of a client that none of a crowd has. -/
def me : Text := "me"

/-- Calls of many clients at the same time. -/
def crowd (size : Nat) : List (Call Int) :=
  (List.range size).map fun i => ⟨('n' : CodePoint) :: Text.ofNat i, 20⟩

/-- A client calls before a crowd comes and after it. -/
def amidCrowd (size : Nat) : List (Call Int) :=
  [⟨me, 0⟩, ⟨me, 10⟩] ++ crowd size ++ [⟨me, 59⟩, ⟨me, 60⟩]

theorem mem_crowd {size : Nat} {c : Call Int} (hc : c ∈ crowd size) :
    c.client ≠ me ∧ c.now = 20 := by
  obtain ⟨i, -, rfl⟩ := List.mem_map.mp hc
  refine ⟨?_, rfl⟩
  intro h
  have hhead : ('n' : CodePoint) = 'm' := (List.cons.inj h).1
  exact absurd hhead (by decide)

theorem inTurn_amidCrowd (size : Nat) : InTurn (amidCrowd size) := by
  have hcrowd : InTurn (crowd size) := by
    refine List.pairwise_iff_forall_sublist.mpr ?_
    intro a b hab
    rw [(mem_crowd (hab.subset List.mem_cons_self)).2,
      (mem_crowd (hab.subset (List.mem_cons_of_mem a List.mem_cons_self))).2]
  -- the calls before, the crowd at 20, and the calls after it
  refine List.pairwise_append.mpr ⟨List.pairwise_append.mpr ⟨by simp, hcrowd, ?_⟩, by simp, ?_⟩
  · intro a ha b hb
    rw [(mem_crowd hb).2]
    rcases List.mem_pair.mp ha with rfl | rfl
    · decide
    · decide
  · intro a ha b hb
    have hlast : 59 ≤ b.now := by
      rcases List.mem_pair.mp hb with rfl | rfl
      · decide
      · decide
    have hfirst : a.now ≤ 20 := by
      rcases List.mem_append.mp ha with ha | ha
      · rcases List.mem_pair.mp ha with rfl | rfl
        · decide
        · decide
      · rw [(mem_crowd ha).2]
    exact hfirst.trans (le_trans (by decide) hlast)

/-- More clients come than the table is swept for.  One that had reached its limit before is refused
afterwards, too, until its own window has run out. -/
theorem answers_amid_crowd : InTurn (amidCrowd 10001)
    ∧ ((fresh 1 60 : RateLimiter Int).answers (amidCrowd 10001)).filter
        (fun a => a.1.client = me)
      = [(⟨me, 0⟩, true), (⟨me, 10⟩, false), (⟨me, 59⟩, false), (⟨me, 60⟩, true)] := by
  have hcrowd : (crowd 10001).filter (fun c => c.client = me) = [] := by
    rw [List.filter_eq_nil_iff]
    intro c hc
    simpa using (mem_crowd hc).1
  have hown : (amidCrowd 10001).filter (fun c => c.client = me)
      = [⟨me, 0⟩, ⟨me, 10⟩, ⟨me, 59⟩, ⟨me, 60⟩] := by
    rw [amidCrowd, List.filter_append, List.filter_append, hcrowd]
    rfl
  have hmine : ∀ c ∈ ([⟨me, 0⟩, ⟨me, 10⟩, ⟨me, 59⟩, ⟨me, 60⟩] : List (Call Int)),
      c.client = me := by simp
  refine ⟨inTurn_amidCrowd 10001, ?_⟩
  rw [answers_alone 60 (by decide) (inTurn_amidCrowd 10001) me, hown,
    answers_own 60 (by decide) (by simp [InTurn]) hmine]
  rfl

end RateLimiter

end CompileGate
