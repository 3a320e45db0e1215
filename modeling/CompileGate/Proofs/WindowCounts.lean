/-
CompileGate/Proofs/WindowCounts.lean

What the limit says about the requests themselves.

A window only holds when it opened and a number.  `Tally` ties the two to the calls
that were allowed so far: the number is that of the calls since the window opened, and
of the calls before it only so many lie close to it as fit into one window.  Time that
passes and calls keep the tally, allowed or not (`Tally.current`, `Tally.accept`).

Two consequences.  A stretch of time as long as a window meets at most two windows, so
it holds at most twice the limit of allowed calls.  And a call is refused only when the
limit was used up since the window opened; refusing it leaves the window as it is.

Here durations must add up (`LinearSeconds`).

Main result: `refusals_justified`.
-/
import CompileGate.Proofs.ClientWindows
import Mathlib.Data.List.Induction

namespace CompileGate

variable {τ : Type} [Seconds τ]

/-- Clock readings and durations lie on a line. -/
class LinearSeconds (τ : Type) [Seconds τ] : Prop extends SteadySeconds τ where
  lt_add_iff : ∀ a b c : τ, a < b + c ↔ a - b < c

instance linearSecondsOfInt : LinearSeconds Int where
  lt_add_iff a b c := by
    show a < b + c ↔ a - b < c
    omega

open RateLimiter (current hasRunOut)
open SteadySeconds (le_refl le_trans not_le sub_le_sub le_of_not_le lt_of_le_of_lt)

namespace Window

/-! ### A window and the calls that were allowed -/

/-- What a window that is running at `now` tells about the calls that were allowed so far. -/
structure Tally (limit : Int) (length now : τ) (past : List τ) (w : Window τ) : Prop where
  opened_le : w.opened ≤ now
  running : now - w.opened < length
  past_le : ∀ a ∈ past, a ≤ now
  count_eq : w.count = (past.countP fun a => w.opened ≤ a : Nat)
  count_le : w.count ≤ limit
  /-- Not long before it opened, no more calls were allowed than fit into a window. -/
  before_le : ∀ t, w.opened - t < length →
    ((past.countP fun a => t ≤ a ∧ ¬ w.opened ≤ a : Nat) : Int) ≤ limit
  /-- No stretch as long as a window holds more calls than fit into two. -/
  stretch_le : ∀ t, ((past.countP fun a => t ≤ a ∧ a - t < length : Nat) : Int) ≤ 2 * limit

variable [SteadySeconds τ] {limit : Int} {length now t : τ} {past : List τ} {w : Window τ}

theorem Tally.start (hlimit : 0 ≤ limit) (hlength : 0 < length) (now : τ) :
    Tally limit length now [] ⟨now, 0⟩ where
  opened_le := le_refl now
  running := by
    show now - now < length
    rw [SteadySeconds.sub_self]
    exact hlength
  past_le := by simp
  count_eq := rfl
  count_le := hlimit
  before_le _ _ := hlimit
  stretch_le _ := by
    show 0 ≤ 2 * limit
    omega

/-- Calls of a window are all nearer to its opening than its length. -/
theorem Tally.near (h : Tally limit length now past w) {a : τ} (ha : a ∈ past) :
    a - w.opened < length :=
  lt_of_le_of_lt (sub_le_sub _ _ _ _ (h.past_le a ha) (le_refl w.opened)) h.running

/-- A new window is opened when the one before has run out. -/
theorem Tally.renew (hlength : 0 < length) (h : Tally limit length now past w) (ht : now ≤ t)
    (hgone : length ≤ t - w.opened) : Tally limit length t past ⟨t, 0⟩ where
  opened_le := le_refl t
  running := by
    show t - t < length
    rw [SteadySeconds.sub_self]
    exact hlength
  past_le a ha := le_trans _ _ _ (h.past_le a ha) ht
  count_eq := by
    have hnone : past.countP (fun a => t ≤ a) = 0 := by
      rw [List.countP_eq_zero]
      intro a ha hta
      have hle : length ≤ a - w.opened :=
        le_trans _ _ _ hgone (sub_le_sub _ _ _ _ (of_decide_eq_true hta) (le_refl w.opened))
      exact (not_le _ _).mpr (h.near ha) hle
    rw [hnone]
    rfl
  count_le := by
    show 0 ≤ limit
    have heq := h.count_eq
    have hle := h.count_le
    omega
  before_le s hs := by
    -- what is close to the new window is after the opening of the old one
    have hopened : w.opened ≤ s := by
      refine le_of_not_le fun hsw => ?_
      have hle : length ≤ t - s := le_trans _ _ _ hgone (sub_le_sub _ _ _ _ (le_refl t) hsw)
      exact (not_le _ _).mpr hs hle
    have hmono : past.countP (fun a => s ≤ a ∧ ¬ t ≤ a) ≤ past.countP fun a => w.opened ≤ a := by
      refine List.countP_mono_left fun a _ ha => ?_
      rw [decide_eq_true_eq] at ha ⊢
      exact le_trans _ _ _ hopened ha.1
    have heq := h.count_eq
    have hle := h.count_le
    show ((past.countP fun a => s ≤ a ∧ ¬ t ≤ a : Nat) : Int) ≤ limit
    omega
  stretch_le := h.stretch_le

/-- Time that passes keeps the tally. -/
theorem Tally.current (hlength : 0 < length) (h : Tally limit length now past w) (ht : now ≤ t) :
    Tally limit length t past (current length t (some w)) := by
  unfold RateLimiter.current
  dsimp only
  by_cases hgone : length ≤ t - w.opened
  · rw [hasRunOut, decide_eq_true hgone, if_pos rfl]
    exact h.renew hlength ht hgone
  · rw [hasRunOut, decide_eq_false hgone, if_neg (by decide)]
    exact { h with
      opened_le := le_trans _ _ _ h.opened_le ht
      running := (not_le _ _).mp hgone
      past_le := fun a ha => le_trans _ _ _ (h.past_le a ha) ht }

omit [SteadySeconds τ] in
/-- What lies in a stretch lies after the opening of a window, or close before it. -/
theorem countP_stretch_le (length opened t : τ) (past : List τ) :
    past.countP (fun a => t ≤ a ∧ a - t < length)
      ≤ past.countP (fun a => opened ≤ a) + past.countP fun a => t ≤ a ∧ ¬ opened ≤ a := by
  rw [List.countP_eq_countP_filter_add past _ fun a => decide (opened ≤ a),
    List.countP_filter, List.countP_filter]
  refine Nat.add_le_add (List.countP_mono_left fun a _ ha => ?_)
    (List.countP_mono_left fun a _ ha => ?_)
  · exact (Bool.and_eq_true _ _ ▸ ha).2
  · simp only [Bool.and_eq_true, decide_eq_true_eq, Bool.not_eq_true',
      decide_eq_false_iff_not] at ha ⊢
    exact ⟨ha.1.1, ha.2⟩

/-- One more call keeps the tally when the window still has room for it. -/
theorem Tally.grow (h : Tally limit length now past w) (hroom : w.count < limit) :
    Tally limit length now (past ++ [now]) { w with count := w.count + 1 } where
  opened_le := h.opened_le
  running := h.running
  past_le a ha := by
    rcases List.mem_append.mp ha with ha | ha
    · exact h.past_le a ha
    · rw [List.mem_singleton.mp ha]
      exact le_refl now
  count_eq := by
    rw [List.countP_append, List.countP_singleton, if_pos (by simpa using h.opened_le)]
    show w.count + 1 = _
    rw [h.count_eq]
    rfl
  count_le := hroom
  before_le t ht := by
    rw [List.countP_append, List.countP_singleton, if_neg (by simp [h.opened_le])]
    exact h.before_le t ht
  stretch_le t := by
    by_cases hnow : t ≤ now ∧ now - t < length
    · -- the calls of this window, and those close before it
      have hbefore : w.opened - t < length :=
        lt_of_le_of_lt (sub_le_sub _ _ _ _ h.opened_le (le_refl t)) hnow.2
      have hsplit := countP_stretch_le length w.opened t past
      have hclose := h.before_le t hbefore
      have hcount := h.count_eq
      rw [List.countP_append, List.countP_singleton, if_pos (by simpa using hnow)]
      omega
    · rw [List.countP_append, List.countP_singleton, if_neg (by simpa using hnow)]
      exact h.stretch_le t

/-- A call keeps the tally. -/
theorem Tally.accept (h : Tally limit length now past w) :
    Tally limit length now (if (accept limit w).1 then past ++ [now] else past) (accept limit w).2 := by
  unfold Window.accept
  by_cases hfull : limit ≤ w.count
  · rw [if_pos hfull]
    exact h
  · rw [if_neg hfull]
    exact h.grow (Int.not_le.mp hfull)

/-! ### A run of one client -/

/-- When the calls were made that were allowed. -/
def allowedTimes (answers : List (τ × Bool)) : List τ := (answers.filter Prod.snd).map Prod.fst

omit [SteadySeconds τ] in
theorem allowedTimes_concat (limit : Int) (length : τ) (times : List τ) (now : τ) :
    allowedTimes (answers limit length none (times ++ [now]))
      = if (Window.accept limit (RateLimiter.current length now (after limit length none times))).1
        then allowedTimes (answers limit length none times) ++ [now]
        else allowedTimes (answers limit length none times) := by
  rw [answers_concat]
  cases (Window.accept limit (RateLimiter.current length now (after limit length none times))).1 with
  | true => simp [allowedTimes]
  | false => simp [allowedTimes]

/-- Along the calls of a client, its window tells about those that were allowed. -/
theorem tally_of_answers (hlimit : 0 ≤ limit) (hlength : 0 < length) {times : List τ}
    (htimes : times.Pairwise (· ≤ ·)) (ht : ∀ a ∈ times, a ≤ t) :
    Tally limit length t (allowedTimes (answers limit length none times))
      (RateLimiter.current length t (after limit length none times)) := by
  induction times using List.reverseRecOn generalizing t with
  | nil => exact .start hlimit hlength t
  | append_singleton times now ih =>
    obtain ⟨hbefore, -, hnow⟩ := List.pairwise_append.mp htimes
    have htally := ih hbefore fun a ha => hnow a ha now List.mem_cons_self
    rw [allowedTimes_concat, after_concat]
    exact htally.accept.current hlength (ht now (by simp))

end Window

/-! ### Runs of the limiter -/

namespace RateLimiter

variable {limit : Int} {length : τ}

/-- How many calls of a client were allowed at times with some property. -/
def allowedCount (client : Text) (p : τ → Prop) [DecidablePred p]
    (answers : List (Call τ × Bool)) : Nat :=
  answers.countP fun a => a.1.client = client ∧ a.2 = true ∧ p a.1.now

/-- A call that finds its window used falls into the window that is held. -/
theorem eq_some_of_current {now : τ} {held : Option (Window τ)}
    (h : 0 < (current length now held).count) : held = some (current length now held) := by
  cases held with
  | none => exact absurd h (lt_irrefl 0)
  | some w =>
    unfold current at h ⊢
    dsimp only at h ⊢
    by_cases hgone : hasRunOut length now w = true
    · rw [if_pos hgone] at h
      exact absurd h (lt_irrefl 0)
    · rw [if_neg hgone]

/-- A call that is refused falls into a window that is held and full, and leaves it as it is. -/
theorem window_of_refused {r : RateLimiter τ} {c : Call τ} (hlimit : 0 < r.limit)
    (h : r.answer c = false) :
    ∃ w, r.windows[c.client]? = some w ∧ current r.length c.now r.windows[c.client]? = w
      ∧ r.limit ≤ w.count ∧ (r.afterCall c).windows[c.client]? = some w := by
  refine ⟨current r.length c.now r.windows[c.client]?, ?_⟩
  rw [answer_eq hlimit, Window.accept] at h
  by_cases hfull : r.limit ≤ (current r.length c.now r.windows[c.client]?).count
  · refine ⟨eq_some_of_current (Int.lt_of_lt_of_le hlimit hfull), rfl, hfull, ?_⟩
    rw [afterCall, allow, if_neg (Int.not_le.mpr hlimit)]
    dsimp only
    rw [if_pos hfull]
    exact Std.HashMap.getElem?_insert_self
  · rw [if_neg hfull] at h
    cases h

variable [SteadySeconds τ]

/-- What is counted of a client's calls among others can be counted of its calls alone. -/
theorem allowedCount_answers (hlimit : 0 < limit) {calls : List (Call τ)} (hcalls : InTurn calls)
    (client : Text) (p : τ → Prop) [DecidablePred p] :
    allowedCount client p ((fresh limit length).answers calls)
      = (Window.allowedTimes (Window.answers limit length none (timesOf client calls))).countP
        fun a => p a := by
  have hown := congrArg (List.countP fun a => decide (a.2 = true ∧ p a.1.now))
    (answers_fresh length hlimit hcalls client)
  rw [List.countP_filter, List.countP_map] at hown
  rw [allowedCount, Window.allowedTimes, List.countP_map, List.countP_filter]
  refine Eq.trans (List.countP_congr fun a _ => ?_) (hown.trans (List.countP_congr fun a _ => ?_))
  · simp only [decide_eq_true_eq, Bool.and_eq_true]
    exact and_comm
  · simp only [Function.comp_apply, decide_eq_true_eq, Bool.and_eq_true]
    exact and_comm

omit [SteadySeconds τ] in
theorem pairwise_timesOf {calls : List (Call τ)} (hcalls : InTurn calls) (client : Text) :
    (timesOf client calls).Pairwise (· ≤ ·) := List.pairwise_map.mpr (hcalls.filter _)

/-- In a stretch as long as a window no more calls of a client are allowed than fit into two. -/
theorem allowedCount_stretch_le (hlimit : 0 < limit) (hlength : 0 < length) {calls : List (Call τ)}
    (hcalls : InTurn calls) (client : Text) (t : τ) :
    (allowedCount client (fun now => t ≤ now ∧ now - t < length)
      ((fresh limit length).answers calls) : Int) ≤ 2 * limit := by
  rw [allowedCount_answers hlimit hcalls client]
  have htimes := pairwise_timesOf hcalls client
  rcases List.eq_nil_or_concat (timesOf client calls) with hnil | ⟨times, last, hlast⟩
  · rw [hnil]
    show 0 ≤ 2 * limit
    omega
  · rw [hlast, List.concat_eq_append] at htimes ⊢
    have hle : ∀ a ∈ times ++ [last], a ≤ last := by
      intro a ha
      rcases List.mem_append.mp ha with ha | ha
      · exact (List.pairwise_append.mp htimes).2.2 a ha last List.mem_cons_self
      · rw [List.mem_singleton.mp ha]
        exact le_refl last
    exact (Window.tally_of_answers (le_of_lt hlimit) hlength htimes hle).stretch_le t

/-- When a client is refused, its window is held, is running and is used up by its own calls, and
it stays as it is. -/
theorem window_of_refused_run (hlimit : 0 < limit) (hlength : 0 < length)
    {before rest : List (Call τ)} {client : Text} {now : τ}
    (hcalls : InTurn (before ++ ⟨client, now⟩ :: rest))
    (hrefused : ((fresh limit length).after before).answer ⟨client, now⟩ = false) :
    ∃ w, ((fresh limit length).after before).windows[client]? = some w
      ∧ w.opened ≤ now ∧ now - w.opened < length
      ∧ (allowedCount client (fun a => w.opened ≤ a ∧ now - a < length)
          ((fresh limit length).answers before) : Int) = limit
      ∧ (((fresh limit length).after before).afterCall ⟨client, now⟩).windows[client]? = some w := by
  obtain ⟨hbefore, -, hnow⟩ := List.pairwise_append.mp hcalls
  have hlimit' : 0 < ((fresh limit length).after before).limit := by
    rw [limit_after]
    exact hlimit
  obtain ⟨w, hheld, hw, hfull, hkept⟩ := window_of_refused hlimit' hrefused
  rw [limit_after] at hfull
  -- the window that the call falls into is that of the client's own calls
  have hcurrent := holds_after client hcalls hlimit (Holds.fresh limit length client _)
    ⟨client, now⟩ List.mem_cons_self
  have hle : ∀ a ∈ timesOf client before, a ≤ now := by
    intro a ha
    obtain ⟨c, hc, rfl⟩ := List.mem_map.mp ha
    exact hnow c (List.mem_of_mem_filter hc) _ List.mem_cons_self
  have htally : Window.Tally limit length now
      (Window.allowedTimes (Window.answers limit length none (timesOf client before))) w := by
    have h := Window.tally_of_answers (le_of_lt hlimit) hlength (pairwise_timesOf hbefore client) hle
    rw [hw] at hcurrent
    rw [hcurrent, length_after]
    exact h
  refine ⟨w, hheld, htally.opened_le, htally.running, ?_, hkept⟩
  -- what was allowed since the window opened is not older than the window
  have hsince : ∀ a : τ, (w.opened ≤ a ∧ now - a < length) ↔ w.opened ≤ a := by
    intro a
    refine ⟨And.left, fun ha => ⟨ha, ?_⟩⟩
    exact lt_of_le_of_lt (sub_le_sub _ _ _ _ (le_refl now) ha) htally.running
  rw [allowedCount_answers hlimit hbefore client]
  simp only [hsince]
  rw [← htally.count_eq]
  exact le_antisymm htally.count_le hfull

omit [SteadySeconds τ] in
/-- **The limit is kept over any stretch of time, and no call is refused without a cause**: at most
twice the limit of a client's calls are allowed in a stretch as long as a window, and when one is
refused, the limit was used up by calls that the client has made since its window opened. -/
theorem refusals_justified [LinearSeconds τ] {limit : Int} {length : τ} (hlimit : 0 < limit)
    (hlength : 0 < length) {calls : List (Call τ)} (hcalls : InTurn calls) (client : Text) :
    (∀ t, (allowedCount client (fun now => t ≤ now ∧ now < t + length)
        ((fresh limit length).answers calls) : Int) ≤ 2 * limit)
      ∧ ∀ before now rest, calls = before ++ ⟨client, now⟩ :: rest →
        ((fresh limit length).after before).answer ⟨client, now⟩ = false →
        ∃ w, ((fresh limit length).after before).windows[client]? = some w
          ∧ w.opened ≤ now ∧ now < w.opened + length
          ∧ (allowedCount client (fun a => w.opened ≤ a ∧ now < a + length)
              ((fresh limit length).answers before) : Int) = limit
          ∧ (((fresh limit length).after before).afterCall ⟨client, now⟩).windows[client]?
            = some w := by
  simp only [LinearSeconds.lt_add_iff]
  refine ⟨allowedCount_stretch_le hlimit hlength hcalls client, ?_⟩
  rintro before now rest rfl hrefused
  exact window_of_refused_run hlimit hlength hcalls hrefused

/-- A client and another one call before the client calls once more. -/
def early : List (Call Int) := [⟨me, 0⟩, ⟨"you", 5⟩]

/-- The second call of the client comes within a minute of its first. -/
theorem refusals_justified_early : InTurn (early ++ [⟨me, 59⟩])
    ∧ ((fresh 1 60).after early).answer ⟨me, 59⟩ = false
    ∧ (∀ t, (allowedCount me (fun now => t ≤ now ∧ now < t + 60)
        ((fresh 1 60).answers (early ++ [⟨me, 59⟩])) : Int) ≤ 2)
    ∧ ∃ w, ((fresh 1 60).after early).windows[me]? = some w
      ∧ w.opened ≤ 59 ∧ 59 < w.opened + 60
      ∧ (allowedCount me (fun a => w.opened ≤ a ∧ 59 < a + 60)
          ((fresh 1 60).answers early) : Int) = 1
      ∧ (((fresh 1 60).after early).afterCall ⟨me, 59⟩).windows[me]? = some w := by
  have hinTurn : InTurn (early ++ [⟨me, 59⟩]) := by simp [InTurn, early]
  have hrefused : ((fresh 1 60).after early).answer ⟨me, 59⟩ = false := by
    have hheld := holds_after me hinTurn (by decide) (Holds.fresh 1 60 me _) ⟨me, 59⟩
      List.mem_cons_self
    rw [length_after] at hheld
    rw [answer_eq (by rw [limit_after]; decide), length_after, hheld, limit_after]
    decide
  obtain ⟨hstretch, hcause⟩ := refusals_justified (by decide : (0 : Int) < 1)
    (by decide : (0 : Int) < 60) hinTurn me
  exact ⟨hinTurn, hrefused, hstretch, hcause early 59 [] rfl hrefused⟩

end RateLimiter

end CompileGate
