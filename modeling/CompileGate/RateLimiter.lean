/-
CompileGate/RateLimiter.lean

Limits how many requests a client may make in a window of time.  A window opens
with a client's first request after its last window has run out, and a refused
request does not prolong it.  When very many windows are held, those that have
run out are dropped; their clients would open a new one anyway.
-/
import CompileGate.Seconds
import Std.Data.HashMap

namespace CompileGate

/-- A window of a client: when it opened and how many requests it has allowed. -/
structure Window (τ : Type) where
  opened : τ
  count : Int

/-- The windows of all clients.  A limit of zero or less allows everything. -/
structure RateLimiter (τ : Type) where
  limit : Int
  length : τ
  windows : Std.HashMap Text (Window τ)

namespace RateLimiter

variable {τ : Type} [Seconds τ]

/-- A limiter that has seen no request. -/
def fresh (limit : Int) (length : τ) : RateLimiter τ := ⟨limit, length, ∅⟩

/-- How many windows may be held before those that have run out are dropped. -/
def capacity : Nat := 10000

/-- Whether a window has run out. -/
def hasRunOut (length now : τ) (w : Window τ) : Bool := length ≤ now - w.opened

/-- The window that a request at `now` falls into, given the one that is held. -/
def current (length now : τ) : Option (Window τ) → Window τ
  | none => ⟨now, 0⟩
  | some w => if hasRunOut length now w then ⟨now, 0⟩ else w

/-- The windows that have not run out. -/
def dropRunOut (length now : τ) (windows : Std.HashMap Text (Window τ)) :
    Std.HashMap Text (Window τ) :=
  windows.filter fun _ w => now - w.opened < length

/-- Whether a client may make a request at `now`, and the limiter afterwards. -/
def allow (now : τ) (client : Text) (r : RateLimiter τ) : Bool × RateLimiter τ :=
  if r.limit ≤ 0 then (true, r)
  else
    let w := current r.length now r.windows[client]?
    if r.limit ≤ w.count then (false, { r with windows := r.windows.insert client w })
    else
      let windows := r.windows.insert client { w with count := w.count + 1 }
      (true, { r with windows :=
        if capacity < windows.size then dropRunOut r.length now windows else windows })

end RateLimiter

end CompileGate
