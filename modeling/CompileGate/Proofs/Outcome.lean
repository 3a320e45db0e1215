/-
CompileGate/Proofs/Outcome.lean

The two outcomes of an effect.  An effect that starts in a state returns a value
or fails, and leaves a state either way:

    Ensures m s done failed

says that `done` holds of the value and the state of a run that returns, and
`failed` of the failure and the state of one that does not.  One statement thus
covers the runs that fail as well, and a loop invariant that must survive a
failure is put on both sides.

The rules take an effect apart along its construction; each is an equivalence,
so nothing is lost by using it.
-/
import CompileGate.World

namespace CompileGate
namespace Effect

variable {τ σ α β : Type}

/-- What the outcomes of `m`, run in the state `s`, must satisfy. -/
def Ensures (m : Effect τ σ α) (s : σ) (done : α → σ → Prop) (failed : Failure τ → σ → Prop) :
    Prop :=
  match m s with
  | .ok a t => done a t
  | .error e t => failed e t

variable {m : Effect τ σ α} {s t : σ} {done done' : α → σ → Prop}
variable {failed failed' : Failure τ → σ → Prop}

/-! ### Reading an outcome off -/

/-- What is ensured holds where the run returns. -/
theorem Ensures.of_ok {a : α} (h : Ensures m s done failed) (hm : m s = .ok a t) : done a t := by
  rw [Ensures, hm] at h
  exact h

theorem Ensures.of_error {e : Failure τ} (h : Ensures m s done failed)
    (hm : m s = .error e t) : failed e t := by
  rw [Ensures, hm] at h
  exact h

/-- To ensure something is to show it for the outcome that there is. -/
theorem Ensures.of_run (hdone : ∀ a t, m s = .ok a t → done a t)
    (hfailed : ∀ e t, m s = .error e t → failed e t) : Ensures m s done failed := by
  unfold Ensures
  cases hm : m s with
  | ok a t => exact hdone a t hm
  | error e t => exact hfailed e t hm

theorem Ensures.mono (h : Ensures m s done failed) (hdone : ∀ a t, done a t → done' a t)
    (hfailed : ∀ e t, failed e t → failed' e t) : Ensures m s done' failed' := by
  unfold Ensures at h ⊢
  cases hm : m s with
  | ok a t => rw [hm] at h; exact hdone a t h
  | error e t => rw [hm] at h; exact hfailed e t h

/-- The state in which `m`, run in the state `s`, ends, whether it returns or fails. -/
def final (m : Effect τ σ α) (s : σ) : σ :=
  match m s with
  | .ok _ t => t
  | .error _ t => t

/-- A property ensured of both outcomes holds where the run ends. -/
theorem Ensures.final {P : σ → Prop} (h : Ensures m s (fun _ => P) fun _ => P) :
    P (final m s) := by
  unfold Effect.final
  cases hm : m s with
  | ok a t => exact h.of_ok hm
  | error e t => exact h.of_error hm

/-! ### Taking an effect apart -/

/-- A run that returns hands over to the next. -/
theorem bind_of_ok {f : α → Effect τ σ β} {a : α} (h : m s = .ok a t) :
    (m >>= f) s = f a t := by
  simp only [bind, EStateM.bind, h]

theorem bind_of_error {f : α → Effect τ σ β} {e : Failure τ} (h : m s = .error e t) :
    (m >>= f) s = .error e t := by
  simp only [bind, EStateM.bind, h]

@[simp] theorem ensures_pure {a : α} : Ensures (pure a) s done failed ↔ done a s := Iff.rfl

/-- The second effect has to do its part from every outcome of the first. -/
theorem ensures_bind {f : α → Effect τ σ β} {done : β → σ → Prop} :
    Ensures (m >>= f) s done failed
      ↔ Ensures m s (fun a t => Ensures (f a) t done failed) failed := by
  simp only [Ensures, bind, EStateM.bind]
  cases m s with
  | ok a t => exact Iff.rfl
  | error e t => exact Iff.rfl

@[simp] theorem ensures_get {done : σ → σ → Prop} :
    Ensures get s done failed ↔ done s s := Iff.rfl

@[simp] theorem ensures_set {done : PUnit → σ → Prop} :
    Ensures (set t) s done failed ↔ done ⟨⟩ t := Iff.rfl

@[simp] theorem ensures_modify {f : σ → σ} {done : PUnit → σ → Prop} :
    Ensures (modify f) s done failed ↔ done ⟨⟩ (f s) := Iff.rfl

@[simp] theorem ensures_throw {e : Failure τ} :
    Ensures (throw e : Effect τ σ α) s done failed ↔ failed e s := Iff.rfl

@[simp] theorem ensures_abort {e : GatewayError τ} :
    Ensures (World.abort e : Effect τ σ α) s done failed ↔ failed (.gateway e) s := Iff.rfl

/-- A pure step leaves the state as it is. -/
theorem ensures_lift {x : Except (Failure τ) α} :
    Ensures (World.lift x) s done failed
      ↔ (∀ a, x = .ok a → done a s) ∧ ∀ e, x = .error e → failed e s := by
  cases x with
  | ok a => simp [World.lift]
  | error e => simp [World.lift]

end Effect

end CompileGate
