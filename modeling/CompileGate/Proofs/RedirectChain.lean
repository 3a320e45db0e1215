/-
CompileGate/Proofs/RedirectChain.lean

The requests of one download, hop by hop.

`Redirected ctx fetchTimeout url w hops current v` says that a download of `url`
that starts in the world `w` has been sent on `hops` times, is about to request
`current`, and finds the world `v`.  Every hop but the last is an answer with a
status that redirects, a location that is not empty, and a target on the
allow-list.

A download is the same as the download of what is left after some hops
(`download_eq_of_redirected`), so a property of its outcome is a property of its
last hop.  The requests themselves are read off the trace (`requestedUrls`).
-/
import CompileGate.FetchCache
import CompileGate.Proofs.Outcome

namespace CompileGate

open Effect

variable {τ : Type}

/-! ### The requests of a trace -/

/-- The URL that an effect requests. -/
def Event.url? : Event τ → Option Text
  | .requested url _ => some url
  | _ => none

namespace World

/-- The URLs requested so far, in order. -/
def requestedUrls (w : World τ) : List Text := w.events.filterMap Event.url?

theorem requestedUrls_congr {w v : World τ} (h : v.trace = w.trace) :
    v.requestedUrls = w.requestedUrls := by
  rw [requestedUrls, requestedUrls, events, events, h]

theorem requestedUrls_record (event : Event τ) (w : World τ) :
    (w.record event).requestedUrls = w.requestedUrls ++ event.url?.toList := by
  have hevents : (w.record event).events = w.events ++ [event] := by
    simp [events, record]
  rw [requestedUrls, hevents, List.filterMap_append, requestedUrls]
  cases h : event.url? with
  | none => simp [h]
  | some url => simp [h]

variable [Seconds τ]

/-- Looking an answer up changes the list of answers to come and nothing else. -/
theorem exists_routes_nextAnswer (url : Text) (w : World τ) :
    ∃ routes, (nextAnswer url w).2 = { w with routes := routes } := by
  unfold nextAnswer
  split
  · exact ⟨w.routes, rfl⟩
  · exact ⟨w.routes, rfl⟩
  · exact ⟨w.routes, rfl⟩
  -- the one case that takes an answer off the list
  · exact ⟨_, rfl⟩

/-- A request is recorded, whatever it meets. -/
theorem request_ensures (url : Text) (timeout : τ) (w : World τ) :
    Ensures (request url timeout) w
      (fun _ v => v.requestedUrls = w.requestedUrls ++ [url]) fun _ _ => False := by
  have hlast : (nextAnswer url (w.record (.requested url timeout))).2.requestedUrls
      = w.requestedUrls ++ [url] := by
    obtain ⟨routes, hrest⟩ := exists_routes_nextAnswer url (w.record (.requested url timeout))
    rw [hrest]
    exact requestedUrls_record (.requested url timeout) w
  exact hlast

end World

/-! ### Effects that request nothing -/

/-- No run of the effect, whether it returns or fails, requests a URL. -/
def Effect.Silent {α : Type} (m : Effect τ (World τ) α) : Prop :=
  ∀ w, Ensures m w (fun _ v => v.requestedUrls = w.requestedUrls)
    fun _ v => v.requestedUrls = w.requestedUrls

namespace Effect.Silent

variable {α β : Type} {m : Effect τ (World τ) α}

theorem pure (a : α) : Silent (τ := τ) (Pure.pure a) := fun _ => rfl

theorem abort (e : GatewayError τ) : Silent (World.abort e : Effect τ (World τ) α) := fun _ => rfl

theorem throw (e : Failure τ) : Silent (MonadExcept.throw e : Effect τ (World τ) α) := fun _ => rfl

theorem bind {f : α → Effect τ (World τ) β} (hm : Silent m) (hf : ∀ a, Silent (f a)) :
    Silent (m >>= f) := by
  intro w
  rw [ensures_bind]
  refine (hm w).mono ?_ fun _ _ h => h
  intro a v hv
  refine (hf a v).mono (fun _ _ h => h.trans hv) fun _ _ h => h.trans hv

theorem log (level : Int) (logger message : Text) (extras : Table Json) :
    Silent (World.log (τ := τ) level logger message extras) := by
  intro w
  show (w.record _).requestedUrls = w.requestedUrls
  rw [World.requestedUrls_record]
  exact List.append_nil _

end Effect.Silent

namespace FetchCache

theorem silent_clock : Silent (World.clock (τ := τ)) := fun _ => rfl

theorem ensures_clock {w : World τ} {done : τ → World τ → Prop}
    {failed : Failure τ → World τ → Prop} :
    Ensures World.clock w done failed ↔ done w.now w := Iff.rfl

variable [Seconds τ]

theorem silent_checkDeadline (ctx : Context τ) (url : Text) : Silent (checkDeadline ctx url) := by
  refine silent_clock.bind fun now => ?_
  split
  · exact .abort _
  · exact .pure _

theorem silent_readParts (ctx : Context τ) (url : Text) (maxBytes : Option Int)
    (parts : List (BodyPart τ)) (size : Nat) (done : List (List UInt8)) :
    Silent (readParts ctx url maxBytes size done parts) := by
  -- the cases are those of `readParts`: the kinds of the first part
  fun_induction readParts ctx url maxBytes size done parts with
  | case1 => exact .pure _
  | case2 size done delay rest ih =>
    have hwait : Silent (World.wait (τ := τ) delay) := fun _ => rfl
    exact hwait.bind fun _ => ih
  | case3 => exact .abort _
  | case4 => exact .throw _
  | case5 size done rest ih => exact ih
  | case6 size done b bytes rest ih =>
    refine (silent_checkDeadline ctx url).bind fun _ => ?_
    dsimp only
    split
    · exact .abort _
    · exact ih

theorem silent_failRequest {α : Type} (ctx : Context τ) (url : Text) (timeout : τ) (f : Fault) :
    Silent (failRequest (α := α) ctx url timeout f) := by
  unfold failRequest
  split
  · exact (silent_checkDeadline ctx url).bind fun _ => .abort _
  · split
    · exact .abort _
    · exact .throw _

/-- Looking at the clock leaves the world as it is. -/
theorem timeoutFor_ensures (ctx : Context τ) (fetchTimeout : τ) (url : Text) (w : World τ) :
    Ensures (timeoutFor ctx fetchTimeout url) w (fun _ v => v = w) fun _ v => v = w := by
  rw [timeoutFor, ensures_bind]
  have hcheck : Ensures (checkDeadline ctx url) w (fun _ v => v = w) fun _ v => v = w := by
    rw [checkDeadline, ensures_bind, ensures_clock]
    split
    · exact rfl
    · exact rfl
  refine hcheck.mono ?_ fun _ _ h => h
  rintro - v rfl
  rw [ensures_bind, ensures_clock]
  split
  · exact rfl
  · exact rfl

/-! ### Hops -/

variable {ctx : Context τ} {fetchTimeout : τ} {url : Text} {w : World τ}

/-- In the world `w` there is time to request `current`, and it is answered by `response`; `v` is
the world right after. -/
def Answered (ctx : Context τ) (fetchTimeout : τ) (current : Text) (w : World τ)
    (response : Response τ) (v : World τ) : Prop :=
  ∃ timeout, timeoutFor ctx fetchTimeout current w = .ok timeout w
    ∧ World.request current timeout w = .ok (.ok response) v

/-- The URL that a location names at `current`, whatever its host. -/
def locate (current location : Text) : Except Url.Defect Text :=
  Url.join current location >>= Url.canonical

/-- A download of `url` that starts in the world `w` is sent on `hops` times and comes to request
`current` in the world `v`. -/
inductive Redirected (ctx : Context τ) (fetchTimeout : τ) (url : Text) (w : World τ) :
    (hops : Nat) → Text → World τ → Prop
  | start : Redirected ctx fetchTimeout url w 0 url w
  | hop {hops current v response location next v'} :
      Redirected ctx fetchTimeout url w hops current v →
      Answered ctx fetchTimeout current v response v' → redirect? response = some location →
      nextHop ctx current location = .ok next →
      Redirected ctx fetchTimeout url w (hops + 1) next v'

theorem requestedUrls_of_answered {current : Text} {v v' : World τ} {response : Response τ}
    (h : Answered ctx fetchTimeout current v response v') :
    v'.requestedUrls = v.requestedUrls ++ [current] := by
  obtain ⟨timeout, -, hr⟩ := h
  exact (World.request_ensures current timeout v).of_ok hr

/-- A download that is sent on goes on with the URL it is sent to, or fails for want of one. -/
theorem download_eq_of_answered (maxBytes : Option Int) (left : Nat) {current location : Text}
    {v v' : World τ} {response : Response τ}
    (h : Answered ctx fetchTimeout current v response v')
    (hlocation : redirect? response = some location) :
    download ctx fetchTimeout url maxBytes (left + 1) current v
      = match nextHop ctx current location with
        | .ok next => download ctx fetchTimeout url maxBytes left next v'
        | .error e => .error e v' := by
  obtain ⟨timeout, ht, hr⟩ := h
  rw [download, bind_of_ok ht, bind_of_ok hr]
  simp only [hlocation]
  cases nextHop ctx current location with
  | ok next => rfl
  | error e => rfl

/-- Some hops later, the same download is one from where these hops have led. -/
theorem download_eq_of_redirected (maxBytes : Option Int) {hops left : Nat} {current : Text}
    {v : World τ} (h : Redirected ctx fetchTimeout url w hops current v) :
    download ctx fetchTimeout url maxBytes (left + hops) url w
      = download ctx fetchTimeout url maxBytes left current v := by
  induction h generalizing left with
  | start => rfl
  | @hop hops current v response location next v' _ hanswered hlocation hnext ih =>
    have hsum : left + (hops + 1) = left + 1 + hops := by omega
    rw [hsum, ih, download_eq_of_answered maxBytes left hanswered hlocation, hnext]

end FetchCache

end CompileGate
