/-
CompileGate/Proofs/BodyLimit.lean

The limit on a body is exact, however the body is cut.

A body comes in parts; a part may be empty, late or a single byte.  Of some parts
`Brings` says only which bytes they bring together, and by these alone a get is
decided (`fetch_of_answeredWith`): with no deadline it fails at the limit if and
only if the body is longer, and is the text of all bytes otherwise.

Reading takes away nothing but the answers that it was given.  So when a URL
`LeadsTo` a text, through redirects or at once, and whichever of its answers are
still to come, it does so after any other get (`LeadsTo.of_thinner`).
-/
import CompileGate.Proofs.RedirectChain
import CompileGate.Proofs.SessionWalk
import CompileGate.Proofs.ResolvedUrl

namespace CompileGate

open Effect

variable {τ : Type}

/-! ### Outcomes without the state -/

/-- What an effect comes to, apart from the state it leaves. -/
def Effect.outcome {σ α : Type} (m : Effect τ σ α) (s : σ) : Except (Failure τ) α :=
  match m s with
  | .ok a _ => .ok a
  | .error e _ => .error e

/-! ### Parts of a body -/

/-- The parts bring these bytes, cut in any way and at any time, and no fault. -/
inductive Brings : List (BodyPart τ) → List UInt8 → Prop
  | nil : Brings [] []
  | bytes (chunk : List UInt8) {parts bytes} : Brings parts bytes →
      Brings (.bytes chunk :: parts) (chunk ++ bytes)
  | wait (delay : τ) {parts bytes} : Brings parts bytes → Brings (.wait delay :: parts) bytes

/-- Slices bring what they are cut from. -/
theorem brings_slices {size : Nat} (hsize : 0 < size) {count : Nat} {bytes : List UInt8}
    (hcount : bytes.length ≤ count) :
    Brings (τ := τ) ((slices size count bytes).map .bytes) bytes := by
  induction count generalizing bytes with
  | zero =>
    obtain rfl := List.eq_nil_of_length_eq_zero (Nat.le_zero.mp hcount)
    exact .nil
  | succ count ih =>
    cases bytes with
    | nil => exact .nil
    | cons b bytes =>
      have hrest : ((b :: bytes).drop size).length ≤ count := by
        rw [List.length_drop]
        omega
      have h := Brings.bytes ((b :: bytes).take size) (ih hrest)
      rw [List.take_append_drop] at h
      exact h

/-- A whole body brings itself. -/
theorem brings_whole {size : Nat} (hsize : 0 < size) (bytes : List UInt8) :
    Brings (Body.read (τ := τ) size (.whole bytes)) bytes :=
  brings_slices hsize (le_refl _)

namespace FetchCache

variable [Seconds τ] {ctx : Context τ} {fetchTimeout : τ}

/-- The failure of a body that is too long. -/
def tooLong (ctx : Context τ) (url : Text) : Failure τ :=
  .gateway (.resourceLimitExceeded .totalBytes ctx.maxTotalBytes none (some url))

theorem isOver_eq_false (hdeadline : ctx.deadline = none) (now : τ) : ctx.isOver now = false := by
  rw [Context.isOver, Context.secondsLeft, hdeadline]
  rfl

/-- Without a deadline nothing is too late. -/
theorem checkDeadline_eq_ok (hdeadline : ctx.deadline = none) (url : Text) (w : World τ) :
    checkDeadline ctx url w = .ok () w := by
  have hclock : World.clock w = .ok w.now w := rfl
  rw [checkDeadline, bind_of_ok hclock, isOver_eq_false hdeadline]
  rfl

theorem timeoutFor_eq_ok (hdeadline : ctx.deadline = none) (url : Text) (w : World τ) :
    timeoutFor ctx fetchTimeout url w = .ok fetchTimeout w := by
  have hclock : World.clock w = .ok w.now w := rfl
  rw [timeoutFor, bind_of_ok (checkDeadline_eq_ok hdeadline url w), bind_of_ok hclock,
    Context.secondsLeft, hdeadline]
  rfl

/-- Reading fails at the limit or reads everything, according to how much there is in all. -/
theorem readParts_of_brings (hdeadline : ctx.deadline = none) (url : Text) {limit : Int}
    {parts : List (BodyPart τ)} {bytes : List UInt8} (h : Brings parts bytes) {size : Nat}
    (done : List (List UInt8)) (w : World τ) (hsize : (size : Int) ≤ limit) :
    Ensures (readParts ctx url (some limit) size done parts) w
      (fun read v => ((size + bytes.length : Nat) : Int) ≤ limit
        ∧ read = done.reverse.flatten ++ bytes ∧ v.routes = w.routes)
      fun e v => limit < ((size + bytes.length : Nat) : Int) ∧ e = tooLong ctx url
        ∧ v.routes = w.routes := by
  -- along the parts left; what is read so far moves over to `done`
  induction h generalizing size done w with
  | nil =>
    rw [readParts, ensures_pure]
    exact ⟨hsize, (List.append_nil _).symm, rfl⟩
  | wait delay _ ih =>
    rw [readParts, ensures_bind]
    exact ih done (w.advance delay) hsize
  | @bytes chunk parts bytes _ ih =>
    cases chunk with
    | nil =>
      rw [readParts]
      exact ih done w hsize
    | cons b chunk =>
      rw [readParts, ensures_bind, Ensures, checkDeadline_eq_ok hdeadline]
      dsimp only
      have hlength : size + (b :: chunk ++ bytes).length
          = size + (b :: chunk).length + bytes.length := by
        rw [List.length_append, Nat.add_assoc]
      rw [hlength]
      by_cases hlimit : limit < ((size + (b :: chunk).length : Nat) : Int)
      · have hlong : limit < ((size + (b :: chunk).length + bytes.length : Nat) : Int) := by
          omega
        simp only [Option.any_some, decide_eq_true_eq]
        rw [if_pos hlimit]
        exact ⟨hlong, rfl, rfl⟩
      · simp only [Option.any_some, decide_eq_true_eq]
        rw [if_neg hlimit]
        refine (ih ((b :: chunk) :: done) w (Int.not_lt.mp hlimit)).mono ?_ fun _ _ h => h
        rintro read v ⟨hle, rfl, hroutes⟩
        refine ⟨hle, ?_, hroutes⟩
        rw [List.reverse_cons, List.flatten_concat, List.append_assoc]

/-! ### One get -/

/-- A download of `url` that starts in the world `w` comes, within the redirects that are followed,
to an answer of success whose body brings `bytes`; `v` is the world right after that answer. -/
def AnsweredWith (ctx : Context τ) (fetchTimeout : τ) (url : Text) (w : World τ)
    (bytes : List UInt8) (v : World τ) : Prop :=
  ∃ hops current u response, Redirected ctx fetchTimeout url w hops current u
    ∧ hops ≤ maxRedirects ∧ Answered ctx fetchTimeout current u response v
    ∧ redirect? response = none ∧ 200 ≤ response.status ∧ response.status < 300
    ∧ Brings (response.body.read chunkSize) bytes

theorem download_of_answeredWith (hdeadline : ctx.deadline = none) {url : Text} {limit : Int}
    (hlimit : 0 ≤ limit) {w v : World τ} {bytes : List UInt8}
    (h : AnsweredWith ctx fetchTimeout url w bytes v) :
    Ensures (download ctx fetchTimeout url (some limit) (maxRedirects + 1) url) w
      (fun read u => (bytes.length : Int) ≤ limit ∧ read = bytes ∧ u.routes = v.routes)
      fun e u => limit < bytes.length ∧ e = tooLong ctx url ∧ u.routes = v.routes := by
  obtain ⟨hops, current, u, response, hchain, hhops, ⟨timeout, ht, hr⟩, hlocation, hge, hlt,
    hbody⟩ := h
  have hsum : maxRedirects + 1 = maxRedirects - hops + 1 + hops := by omega
  have hlast : download ctx fetchTimeout url (some limit) (maxRedirects - hops + 1) current u
      = readParts ctx url (some limit) 0 [] (response.body.read chunkSize) v := by
    rw [download, bind_of_ok ht, bind_of_ok hr]
    simp only [hlocation]
    rw [if_pos ⟨hge, hlt⟩]
  have hread := readParts_of_brings hdeadline url hbody [] v (Int.natCast_zero ▸ hlimit)
  rw [Nat.zero_add] at hread
  rw [Ensures, hsum, download_eq_of_redirected (some limit) hchain, hlast]
  exact hread

/-- A get of a text that is not there fails at the limit or puts the text into the cache. -/
theorem fetch_of_answeredWith (hdeadline : ctx.deadline = none) {url : Text} {limit : Int}
    (hlimit : 0 ≤ limit) {s : Session τ} (hmiss : Table.get? url s.cache.texts = none)
    (hurl : Allowed ctx url) {bytes : List UInt8} {v : World τ}
    (h : AnsweredWith ctx fetchTimeout url s.world bytes v) :
    Ensures (fetch ctx fetchTimeout url (some limit)) s
      (fun text t => (bytes.length : Int) ≤ limit ∧ text = Utf8.decodeLenient bytes
        ∧ t.cache.texts = Table.insert url text s.cache.texts ∧ t.world.routes = v.routes)
      fun e _ => limit < bytes.length ∧ e = tooLong ctx url := by
  rw [fetch, ensures_bind, ensures_get]
  simp only [hmiss]
  rw [ensures_bind, ensures_lift, assertAllowed_eq, if_pos hurl]
  refine ⟨fun url' _ => ?_, fun e he => nomatch he⟩
  rw [ensures_bind, Session.ensures_onWorld]
  refine (download_of_answeredWith hdeadline hlimit h).mono ?_ ?_
  · rintro read u ⟨hle, rfl, hroutes⟩
    rw [ensures_bind, ensures_modify, ensures_bind, Session.ensures_onWorld]
    exact ⟨hle, rfl, rfl, hroutes⟩
  · rintro e u ⟨hlt, rfl, -⟩
    exact ⟨hlt, rfl⟩

/-- The outcome of a get depends on the length of the body and not on its parts. -/
theorem outcome_fetch (hdeadline : ctx.deadline = none) {url : Text} {limit : Int}
    (hlimit : 0 ≤ limit) {s : Session τ} (hmiss : Table.get? url s.cache.texts = none)
    (hurl : Allowed ctx url) {bytes : List UInt8} {v : World τ}
    (h : AnsweredWith ctx fetchTimeout url s.world bytes v) :
    outcome (fetch ctx fetchTimeout url (some limit)) s
      = if limit < bytes.length then .error (tooLong ctx url)
        else .ok (Utf8.decodeLenient bytes) := by
  have hfetch := fetch_of_answeredWith hdeadline hlimit hmiss hurl h
  unfold outcome
  cases hrun : fetch ctx fetchTimeout url (some limit) s with
  | ok text t =>
    obtain ⟨hle, rfl, -⟩ := hfetch.of_ok hrun
    rw [if_neg (Int.not_lt.mpr hle)]
  | error e t =>
    obtain ⟨hlt, rfl⟩ := hfetch.of_error hrun
    rw [if_pos hlt]

/-! ### Answers to come -/

/-- Every URL that had answers to come still has some of them, and no others. -/
def Thins (routes routes' : Table (List (Answer τ))) : Prop :=
  ∀ url answers, Table.get? url routes = some answers → answers ≠ [] →
    ∃ rest, Table.get? url routes' = some rest ∧ rest ≠ [] ∧ rest ⊆ answers

omit [Seconds τ] in
theorem Thins.refl (routes : Table (List (Answer τ))) : Thins routes routes :=
  fun _ answers hget hne => ⟨answers, hget, hne, List.Subset.refl answers⟩

omit [Seconds τ] in
theorem Thins.trans {routes routes' routes'' : Table (List (Answer τ))} (h : Thins routes routes')
    (h' : Thins routes' routes'') : Thins routes routes'' := by
  intro url answers hget hne
  obtain ⟨rest, hget', hne', hsub⟩ := h url answers hget hne
  obtain ⟨rest', hget'', hne'', hsub'⟩ := h' url rest hget' hne'
  exact ⟨rest', hget'', hne'', List.Subset.trans hsub' hsub⟩

/-- The next answer is one of those to come, and no more than that is taken away. -/
theorem nextAnswer_spec {url : Text} {w : World τ} {answers : List (Answer τ)}
    (hget : Table.get? url w.routes = some answers) (hne : answers ≠ []) :
    (World.nextAnswer url w).1 ∈ answers ∧ Thins w.routes (World.nextAnswer url w).2.routes := by
  match answers, hne with
  | [a], _ =>
    rw [World.nextAnswer, hget]
    exact ⟨List.mem_cons_self, Thins.refl w.routes⟩
  | a :: b :: rest, _ =>
    rw [World.nextAnswer, hget]
    refine ⟨List.mem_cons_self, ?_⟩
    intro url' answers' hget' hne'
    rw [Table.get?_insert]
    by_cases h : url' = url
    · obtain rfl : a :: b :: rest = answers' := by
        rw [h, hget] at hget'
        exact Option.some.inj hget'
      exact ⟨b :: rest, if_pos h, List.cons_ne_nil b rest, List.subset_cons_self a _⟩
    · exact ⟨answers', by rw [if_neg h, hget'], hne', List.Subset.refl answers'⟩

theorem exists_request {url : Text} {w : World τ} {answers : List (Answer τ)} (timeout : τ)
    (hget : Table.get? url w.routes = some answers) (hne : answers ≠ []) :
    ∃ a ∈ answers, ∃ v, World.request url timeout w = .ok a.outcome v
      ∧ Thins w.routes v.routes := by
  have hget' : Table.get? url (w.record (.requested url timeout)).routes = some answers := hget
  obtain ⟨hmem, hthins⟩ := nextAnswer_spec hget' hne
  exact ⟨_, hmem, _, rfl, hthins⟩

/-- Whichever of its answers come, `url` leads to `text` in at most `left` requests: each answer is
a success whose body says `text`, or it sends on to a URL that leads there. -/
def LeadsTo (ctx : Context τ) (routes : Table (List (Answer τ))) (text : Text) :
    (left : Nat) → (url : Text) → Prop
  | 0, _ => False
  | left + 1, url =>
    ∃ answers, Table.get? url routes = some answers ∧ answers ≠ []
      ∧ ∀ a ∈ answers, ∃ response, a.outcome = .ok response
        ∧ match redirect? response with
          | some location =>
            ∃ next, nextHop ctx url location = .ok next ∧ LeadsTo ctx routes text left next
          | none => 200 ≤ response.status ∧ response.status < 300
            ∧ ∃ bytes, Brings (response.body.read chunkSize) bytes
              ∧ Utf8.decodeLenient bytes = text

omit [Seconds τ] in
theorem LeadsTo.of_thins {routes routes' : Table (List (Answer τ))} (hthins : Thins routes routes')
    {text : Text} {left : Nat} {url : Text} (h : LeadsTo ctx routes text left url) :
    LeadsTo ctx routes' text left url := by
  induction left generalizing url with
  | zero => exact h
  | succ left ih =>
    obtain ⟨answers, hget, hne, hall⟩ := h
    obtain ⟨rest, hget', hne', hsub⟩ := hthins url answers hget hne
    refine ⟨rest, hget', hne', fun a ha => ?_⟩
    obtain ⟨response, houtcome, hresponse⟩ := hall a (hsub ha)
    refine ⟨response, houtcome, ?_⟩
    cases hlocation : redirect? response with
    | some location =>
      rw [hlocation] at hresponse
      obtain ⟨next, hnext, hleads⟩ := hresponse
      exact ⟨next, hnext, ih hleads⟩
    | none =>
      rw [hlocation] at hresponse
      exact hresponse

/-- What leads to a text is answered with bytes that say it. -/
theorem exists_answeredWith (hdeadline : ctx.deadline = none) {url text : Text} {w : World τ}
    {left hops : Nat} {current : Text} {u : World τ}
    (hchain : Redirected ctx fetchTimeout url w hops current u)
    (hsum : left + hops = maxRedirects + 1) (h : LeadsTo ctx u.routes text left current) :
    ∃ bytes v, AnsweredWith ctx fetchTimeout url w bytes v ∧ Utf8.decodeLenient bytes = text
      ∧ Thins u.routes v.routes := by
  -- along the requests left; those made so far move over to the chain
  induction left generalizing hops current u with
  | zero => exact h.elim
  | succ left ih =>
    obtain ⟨answers, hget, hne, hall⟩ := h
    obtain ⟨a, ha, v, hrequest, hthins⟩ := exists_request fetchTimeout hget hne
    obtain ⟨response, houtcome, hresponse⟩ := hall a ha
    rw [houtcome] at hrequest
    have hanswered : Answered ctx fetchTimeout current u response v :=
      ⟨fetchTimeout, timeoutFor_eq_ok hdeadline current u, hrequest⟩
    cases hlocation : redirect? response with
    | some location =>
      rw [hlocation] at hresponse
      obtain ⟨next, hnext, hleads⟩ := hresponse
      obtain ⟨bytes, v', hanswer, htext, hthins'⟩ :=
        ih (hchain.hop hanswered hlocation hnext) (by omega) (hleads.of_thins hthins)
      exact ⟨bytes, v', hanswer, htext, hthins.trans hthins'⟩
    | none =>
      rw [hlocation] at hresponse
      obtain ⟨hge, hlt, bytes, hbody, htext⟩ := hresponse
      exact ⟨bytes, v, ⟨hops, current, u, response, hchain, by omega, hanswered, hlocation, hge,
        hlt, hbody⟩, htext, hthins⟩

end FetchCache

end CompileGate
