/-
CompileGate/Proofs/FollowedChain.lean

The chain of redirects that one get follows.

The requests of a get and what they meet are its hops (`Hop`).  A hop that `SendsOn`
is an answer with a status that redirects and a location that is not empty, whose
target may be requested.  `Follows` says that some hops are exactly those of a chain:
it begins with the URL, every hop is sent on to the next one, the answers are those
that the outside has for these URLs, and the chain ends at the first hop that is not
sent on, or at the limit.

A download without a deadline follows such a chain (`download_follows`): what is sent
on takes one step (`download_of_sendsOn`), and what is not ends it there
(`download_of_stopped`), with the `verdict` of that hop.  The verdict is computed from
the hop alone.

Main result: `chain_followed`.
-/
import CompileGate.Proofs.AllowedRequests
import CompileGate.Proofs.FetchFailures
import CompileGate.Proofs.FetchHistory
import Mathlib.Data.List.Chain

namespace CompileGate

open Effect FetchCache

variable {τ : Type}

/-! ### Answers in order -/

namespace World

variable [Seconds τ]

/-- What these requests meet, one after the other. -/
def answersTo : List Text → World τ → List (Except Fault (Response τ))
  | [], _ => []
  | url :: rest, w => (nextAnswer url w).1.outcome :: answersTo rest (nextAnswer url w).2

variable {w v : World τ}

/-- The next answer only depends on the answers to come. -/
theorem nextAnswer_congr (h : v.routes = w.routes) (url : Text) :
    (nextAnswer url v).1 = (nextAnswer url w).1
      ∧ (nextAnswer url v).2.routes = (nextAnswer url w).2.routes := by
  unfold nextAnswer
  rw [h]
  split
  · exact ⟨rfl, h⟩
  · exact ⟨rfl, h⟩
  · exact ⟨rfl, h⟩
  · exact ⟨rfl, rfl⟩

theorem answersTo_congr (h : v.routes = w.routes) (urls : List Text) :
    v.answersTo urls = w.answersTo urls := by
  induction urls generalizing w v with
  | nil => rfl
  | cons url rest ih =>
    obtain ⟨hanswer, hroutes⟩ := nextAnswer_congr h url
    rw [answersTo, answersTo, hanswer, ih hroutes]

/-- A request meets the next answer. -/
theorem exists_request_eq (url : Text) (timeout : τ) (w : World τ) :
    ∃ v, request url timeout w = .ok (nextAnswer url w).1.outcome v
      ∧ v.routes = (nextAnswer url w).2.routes
      ∧ v.requestedUrls = w.requestedUrls ++ [url] := by
  have hroutes : (w.record (.requested url timeout)).routes = w.routes := rfl
  obtain ⟨hanswer, hrest⟩ := nextAnswer_congr hroutes url
  -- the delay of the answer touches neither the routes nor the trace
  have hrun : request url timeout w
      = .ok (nextAnswer url (w.record (.requested url timeout))).1.outcome
        (advance (nextAnswer url (w.record (.requested url timeout))).1.delay
          (nextAnswer url (w.record (.requested url timeout))).2) := rfl
  rw [hanswer] at hrun
  exact ⟨_, hrun, hrest, (request_ensures url timeout w).of_ok hrun⟩

end World

namespace FetchCache

/-! ### Hops -/

/-- A request of a download, and what it meets. -/
structure Hop (τ : Type) where
  url : Text
  outcome : Except Fault (Response τ)

/-- The hop is sent on to `next`, which may be requested. -/
def Hop.SendsOn (ctx : Context τ) (hop : Hop τ) (next : Text) : Prop :=
  ∃ response location, hop.outcome = .ok response ∧ response.status ∈ redirectStatuses
    ∧ response.header? "Location" = some location ∧ location ≠ []
    ∧ locate hop.url location = .ok next ∧ Allowed ctx next

theorem redirect?_eq_some_iff {response : Response τ} {location : Text} :
    redirect? response = some location ↔ response.status ∈ redirectStatuses
      ∧ response.header? "Location" = some location ∧ location ≠ [] := by
  unfold redirect?
  rw [← List.contains_iff_mem]
  split
  · next hstatus =>
    -- an empty location is as good as none
    rw [Option.filter_eq_some_iff, Bool.not_eq_true', ← Bool.not_eq_true, List.isEmpty_iff]
    exact (and_iff_right hstatus).symm
  · next hstatus => exact iff_of_false (Option.some_ne_none _).symm fun h => hstatus h.1

theorem nextHop_eq_ok_iff {ctx : Context τ} {current location next : Text} :
    nextHop ctx current location = .ok next
      ↔ locate current location = .ok next ∧ Allowed ctx next := by
  rw [nextHop_eq]
  cases locate current location with
  | error defect =>
    constructor
    · intro h
      cases h
    · rintro ⟨h, -⟩
      cases h
  | ok url =>
    dsimp only
    constructor
    · intro h
      split at h
      · next hallowed =>
        obtain rfl := Except.ok.inj h
        exact ⟨rfl, hallowed⟩
      · cases h
    · rintro ⟨hurl, hallowed⟩
      obtain rfl := Except.ok.inj hurl
      rw [if_pos hallowed]

theorem Hop.sendsOn_iff {ctx : Context τ} {hop : Hop τ} {next : Text} :
    hop.SendsOn ctx next ↔ ∃ response location, hop.outcome = .ok response
      ∧ redirect? response = some location ∧ nextHop ctx hop.url location = .ok next := by
  simp only [Hop.SendsOn, redirect?_eq_some_iff, nextHop_eq_ok_iff, and_assoc]

variable [Seconds τ]

/-- These hops are those of a chain that starts at `url`, in the world `w`, and goes on while a hop
is sent on, for at most `limit` requests. -/
structure Follows (ctx : Context τ) (limit : Nat) (url : Text) (w : World τ)
    (hops : List (Hop τ)) : Prop where
  first : hops.head?.map Hop.url = some url
  answers : hops.map Hop.outcome = w.answersTo (hops.map Hop.url)
  sends : hops.IsChain fun hop hop' => hop.SendsOn ctx hop'.url
  length_le : hops.length ≤ limit
  stops : ∀ last ∈ hops.getLast?, ∀ next, last.SendsOn ctx next → hops.length = limit

variable {ctx : Context τ} {fetchTimeout : τ} {url current : Text} {maxBytes : Option Int}
variable {limit left : Nat} {w v : World τ} {hop : Hop τ} {next : Text}

/-- The hop that a request of `current` makes. -/
def hopAt (current : Text) (w : World τ) : Hop τ := ⟨current, (w.nextAnswer current).1.outcome⟩

/-- A chain of one hop. -/
theorem Follows.single (hlimit : 0 < limit)
    (hstop : ∀ next, (hopAt current w).SendsOn ctx next → limit = 1) :
    Follows ctx limit current w [hopAt current w] where
  first := rfl
  answers := rfl
  sends := .singleton _
  length_le := hlimit
  stops last hlast next hnext := by
    obtain rfl := Option.some.inj hlast
    exact (hstop next hnext).symm

/-- A chain with one hop more before it. -/
theorem Follows.cons (hnext : (hopAt current w).SendsOn ctx next)
    (hroutes : v.routes = (w.nextAnswer current).2.routes) {hops : List (Hop τ)}
    (h : Follows ctx limit next v hops) :
    Follows ctx (limit + 1) current w (hopAt current w :: hops) where
  first := rfl
  answers := by
    rw [List.map_cons, List.map_cons, h.answers, World.answersTo_congr hroutes]
    rfl
  sends := by
    rw [List.isChain_cons]
    refine ⟨fun hop' hhead => ?_, h.sends⟩
    have hurl := h.first
    rw [Option.mem_def.mp hhead] at hurl
    rw [show hop'.url = next from Option.some.inj hurl]
    exact hnext
  length_le := Nat.succ_le_succ h.length_le
  stops last hlast next' hnext' := by
    cases hops with
    | nil => cases h.first
    | cons hop' rest =>
      rw [List.getLast?_cons_cons] at hlast
      exact congrArg (· + 1) (h.stops last hlast next' hnext')

/-! ### Verdicts -/

/-- The failure of a request that met a fault. -/
def faultFailure (url : Text) (timeout : τ) (f : Fault) : Failure τ :=
  if f.kind.isTimeout then
    .gateway (.fetchFailed url none ("timed out after " ++ Seconds.general timeout ++ "s"))
  else if f.kind.isTransport then .gateway (.fetchFailed url none f.message)
  else .fault f

/-- What reading these parts comes to, after `size` bytes. -/
def bodyVerdict (ctx : Context τ) (url : Text) (maxBytes : Option Int) :
    (size : Nat) → List (BodyPart τ) → Except (Failure τ) (List UInt8)
  | _, [] => .ok []
  | size, .wait _ :: rest => bodyVerdict ctx url maxBytes size rest
  | _, .fault f :: _ =>
    .error (if f.kind.isTransport then .gateway (.fetchFailed url none f.message) else .fault f)
  | size, .bytes [] :: rest => bodyVerdict ctx url maxBytes size rest
  | size, .bytes (b :: bytes) :: rest =>
    if maxBytes.any fun limit => limit < ((size + (b :: bytes).length : Nat) : Int) then
      .error (tooLong ctx url)
    else (bodyVerdict ctx url maxBytes (size + (b :: bytes).length) rest).map ((b :: bytes) ++ ·)

/-- What six redirects say. -/
def tooManyReason : Text := "too many redirects (> 5)"

/-- The failure of a get of `url` that is sent on too often. -/
def tooManyRedirects (url : Text) : Failure τ := .gateway (.fetchFailed url none tooManyReason)

/-- What a download of `url` comes to that ends with this hop. -/
def Hop.verdict (ctx : Context τ) (fetchTimeout : τ) (url : Text) (maxBytes : Option Int)
    (hop : Hop τ) : Except (Failure τ) (List UInt8) :=
  match hop.outcome with
  | .error f => .error (faultFailure hop.url fetchTimeout f)
  | .ok response =>
    match redirect? response with
    | some location =>
      match nextHop ctx hop.url location with
      | .ok _ => .error (tooManyRedirects url)
      | .error e => .error e
    | none =>
      if 200 ≤ response.status ∧ response.status < 300 then
        bodyVerdict ctx url maxBytes 0 (response.body.read chunkSize)
      else .error (.gateway (.fetchFailed url (some response.status) (response.reason.getD [])))

theorem failRequest_eq {α : Type} (hdeadline : ctx.deadline = none) (timeout : τ) (f : Fault)
    (w : World τ) : failRequest (α := α) ctx url timeout f w
      = .error (faultFailure url timeout f) w := by
  unfold failRequest faultFailure
  split
  · rw [bind_of_ok (checkDeadline_eq_ok hdeadline url w)]
    rfl
  · split
    · rfl
    · rfl

theorem readParts_verdict (hdeadline : ctx.deadline = none) (parts : List (BodyPart τ)) (size : Nat)
    (done : List (List UInt8)) (w : World τ) :
    Ensures (readParts ctx url maxBytes size done parts) w
      (fun read v => v.requestedUrls = w.requestedUrls ∧ ∃ bytes,
        bodyVerdict ctx url maxBytes size parts = .ok bytes ∧ read = done.reverse.flatten ++ bytes)
      fun e v => v.requestedUrls = w.requestedUrls
        ∧ bodyVerdict ctx url maxBytes size parts = .error e := by
  -- the cases are those of `readParts`; what is read so far moves over to `done`
  fun_induction readParts ctx url maxBytes size done parts generalizing w with
  | case1 => exact ⟨rfl, [], rfl, (List.append_nil _).symm⟩
  | case2 size done delay rest ih =>
    rw [ensures_bind]
    exact ih (w.advance delay)
  | case3 size done f rest hkind =>
    rw [bodyVerdict, if_pos hkind]
    exact ⟨rfl, rfl⟩
  | case4 size done f rest hkind =>
    rw [bodyVerdict, if_neg hkind]
    exact ⟨rfl, rfl⟩
  | case5 size done rest ih => exact ih w
  | case6 size done b bytes rest ih =>
    -- without a deadline the look at the clock passes
    rw [ensures_bind, Ensures, checkDeadline_eq_ok hdeadline, bodyVerdict]
    dsimp only at ih ⊢
    split
    · exact ⟨rfl, rfl⟩
    · refine (ih w).mono ?_ ?_
      · rintro read v ⟨hurls, more, hmore, rfl⟩
        refine ⟨hurls, (b :: bytes) ++ more, ?_, ?_⟩
        · rw [hmore]
          rfl
        · rw [List.reverse_cons, List.flatten_concat, List.append_assoc]
      · rintro e v ⟨hurls, he⟩
        rw [he]
        exact ⟨hurls, rfl⟩

/-! ### Downloads -/

/-- What a download that ends with `last` ensures, after requests of these URLs. -/
def EndsWith (ctx : Context τ) (fetchTimeout : τ) (url : Text) (maxBytes : Option Int)
    (w : World τ) (hops : List (Hop τ)) (last : Hop τ) (m : Effect τ (World τ) (List UInt8)) : Prop :=
  Ensures m w
    (fun bytes v => v.requestedUrls = w.requestedUrls ++ hops.map Hop.url
      ∧ last.verdict ctx fetchTimeout url maxBytes = .ok bytes)
    fun e v => v.requestedUrls = w.requestedUrls ++ hops.map Hop.url
      ∧ last.verdict ctx fetchTimeout url maxBytes = .error e

/-- A request before a download makes one hop more before it. -/
theorem EndsWith.after {hops : List (Hop τ)} {last : Hop τ}
    {m m' : Effect τ (World τ) (List UInt8)}
    (h : EndsWith ctx fetchTimeout url maxBytes v hops last m') (hrun : m w = m' v)
    (hurls : v.requestedUrls = w.requestedUrls ++ [current]) :
    EndsWith ctx fetchTimeout url maxBytes w (hopAt current w :: hops) last m := by
  -- the URL of the hop moves from the requests made to the hops
  rw [EndsWith, Ensures, hrun, List.map_cons, List.append_cons,
    show w.requestedUrls ++ [(hopAt current w).url] = v.requestedUrls from hurls.symm]
  exact h

/-- A hop that is not sent on ends the download. -/
theorem download_of_stopped (hdeadline : ctx.deadline = none)
    (hstop : ∀ next, ¬ (hopAt current w).SendsOn ctx next) :
    EndsWith ctx fetchTimeout url maxBytes w [hopAt current w] (hopAt current w)
      (download ctx fetchTimeout url maxBytes (left + 1) current) := by
  obtain ⟨v, hrequest, -, hurls⟩ := World.exists_request_eq current fetchTimeout w
  have hhop : (hopAt current w).outcome = (w.nextAnswer current).1.outcome := rfl
  unfold EndsWith Hop.verdict
  rw [download, ensures_bind, Ensures, timeoutFor_eq_ok hdeadline]
  dsimp only
  rw [ensures_bind, Ensures, hrequest, hhop, List.map_singleton]
  dsimp only
  -- along the branches of a verdict
  cases houtcome : (w.nextAnswer current).1.outcome with
  | error f =>
    dsimp only
    rw [Ensures, failRequest_eq hdeadline]
    exact ⟨hurls, rfl⟩
  | ok response =>
    rw [houtcome] at hhop
    dsimp only
    cases hlocation : redirect? response with
    | some location =>
      dsimp only
      rw [ensures_bind, ensures_lift]
      refine ⟨fun next hnext => ?_, fun e he => ⟨hurls, ?_⟩⟩
      · -- a location to go on to would send the hop on
        exact (hstop next (Hop.sendsOn_iff.mpr ⟨response, location, hhop, hlocation, hnext⟩)).elim
      · rw [show nextHop ctx (hopAt current w).url location = .error e from he]
    | none =>
      dsimp only
      by_cases hstatus : 200 ≤ response.status ∧ response.status < 300
      · rw [if_pos hstatus, if_pos hstatus]
        refine (readParts_verdict hdeadline _ 0 [] v).mono ?_ ?_
        · rintro read u ⟨hread, bytes, hbytes, rfl⟩
          exact ⟨hread.trans hurls, hbytes⟩
        · rintro e u ⟨hread, he⟩
          exact ⟨hread.trans hurls, he⟩
      · rw [if_neg hstatus, if_neg hstatus]
        exact ⟨hurls, rfl⟩

/-- A hop that is sent on leaves the rest to a download from there. -/
theorem exists_download_eq (hdeadline : ctx.deadline = none) (fetchTimeout : τ) (url : Text)
    (maxBytes : Option Int) (left : Nat) (hnext : (hopAt current w).SendsOn ctx next) :
    ∃ v, download ctx fetchTimeout url maxBytes (left + 1) current w
        = download ctx fetchTimeout url maxBytes left next v
      ∧ v.routes = (w.nextAnswer current).2.routes
      ∧ v.requestedUrls = w.requestedUrls ++ [current] := by
  obtain ⟨response, location, houtcome, hlocation, hhop⟩ := Hop.sendsOn_iff.mp hnext
  obtain ⟨v, hrequest, hroutes, hurls⟩ := World.exists_request_eq current fetchTimeout w
  -- the limit on time is the one of the fetch, for want of a deadline
  have hanswered : Answered ctx fetchTimeout current w response v :=
    ⟨fetchTimeout, timeoutFor_eq_ok hdeadline current w,
      hrequest.trans (congrArg (EStateM.Result.ok · v) houtcome)⟩
  refine ⟨v, ?_, hroutes, hurls⟩
  rw [download_eq_of_answered maxBytes left hanswered hlocation,
    show nextHop ctx current location = .ok next from hhop]

/-- The verdict of a hop that is sent on is that there are too many. -/
theorem Hop.verdict_of_sendsOn (hnext : hop.SendsOn ctx next) :
    hop.verdict ctx fetchTimeout url maxBytes = .error (tooManyRedirects url) := by
  obtain ⟨response, location, houtcome, hlocation, hhop⟩ := Hop.sendsOn_iff.mp hnext
  unfold Hop.verdict
  rw [houtcome]
  dsimp only
  rw [hlocation]
  dsimp only
  rw [hhop]

/-- A download follows a chain, and the last hop of this decides its outcome. -/
theorem download_follows (hdeadline : ctx.deadline = none) (fetchTimeout : τ) (url : Text)
    (maxBytes : Option Int) (left : Nat) (current : Text) (w : World τ) :
    ∃ hops last, Follows ctx (left + 1) current w hops ∧ hops.getLast? = some last
      ∧ EndsWith ctx fetchTimeout url maxBytes w hops last
        (download ctx fetchTimeout url maxBytes (left + 1) current) := by
  -- along the requests left
  induction left generalizing current w with
  | zero =>
    refine ⟨_, _, .single Nat.one_pos fun _ _ => rfl, rfl, ?_⟩
    by_cases hsent : ∃ next, (hopAt current w).SendsOn ctx next
    · -- the last request is sent on, to a download with none left
      obtain ⟨next, hnext⟩ := hsent
      obtain ⟨v, hrun, -, hurls⟩ := exists_download_eq hdeadline fetchTimeout url maxBytes 0 hnext
      rw [EndsWith, Ensures, hrun]
      exact ⟨hurls, Hop.verdict_of_sendsOn hnext⟩
    · exact download_of_stopped hdeadline fun next hnext => hsent ⟨next, hnext⟩
  | succ left ih =>
    by_cases hsent : ∃ next, (hopAt current w).SendsOn ctx next
    · -- the chain goes on from the next URL, in the world after the answer
      obtain ⟨next, hnext⟩ := hsent
      obtain ⟨v, hrun, hroutes, hurls⟩ :=
        exists_download_eq hdeadline fetchTimeout url maxBytes (left + 1) hnext
      obtain ⟨hops, last, hfollows, hlast, hends⟩ := ih next v
      refine ⟨_, last, hfollows.cons hnext hroutes, ?_, hends.after hrun hurls⟩
      cases hops with
      | nil => cases hlast
      | cons hop' rest => exact hlast
    · have hstop : ∀ next, ¬ (hopAt current w).SendsOn ctx next :=
        fun next hnext => hsent ⟨next, hnext⟩
      exact ⟨_, _, .single (Nat.succ_pos _) fun next hnext => (hstop next hnext).elim, rfl,
        download_of_stopped hdeadline hstop⟩

/-! ### Too many redirects -/

/-- The request met a fault with these words, or its body did. -/
def Hop.Reports (hop : Hop τ) (words : Text) : Prop :=
  ∃ f : Fault, f.message = words ∧ (hop.outcome = .error f
    ∨ ∃ response, hop.outcome = .ok response ∧ .fault f ∈ response.body.read chunkSize)

omit [Seconds τ] in
theorem bodyVerdict_eq_error {parts : List (BodyPart τ)} {size : Nat} {e : Failure τ}
    (h : bodyVerdict ctx url maxBytes size parts = .error e) : e = tooLong ctx url
      ∨ ∃ f, .fault f ∈ parts ∧ (e = .gateway (.fetchFailed url none f.message) ∨ e = .fault f) := by
  -- the cases are those of `bodyVerdict`: the kinds of the first part
  fun_induction bodyVerdict ctx url maxBytes size parts with
  | case1 => cases h
  | case2 size delay rest ih =>
    exact (ih h).imp_right (Exists.imp fun f => And.imp_left (List.mem_cons_of_mem _))
  | case3 size f rest =>
    -- the fault itself
    refine Or.inr ⟨f, List.mem_cons_self, ?_⟩
    obtain rfl := Except.error.inj h
    by_cases hkind : f.kind.isTransport = true
    · exact Or.inl (if_pos hkind)
    · exact Or.inr (if_neg hkind)
  | case4 size rest ih =>
    exact (ih h).imp_right (Exists.imp fun f => And.imp_left (List.mem_cons_of_mem _))
  | case5 => exact Or.inl (Except.error.inj h).symm
  | case6 size b bytes rest _ ih =>
    cases hrest : bodyVerdict ctx url maxBytes (size + (b :: bytes).length) rest with
    | ok more =>
      rw [hrest] at h
      cases h
    | error e' =>
      rw [hrest] at h
      obtain rfl := Except.error.inj h
      exact (ih hrest).imp_right (Exists.imp fun f => And.imp_left (List.mem_cons_of_mem _))

/-- A fault that waited too long does not say that there are too many redirects. -/
theorem words_of_faultFailure {timeout : τ} {f : Fault}
    (h : faultFailure hop.url timeout f = tooManyRedirects url) : f.message = tooManyReason := by
  unfold faultFailure tooManyRedirects at h
  split at h
  · -- the two texts differ in their second letter
    have hwords : ("timed out after " ++ Seconds.general timeout ++ "s" : Text) = tooManyReason := by
      injection h with h
      injection h
    exact absurd (show ("ti" : Text) = "to" from congrArg (List.take 2) hwords) (by decide)
  · split at h
    · injection h with h
      injection h
    · cases h

/-- A download that fails for too many redirects ends with a hop that is sent on, unless a fault says
the same. -/
theorem Hop.sendsOn_or_reports
    (h : hop.verdict ctx fetchTimeout url maxBytes = .error (tooManyRedirects url)) :
    (∃ next, hop.SendsOn ctx next) ∨ hop.Reports tooManyReason := by
  unfold Hop.verdict at h
  split at h
  · next f houtcome =>
    exact Or.inr ⟨f, words_of_faultFailure (Except.error.inj h), Or.inl houtcome⟩
  next response houtcome =>
  split at h
  · next location hlocation =>
    split at h
    · next next hnext =>
      exact Or.inl ⟨next, Hop.sendsOn_iff.mpr ⟨response, location, houtcome, hlocation, hnext⟩⟩
    · next e he =>
      -- it is sent to a URL that is not allowed, or to none
      obtain rfl := Except.error.inj h
      rw [nextHop_eq] at he
      split at he
      · cases he
      · split at he
        · cases he
        · cases he
  -- no redirect: then only the body can say such a thing
  split at h
  · obtain htoo | ⟨f, hmem, he | he⟩ := bodyVerdict_eq_error h
    · cases htoo
    · refine Or.inr ⟨f, ?_, Or.inr ⟨response, houtcome, hmem⟩⟩
      injection he with he
      injection he with _ _ hwords
      exact hwords.symm
    · cases he
  · cases h

/-- A chain whose download fails for too many redirects goes to its limit and is sent on there, unless
a fault says the same. -/
theorem Follows.too_many {hops : List (Hop τ)} {last : Hop τ}
    (hfollows : Follows ctx limit current w hops) (hlast : hops.getLast? = some last)
    (h : last.verdict ctx fetchTimeout url maxBytes = .error (tooManyRedirects url)) :
    hops.length = limit ∧ (∃ next, last.SendsOn ctx next) ∨ last.Reports tooManyReason := by
  refine (Hop.sendsOn_or_reports h).imp_left fun hsent => ⟨?_, hsent⟩
  obtain ⟨next, hnext⟩ := hsent
  exact hfollows.stops last hlast next hnext

/-! ### One get -/

/-- The get of a URL that is not allowed fails in the session as it was. -/
theorem fetch_of_not_allowed (fetchTimeout : τ) (maxBytes : Option Int) {s : Session τ}
    (hmiss : Table.get? url s.cache.texts = none) (hurl : ¬ Allowed ctx url) :
    fetch ctx fetchTimeout url maxBytes s
      = .error (.gateway (.disallowedHost url (Url.hostOf url) none none)) s := by
  have hget : (get : Effect τ (Session τ) (Session τ)) s = .ok s s := rfl
  rw [fetch, bind_of_ok hget]
  simp only [hmiss]
  rw [assertAllowed_eq, if_neg hurl]
  rfl

/-- A get of an allowed URL whose text is not there follows a chain, and the last hop decides. -/
theorem fetch_follows (hdeadline : ctx.deadline = none) (fetchTimeout : τ) (maxBytes : Option Int)
    {s : Session τ} (hmiss : Table.get? url s.cache.texts = none) (hurl : Allowed ctx url) :
    ∃ hops last, Follows ctx (maxRedirects + 1) url s.world hops ∧ hops.getLast? = some last
      ∧ Ensures (fetch ctx fetchTimeout url maxBytes) s
        (fun text t => t.world.requestedUrls = s.world.requestedUrls ++ hops.map Hop.url
          ∧ (last.verdict ctx fetchTimeout url maxBytes).map Utf8.decodeLenient = .ok text)
        fun e t => t.world.requestedUrls = s.world.requestedUrls ++ hops.map Hop.url
          ∧ (last.verdict ctx fetchTimeout url maxBytes).map Utf8.decodeLenient = .error e := by
  obtain ⟨hops, last, hfollows, hlast, hends⟩ :=
    download_follows hdeadline fetchTimeout url maxBytes maxRedirects url s.world
  refine ⟨hops, last, hfollows, hlast, ?_⟩
  -- the get is the download, between a look at the cache and a text put into it
  rw [fetch, ensures_bind, ensures_get]
  simp only [hmiss]
  rw [ensures_bind, ensures_lift, assertAllowed_eq, if_pos hurl]
  refine ⟨fun _ _ => ?_, fun e he => by cases he⟩
  rw [ensures_bind, Session.ensures_onWorld]
  refine Ensures.mono hends ?_ ?_
  · -- what is logged of the text requests nothing
    rintro bytes v ⟨hurls, hverdict⟩
    rw [ensures_bind, ensures_modify, ensures_bind, Session.ensures_onWorld, hverdict]
    refine ⟨?_, rfl⟩
    rw [← hurls]
    exact (World.requestedUrls_record _ v).trans (List.append_nil _)
  · rintro e v ⟨hurls, hverdict⟩
    rw [hverdict]
    exact ⟨hurls, rfl⟩

/-- **A get follows the chain of redirects.**  Without a deadline, the get of a URL whose text is not
there requests nothing if the URL is not allowed.  Otherwise it requests the URLs of a chain, in
order; its outcome is the verdict of the last hop; it fails for too many redirects if the sixth hop
is sent on as well, and then only, unless a fault has the same words; and the text that it returns
is kept under the URL that was asked for, and under no other of the chain. -/
theorem chain_followed (hdeadline : ctx.deadline = none) (fetchTimeout : τ) (maxBytes : Option Int)
    {s : Session τ} (hmiss : Table.get? url s.cache.texts = none) :
    (¬ Allowed ctx url → fetch ctx fetchTimeout url maxBytes s
        = .error (.gateway (.disallowedHost url (Url.hostOf url) none none)) s)
      ∧ (Allowed ctx url → ∃ hops last, Follows ctx (maxRedirects + 1) url s.world hops
        ∧ hops.getLast? = some last
        ∧ (final (fetch ctx fetchTimeout url maxBytes) s).world.requestedUrls
          = s.world.requestedUrls ++ hops.map Hop.url
        ∧ outcome (fetch ctx fetchTimeout url maxBytes) s
          = (last.verdict ctx fetchTimeout url maxBytes).map Utf8.decodeLenient
        ∧ (hops.length = maxRedirects + 1 → (∃ next, last.SendsOn ctx next) →
          outcome (fetch ctx fetchTimeout url maxBytes) s = .error (tooManyRedirects url))
        ∧ (outcome (fetch ctx fetchTimeout url maxBytes) s = .error (tooManyRedirects url) →
          hops.length = maxRedirects + 1 ∧ (∃ next, last.SendsOn ctx next)
            ∨ last.Reports tooManyReason)
        ∧ Ensures (fetch ctx fetchTimeout url maxBytes) s
          (fun text t => Table.get? url t.cache.texts = some text
            ∧ ∀ other, other ≠ url →
              Table.get? other t.cache.texts = Table.get? other s.cache.texts)
          fun _ t => t.cache = s.cache) := by
  refine ⟨fetch_of_not_allowed fetchTimeout maxBytes hmiss, fun hurl => ?_⟩
  obtain ⟨hops, last, hfollows, hlast, hfetch⟩ :=
    fetch_follows hdeadline fetchTimeout maxBytes hmiss hurl
  -- both ends of the run say the verdict
  have houtcome : outcome (fetch ctx fetchTimeout url maxBytes) s
      = (last.verdict ctx fetchTimeout url maxBytes).map Utf8.decodeLenient := by
    unfold outcome
    cases hrun : fetch ctx fetchTimeout url maxBytes s with
    | ok text t => exact (hfetch.of_ok hrun).2.symm
    | error e t => exact (hfetch.of_error hrun).2.symm
  refine ⟨hops, last, hfollows, hlast,
    (hfetch.mono (fun _ _ h => h.1) fun _ _ h => h.1).final, houtcome, ?_, fun htoo => ?_, ?_⟩
  · rintro - ⟨next, hnext⟩
    rw [houtcome, Hop.verdict_of_sendsOn hnext]
    rfl
  · -- decoding hides no failure of the verdict
    have hverdict : last.verdict ctx fetchTimeout url maxBytes = .error (tooManyRedirects url) := by
      rw [houtcome] at htoo
      cases hlast' : last.verdict ctx fetchTimeout url maxBytes with
      | ok bytes =>
        rw [hlast'] at htoo
        cases htoo
      | error e =>
        rw [hlast'] at htoo
        obtain rfl := Except.error.inj htoo
        rfl
    exact hfollows.too_many hlast hverdict
  · -- the cache gets one entry
    refine (fetch_of_miss ctx fetchTimeout maxBytes hmiss).mono ?_ fun _ _ h => h
    intro text t hcache
    rw [hcache]
    refine ⟨Table.get?_insert_self _ _ _, fun other hother => ?_⟩
    rw [Table.get?_insert, if_neg hother]

/-- The text that has moved is got in two requests. -/
theorem moved_text_followed : ∃ hops last,
    Follows movedContext 6 "https://host/a.sol" movedWorld hops ∧ hops.getLast? = some last
      ∧ hops.map Hop.url = ["https://host/a.sol", "https://host/b.sol"]
      ∧ outcome (fetch movedContext 5 "https://host/a.sol" none) (Session.ofWorld movedWorld)
        = (last.verdict movedContext 5 "https://host/a.sol" none).map Utf8.decodeLenient := by
  have hdeadline : movedContext.deadline = none := rfl
  have hallowed : Allowed movedContext "https://host/a.sol" := by decide +kernel
  obtain ⟨hops, last, hfollows, hlast, hurls, houtcome, -⟩ :=
    (chain_followed hdeadline 5 none (s := Session.ofWorld movedWorld) rfl).2 hallowed
  have hmoved : (final (fetch movedContext 5 "https://host/a.sol" none)
      (Session.ofWorld movedWorld)).world.requestedUrls
        = ["https://host/a.sol", "https://host/b.sol"] := by decide +kernel
  exact ⟨hops, last, hfollows, hlast, hurls.symm.trans hmoved, houtcome⟩

/-- The web has one text, with these answers to come. -/
def singleWorld (answers : List (Answer Int)) : World Int :=
  { movedWorld with routes := [("https://host/a.sol", answers)] }

/-- What is left of a get that is sent to where it was, and then finds an empty text. -/
def loopEnd : Session Int :=
  final (fetch movedContext 5 "https://host/a.sol" none) (Session.ofWorld (singleWorld [
    ⟨0, .ok ⟨302, some "Found", [("Location", "/a.sol")], .whole []⟩⟩,
    ⟨0, .ok ⟨200, none, [], .whole []⟩⟩]))

/-- A URL that is not allowed is not requested; a text that was found by way of its own URL is kept
under it; and a fault can say that there are too many redirects. -/
theorem chain_exceptions :
    (final (fetch movedContext 5 "https://evil.example/x.sol" none)
        (Session.ofWorld movedWorld)).world.requestedUrls = []
      ∧ loopEnd.world.requestedUrls = ["https://host/a.sol", "https://host/a.sol"]
      ∧ Table.has "https://host/a.sol" loopEnd.cache.texts = true
      ∧ ∃ t, fetch movedContext 5 "https://host/a.sol" none
          (Session.ofWorld (singleWorld [⟨0, .error ⟨.connectionError, tooManyReason⟩⟩]))
        = .error (tooManyRedirects "https://host/a.sol") t := by
  refine ⟨by decide +kernel, by decide +kernel, by decide +kernel, _, rfl⟩

end FetchCache

end CompileGate
