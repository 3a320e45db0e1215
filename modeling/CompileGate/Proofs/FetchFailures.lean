/-
CompileGate/Proofs/FetchFailures.lean

How a get fails.

`FailsWith I P m` says that the effect `m`, from a state in which `I` holds, only
fails with what is in `P`, and that `I` holds afterwards, whether it fails or not.  It
goes through the construction of an effect, so each part is looked at once.

Where the outside only reports faults of the transport (`World.OnlyTransport`), a get
fails in one of four ways that its caller knows (`IsFetchFailure`), with one
exception: it is sent to a location that is not legible where it was found
(`fetch_failures`).
-/
import CompileGate.Proofs.AllowedRequests
import CompileGate.Proofs.Readability

namespace CompileGate

/-! ### Effects that fail in known ways -/

namespace Effect

variable {τ σ α β : Type} {I : σ → Prop} {P Q : Failure τ → Prop} {m : Effect τ σ α}

/-- From a state with `I` the effect only fails with what is in `P`, and leaves a state with `I`. -/
def FailsWith (I : σ → Prop) (P : Failure τ → Prop) (m : Effect τ σ α) : Prop :=
  ∀ s, I s → Ensures m s (fun _ => I) fun e t => P e ∧ I t

namespace FailsWith

theorem pure (a : α) : FailsWith I P (Pure.pure a) := fun _ hs => hs

theorem throw {e : Failure τ} (he : P e) : FailsWith I P (MonadExcept.throw e : Effect τ σ α) :=
  fun _ hs => ⟨he, hs⟩

theorem abort {e : GatewayError τ} (he : P (.gateway e)) :
    FailsWith I P (World.abort e : Effect τ σ α) := throw he

theorem modify {f : σ → σ} (hf : ∀ s, I s → I (f s)) : FailsWith I P (modify f) :=
  fun s hs => hf s hs

theorem lift {x : Except (Failure τ) α} (hx : ∀ e, x = .error e → P e) :
    FailsWith I P (World.lift x) := fun _ hs =>
  ensures_lift.mpr ⟨fun _ _ => hs, fun e he => ⟨hx e he, hs⟩⟩

theorem bind {f : α → Effect τ σ β} (hm : FailsWith I P m) (hf : ∀ a, FailsWith I P (f a)) :
    FailsWith I P (m >>= f) := fun s hs =>
  ensures_bind.mpr ((hm s hs).mono (fun a t ht => hf a t ht) fun _ _ h => h)

theorem mono (h : FailsWith I P m) (hPQ : ∀ e, P e → Q e) : FailsWith I Q m := fun s hs =>
  (h s hs).mono (fun _ _ h => h) fun e _ h => ⟨hPQ e h.1, h.2⟩

end FailsWith

end Effect

open Effect

/-! ### Faults of the transport -/

variable {τ : Type}

/-- No part of the body is a fault other than one of the transport. -/
def Response.OnlyTransport (response : Response τ) : Prop :=
  ∀ f, BodyPart.fault f ∈ response.body.read FetchCache.chunkSize → f.kind.isTransport = true

/-- A request meets an answer or a fault of the transport. -/
def OnlyTransport : Except Fault (Response τ) → Prop
  | .ok response => response.OnlyTransport
  | .error f => f.kind.isTransport = true

/-- The answers to come bring no faults other than those of the transport. -/
def World.OnlyTransport (w : World τ) : Prop :=
  ∀ route ∈ w.routes, ∀ answer ∈ route.2, CompileGate.OnlyTransport answer.outcome

namespace FetchCache

/-- The failures of a get that its caller knows. -/
inductive IsFetchFailure : Failure τ → Prop
  | fetchFailed (url : Text) (status : Option Int) (reason : Text) :
      IsFetchFailure (.gateway (.fetchFailed url status reason))
  | disallowedHost (url host : Text) :
      IsFetchFailure (.gateway (.disallowedHost url host none none))
  | resourceLimitExceeded (limit : Int) (url : Text) :
      IsFetchFailure (.gateway (.resourceLimitExceeded .totalBytes limit none (some url)))
  | deadlineExceeded (timeout : τ) (url : Text) :
      IsFetchFailure (.gateway (.deadlineExceeded timeout (some url)))

/-- A URL that cannot be read is none of the failures that a caller knows. -/
theorem not_isFetchFailure_badUrl {defect : Url.Defect} :
    ¬ IsFetchFailure (.badUrl defect : Failure τ) := by
  intro h
  cases h

theorem failsWith_clock {I : World τ → Prop} {P : Failure τ → Prop} : FailsWith I P World.clock :=
  fun _ hw => hw

/-- An empty location is no redirect. -/
theorem ne_nil_of_redirect? {response : Response τ} {location : Text}
    (h : redirect? response = some location) : location ≠ [] := by
  rintro rfl
  unfold redirect? at h
  split at h
  · have hfilter := (Option.filter_eq_some_iff.mp h).2
    cases hfilter
  · cases h

/-- A location fails exactly where it is not legible. -/
theorem locate_eq_error_iff {current location : Text} (hlocation : location ≠ []) :
    (∃ defect, locate current location = .error defect) ↔ ¬ Url.JoinLegible current location := by
  rw [← Url.exists_join_canonical_iff hlocation]
  unfold locate
  cases Url.join current location >>= Url.canonical with
  | error defect => simp
  | ok next => simp

variable [Seconds τ]

/-- An answer that is taken brings no other fault than those that were to come. -/
theorem onlyTransport_nextAnswer {w : World τ} (h : w.OnlyTransport) (url : Text) :
    OnlyTransport (World.nextAnswer url w).1.outcome
      ∧ (World.nextAnswer url w).2.OnlyTransport := by
  have hnone : OnlyTransport (World.notFound (τ := τ)).outcome := by
    intro f hf
    cases hf
  have hroute : ∀ answers, Table.get? url w.routes = some answers →
      ∀ answer ∈ answers, OnlyTransport answer.outcome := fun answers hget =>
    h (url, answers) (Table.mem_of_get? hget)
  unfold World.nextAnswer
  split
  · exact ⟨hnone, h⟩
  · exact ⟨hnone, h⟩
  · next answer hget => exact ⟨hroute _ hget answer (by simp), h⟩
  · next answer rest _ hget =>
    refine ⟨hroute _ hget answer (by simp), fun route hmem => ?_⟩
    rcases Table.mem_of_mem_insert hmem with hrest | hmem
    · rw [hrest]
      exact fun a ha => hroute _ hget a (List.mem_cons_of_mem _ ha)
    · exact h route hmem

/-- A request does not fail, and meets what the outside has for it. -/
theorem request_onlyTransport {w : World τ} (h : w.OnlyTransport) (url : Text) (timeout : τ) :
    Ensures (World.request url timeout) w
      (fun outcome v => OnlyTransport outcome ∧ v.OnlyTransport) fun _ _ => False :=
  onlyTransport_nextAnswer (w := w.record (.requested url timeout)) h url

/-! ### One get -/

variable {ctx : Context τ} {fetchTimeout : τ} {url current : Text} {maxBytes : Option Int}

section Limits

variable {I : World τ → Prop} {P : Failure τ → Prop}

/-- Whether there is time left only decides about one failure. -/
theorem failsWith_checkDeadline
    (hlate : P (.gateway (.deadlineExceeded ctx.namedTimeout (some url)))) :
    FailsWith I P (checkDeadline ctx url) := by
  refine failsWith_clock.bind fun now => ?_
  split
  · exact .abort hlate
  · exact .pure _

/-- A time limit fails as the deadline does. -/
theorem failsWith_timeoutFor
    (hlate : P (.gateway (.deadlineExceeded ctx.namedTimeout (some url)))) :
    FailsWith I P (timeoutFor ctx fetchTimeout url) := by
  refine (failsWith_checkDeadline hlate).bind fun _ => failsWith_clock.bind fun now => ?_
  split
  · exact .pure _
  · exact .pure _

end Limits

/-- A body fails in the ways of the transport, of the deadline and of the ceiling. -/
theorem failsWith_readParts {parts : List (BodyPart τ)}
    (hparts : ∀ f, .fault f ∈ parts → f.kind.isTransport = true) (size : Nat)
    (done : List (List UInt8)) : FailsWith World.OnlyTransport IsFetchFailure
      (readParts ctx url maxBytes size done parts) := by
  -- the cases are those of `readParts`: the kinds of the first part
  fun_induction readParts ctx url maxBytes size done parts with
  | case1 => exact .pure _
  | case2 size done delay rest ih =>
    have hwait : FailsWith World.OnlyTransport IsFetchFailure (World.wait (τ := τ) delay) :=
      .modify fun _ hw => hw
    exact hwait.bind fun _ => ih fun f hf => hparts f (List.mem_cons_of_mem _ hf)
  | case3 => exact .abort (.fetchFailed _ _ _)
  | case4 size done f rest hkind => exact absurd (hparts f List.mem_cons_self) hkind
  | case5 size done rest ih => exact ih fun f hf => hparts f (List.mem_cons_of_mem _ hf)
  | case6 size done b bytes rest ih =>
    refine (failsWith_checkDeadline (.deadlineExceeded _ _)).bind fun _ => ?_
    dsimp only
    split
    · exact .abort (.resourceLimitExceeded _ _)
    · exact ih fun f hf => hparts f (List.mem_cons_of_mem _ hf)

/-- A fault of the transport becomes a failed fetch, unless the deadline is over by then. -/
theorem failsWith_failRequest {α : Type} {f : Fault} (hf : f.kind.isTransport = true)
    (timeout : τ) : FailsWith World.OnlyTransport IsFetchFailure
      (failRequest (α := α) ctx url timeout f) := by
  unfold failRequest
  split
  · exact (failsWith_checkDeadline (.deadlineExceeded _ _)).bind fun _ => .abort (.fetchFailed _ _ _)
  · exact .abort (.fetchFailed _ _ _)

/-- A download of `url` that starts in the world `w` is sent to a location that is not legible where
it was found. -/
def Strayed (ctx : Context τ) (fetchTimeout : τ) (url : Text) (w : World τ) : Prop :=
  ∃ hops current v response location v', hops ≤ maxRedirects
    ∧ Redirected ctx fetchTimeout url w hops current v
    ∧ Answered ctx fetchTimeout current v response v' ∧ redirect? response = some location
    ∧ ¬ Url.JoinLegible current location

/-- What a download fails with, on the way from some hops on. -/
theorem download_fails {w v : World τ} {hops left : Nat} (hleft : hops + left ≤ maxRedirects + 1)
    (hchain : Redirected ctx fetchTimeout url w hops current v) (hv : v.OnlyTransport) :
    Ensures (download ctx fetchTimeout url maxBytes left current) v
      (fun _ => World.OnlyTransport) fun e t => (IsFetchFailure e
        ∨ (∃ defect, e = .badUrl defect) ∧ Strayed ctx fetchTimeout url w) ∧ t.OnlyTransport := by
  -- along the hops left
  induction left generalizing hops current v with
  | zero => exact ⟨Or.inl (.fetchFailed _ _ _), hv⟩
  | succ left ih =>
    rw [download, ensures_bind]
    refine Ensures.of_run (fun timeout v₁ htimeout => ?_) fun e t he => ?_
    rotate_left
    · -- no time is left for this hop
      have htimeout : FailsWith World.OnlyTransport IsFetchFailure
          (timeoutFor ctx fetchTimeout current) := failsWith_timeoutFor (.deadlineExceeded _ _)
      obtain ⟨hfailure, ht⟩ := (htimeout v hv).of_error he
      exact ⟨Or.inl hfailure, ht⟩
    obtain rfl := (timeoutFor_ensures ctx fetchTimeout current v).of_ok htimeout
    have hrequests := request_onlyTransport hv current timeout
    rw [ensures_bind]
    refine Ensures.of_run (fun outcome v' hrequest => ?_) fun e t he =>
      (hrequests.of_error he).elim
    obtain ⟨houtcome, hv'⟩ := hrequests.of_ok hrequest
    cases outcome with
    | error f =>
      exact (failsWith_failRequest houtcome timeout v' hv').mono (fun _ _ h => h)
        fun _ _ h => ⟨Or.inl h.1, h.2⟩
    | ok response =>
      have hanswered : Answered ctx fetchTimeout current v₁ response v' :=
        ⟨timeout, htimeout, hrequest⟩
      dsimp only
      -- an answer sends on, brings the text or reports a failure
      cases hlocation : redirect? response with
      | some location =>
        dsimp only
        rw [ensures_bind, ensures_lift]
        refine ⟨fun next hnext => ih (by omega) (hchain.hop hanswered hlocation hnext) hv',
          fun e he => ?_⟩
        rw [nextHop_eq] at he
        cases hlocate : locate current location with
        | error defect =>
          rw [hlocate] at he
          obtain rfl := Except.error.inj he
          have hillegible := (locate_eq_error_iff (ne_nil_of_redirect? hlocation)).mp
            ⟨defect, hlocate⟩
          exact ⟨Or.inr ⟨⟨defect, rfl⟩, hops, current, v₁, response, location, v', by omega,
            hchain, hanswered, hlocation, hillegible⟩, hv'⟩
        | ok next =>
          rw [hlocate] at he
          dsimp only at he
          split at he
          · cases he
          · obtain rfl := Except.error.inj he
            exact ⟨Or.inl (.disallowedHost _ _), hv'⟩
      | none =>
        dsimp only
        split
        · exact (failsWith_readParts houtcome 0 [] v' hv').mono (fun _ _ h => h)
            fun _ _ h => ⟨Or.inl h.1, h.2⟩
        · exact ⟨Or.inl (.fetchFailed _ _ _), hv'⟩

/-- What a get fails with. -/
theorem fetch_fails (ctx : Context τ) (fetchTimeout : τ) (url : Text) (maxBytes : Option Int)
    {s : Session τ} (hs : s.world.OnlyTransport) :
    Ensures (fetch ctx fetchTimeout url maxBytes) s (fun _ t => t.world.OnlyTransport)
      fun e t => (IsFetchFailure e ∨ (∃ defect, e = .badUrl defect)
        ∧ Table.get? url s.cache.texts = none ∧ Allowed ctx url
        ∧ Strayed ctx fetchTimeout url s.world) ∧ t.world.OnlyTransport := by
  rw [fetch, ensures_bind, ensures_get]
  -- a text that is held is given without a request
  cases hmiss : Table.get? url s.cache.texts with
  | some text =>
    dsimp only
    rw [ensures_bind, ensures_set, ensures_bind, Session.ensures_onWorld]
    exact hs
  | none =>
    dsimp only
    rw [ensures_bind, ensures_lift]
    refine ⟨fun url' hurl => ?_, fun e he => ?_⟩
    · obtain ⟨rfl, hallowed⟩ := assertAllowed_eq_ok_iff.mp hurl
      rw [ensures_bind, Session.ensures_onWorld]
      refine (download_fails (by omega) .start hs).mono ?_ ?_
      · intro bytes v hv
        rw [ensures_bind, ensures_modify, ensures_bind, Session.ensures_onWorld]
        exact hv
      · rintro e v ⟨hfailure, hv⟩
        exact ⟨hfailure.imp_right fun h => ⟨h.1, rfl, hallowed, h.2⟩, hv⟩
    · rw [assertAllowed_eq] at he
      split at he
      · cases he
      · obtain rfl := Except.error.inj he
        exact ⟨Or.inl (.disallowedHost _ _), hs⟩

/-- **How a get fails.**  Where the outside only reports faults of the transport, a get fails in one
of the ways that its caller knows, exactly if it is not sent to a location that is not legible where
it was found; and the outside only reports such faults afterwards. -/
theorem fetch_failures (ctx : Context τ) (fetchTimeout : τ) (url : Text) (maxBytes : Option Int)
    {s : Session τ} (hs : s.world.OnlyTransport) :
    ((∀ e t, fetch ctx fetchTimeout url maxBytes s = .error e t → IsFetchFailure e)
        ↔ (Table.get? url s.cache.texts = none → Allowed ctx url →
          ∀ hops current v response location v', hops ≤ maxRedirects →
            Redirected ctx fetchTimeout url s.world hops current v →
            Answered ctx fetchTimeout current v response v' → redirect? response = some location →
            Url.JoinLegible current location))
      ∧ (∀ e t, fetch ctx fetchTimeout url maxBytes s = .error e t →
        IsFetchFailure e ∨ ∃ defect, e = .badUrl defect)
      ∧ (final (fetch ctx fetchTimeout url maxBytes) s).world.OnlyTransport := by
  have hfails := fetch_fails ctx fetchTimeout url maxBytes hs
  refine ⟨⟨?_, ?_⟩, ?_, (hfails.mono (fun _ _ h => h) fun _ _ h => h.2).final⟩
  · -- a location that is not legible makes the get fail with what its caller does not know
    intro hknown hmiss hallowed hops current v response location v' hhops hchain hanswered hlocation
    by_contra hillegible
    obtain ⟨defect, hlocate⟩ := (locate_eq_error_iff (ne_nil_of_redirect? hlocation)).mpr hillegible
    have hnext : nextHop ctx current location = .error (.badUrl defect) := by
      rw [nextHop_eq, hlocate]
    exact not_isFetchFailure_badUrl (hknown _ _
      (fetch_eq_of_astray hmiss hallowed hchain hhops hanswered hlocation hnext))
  · -- and there is no other way to such a failure
    intro hlegible e t he
    refine (hfails.of_error he).1.resolve_right ?_
    rintro ⟨-, hmiss, hallowed, hops, current, v, response, location, v', hhops, hchain, hanswered,
      hlocation, hillegible⟩
    exact hillegible (hlegible hmiss hallowed hops current v response location v' hhops hchain
      hanswered hlocation)
  · exact fun e t he => (hfails.of_error he).1.imp_right fun h => h.1

/-- One text, which meets this answer. -/
def answeredWorld (answer : Answer Float) : World Float :=
  { strayWorld with routes := [("https://host/a.sol", [answer])] }

/-- A connection that breaks. -/
def brokenAnswer : Answer Float := ⟨0, .error ⟨.connectionError, "reset"⟩⟩

theorem broken_connection_known : (answeredWorld brokenAnswer).OnlyTransport
    ∧ (∃ t, fetch strayContext 20 "https://host/a.sol" none
      (Session.ofWorld (answeredWorld brokenAnswer))
        = .error (.gateway (.fetchFailed "https://host/a.sol" none "reset")) t)
    ∧ ∀ e t, fetch strayContext 20 "https://host/a.sol" none
      (Session.ofWorld (answeredWorld brokenAnswer)) = .error e t → IsFetchFailure e := by
  have hworld : (answeredWorld brokenAnswer).OnlyTransport := by
    intro route hroute answer hanswer
    obtain rfl := List.mem_singleton.mp hroute
    obtain rfl := List.mem_singleton.mp hanswer
    exact (show FaultKind.connectionError.isTransport = true from rfl)
  refine ⟨hworld, ⟨_, rfl⟩, (fetch_failures strayContext 20 "https://host/a.sol" none
    (s := Session.ofWorld (answeredWorld brokenAnswer)) hworld).1.mpr ?_⟩
  -- there is no hop, since no request is answered
  intro _ _ hops current v response location v' _ hchain hanswered
  have hnone : ∀ {hops current v}, Redirected strayContext 20 "https://host/a.sol"
      (answeredWorld brokenAnswer) hops current v →
      current = "https://host/a.sol" ∧ v = answeredWorld brokenAnswer := by
    intro hops current v h
    induction h with
    | start => exact ⟨rfl, rfl⟩
    | hop _ hanswered _ _ ih =>
      obtain ⟨rfl, rfl⟩ := ih
      obtain ⟨_, ⟨⟩, ⟨⟩⟩ := hanswered
  obtain ⟨rfl, rfl⟩ := hnone hchain
  obtain ⟨_, ⟨⟩, ⟨⟩⟩ := hanswered

/-- A redirect to what cannot be read as a URL. -/
def bracketAnswer : Answer Float :=
  ⟨0, .ok ⟨302, some "Found", [("Location", "https://[x")], .whole []⟩⟩

/-- A get that is sent there fails in a way that its caller does not know. -/
theorem bracket_location_unknown : (answeredWorld bracketAnswer).OnlyTransport
    ∧ ∃ t, fetch strayContext 20 "https://host/a.sol" none
      (Session.ofWorld (answeredWorld bracketAnswer)) = .error (.badUrl .unbalancedBrackets) t := by
  refine ⟨?_, _, rfl⟩
  intro route hroute answer hanswer
  obtain rfl := List.mem_singleton.mp hroute
  obtain rfl := List.mem_singleton.mp hanswer
  intro f hf
  cases hf

end FetchCache

end CompileGate
