/-
CompileGate/Proofs/AllowedRequests.lean

No URL is requested whose host is not on the allow-list.

One get checks the URL that it is asked for and every URL that it is sent on to;
`download_ensures` is the induction over its hops.  A whole run (`Session.Run`)
is made of gets of any URLs, of walks over import graphs, and of changes outside:
time may pass and the answers to come may become others.  All of them only add
requests that are allowed (`World.AllowedSince`), also where they fail.

A redirect to a URL that is not allowed, or to none at all, ends its get: the
world is left as it was right after the request that was answered with it.
-/
import CompileGate.Proofs.RedirectChain
import CompileGate.Proofs.ResolvedUrl
import CompileGate.Proofs.SessionWalk

namespace CompileGate

open Effect FetchCache

variable {τ : Type}

/-! ### One get -/

/-- What was requested between two worlds is allowed. -/
def World.AllowedSince (ctx : Context τ) (w v : World τ) : Prop :=
  ∃ urls, v.requestedUrls = w.requestedUrls ++ urls ∧ ∀ url ∈ urls, Allowed ctx url

namespace World.AllowedSince

variable {ctx : Context τ} {w v u : World τ}

theorem of_eq (h : v.requestedUrls = w.requestedUrls) : AllowedSince ctx w v :=
  ⟨[], by rw [h, List.append_nil], by simp⟩

theorem trans (h : AllowedSince ctx w v) (h' : AllowedSince ctx v u) : AllowedSince ctx w u := by
  obtain ⟨urls, e, hurls⟩ := h
  obtain ⟨urls', e', hurls'⟩ := h'
  refine ⟨urls ++ urls', ?_, ?_⟩
  · rw [e', e, List.append_assoc]
  · intro url hurl
    rcases List.mem_append.mp hurl with hurl | hurl
    · exact hurls url hurl
    · exact hurls' url hurl

end World.AllowedSince

open World (AllowedSince)

theorem Effect.Silent.allowedSince {α : Type} {m : Effect τ (World τ) α} (h : Silent m)
    (ctx : Context τ) {w v : World τ} (hv : AllowedSince ctx w v) :
    Ensures m v (fun _ => AllowedSince ctx w) fun _ => AllowedSince ctx w := by
  refine (h v).mono ?_ ?_
  · exact fun _ _ e => hv.trans (.of_eq e)
  · exact fun _ _ e => hv.trans (.of_eq e)

namespace FetchCache

theorem nextHop_eq (ctx : Context τ) (current location : Text) :
    nextHop ctx current location
      = match locate current location with
        | .error defect => .error (.badUrl defect)
        | .ok next =>
          if Allowed ctx next then .ok next
          else .error (.gateway (.disallowedHost next (Url.hostOf next) none none)) := by
  unfold nextHop locate
  cases Url.join current location with
  | error defect => rfl
  | ok joined =>
    show (Failure.ofUrl (Url.canonical joined) >>= _) = match Url.canonical joined with
      | .error defect => _
      | .ok next => _
    cases Url.canonical joined with
    | error defect => rfl
    | ok next => exact assertAllowed_eq next ctx none none

theorem allowed_of_nextHop {ctx : Context τ} {current location next : Text}
    (h : nextHop ctx current location = .ok next) : Allowed ctx next := by
  rw [nextHop_eq] at h
  cases hl : locate current location with
  | error defect =>
    rw [hl] at h
    cases h
  | ok url =>
    rw [hl] at h
    dsimp only at h
    by_cases hu : Allowed ctx url
    · rw [if_pos hu] at h
      obtain rfl := Except.ok.inj h
      exact hu
    · rw [if_neg hu] at h
      cases h

variable [Seconds τ] {ctx : Context τ} {fetchTimeout : τ}

/-- A download of an allowed URL only requests what is allowed. -/
theorem download_ensures (url : Text) (maxBytes : Option Int) {left : Nat} {current : Text}
    {w v : World τ} (hcurrent : Allowed ctx current) (hv : AllowedSince ctx w v) :
    Ensures (download ctx fetchTimeout url maxBytes left current) v
      (fun _ => AllowedSince ctx w) fun _ => AllowedSince ctx w := by
  -- along the hops left; the URL of the next hop was checked before it is requested
  induction left generalizing current v with
  | zero => exact hv
  | succ left ih =>
    rw [download, ensures_bind]
    refine (timeoutFor_ensures ctx fetchTimeout current v).mono ?_ ?_
    rotate_left
    · rintro _ _ rfl
      exact hv
    rintro timeout _ rfl
    rw [ensures_bind]
    refine (World.request_ensures current timeout _).mono ?_ fun _ _ h => h.elim
    intro outcome v' hrequest
    have hv' : AllowedSince ctx w v' := by
      refine hv.trans ⟨[current], hrequest, ?_⟩
      intro u hu
      rw [List.mem_singleton.mp hu]
      exact hcurrent
    cases outcome with
    | error f => exact (silent_failRequest ctx current timeout f).allowedSince ctx hv'
    | ok response =>
      dsimp only
      cases redirect? response with
      | some location =>
        dsimp only
        rw [ensures_bind, ensures_lift]
        exact ⟨fun next hnext => ih (allowed_of_nextHop hnext) hv', fun _ _ => hv'⟩
      | none =>
        dsimp only
        split
        · exact (silent_readParts ctx url maxBytes _ 0 []).allowedSince ctx hv'
        · exact hv'

/-- A get of any URL only requests what is allowed. -/
theorem fetch_ensures (url : Text) (maxBytes : Option Int) {w : World τ} {s : Session τ}
    (hs : AllowedSince ctx w s.world) :
    Ensures (fetch ctx fetchTimeout url maxBytes) s
      (fun _ t => AllowedSince ctx w t.world) fun _ t => AllowedSince ctx w t.world := by
  rw [fetch, ensures_bind, ensures_get]
  cases Table.get? url s.cache.texts with
  | some text =>
    dsimp only
    rw [ensures_bind, ensures_set, ensures_bind, Session.ensures_onWorld]
    exact (Silent.log _ _ _ _).allowedSince ctx hs
  | none =>
    dsimp only
    rw [ensures_bind, ensures_lift]
    refine ⟨fun url' hurl => ?_, fun _ _ => hs⟩
    obtain ⟨rfl, hallowed⟩ := assertAllowed_eq_ok_iff.mp hurl
    rw [ensures_bind, Session.ensures_onWorld]
    refine (download_ensures url' maxBytes hallowed hs).mono ?_ fun _ _ h => h
    intro bytes v hv
    rw [ensures_bind, ensures_modify, ensures_bind, Session.ensures_onWorld]
    exact (Silent.log _ _ _ _).allowedSince ctx hv

end FetchCache

/-! ### Whole runs -/

variable [Seconds τ] {ctx : Context τ} {fetchTimeout : τ}

/-- A walk over the imports of any entry only requests what is allowed. -/
theorem buildGraph_ensures (key content : Text) (base : Option Text) {w : World τ} {s : Session τ}
    (hs : AllowedSince ctx w s.world) :
    Ensures (Pipeline.buildGraph ctx fetchTimeout key content base) s
      (fun _ t => AllowedSince ctx w t.world) fun _ t => AllowedSince ctx w t.world := by
  have hkeeps : (Pipeline.fetcher ctx fetchTimeout).Keeps ⟨key, content, base⟩ ctx
      (fun _ t => AllowedSince ctx w t.world) fun _ _ _ t => AllowedSince ctx w t.world :=
    fun _ _ _ ht => fetch_ensures _ _ ht
  refine (Pipeline.buildGraph_ensures hkeeps hs).mono ?_ ?_
  · rintro g _ ⟨-, u, hu, rfl⟩
    refine hu.trans (.of_eq ?_)
    exact (World.requestedUrls_record _ _).trans (List.append_nil _)
  · intro e t h
    exact SourceGraph.Stopped.state (P := fun t : Session τ => AllowedSince ctx w t.world)
      (fun _ _ ht => ht) (fun _ _ _ _ ht => ht) h

/-- What can happen to a session: it is used, successfully or not, or the outside changes. -/
inductive Session.Step (ctx : Context τ) (fetchTimeout : τ) : Session τ → Session τ → Prop
  | got (url : Text) (maxBytes : Option Int) (s : Session τ) :
      Step ctx fetchTimeout s (final (fetch ctx fetchTimeout url maxBytes) s)
  | walked (key content : Text) (base : Option Text) (s : Session τ) :
      Step ctx fetchTimeout s (final (Pipeline.buildGraph ctx fetchTimeout key content base) s)
  | outside {s : Session τ} {w : World τ} : w.trace = s.world.trace →
      Step ctx fetchTimeout s { s with world := w }

/-- Any number of steps. -/
def Session.Run (ctx : Context τ) (fetchTimeout : τ) : Session τ → Session τ → Prop :=
  Relation.ReflTransGen (Session.Step ctx fetchTimeout)

theorem Session.Step.allowedSince {s t : Session τ} (h : Session.Step ctx fetchTimeout s t) :
    AllowedSince ctx s.world t.world := by
  cases h with
  | got url maxBytes => exact (fetch_ensures url maxBytes (.of_eq rfl)).final
  | walked key content base => exact (buildGraph_ensures key content base (.of_eq rfl)).final
  | outside htrace => exact .of_eq (World.requestedUrls_congr htrace)

theorem Session.Run.allowedSince {s t : Session τ} (h : Session.Run ctx fetchTimeout s t) :
    AllowedSince ctx s.world t.world := by
  induction h with
  | refl => exact .of_eq rfl
  | tail _ hstep ih => exact ih.trans hstep.allowedSince

/-! ### Redirects that lead nowhere -/

/-- A get that is sent to a URL that is not allowed ends there. -/
theorem fetch_eq_of_astray {url current location : Text} {maxBytes : Option Int} {s : Session τ}
    {hops : Nat} {v v' : World τ} {response : Response τ}
    (hmiss : Table.get? url s.cache.texts = none) (hurl : Allowed ctx url)
    (hchain : Redirected ctx fetchTimeout url s.world hops current v)
    (hhops : hops ≤ maxRedirects) (hanswered : Answered ctx fetchTimeout current v response v')
    (hlocation : redirect? response = some location) {e : Failure τ}
    (he : nextHop ctx current location = .error e) :
    fetch ctx fetchTimeout url maxBytes s = .error e { s with world := v' } := by
  have hdownload : download ctx fetchTimeout url maxBytes (maxRedirects + 1) url s.world
      = .error e v' := by
    have hsum : maxRedirects + 1 = maxRedirects - hops + 1 + hops := by omega
    rw [hsum, download_eq_of_redirected maxBytes hchain,
      download_eq_of_answered maxBytes _ hanswered hlocation, he]
  have hassert : Specifier.assertAllowed url ctx none none = .ok url :=
    assertAllowed_eq_ok_iff.mpr ⟨rfl, hurl⟩
  have hget : (get : Effect τ (Session τ) (Session τ)) s = .ok s s := rfl
  have hlift : (World.lift (Specifier.assertAllowed url ctx none none)
      : Effect τ (Session τ) Text) s = .ok url s := by
    rw [hassert]
    rfl
  have hfailed : Session.onWorld (download ctx fetchTimeout url maxBytes (maxRedirects + 1) url) s
      = .error e { s with world := v' } := by
    simp only [Session.onWorld, hdownload]
  rw [fetch, bind_of_ok hget]
  simp only [hmiss]
  rw [bind_of_ok hlift, bind_of_error hfailed]

/-- **The allow-list holds for every request of every run**, be it the first of a get or one that
it was sent to; and a get that is sent elsewhere fails at once. -/
theorem requests_allowed (ctx : Context τ) (fetchTimeout : τ) {s t : Session τ}
    (hrun : Session.Run ctx fetchTimeout s t) :
    (∃ urls, t.world.requestedUrls = s.world.requestedUrls ++ urls
        ∧ ∀ url ∈ urls, Url.hostOf url ≠ [] ∧ Url.hostOf url ∈ ctx.allowedHosts)
      ∧ ∀ url maxBytes hops current v response location v',
        Table.get? url t.cache.texts = none → Allowed ctx url →
        Redirected ctx fetchTimeout url t.world hops current v → hops ≤ maxRedirects →
        Answered ctx fetchTimeout current v response v' → redirect? response = some location →
        (∀ next, locate current location = .ok next → ¬ Allowed ctx next) →
        v'.requestedUrls = v.requestedUrls ++ [current]
          ∧ fetch ctx fetchTimeout url maxBytes t = .error
            (match locate current location with
              | .error defect => .badUrl defect
              | .ok next => .gateway (.disallowedHost next (Url.hostOf next) none none))
            { t with world := v' } := by
  refine ⟨hrun.allowedSince, ?_⟩
  intro url maxBytes hops current v response location v' hmiss hurl hchain hhops hanswered
    hlocation hastray
  refine ⟨requestedUrls_of_answered hanswered,
    fetch_eq_of_astray hmiss hurl hchain hhops hanswered hlocation ?_⟩
  rw [nextHop_eq]
  cases hl : locate current location with
  | error defect => rfl
  | ok next => exact if_neg (hastray next hl)

/-! ### A redirect to another host -/

def strayContext : Context Float where
  maxSources := 10
  maxTotalBytes := 1000
  allowedHosts := ["host"]
  packageCdn := "https://host"
  packageVersions := []
  deadline := none
  timeout := none

/-- One text, which is said to have moved to another host. -/
def strayWorld : World Float where
  now := 0
  routes := [("https://host/a.sol",
    [⟨0, .ok ⟨302, some "Found", [("Location", "//other/a.sol")], .whole []⟩⟩])]
  tools := .idle
  room := .usual
  breakdown := none
  trace := []

/-- What is left after a first get. -/
def strayEnd : Session Float :=
  final (fetch strayContext 20 "https://host/a.sol" none) (Session.ofWorld strayWorld)

/-- A second get fails as the first one did, and the other host is asked by neither. -/
theorem stray_redirect_refused : Session.Run strayContext 20 (Session.ofWorld strayWorld) strayEnd
    ∧ (∀ url ∈ strayEnd.world.requestedUrls, Allowed strayContext url)
    ∧ ∃ v : World Float, v.requestedUrls = ["https://host/a.sol", "https://host/a.sol"]
      ∧ fetch strayContext 20 "https://host/a.sol" none strayEnd
        = .error (.gateway (.disallowedHost "https://other/a.sol" "other" none none))
          { strayEnd with world := v } := by
  have hrun : Session.Run strayContext 20 (Session.ofWorld strayWorld) strayEnd :=
    Relation.ReflTransGen.single (.got "https://host/a.sol" none _)
  obtain ⟨⟨urls, hurls, hallowed⟩, hstray⟩ := requests_allowed strayContext 20 hrun
  refine ⟨hrun, ?_, ?_⟩
  · rw [hurls]
    exact hallowed
  · obtain ⟨hv, hfetch⟩ := hstray "https://host/a.sol" none 0 "https://host/a.sol" _
      ⟨302, some "Found", [("Location", "//other/a.sol")], .whole []⟩ "//other/a.sol"
      _ (by rfl) (by decide +kernel) .start (by decide) ⟨20, rfl, rfl⟩ (by rfl) (by
        intro next hnext
        have hlocate : locate "https://host/a.sol" "//other/a.sol" = .ok "https://other/a.sol" := by
          decide +kernel
        rw [hlocate] at hnext
        obtain rfl := Except.ok.inj hnext
        decide +kernel)
    exact ⟨_, hv, hfetch⟩

end CompileGate
