/-
CompileGate/Proofs/FetchHistory.lean

What a session remembers of its gets.

A session is used in any way (`Use`): texts are got, it is asked whether it has one,
and outside the clock and the answers to come change.  The reports of all this are its
history, and the history determines what it holds (`Remembers`): under each URL the
text of the first get that returned one, and in its two counters how many texts there
are and how often one was found.

A get is one of three things.  It finds a text and asks nobody (`fetch_of_hit`); or it
fetches one and stores it under the URL it was asked for, and under no other; or it
fails and leaves the texts and the counters alone (`fetch_of_miss`).

Main result: `texts_remembered`.
-/
import CompileGate.Proofs.BodyLimit

namespace CompileGate

open Effect FetchCache

variable {τ : Type} [Seconds τ]

/-! ### One get -/

namespace FetchCache

/-- The record of a text that was found. -/
def foundRecord (url : Text) : Log.Record :=
  ⟨Log.debug, "solc_gateway.fetch", "fetch cache hit", [("url", .string url)], none⟩

/-- A get of a text that is there returns it, whatever the limit, the clock and the web. -/
theorem fetch_of_hit (ctx : Context τ) (fetchTimeout : τ) {url text : Text} (maxBytes : Option Int)
    {s : Session τ} (h : Table.get? url s.cache.texts = some text) :
    fetch ctx fetchTimeout url maxBytes s
      = .ok text ⟨s.world.record (.logged (foundRecord url)),
          { s.cache with hits := s.cache.hits + 1 }⟩ := by
  have hget : (get : Effect τ (Session τ) (Session τ)) s = .ok s s := rfl
  rw [fetch, bind_of_ok hget]
  simp only [h]
  rfl

/-- A get of a text that is not there stores it, or leaves everything as it is. -/
theorem fetch_of_miss (ctx : Context τ) (fetchTimeout : τ) {url : Text} (maxBytes : Option Int)
    {s : Session τ} (h : Table.get? url s.cache.texts = none) :
    Ensures (fetch ctx fetchTimeout url maxBytes) s
      (fun text t => t.cache
        = ⟨Table.insert url text s.cache.texts, s.cache.fetches + 1, s.cache.hits⟩)
      fun _ t => t.cache = s.cache := by
  rw [fetch, ensures_bind, ensures_get]
  simp only [h]
  rw [ensures_bind, ensures_lift]
  refine ⟨fun _ _ => ?_, fun _ _ => rfl⟩
  rw [ensures_bind, Session.ensures_onWorld]
  refine .of_run (fun bytes v _ => ?_) fun _ _ _ => rfl
  rw [ensures_bind, ensures_modify, ensures_bind, Session.ensures_onWorld]
  exact rfl

end FetchCache

/-! ### Uses of a session -/

/-- What is done with a session, or what happens to its outside. -/
inductive Use (τ : Type)
  | get (url : Text) (maxBytes : Option Int)
  /-- Whether a text is there. -/
  | ask (url : Text)
  /-- Time passes, and the answers to come may become others. -/
  | outside (w : World τ)

/-- What a use came to. -/
inductive Report (τ : Type)
  | got (url : Text) (outcome : Except (Failure τ) Text)
  | told (url : Text) (known : Bool)
  | changed

namespace Report

/-- The text that a get of `url` returned. -/
def textOf? (url : Text) : Report τ → Option Text
  | .got u (.ok text) => if u = url then some text else none
  | _ => none

/-- Whether it is of a get that returned. -/
def isReturn : Report τ → Bool
  | .got _ (.ok _) => true
  | _ => false

end Report

/-- The text that the first get of `url` to return has returned. -/
def firstText? (url : Text) (history : List (Report τ)) : Option Text :=
  history.findSome? (Report.textOf? url)

namespace Session

/-- One use of a session. -/
def use (ctx : Context τ) (fetchTimeout : τ) (s : Session τ) : Use τ → Report τ × Session τ
  | .get url maxBytes =>
    (.got url (outcome (fetch ctx fetchTimeout url maxBytes) s),
      final (fetch ctx fetchTimeout url maxBytes) s)
  | .ask url => (.told url (Table.has url s.cache.texts), s)
  | .outside w => (.changed, { s with world := w })

/-- Uses one after the other. -/
def useAll (ctx : Context τ) (fetchTimeout : τ) (s : Session τ) :
    List (Use τ) → List (Report τ) × Session τ
  | [] => ([], s)
  | u :: rest =>
    let (report, t) := s.use ctx fetchTimeout u
    let (more, final) := t.useAll ctx fetchTimeout rest
    (report :: more, final)

end Session

/-! ### What is remembered -/

section

omit [Seconds τ]

theorem textOf?_got_ok (url other text : Text) :
    Report.textOf? other (.got url (.ok text) : Report τ)
      = if other = url then some text else none := by
  simp only [Report.textOf?, eq_comm]

theorem firstText?_concat (url : Text) (history : List (Report τ)) (report : Report τ) :
    firstText? url (history ++ [report]) = (firstText? url history).or (report.textOf? url) := by
  rw [firstText?, List.findSome?_append, List.findSome?_singleton]
  rfl

/-- There is a first text when a get has returned. -/
theorem isSome_firstText?_iff {url : Text} {history : List (Report τ)} :
    (firstText? url history).isSome ↔ ∃ text, .got url (.ok text) ∈ history := by
  rw [firstText?, List.findSome?_isSome_iff]
  constructor
  · rintro ⟨report, hmem, hsome⟩
    cases report with
    | got u outcome =>
      cases outcome with
      | ok text =>
        rw [textOf?_got_ok, Option.isSome_ite] at hsome
        exact ⟨text, hsome ▸ hmem⟩
      | error e => cases hsome
    | told u known => cases hsome
    | changed => cases hsome
  · rintro ⟨text, hmem⟩
    exact ⟨_, hmem, by rw [textOf?_got_ok, if_pos rfl]; rfl⟩

/-- The texts are those that were returned first, and they are counted. -/
structure Remembers (history : List (Report τ)) (cache : FetchCache) : Prop where
  text_eq : ∀ url, Table.get? url cache.texts = firstText? url history
  nodup : (Table.names cache.texts).Nodup
  fetches_eq : cache.fetches = (Table.names cache.texts).length
  returns_eq : cache.hits + cache.fetches = history.countP Report.isReturn

/-- Nothing is remembered at first. -/
theorem Remembers.start : Remembers ([] : List (Report τ)) ⟨[], 0, 0⟩ where
  text_eq _ := rfl
  nodup := List.nodup_nil
  fetches_eq := rfl
  returns_eq := rfl

variable {history : List (Report τ)} {cache : FetchCache}

/-- A text is there when a get of it has returned. -/
theorem Remembers.has_iff (h : Remembers history cache) (url : Text) :
    Table.has url cache.texts = true ↔ ∃ text, .got url (.ok text) ∈ history := by
  rw [← isSome_firstText?_iff, ← h.text_eq, Table.has]

/-- A report that is of no text returned changes nothing. -/
theorem Remembers.skip (h : Remembers history cache) {report : Report τ}
    (hreport : report.isReturn = false) : Remembers (history ++ [report]) cache where
  text_eq url := by
    have hnone : report.textOf? url = none := by
      cases report with
      | got u outcome =>
        cases outcome with
        | ok text => cases hreport
        | error e => rfl
      | told u known => rfl
      | changed => rfl
    rw [h.text_eq, firstText?_concat, hnone, Option.or_none]
  nodup := h.nodup
  fetches_eq := h.fetches_eq
  returns_eq := by
    rw [List.countP_append, List.countP_singleton, hreport]
    exact h.returns_eq

/-- A get that returned is one more. -/
theorem countP_isReturn_concat (history : List (Report τ)) (url text : Text) :
    (history ++ [Report.got url (.ok text)]).countP Report.isReturn
      = history.countP Report.isReturn + 1 := by
  rw [List.countP_append, List.countP_singleton]
  rfl

/-- A text that was found is counted. -/
theorem Remembers.found (h : Remembers history cache) {url text : Text}
    (htext : Table.get? url cache.texts = some text) :
    Remembers (history ++ [.got url (.ok text)]) { cache with hits := cache.hits + 1 } where
  text_eq other := by
    rw [firstText?_concat, textOf?_got_ok, ← h.text_eq]
    by_cases hother : other = url
    · rw [hother, htext, Option.some_or]
    · rw [if_neg hother, Option.or_none]
  nodup := h.nodup
  fetches_eq := h.fetches_eq
  returns_eq := by
    have hreturns := h.returns_eq
    rw [countP_isReturn_concat]
    show cache.hits + 1 + cache.fetches = _
    omega

/-- A text that was fetched is kept and counted. -/
theorem Remembers.fetched (h : Remembers history cache) {url text : Text}
    (hmiss : Table.get? url cache.texts = none) :
    Remembers (history ++ [.got url (.ok text)])
      ⟨Table.insert url text cache.texts, cache.fetches + 1, cache.hits⟩ where
  text_eq other := by
    rw [firstText?_concat, textOf?_got_ok, ← h.text_eq, Table.get?_insert]
    by_cases hother : other = url
    · rw [hother, hmiss, Option.none_or]
    · rw [if_neg hother, if_neg hother, Option.or_none]
  nodup := Table.nodup_names_insert h.nodup
  fetches_eq := by
    rw [Table.names_insert, if_neg (Table.get?_eq_none_iff.mp hmiss), List.length_append]
    exact congrArg (· + 1) h.fetches_eq
  returns_eq := by
    have hreturns := h.returns_eq
    rw [countP_isReturn_concat]
    show cache.hits + (cache.fetches + 1) = _
    omega

end

variable {history : List (Report τ)} {s : Session τ}

/-- A use of a session adds its report to what is remembered. -/
theorem Remembers.use (ctx : Context τ) (fetchTimeout : τ) (h : Remembers history s.cache)
    (u : Use τ) :
    Remembers (history ++ [(s.use ctx fetchTimeout u).1]) (s.use ctx fetchTimeout u).2.cache := by
  cases u with
  | ask url => exact h.skip rfl
  | outside w => exact h.skip rfl
  | get url maxBytes =>
    show Remembers (history ++ [.got url (outcome _ s)]) (final _ s).cache
    cases htext : Table.get? url s.cache.texts with
    | some text =>
      unfold outcome final
      rw [fetch_of_hit ctx fetchTimeout maxBytes htext]
      exact h.found htext
    | none =>
      have hmiss := fetch_of_miss ctx fetchTimeout maxBytes htext
      unfold outcome final
      cases hrun : fetch ctx fetchTimeout url maxBytes s with
      | ok text t =>
        have hcache := hmiss.of_ok hrun
        dsimp only
        rw [hcache]
        exact h.fetched htext
      | error e t =>
        have hcache := hmiss.of_error hrun
        dsimp only
        rw [hcache]
        exact h.skip rfl

/-- So do any number of uses. -/
theorem Remembers.useAll (ctx : Context τ) (fetchTimeout : τ) (h : Remembers history s.cache)
    (uses : List (Use τ)) :
    Remembers (history ++ (s.useAll ctx fetchTimeout uses).1)
      (s.useAll ctx fetchTimeout uses).2.cache := by
  induction uses generalizing history s with
  | nil =>
    rw [Session.useAll, List.append_nil]
    exact h
  | cons u rest ih =>
    have hrest := ih (h.use ctx fetchTimeout u)
    rw [List.append_assoc] at hrest
    exact hrest

/-- A get that fails leaves what is held as it was. -/
theorem cache_of_error (ctx : Context τ) (fetchTimeout : τ) (url : Text) (maxBytes : Option Int)
    (s : Session τ) :
    Ensures (fetch ctx fetchTimeout url maxBytes) s (fun _ _ => True) fun _ t => t.cache = s.cache := by
  cases htext : Table.get? url s.cache.texts with
  | some text =>
    rw [Ensures, fetch_of_hit ctx fetchTimeout maxBytes htext]
    trivial
  | none =>
    have hmiss := fetch_of_miss ctx fetchTimeout maxBytes htext
    exact hmiss.mono (fun _ _ _ => trivial) fun _ _ hcache => hcache

/-- **A session remembers the first text of each URL**, whatever is done with it and whatever happens
outside: it has the texts of the gets that returned and no others, a later get of one returns it
without a request, a get that fails changes nothing, and the counters count the texts and the gets
that returned. -/
theorem texts_remembered (ctx : Context τ) (fetchTimeout : τ) (w : World τ) (uses : List (Use τ)) :
    let (history, s) := (Session.ofWorld w).useAll ctx fetchTimeout uses
    (∀ url, Table.has url s.cache.texts = true ↔ ∃ text, .got url (.ok text) ∈ history)
      ∧ (∀ url text, firstText? url history = some text →
        ∀ (ctx' : Context τ) (fetchTimeout' : τ) maxBytes v,
        ∃ t, fetch ctx' fetchTimeout' url maxBytes { s with world := v } = .ok text t
          ∧ t.world.requestedUrls = v.requestedUrls ∧ t.cache.texts = s.cache.texts)
      ∧ (∀ url maxBytes, Ensures (fetch ctx fetchTimeout url maxBytes) s (fun _ _ => True)
        fun _ t => t.cache = s.cache)
      ∧ (Table.names s.cache.texts).Nodup
      ∧ s.cache.fetches = (Table.names s.cache.texts).length
      ∧ s.cache.hits + s.cache.fetches = history.countP Report.isReturn := by
  have hstart : Remembers ([] : List (Report τ)) (Session.ofWorld w).cache := .start
  have h := hstart.useAll ctx fetchTimeout uses
  rw [List.nil_append] at h
  refine ⟨h.has_iff, fun url text hfirst ctx' fetchTimeout' maxBytes v => ?_,
    fun url maxBytes => cache_of_error ctx fetchTimeout url maxBytes _,
    h.nodup, h.fetches_eq, h.returns_eq⟩
  rw [← h.text_eq] at hfirst
  refine ⟨_, fetch_of_hit ctx' fetchTimeout' maxBytes hfirst, ?_, rfl⟩
  rw [World.requestedUrls_record]
  exact List.append_nil _

/-- The web has one text, and another URL leads to it. -/
def movedWorld : World Int where
  now := 0
  routes := [
    ("https://host/a.sol",
      [⟨0, .ok ⟨302, some "Found", [("Location", "https://host/b.sol")], .whole []⟩⟩]),
    ("https://host/b.sol",
      [⟨0, .ok ⟨200, none, [], .whole (("contract B {}" : Text).flatMap Utf8.encodePoint)⟩⟩])]
  tools := .idle
  room := .usual
  breakdown := none
  trace := []

def movedContext : Context Int where
  maxSources := 1
  maxTotalBytes := 100
  allowedHosts := ["host"]
  packageCdn := "https://host"
  packageVersions := []
  deadline := none
  timeout := none

/-- The text is got where it has moved from; where it is, it is too long for the second get. -/
def movedUses : List (Use Int) :=
  [.get "https://host/a.sol" none, .get "https://host/b.sol" (some 5), .ask "https://host/b.sol"]

/-- It is remembered under the first URL alone, also when the web has lost it. -/
theorem texts_remembered_moved :
    let (history, s) := (Session.ofWorld movedWorld).useAll movedContext 5 movedUses
    Table.has "https://host/a.sol" s.cache.texts = true
      ∧ Table.has "https://host/b.sol" s.cache.texts = false
      ∧ (∃ t, fetch movedContext 5 "https://host/a.sol" (some 0)
            { s with world := { movedWorld with routes := [] } } = .ok "contract B {}" t
          ∧ t.world.requestedUrls = [] ∧ t.cache.texts = s.cache.texts)
      ∧ s.cache.hits + s.cache.fetches = history.countP Report.isReturn := by
  obtain ⟨hhas, hfound, -, -, -, hreturns⟩ :=
    texts_remembered movedContext 5 movedWorld movedUses
  have hfirst : firstText? "https://host/a.sol"
      ((Session.ofWorld movedWorld).useAll movedContext 5 movedUses).1
        = some "contract B {}" := by decide +kernel
  refine ⟨(hhas _).mpr ?_, by decide +kernel, hfound _ _ hfirst movedContext 5 (some 0) _, hreturns⟩
  exact isSome_firstText?_iff.mp (Option.isSome_of_eq_some hfirst)

end CompileGate
