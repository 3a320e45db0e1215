/-
CompileGate/Proofs/CeilingReferrer.lean

What the failure of a walk at a ceiling names.

Four places fail at a ceiling.  Three of them belong to the walk and know the file
whose import is followed; the fourth is the get, which drops a body as soon as it is
too long and knows only the URL.  The walk passes such a failure on as it is.

The texts that the walk has found stay in its session (`Held`), and a text is put
there when its get returns.  So the session that a failed walk leaves behind tells
which place it was: the text of the URL in question is there, unless its body was cut
off (`Struck`), and exactly then the failure names no file.

Main result: `ceiling_names_referrer`.
-/
import CompileGate.Proofs.FetchFailures
import CompileGate.Proofs.FetchHistory
import CompileGate.Proofs.LimitedWalk
import CompileGate.Proofs.ResolutionFailures

namespace CompileGate

open Effect

variable {τ : Type}

/-! ### Effects that may fail at a limit -/

/-- If the effect fails at a limit, it is with what is in `P`. -/
abbrev Effect.StrikesWith {σ α : Type} (P : Failure τ → Prop) (m : Effect τ σ α) : Prop :=
  FailsWith (fun _ => True) (fun e => e.IsLimit → P e) m

namespace Effect.StrikesWith

variable {σ α : Type} {P : Failure τ → Prop}

theorem throw {e : Failure τ} (h : ¬ e.IsLimit) :
    StrikesWith P (MonadExcept.throw e : Effect τ σ α) :=
  FailsWith.throw fun hlimit => (h hlimit).elim

theorem abort {error : GatewayError τ} (h : ¬ (Failure.gateway error).IsLimit) :
    StrikesWith P (World.abort error : Effect τ σ α) := throw h

end Effect.StrikesWith

/-! ### Resolution -/

namespace Specifier

open Url

variable {raw spec base url : Text} {ctx : Context τ} {referrer : Option Text} {e : Failure τ}

theorem Blames.not_isLimit (h : Blames spec referrer e) : ¬ e.IsLimit := by
  cases h with
  | disallowedHost => simp [Failure.IsLimit]
  | unsupportedSpecifier => simp [Failure.IsLimit]
  | missingPackageVersion => simp [Failure.IsLimit]
  | noBaseContext => simp [Failure.IsLimit]

theorem not_isLimit_of_assertAllowed {specifier : Option Text}
    (h : assertAllowed url ctx specifier referrer = .error e) : ¬ e.IsLimit := by
  rw [assertAllowed_eq] at h
  split at h
  · cases h
  · obtain rfl := Except.error.inj h
    simp [Failure.IsLimit]

theorem not_isLimit_of_admitted (h : admitted url ctx raw referrer = .error e) : ¬ e.IsLimit := by
  unfold admitted at h
  cases hurl : Url.canonical url with
  | error defect =>
    rw [hurl] at h
    obtain rfl := Except.error.inj h
    simp [Failure.IsLimit]
  | ok u =>
    rw [hurl] at h
    exact not_isLimit_of_assertAllowed h

theorem not_isLimit_of_resolveJoined (h : resolveJoined raw spec base ctx referrer = .error e) :
    ¬ e.IsLimit := by
  unfold resolveJoined at h
  cases hurl : Url.join base spec with
  | error defect =>
    rw [hurl] at h
    obtain rfl := Except.error.inj h
    simp [Failure.IsLimit]
  | ok u =>
    rw [hurl] at h
    exact not_isLimit_of_admitted h

/-- No resolution fails at a limit. -/
theorem not_isLimit_of_resolve {base : Option Text}
    (h : resolve raw base ctx referrer = .error e) : ¬ e.IsLimit := by
  -- the cases are the forms of a specifier
  rw [resolve_eq] at h
  split at h
  · exact not_isLimit_of_resolveJoined h
  · split at h
    · obtain rfl := Except.error.inj h
      simp [Failure.IsLimit]
    · exact not_isLimit_of_admitted h
  · split at h
    · next error herror =>
      obtain rfl := Except.error.inj h
      exact (blames_of_expandPackage herror).not_isLimit
    · exact not_isLimit_of_admitted h
  · split at h
    · obtain rfl := Except.error.inj h
      simp [Failure.IsLimit]
    · exact not_isLimit_of_resolveJoined h
  · obtain rfl := Except.error.inj h
    simp [Failure.IsLimit]

end Specifier

/-! ### One get -/

/-- The number of bytes that the parts of a body bring before a fault. -/
def bytesBefore : List (BodyPart τ) → Nat
  | [] => 0
  | .wait _ :: rest => bytesBefore rest
  | .fault _ :: _ => 0
  | .bytes b :: rest => b.length + bytesBefore rest

namespace FetchCache

variable [Seconds τ] {ctx : Context τ} {fetchTimeout : τ} {url current : Text}
variable {maxBytes : Option Int}

theorem strikesWith_checkDeadline {P : Failure τ → Prop} : StrikesWith P (checkDeadline ctx url) :=
  failsWith_checkDeadline (by simp [Failure.IsLimit])

theorem strikesWith_failRequest {α : Type} {P : Failure τ → Prop} (timeout : τ) (f : Fault) :
    StrikesWith P (failRequest (α := α) ctx url timeout f) := by
  unfold failRequest
  split
  · exact strikesWith_checkDeadline.bind fun _ => .abort (by simp [Failure.IsLimit])
  · split
    · exact .abort (by simp [Failure.IsLimit])
    · exact .throw (by simp [Failure.IsLimit])

omit [Seconds τ] in
theorem not_isLimit_of_nextHop {location : Text} {e : Failure τ}
    (h : nextHop ctx current location = .error e) : ¬ e.IsLimit := by
  rw [nextHop_eq] at h
  split at h
  · obtain rfl := Except.error.inj h
    simp [Failure.IsLimit]
  · split at h
    · cases h
    · obtain rfl := Except.error.inj h
      simp [Failure.IsLimit]

/-- A body is cut off when it brings more than is wanted. -/
theorem strikesWith_readParts (size : Nat) (done : List (List UInt8)) (parts : List (BodyPart τ)) :
    StrikesWith (fun e => e = tooLong ctx url
        ∧ ∃ limit, maxBytes = some limit ∧ limit < ((size + bytesBefore parts : Nat) : Int))
      (readParts ctx url maxBytes size done parts) := by
  -- the cases are those of `readParts`: the kinds of the first part
  fun_induction readParts ctx url maxBytes size done parts with
  | case1 => exact .pure _
  | case2 size done delay rest ih =>
    have hwait : FailsWith (fun _ => True) (fun _ => False) (World.wait (τ := τ) delay) :=
      .modify fun _ _ => trivial
    exact (hwait.mono fun _ => False.elim).bind fun _ => ih
  | case3 => exact .abort (by simp [Failure.IsLimit])
  | case4 => exact .throw (by simp [Failure.IsLimit])
  | case5 size done rest ih =>
    rw [bytesBefore, List.length_nil, Nat.zero_add]
    exact ih
  | case6 size done b bytes rest ih =>
    -- the deadline comes first, and is no limit of this kind
    refine strikesWith_checkDeadline.bind fun _ => ?_
    dsimp only at ih ⊢
    rw [bytesBefore, ← Nat.add_assoc]
    split
    · next hover =>
      cases maxBytes with
      | none => cases hover
      | some limit =>
        have hlt := of_decide_eq_true hover
        exact .abort fun _ => ⟨rfl, limit, rfl, by omega⟩
    · exact ih

/-- A download of `url` that starts in the world `w` comes to an answer of success whose body brings
more than `limit` bytes. -/
def Overrun (ctx : Context τ) (fetchTimeout : τ) (url : Text) (limit : Int) (w : World τ) : Prop :=
  ∃ hops current v response v', hops ≤ maxRedirects
    ∧ Redirected ctx fetchTimeout url w hops current v
    ∧ Answered ctx fetchTimeout current v response v' ∧ redirect? response = none
    ∧ 200 ≤ response.status ∧ response.status < 300
    ∧ limit < bytesBefore (response.body.read chunkSize)

/-- A failure of a download at a limit is that of a body that is cut off. -/
def IsCutOff (ctx : Context τ) (fetchTimeout : τ) (url : Text) (maxBytes : Option Int)
    (w : World τ) (e : Failure τ) : Prop :=
  e = tooLong ctx url ∧ ∃ limit, maxBytes = some limit ∧ Overrun ctx fetchTimeout url limit w

theorem download_strikes {w v : World τ} {hops left : Nat} (hleft : hops + left ≤ maxRedirects + 1)
    (hchain : Redirected ctx fetchTimeout url w hops current v) :
    Ensures (download ctx fetchTimeout url maxBytes left current) v (fun _ _ => True)
      fun e _ => e.IsLimit → IsCutOff ctx fetchTimeout url maxBytes w e := by
  -- along the hops left; those made so far are in the chain
  induction left generalizing hops current v with
  | zero => exact fun hlimit => absurd hlimit (by simp [Failure.IsLimit])
  | succ left ih =>
    rw [download, ensures_bind]
    refine Ensures.of_run (fun timeout v₁ htimeout => ?_) fun e t he => ?_
    rotate_left
    · have hcheck : StrikesWith (fun _ => False) (timeoutFor ctx fetchTimeout current) :=
        failsWith_timeoutFor (by simp [Failure.IsLimit])
      exact fun hlimit => (((hcheck v trivial).of_error he).1 hlimit).elim
    obtain rfl := (timeoutFor_ensures ctx fetchTimeout current v).of_ok htimeout
    rw [ensures_bind]
    refine Ensures.of_run (fun outcome v' hrequest => ?_) fun e t he =>
      ((World.request_ensures current timeout _).of_error he).elim
    -- only reading the body can strike
    cases outcome with
    | error f =>
      exact (strikesWith_failRequest timeout f v' trivial).mono (fun _ _ _ => trivial)
        fun _ _ h => h.1
    | ok response =>
      have hanswered : Answered ctx fetchTimeout current v₁ response v' :=
        ⟨timeout, htimeout, hrequest⟩
      dsimp only
      cases hlocation : redirect? response with
      | some location =>
        dsimp only
        rw [ensures_bind, ensures_lift]
        refine ⟨fun next hnext => ih (by omega) (hchain.hop hanswered hlocation hnext),
          fun e he hlimit => (not_isLimit_of_nextHop he hlimit).elim⟩
      | none =>
        dsimp only
        split
        · next hstatus =>
          refine (strikesWith_readParts 0 [] _ v' trivial).mono (fun _ _ _ => trivial) ?_
          rintro e _ ⟨hread, -⟩ hlimit
          obtain ⟨he, limit, hmax, hlt⟩ := hread hlimit
          rw [Nat.zero_add] at hlt
          exact ⟨he, limit, hmax, hops, current, v₁, response, v', by omega, hchain, hanswered,
            hlocation, hstatus.1, hstatus.2, hlt⟩
        · exact fun hlimit => absurd hlimit (by simp [Failure.IsLimit])

/-- A get that returns leaves its text in the session; one that fails found none there and leaves
none, and if it fails at a limit, its body was cut off. -/
theorem fetch_strikes (ctx : Context τ) (fetchTimeout : τ) (url : Text) (maxBytes : Option Int)
    (s : Session τ) :
    Ensures (fetch ctx fetchTimeout url maxBytes) s
      (fun text t => t.cache.texts = s.cache.texts ∧ Table.get? url s.cache.texts = some text
        ∨ t.cache.texts = Table.insert url text s.cache.texts)
      fun e t => t.cache = s.cache ∧ Table.get? url s.cache.texts = none
        ∧ (e.IsLimit → IsCutOff ctx fetchTimeout url maxBytes s.world e) := by
  -- a text that is there is returned, whatever is wanted
  cases hmiss : Table.get? url s.cache.texts with
  | some text =>
    rw [Ensures, fetch_of_hit ctx fetchTimeout maxBytes hmiss]
    exact Or.inl ⟨rfl, rfl⟩
  | none =>
    rw [fetch, ensures_bind, ensures_get]
    simp only [hmiss]
    rw [ensures_bind, ensures_lift]
    refine ⟨fun url' hurl => ?_, fun e he => ⟨rfl, trivial, fun hlimit =>
      (Specifier.not_isLimit_of_assertAllowed he hlimit).elim⟩⟩
    rw [ensures_bind, Session.ensures_onWorld]
    refine (download_strikes (by omega) .start).mono ?_ fun e v h => ⟨rfl, trivial, h⟩
    intro bytes v _
    rw [ensures_bind, ensures_modify, ensures_bind, Session.ensures_onWorld]
    exact Or.inr rfl

end FetchCache

/-! ### The walk -/

namespace SourceGraph

open FetchCache

variable {entry : Source} {ctx : Context τ} {fetchTimeout : τ} {sources : List Source}
variable {child : Text} {s t : Session τ}

/-- The sources found have their texts in the session, but for the entry. -/
def Held (entry : Source) (sources : List Source) (s : Session τ) : Prop :=
  ∀ y ∈ sources, y = entry ∨ Table.get? y.key s.cache.texts = some y.content

theorem held_entry (entry : Source) (s : Session τ) : Held entry [entry] s :=
  fun _ hy => Or.inl (List.mem_singleton.mp hy)

theorem Held.of_eq (h : Held entry sources s) (ht : t.cache = s.cache) : Held entry sources t := by
  intro y hy
  rw [ht]
  exact h y hy

/-- A new text leaves those of the other keys alone. -/
theorem Held.insert {content : Text} (h : Held entry sources s)
    (hfresh : child ∉ sources.map Source.key)
    (ht : t.cache.texts = Table.insert child content s.cache.texts) :
    Held entry (sources ++ [.fetched child content]) t := by
  intro y hy
  rw [ht, Table.get?_insert]
  rcases List.mem_append.mp hy with hy | hy
  · have hne : y.key ≠ child := fun heq => hfresh (heq ▸ List.mem_map_of_mem hy)
    rw [if_neg hne]
    exact h y hy
  · obtain rfl := List.mem_singleton.mp hy
    exact Or.inr (if_pos rfl)

variable [Seconds τ]

/-- How a get fails that is made to follow an import to `child`. -/
def Unfetched (entry : Source) (ctx : Context τ) (fetchTimeout : τ) (sources : List Source)
    (child : Text) (e : Failure τ) (t : Session τ) : Prop :=
  Held entry sources t ∧ Table.get? child t.cache.texts = none
    ∧ ∃ u, fetch ctx fetchTimeout child (some (ctx.maxTotalBytes - totalSize sources)) u = .error e t
      ∧ (e.IsLimit → IsCutOff ctx fetchTimeout child
        (some (ctx.maxTotalBytes - totalSize sources)) u.world e)

theorem fetcher_holds (entry : Source) (ctx : Context τ) (fetchTimeout : τ) :
    (Pipeline.fetcher ctx fetchTimeout).Keeps entry ctx (Held entry)
      (Unfetched entry ctx fetchTimeout) := by
  intro sources x child s hpending _ _ hheld
  have hstrikes := fetch_strikes ctx fetchTimeout child
    (some (ctx.maxTotalBytes - totalSize sources)) s
  refine Ensures.of_run (fun content t hrun => ?_) fun e t hrun => ?_
  · obtain ⟨htexts, hget⟩ | htexts := hstrikes.of_ok hrun
    · -- a text that is there already
      intro y hy
      rw [htexts]
      rcases List.mem_append.mp hy with hy | hy
      · exact hheld y hy
      · obtain rfl := List.mem_singleton.mp hy
        exact Or.inr hget
    · exact hheld.insert hpending.fresh htexts
  · obtain ⟨hcache, hget, hcutOff⟩ := hstrikes.of_error hrun
    refine ⟨hheld.of_eq hcache, ?_, s, hrun, hcutOff⟩
    rw [hcache]
    exact hget

/-- The entry alone is over a limit. -/
inductive EntryOver (entry : Source) (ctx : Context τ) : Ceiling → Int → Prop
  | tooLarge : ctx.maxTotalBytes < Utf8.byteLength entry.content →
      EntryOver entry ctx .totalBytes ctx.maxTotalBytes
  | tooMany : ctx.maxSources < 1 → EntryOver entry ctx .sources ctx.maxSources

/-- The limit that a walk ran into which has found `sources` and follows an import to `child`; `t` is
the session that it leaves. -/
inductive Struck (ctx : Context τ) (fetchTimeout : τ) (sources : List Source) (child : Text)
    (t : Session τ) : Ceiling → Int → Prop
  | tooMany : ctx.maxSources ≤ sources.length →
      Struck ctx fetchTimeout sources child t .sources ctx.maxSources
  | tooLarge {text : Text} : Table.get? child t.cache.texts = some text →
      ctx.maxTotalBytes < ((totalSize sources + Utf8.byteLength text : Nat) : Int) →
      Struck ctx fetchTimeout sources child t .totalBytes ctx.maxTotalBytes
  | cutOff {u : Session τ} : Table.get? child t.cache.texts = none →
      fetch ctx fetchTimeout child (some (ctx.maxTotalBytes - totalSize sources)) u
        = .error (tooLong ctx child) t →
      Overrun ctx fetchTimeout child (ctx.maxTotalBytes - totalSize sources) u.world →
      Struck ctx fetchTimeout sources child t .totalBytes ctx.maxTotalBytes

/-- **A ceiling failure names what was being followed**, but for one thing: the entry when it is over
a limit by itself, else the URL of the import that was being followed, and the file that holds it
exactly if the body was not cut off.  It was cut off if the failure is about bytes and the session
does not have the text. -/
theorem ceiling_names_referrer {ceiling : Ceiling} {limit : Int} {referrer url : Option Text}
    (h : Pipeline.buildGraph ctx fetchTimeout entry.key entry.content entry.base s
      = .error (.gateway (.resourceLimitExceeded ceiling limit referrer url)) t) :
    (EntryOver entry ctx ceiling limit ∧ referrer = some entry.key ∧ url = none)
      ∨ ∃ sources x child, Pending entry ctx sources x child ∧ Held entry sources t
        ∧ Struck ctx fetchTimeout sources child t ceiling limit ∧ url = some child
        ∧ referrer = if ceiling = .totalBytes ∧ Table.has child t.cache.texts = false then none
          else some x.key := by
  have hstopped := (Pipeline.buildGraph_ensures (fetcher_holds entry ctx fetchTimeout)
    (held_entry entry s)).of_error h
  -- the causes of a failed walk, of which five can be a limit
  cases hstopped with
  | entryTooLarge _ hlarge _ => exact Or.inl ⟨.tooLarge hlarge, rfl, rfl⟩
  | entryTooMany _ hmany _ => exact Or.inl ⟨.tooMany hmany, rfl, rfl⟩
  | unresolved _ _ _ hresolve _ =>
    exact (Specifier.not_isLimit_of_resolve hresolve ⟨_, _, _, _, rfl⟩).elim
  | tooMany hpending hmany hheld =>
    refine Or.inr ⟨_, _, _, hpending, hheld, .tooMany hmany, rfl, ?_⟩
    rw [if_neg fun hcut => Ceiling.noConfusion hcut.1]
  | unfetched hpending _ hunfetched =>
    obtain ⟨hheld, hget, u, hfetch, hcutOff⟩ := hunfetched
    obtain ⟨he, limit, ⟨⟩, hover⟩ := hcutOff ⟨_, _, _, _, rfl⟩
    cases he
    refine Or.inr ⟨_, _, _, hpending, hheld, .cutOff hget hfetch hover, rfl, ?_⟩
    rw [if_pos ⟨rfl, by rw [Table.has, hget]; rfl⟩]
  | tooLarge hpending _ _ hlarge hheld =>
    obtain ⟨targets, hdiscovered⟩ := hpending.discovered
    obtain heq | hget := hheld (.fetched _ _) (List.mem_append_right _ List.mem_cons_self)
    · -- the entry is found from the start, so it is not what was fetched last
      have hentry := List.mem_map_of_mem (f := Source.key) hdiscovered.entry_mem
      rw [← heq] at hentry
      exact (hpending.fresh hentry).elim
    refine Or.inr ⟨_, _, _, hpending, fun y hy => hheld y (List.mem_append_left _ hy),
      .tooLarge hget hlarge, rfl, ?_⟩
    have hhas : Table.has _ t.cache.texts = true := Option.isSome_of_eq_some hget
    rw [if_neg fun hcut => Bool.false_ne_true (hcut.2.symm.trans hhas)]

/-! ### One import -/

/-- What the failure of a walk at a ceiling says. -/
def ceilingOf (ctx : Context τ) (fetchTimeout : τ) (entry : Source) (w : World τ) :
    Option (Ceiling × Int × Option Text × Option Text) :=
  match Pipeline.buildGraph ctx fetchTimeout entry.key entry.content entry.base
    (Session.ofWorld w) with
  | .error (.gateway (.resourceLimitExceeded ceiling limit referrer url)) _ =>
    some (ceiling, limit, referrer, url)
  | _ => none

theorem exists_of_ceilingOf {w : World τ} {ceiling : Ceiling} {limit : Int}
    {referrer url : Option Text}
    (h : ceilingOf ctx fetchTimeout entry w = some (ceiling, limit, referrer, url)) :
    ∃ t, Pipeline.buildGraph ctx fetchTimeout entry.key entry.content entry.base (Session.ofWorld w)
      = .error (.gateway (.resourceLimitExceeded ceiling limit referrer url)) t := by
  unfold ceilingOf at h
  split at h
  · next hrun =>
    obtain ⟨rfl, rfl, rfl, rfl⟩ := h
    exact ⟨_, hrun⟩
  · cases h

/-- Thirty-eight bytes in all. -/
def cutContext (maxSources : Int) : Context Int where
  maxSources := maxSources
  maxTotalBytes := 38
  allowedHosts := ["host"]
  packageCdn := "https://host"
  packageVersions := []
  deadline := none
  timeout := none

/-- A web with one text, of twenty-four bytes. -/
def cutWorld : World Int where
  now := 0
  routes := [("https://host/A.sol", [⟨0, .ok ⟨200, none, [],
    .whole (("contract A { uint256 x; }" : Text).flatMap Utf8.encodePoint)⟩⟩])]
  tools := .idle
  room := .usual
  breakdown := none
  trace := []

/-- An entry of twenty-eight bytes that imports it. -/
def cutEntry : Source := ⟨"entry.sol", "import \"https://host/A.sol\";", none⟩

/-- A second source is one too many; the failure names the file that imports it. -/
theorem second_source_named :
    (∃ t, Pipeline.buildGraph (cutContext 1) 20 cutEntry.key cutEntry.content cutEntry.base
        (Session.ofWorld cutWorld)
      = .error (.gateway (.resourceLimitExceeded .sources 1 (some "entry.sol")
        (some "https://host/A.sol"))) t)
    ∧ ∃ sources x, Pending cutEntry (cutContext 1) sources x "https://host/A.sol"
      ∧ x.key = "entry.sol" := by
  have hceiling : ceilingOf (cutContext 1) 20 cutEntry cutWorld
      = some (⟨.sources, 1, some "entry.sol", some "https://host/A.sol"⟩
        : Ceiling × Int × Option Text × Option Text) := by decide +kernel
  have hrun := exists_of_ceilingOf hceiling
  refine ⟨hrun, ?_⟩
  obtain ⟨t, ht⟩ := hrun
  obtain ⟨-, -, hurl⟩ | ⟨sources, x, child, hpending, -, -, hurl, hreferrer⟩ :=
    ceiling_names_referrer ht
  · cases hurl
  · obtain rfl := Option.some.inj hurl
    rw [if_neg fun hcut => Ceiling.noConfusion hcut.1] at hreferrer
    exact ⟨sources, x, hpending, (Option.some.inj hreferrer).symm⟩

/-- Ten bytes are left for the text that the entry imports.  Its body is cut off, and the failure does
not name the entry. -/
theorem cut_off_unnamed : cutEntry.targets (cutContext 10) = ["https://host/A.sol"]
    ∧ ∃ t, Pipeline.buildGraph (cutContext 10) 20 cutEntry.key cutEntry.content cutEntry.base
        (Session.ofWorld cutWorld)
      = .error (.gateway (.resourceLimitExceeded .totalBytes 38 none (some "https://host/A.sol"))) t :=
  ⟨by decide +kernel, exists_of_ceilingOf (by decide +kernel)⟩

end SourceGraph

end CompileGate
