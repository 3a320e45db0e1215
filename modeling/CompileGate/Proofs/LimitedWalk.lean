/-
CompileGate/Proofs/LimitedWalk.lean

A fetcher that keeps to the limit on the bytes changes no walk.

The limit is looked at twice.  The fetcher drops a body that is longer than what is
left, and the walk adds up the sizes of the texts.  A text takes no fewer bytes than
the body that it was read from, so what the fetcher drops the walk would have
refused: both end at the limit, if not in the same words.

To see this for a whole walk, two walks are taken side by side (`Agree`), one over a
fetcher that keeps to the limit and one over a fetcher that ignores it.  They do the
same step by step for as long as neither ends at a limit, and then both do.

Main result: `limit_respected`.
-/
import CompileGate.Proofs.AllowedRequests
import CompileGate.Proofs.BodyLimit
import CompileGate.Proofs.DecodedSize
import CompileGate.Proofs.Reachability

namespace CompileGate

variable {τ σ ρ : Type}

/-- A limit of the request is exceeded. -/
def Failure.IsLimit (e : Failure τ) : Prop :=
  ∃ name value referrer url, e = .gateway (.resourceLimitExceeded name value referrer url)

/-! ### Two effects side by side -/

namespace Effect

variable {α β : Type}

/-- The outcome is that a limit is exceeded. -/
def EndsAtLimit (outcome : Except (Failure τ) α) : Prop := ∃ e, outcome = .error e ∧ e.IsLimit

/-- Two effects return the same value, of which `done` holds together with the states that they
leave, or they fail in the same way, or both at a limit. -/
def Agree (m : Effect τ σ α) (s : σ) (m' : Effect τ ρ α) (s' : ρ)
    (done : α → σ → ρ → Prop) : Prop :=
  match m s, m' s' with
  | .ok a t, .ok a' t' => a = a' ∧ done a t t'
  | .error e _, .error e' _ => e = e' ∨ e.IsLimit ∧ e'.IsLimit
  | _, _ => False

variable {m : Effect τ σ α} {s : σ} {m' : Effect τ ρ α} {s' : ρ} {done : α → σ → ρ → Prop}

theorem agree_pure {a : α} (h : done a s s') :
    Agree (pure a : Effect τ σ α) s (pure a : Effect τ ρ α) s' done := ⟨rfl, h⟩

theorem agree_abort (e : GatewayError τ) : Agree (World.abort e) s (World.abort e) s' done :=
  Or.inl rfl

theorem agree_lift {x : Except (Failure τ) α} (h : ∀ a, x = .ok a → done a s s') :
    Agree (World.lift x) s (World.lift x) s' done := by
  cases x with
  | ok a => exact ⟨rfl, h a rfl⟩
  | error e => exact Or.inl rfl

theorem agree_bind {f : α → Effect τ σ β} {f' : α → Effect τ ρ β} {D : α → σ → ρ → Prop}
    {D' : β → σ → ρ → Prop} (h : Agree m s m' s' D)
    (hf : ∀ a t t', D a t t' → Agree (f a) t (f' a) t' D') :
    Agree (m >>= f) s (m' >>= f') s' D' := by
  unfold Agree at h
  -- both return or both fail, so two of the four cases do not arise
  cases hm : m s with
  | ok a t =>
    cases hm' : m' s' with
    | ok a' t' =>
      rw [hm, hm'] at h
      obtain ⟨rfl, hdone⟩ := h
      have hrest := hf a t t' hdone
      unfold Agree at hrest ⊢
      rw [bind_of_ok hm, bind_of_ok hm']
      exact hrest
    | error e' t' =>
      rw [hm, hm'] at h
      exact h.elim
  | error e t =>
    cases hm' : m' s' with
    | ok a' t' =>
      rw [hm, hm'] at h
      exact h.elim
    | error e' t' =>
      rw [hm, hm'] at h
      unfold Agree
      rw [bind_of_error hm, bind_of_error hm']
      exact h

/-- Effects that agree end at a limit together, and come to the same otherwise. -/
theorem Agree.outcome_eq (h : Agree m s m' s' done) :
    (EndsAtLimit (outcome m s) ↔ EndsAtLimit (outcome m' s'))
      ∧ (¬ EndsAtLimit (outcome m s) → outcome m s = outcome m' s') := by
  have hlimit : ∀ e : Failure τ, EndsAtLimit (.error e : Except (Failure τ) α) ↔ e.IsLimit := by
    intro e
    constructor
    · rintro ⟨_, ⟨⟩, he⟩
      exact he
    · exact fun he => ⟨e, rfl, he⟩
  unfold Agree at h
  unfold outcome
  cases hm : m s with
  | ok a t =>
    cases hm' : m' s' with
    | ok a' t' =>
      rw [hm, hm'] at h
      obtain ⟨rfl, -⟩ := h
      exact ⟨Iff.rfl, fun _ => rfl⟩
    | error e' t' =>
      rw [hm, hm'] at h
      exact h.elim
  | error e t =>
    cases hm' : m' s' with
    | ok a' t' =>
      rw [hm, hm'] at h
      exact h.elim
    | error e' t' =>
      rw [hm, hm'] at h
      rcases h with rfl | ⟨he, he'⟩
      · exact ⟨Iff.rfl, fun _ => rfl⟩
      · rw [hlimit, hlimit]
        exact ⟨⟨fun _ => he', fun _ => he⟩, fun hnot => absurd he hnot⟩

end Effect

open Effect SourceGraph

namespace SourceSpace

variable {S : SourceSpace} {ctx : Context τ}

/-! ### Two walks side by side -/

/-- Asked for a key that is reached, the one fetcher returns its text, and so does the other, unless
it stops at a limit and the text is larger than what was wanted. -/
def Tied (S : SourceSpace) (ctx : Context τ) (fetcher : Fetcher τ σ) (fetcher' : Fetcher τ ρ)
    (R : σ → ρ → Prop) : Prop :=
  ∀ url limit s s', S.Reaches ctx url → url ≠ S.entry.key → Allowed ctx url → 0 ≤ limit →
    R s s' → ∃ t', fetcher'.fetch url limit s' = .ok (S.text url) t'
      ∧ Ensures (fetcher.fetch url limit) s (fun text t => text = S.text url ∧ R t t')
        fun e _ => e.IsLimit ∧ Utf8.Encodable (S.text url)
          ∧ limit < (Utf8.byteLength (S.text url) : Int)

/-- The node is that of a key that is reached. -/
def HasNode (S : SourceSpace) (ctx : Context τ) (node : SourceNode) : Prop :=
  node.source = S.sourceAt node.key ∧ S.Reaches ctx node.key

/-- A walk through the space, with the node of `current` in hand. -/
structure IsWalk (S : SourceSpace) (ctx : Context τ) (current : Text) (w : Walk) : Prop where
  entry_mem : S.entry.key ∈ w.keys current
  waiting : ∀ node ∈ w.waiting, S.HasNode ctx node
  totalBytes_le : (w.totalBytes : Int) ≤ ctx.maxTotalBytes

variable [Seconds τ] {fetcher : Fetcher τ σ} {fetcher' : Fetcher τ ρ} {R : σ → ρ → Prop}

/-- Both fetch a new key, or both end at a limit. -/
theorem agree_discover (hdeadline : ctx.deadline = none) (htied : S.Tied ctx fetcher fetcher' R)
    {current child : Text} {w : Walk} {s : σ} {s' : ρ} (hw : S.IsWalk ctx current w)
    (hreached : S.Reaches ctx child) (hallowed : Allowed ctx child)
    (hnew : child ∉ w.keys current) (hR : R s s') :
    Agree (discover ctx fetcher current child w) s (discover ctx fetcher' current child w) s'
      fun w' t t' => S.IsWalk ctx current w' ∧ R t t' := by
  have hentry : child ≠ S.entry.key := fun h => hnew (h ▸ hw.entry_mem)
  unfold discover
  split
  · exact agree_abort _
  -- without a deadline neither looks at its clock in vain
  have hget : (get : Effect τ σ σ) s = .ok s s := rfl
  have hget' : (get : Effect τ ρ ρ) s' = .ok s' s' := rfl
  unfold Agree
  rw [bind_of_ok hget, bind_of_ok hget', FetchCache.isOver_eq_false hdeadline,
    FetchCache.isOver_eq_false hdeadline, if_neg Bool.false_ne_true, if_neg Bool.false_ne_true]
  obtain ⟨t', hfetch', hfetch⟩ := htied child (ctx.maxTotalBytes - w.totalBytes) s s' hreached
    hentry hallowed (Int.sub_nonneg_of_le hw.totalBytes_le) hR
  rw [bind_of_ok hfetch']
  -- whether the one keeps to its limit decides
  cases hrun : fetcher.fetch child (ctx.maxTotalBytes - w.totalBytes) s with
  | ok text t =>
    obtain ⟨rfl, hR'⟩ := hfetch.of_ok hrun
    rw [bind_of_ok hrun]
    refine agree_bind (D := fun _ u u' => R u u') (agree_lift fun _ _ => hR') ?_
    intro bytes u u' hRu
    dsimp only
    split
    · exact agree_abort _
    · rename_i hle
      refine agree_pure ⟨⟨?_, ?_, Int.not_lt.mp hle⟩, hRu⟩
      · have hmem := hw.entry_mem
        simp only [Walk.keys, List.map_append, List.mem_append, List.mem_cons] at hmem ⊢
        tauto
      · intro node hnode
        rcases List.mem_append.mp hnode with hnode | hnode
        · exact hw.waiting node hnode
        · obtain rfl := List.mem_singleton.mp hnode
          exact ⟨(if_neg hentry).symm, hreached⟩
  | error e t =>
    -- the body was too long for the one, so the text is too large for the other
    obtain ⟨he, htext, hlimit⟩ := hfetch.of_error hrun
    have hsize : (SourceGraph.sizeOf (S.text child) : Effect τ ρ Nat) t'
        = .ok (Utf8.byteLength (S.text child)) t' := by
      rw [SourceGraph.sizeOf, Utf8.size_eq_ok htext]
      rfl
    have hlarge : ctx.maxTotalBytes
        < ((w.totalBytes + Utf8.byteLength (S.text child) : Nat) : Int) := by omega
    rw [bind_of_error hrun, bind_of_ok hsize]
    dsimp only
    rw [if_pos hlarge]
    exact Or.inr ⟨he, _, _, _, _, rfl⟩

/-- Both follow the imports of a node to its end, or neither does. -/
theorem agree_follow (hdeadline : ctx.deadline = none) (htied : S.Tied ctx fetcher fetcher' R)
    {node : SourceNode} (hnode : S.HasNode ctx node) {specifiers : List Text}
    (hspecifiers : specifiers ⊆ Import.specifiers node.content) {w : Walk} {s : σ} {s' : ρ}
    (hw : S.IsWalk ctx node.key w) (hR : R s s') :
    Agree (follow ctx fetcher node specifiers w) s (follow ctx fetcher' node specifiers w) s'
      fun w' t t' => S.IsWalk ctx node.key w' ∧ R t t' := by
  -- on the specifiers left, with both walks in the same state
  induction specifiers generalizing w s s' with
  | nil => exact agree_pure ⟨hw, hR⟩
  | cons specifier rest ih =>
    obtain ⟨hspecifier, hrest⟩ := List.cons_subset.mp hspecifiers
    rw [follow, follow]
    refine agree_bind (D := fun child t t' =>
      Specifier.resolve specifier node.base ctx (some node.key) = .ok child ∧ R t t')
      (agree_lift fun child hchild => ⟨hchild, hR⟩) ?_
    rintro child t t' ⟨hchild, hRt⟩
    dsimp only
    have hw' : S.IsWalk ctx node.key { w with edges := Table.insert specifier child w.edges } :=
      ⟨hw.entry_mem, hw.waiting, hw.totalBytes_le⟩
    split
    · exact ih hrest hw' hRt
    · rename_i hnew
      -- a new key is the target of an import, so it is reached and allowed
      have htarget : child ∈ node.source.targets ctx := by
        have hresolve := Specifier.resolve_ok_congr hchild none
        exact List.mem_filterMap.mpr ⟨specifier, hspecifier, by
          show (Specifier.resolve specifier node.base ctx none).toOption = _
          rw [hresolve]
          rfl⟩
      obtain ⟨-, -, -, hallowed⟩ := Specifier.exists_names_of_resolve hchild
      refine agree_bind (agree_discover hdeadline htied hw'
        (reaches_of_target hnode.1 hnode.2 htarget) hallowed (by simpa using hnew) hRt) ?_
      rintro w' u u' ⟨hw'', hRu⟩
      exact ih hrest hw'' hRu

/-- A walk through the space between two nodes. -/
structure IsResting (S : SourceSpace) (ctx : Context τ) (w : Walk) : Prop where
  entry_mem : S.entry.key ∈ (w.scanned ++ w.waiting).map SourceNode.key
  waiting : ∀ node ∈ w.waiting, S.HasNode ctx node
  totalBytes_le : (w.totalBytes : Int) ≤ ctx.maxTotalBytes

theorem agree_walk (hdeadline : ctx.deadline = none) (htied : S.Tied ctx fetcher fetcher' R)
    {steps : Nat} {w : Walk} {s : σ} {s' : ρ} (hw : S.IsResting ctx w) (hR : R s s') :
    Agree (walk ctx fetcher steps w) s (walk ctx fetcher' steps w) s' fun _ t t' => R t t' := by
  -- on the rounds, over walks that are between two nodes
  induction steps generalizing w s s' with
  | zero => exact agree_pure hR
  | succ steps ih =>
    rw [walk, walk]
    split
    · exact agree_pure hR
    · rename_i node waiting hwaiting
      obtain ⟨hnode, hrest⟩ := List.forall_mem_cons.mp (hwaiting ▸ hw.waiting)
      have hw' : S.IsWalk ctx node.key { w with edges := node.edges, waiting := waiting } := by
        refine ⟨?_, hrest, hw.totalBytes_le⟩
        have hmem := hw.entry_mem
        rw [hwaiting, List.map_append] at hmem
        exact hmem
      refine agree_bind (agree_follow hdeadline htied hnode (List.Subset.refl _) hw' hR) ?_
      rintro w'' t t' ⟨hw'', hRt⟩
      refine ih ⟨?_, hw''.waiting, hw''.totalBytes_le⟩ hRt
      have hmem := hw''.entry_mem
      rw [Walk.keys] at hmem
      simpa using hmem

theorem agree_build (hdeadline : ctx.deadline = none) (htied : S.Tied ctx fetcher fetcher' R)
    {s : σ} {s' : ρ} (hR : R s s') :
    Agree (build ctx fetcher S.entry.key S.entry.content S.entry.base) s
      (build ctx fetcher' S.entry.key S.entry.content S.entry.base) s' fun _ t t' => R t t' := by
  unfold build
  refine agree_bind (D := fun _ t t' => R t t') (agree_lift fun _ _ => hR) ?_
  intro bytes t t' hRt
  split
  · exact agree_abort _
  · rename_i hle
    split
    · exact agree_abort _
    · refine agree_bind (agree_walk hdeadline htied ⟨?_, ?_, Int.not_lt.mp hle⟩ hRt) ?_
      · exact List.mem_singleton.mpr rfl
      · intro node hnode
        obtain rfl := List.mem_singleton.mp hnode
        exact ⟨sourceAt_entry.symm, Relation.ReflTransGen.refl⟩
      · exact fun _ _ _ hRu => agree_pure hRu

end SourceSpace

/-! ### The texts of a session -/

section Session

variable [Seconds τ] {ctx : Context τ} {fetchTimeout : τ}

/-- The session has the text of `url`, or is led to it. -/
def Session.Offers (ctx : Context τ) (s : Session τ) (url text : Text) : Prop :=
  Table.get? url s.cache.texts = some text
    ∨ Table.get? url s.cache.texts = none
      ∧ FetchCache.LeadsTo ctx s.world.routes text (FetchCache.maxRedirects + 1) url

namespace FetchCache

/-- A get of what is offered gives it, or fails at a limit that its size exceeds, and whatever was
offered before still is. -/
theorem fetch_of_offers (hdeadline : ctx.deadline = none) {url text : Text} {limit : Int}
    (hlimit : 0 ≤ limit) (hurl : Allowed ctx url) {s : Session τ} (h : s.Offers ctx url text) :
    Ensures (fetch ctx fetchTimeout url (some limit)) s
      (fun read t => read = text ∧ ∀ other text', (other = url → text' = text) →
        s.Offers ctx other text' → t.Offers ctx other text')
      fun e _ => e.IsLimit ∧ Utf8.Encodable text ∧ limit < (Utf8.byteLength text : Int) := by
  rcases h with hcached | ⟨hmiss, hleads⟩
  · rw [fetch, ensures_bind, ensures_get]
    simp only [hcached]
    rw [ensures_bind, ensures_set, ensures_bind, Session.ensures_onWorld]
    exact ⟨rfl, fun _ _ _ hoffers => hoffers⟩
  · obtain ⟨bytes, v, hanswer, rfl, hthins⟩ := exists_answeredWith hdeadline .start rfl hleads
    refine (fetch_of_answeredWith hdeadline hlimit hmiss hurl hanswer).mono ?_ ?_
    · rintro read t ⟨-, rfl, htexts, hroutes⟩
      refine ⟨rfl, fun other text' hsame hoffers => ?_⟩
      rw [Session.Offers, htexts, hroutes, Table.get?_insert]
      by_cases hother : other = url
      · rw [if_pos hother, hsame hother]
        exact Or.inl rfl
      · rw [if_neg hother]
        rcases hoffers with hcached | ⟨hmiss', hleads'⟩
        · exact Or.inl hcached
        · exact Or.inr ⟨hmiss', hleads'.of_thins hthins⟩
    · rintro e - ⟨hlt, rfl⟩
      have hsize := Utf8.length_le_byteLength_decodeLenient bytes
      exact ⟨⟨_, _, _, _, rfl⟩, Utf8.encodable_decodeLenient bytes, by omega⟩

end FetchCache

namespace SourceSpace

/-- The session offers the text of every key that is reached, apart from the entry. -/
def OfferedBy (S : SourceSpace) (ctx : Context τ) (s : Session τ) : Prop :=
  ∀ key, S.Reaches ctx key → key ≠ S.entry.key → s.Offers ctx key (S.text key)

/-- The fetcher returns the text of every key that is reached, apart from the entry, whatever the
limit; `P` holds of its states. -/
def SuppliedBy (S : SourceSpace) (ctx : Context τ) (fetcher : Fetcher τ ρ) (P : ρ → Prop) : Prop :=
  ∀ key limit s, S.Reaches ctx key → key ≠ S.entry.key → P s →
    ∃ t, fetcher.fetch key limit s = .ok (S.text key) t ∧ P t

theorem tied_of_offered {S : SourceSpace} (hdeadline : ctx.deadline = none)
    {fetcher : Fetcher τ ρ} {P : ρ → Prop} (hsupplied : S.SuppliedBy ctx fetcher P) :
    S.Tied ctx (Pipeline.fetcher ctx fetchTimeout) fetcher fun s s' => S.OfferedBy ctx s ∧ P s' := by
  rintro url limit s s' hreached hne hallowed hlimit ⟨hoffered, hP⟩
  obtain ⟨t', hfetch, hP'⟩ := hsupplied url limit s' hreached hne hP
  refine ⟨t', hfetch, ?_⟩
  refine (FetchCache.fetch_of_offers hdeadline hlimit hallowed
    (hoffered url hreached hne)).mono ?_ fun _ _ h => h
  rintro text t ⟨rfl, hkept⟩
  refine ⟨rfl, fun key hkey hne' => ?_, hP'⟩
  -- the text that the get has put into the cache is the one of its key
  exact hkept key _ (fun h => h ▸ rfl) (hoffered key hkey hne')

end SourceSpace

/-- **Where a limit on the bytes is kept makes no difference.**  Without a deadline a get fails at
its limit if and only if the body is longer, however the body is cut.  The text that is read from a
body takes at least as many bytes.  So a walk over the texts of a session ends at a limit if and
only if the walk over a fetcher that ignores its limit does, and it comes to the same otherwise. -/
theorem limit_respected (ctx : Context τ) (fetchTimeout : τ) (hdeadline : ctx.deadline = none) :
    (∀ url limit (s : Session τ) bytes v, 0 ≤ limit → Table.get? url s.cache.texts = none →
        Allowed ctx url → FetchCache.AnsweredWith ctx fetchTimeout url s.world bytes v →
        outcome (FetchCache.fetch ctx fetchTimeout url (some limit)) s
          = if limit < (bytes.length : Int) then .error (FetchCache.tooLong ctx url)
            else .ok (Utf8.decodeLenient bytes))
      ∧ (∀ bytes, ∃ size, Utf8.size (Utf8.decodeLenient bytes) = .ok size ∧ bytes.length ≤ size)
      ∧ ∀ (S : SourceSpace) (s : Session τ) {ρ : Type} (fetcher : Fetcher τ ρ) (P : ρ → Prop)
        (s' : ρ), S.OfferedBy ctx s → S.SuppliedBy ctx fetcher P → P s' →
        let kept := outcome (build ctx (Pipeline.fetcher ctx fetchTimeout) S.entry.key
          S.entry.content S.entry.base) s
        let ignored := outcome (build ctx fetcher S.entry.key S.entry.content S.entry.base) s'
        (EndsAtLimit kept ↔ EndsAtLimit ignored) ∧ (¬ EndsAtLimit kept → kept = ignored) := by
  refine ⟨?_, ?_, ?_⟩
  · intro url limit s bytes v hlimit hmiss hurl hanswer
    exact FetchCache.outcome_fetch hdeadline hlimit hmiss hurl hanswer
  · intro bytes
    exact ⟨_, Utf8.size_eq_ok (Utf8.encodable_decodeLenient bytes),
      Utf8.length_le_byteLength_decodeLenient bytes⟩
  · intro S s ρ fetcher P s' hoffered hsupplied hP
    exact (S.agree_build hdeadline (SourceSpace.tied_of_offered hdeadline hsupplied)
      ⟨hoffered, hP⟩).outcome_eq

end Session

/-! ### A body with a broken run -/

/-- A body whose last two bytes begin a code point of three. -/
def brokenBody : List UInt8 :=
  ("import './b.sol'; //" : Text).flatMap Utf8.encodePoint ++ [0xE2, 0x82]

def plainBody : List UInt8 := ("contract B {}" : Text).flatMap Utf8.encodePoint

/-- An entry that imports the two. -/
def brokenSpace : SourceSpace where
  entry := ⟨"e.sol", "import 'https://host/a.sol';", none⟩
  text url := Utf8.decodeLenient
    (if url = Text.ofString "https://host/a.sol" then brokenBody else plainBody)

/-- The broken run is cut in two, and the other body is found elsewhere. -/
def brokenWorld : World Int where
  now := 0
  routes := [
    ("https://host/a.sol", [⟨1, .ok ⟨200, none, [],
      .parts [.bytes (brokenBody.take 21), .bytes [], .wait 1, .bytes (brokenBody.drop 21)]⟩⟩]),
    ("https://host/b.sol", [⟨0, .ok ⟨302, some "Found", [("Location", "/c.sol")], .whole []⟩⟩]),
    ("https://host/c.sol", [⟨0, .ok ⟨200, none, [], .whole plainBody⟩⟩])]
  tools := .idle
  room := .usual
  breakdown := none
  trace := []

/-- The policy with a limit on the bytes. -/
def brokenContext (limit : Int) : Context Int where
  maxSources := 3
  maxTotalBytes := limit
  allowedHosts := ["host"]
  packageCdn := "https://host"
  packageVersions := []
  deadline := none
  timeout := none

def brokenFetcher : Fetcher Int Unit where
  fetch url _ := pure (brokenSpace.text url)
  now _ := 0

/-- A limit that the bodies keep to and the texts do not, and one that both keep to. -/
def brokenLimits : List Int := [50, 64]

def brokenKeys : List Text := ["e.sol", "https://host/a.sol", "https://host/b.sol"]

theorem brings_broken : Brings (τ := Int) [.bytes (brokenBody.take 21), .bytes [], .wait 1,
    .bytes (brokenBody.drop 21)] brokenBody :=
  .bytes (brokenBody.take 21) (.bytes [] (.wait 1 (.bytes (brokenBody.drop 21) .nil)))

theorem offeredBy_broken {limit : Int} (hlimit : limit ∈ brokenLimits) :
    brokenSpace.OfferedBy (brokenContext limit) (Session.ofWorld brokenWorld) := by
  -- the keys that are reached are three, whichever of the limits is set
  have hclosed : ∀ limit ∈ brokenLimits, ∀ key ∈ brokenKeys,
      ∀ target ∈ brokenSpace.importsOf (brokenContext limit) key, target ∈ brokenKeys := by
    decide +kernel
  have hmoved : FetchCache.nextHop (brokenContext limit) "https://host/b.sol" "/c.sol"
      = .ok "https://host/c.sol" := by
    have hlocate : FetchCache.locate "https://host/b.sol" "/c.sol" = .ok "https://host/c.sol" := by
      decide +kernel
    have hallowed : Allowed (brokenContext 0) "https://host/c.sol" := by decide +kernel
    rw [FetchCache.nextHop_eq, hlocate]
    exact if_pos hallowed
  have hplain : FetchCache.LeadsTo (brokenContext limit) brokenWorld.routes
      (Utf8.decodeLenient plainBody) FetchCache.maxRedirects "https://host/c.sol" := by
    refine ⟨_, rfl, List.cons_ne_nil _ _, List.forall_mem_singleton.mpr ⟨_, rfl, ?_⟩⟩
    exact ⟨by decide, by decide, plainBody, brings_whole (by decide) plainBody, rfl⟩
  intro key hkey hne
  have hentry : brokenSpace.entry.key ∈ brokenKeys := List.mem_cons_self
  have hmem := SourceSpace.mem_of_reaches hentry (hclosed limit hlimit) hkey
  simp only [brokenKeys, List.mem_cons, List.not_mem_nil, or_false] at hmem
  rcases hmem with rfl | rfl | rfl
  · exact absurd rfl hne
  · refine Or.inr ⟨rfl, _, rfl, List.cons_ne_nil _ _, List.forall_mem_singleton.mpr ⟨_, rfl, ?_⟩⟩
    exact ⟨by decide, by decide, brokenBody, brings_broken, rfl⟩
  · refine Or.inr ⟨rfl, _, rfl, List.cons_ne_nil _ _, List.forall_mem_singleton.mpr ⟨_, rfl, ?_⟩⟩
    exact ⟨"https://host/c.sol", hmoved, hplain⟩

theorem suppliedBy_broken (limit : Int) :
    brokenSpace.SuppliedBy (brokenContext limit) brokenFetcher fun _ => True :=
  fun _ _ s _ _ _ => ⟨s, rfl, trivial⟩

/-- The walk of a session over the space, and the walk over a fetcher that ignores the limit. -/
def brokenKept (limit : Int) : Except (Failure Int) SourceGraph :=
  outcome (build (brokenContext limit) (Pipeline.fetcher (brokenContext limit) 20)
    brokenSpace.entry.key brokenSpace.entry.content brokenSpace.entry.base)
    (Session.ofWorld brokenWorld)

def brokenIgnored (limit : Int) : Except (Failure Int) SourceGraph :=
  outcome (build (brokenContext limit) brokenFetcher brokenSpace.entry.key
    brokenSpace.entry.content brokenSpace.entry.base) ()

/-- Fifty bytes are enough for the entry and the body, and not for its text. -/
theorem limit_respected_broken :
    outcome (FetchCache.fetch (brokenContext 50) 20 "https://host/a.sol" (some 22))
        (Session.ofWorld brokenWorld) = .ok (Utf8.decodeLenient brokenBody)
      ∧ outcome (FetchCache.fetch (brokenContext 50) 20 "https://host/a.sol" (some 21))
        (Session.ofWorld brokenWorld)
        = .error (FetchCache.tooLong (brokenContext 50) "https://host/a.sol")
      ∧ (∃ size, Utf8.size (Utf8.decodeLenient brokenBody) = .ok size ∧ 22 ≤ size)
      ∧ EndsAtLimit (brokenKept 50) ∧ EndsAtLimit (brokenIgnored 50)
      ∧ ∃ g, brokenKept 64 = .ok g ∧ brokenIgnored 64 = .ok g ∧ g.keys = brokenKeys := by
  obtain ⟨hbody, hsize, hwalk⟩ := limit_respected (brokenContext 50) 20 rfl
  obtain ⟨-, -, hwalk'⟩ := limit_respected (brokenContext 64) 20 rfl
  have hlength : brokenBody.length = 22 := by decide +kernel
  have hanswered : FetchCache.AnsweredWith (brokenContext 50) 20 "https://host/a.sol" brokenWorld
      brokenBody _ :=
    ⟨0, _, _, _, .start, by decide, ⟨20, rfl, rfl⟩, by rfl, by decide, by decide, brings_broken⟩
  have hallowed : Allowed (brokenContext 50) "https://host/a.sol" := by decide +kernel
  have htight := hwalk brokenSpace _ brokenFetcher _ ()
    (offeredBy_broken (by decide)) (suppliedBy_broken 50) trivial
  have hwide := hwalk' brokenSpace _ brokenFetcher _ ()
    (offeredBy_broken (by decide)) (suppliedBy_broken 64) trivial
  have hignored : EndsAtLimit (brokenIgnored 50) := by
    have hrun : (match brokenIgnored 50 with
        | .error (.gateway (.resourceLimitExceeded ..)) => true
        | _ => false) = true := by decide +kernel
    split at hrun
    · rename_i h
      exact ⟨_, h, _, _, _, _, rfl⟩
    · cases hrun
  obtain ⟨g, hg, hkeys⟩ : ∃ g, brokenIgnored 64 = .ok g ∧ g.keys = brokenKeys := by
    have hrun : (match brokenIgnored 64 with
        | .ok g => decide (g.keys = brokenKeys)
        | .error _ => false) = true := by decide +kernel
    split at hrun
    · rename_i g h
      exact ⟨g, h, of_decide_eq_true hrun⟩
    · cases hrun
  -- a walk that comes to a graph does not end at a limit, nor does the other one
  have hfits : ¬ EndsAtLimit (brokenKept 64) := by
    intro hlimit
    obtain ⟨e, he, -⟩ := hwide.1.mp hlimit
    cases hg.symm.trans he
  refine ⟨?_, ?_, ?_, htight.1.mpr hignored, hignored, g, ?_, hg, hkeys⟩
  · have h := hbody "https://host/a.sol" 22 (Session.ofWorld brokenWorld) brokenBody _ (by decide)
      rfl hallowed hanswered
    rw [hlength] at h
    exact h
  · have h := hbody "https://host/a.sol" 21 (Session.ofWorld brokenWorld) brokenBody _ (by decide)
      rfl hallowed hanswered
    rw [hlength] at h
    exact h
  · rw [← hlength]
    exact hsize brokenBody
  · exact (hwide.2 hfits).trans hg

end CompileGate
