/-
CompileGate/Proofs/Discovery.lean

What a walk over imports finds, apart from how it is programmed.

A `Source` is a node without its edges.  `Discovered entry ctx sources targets`
says that a walk within the limits of `ctx` can have found `sources`, in this
order, after following imports that resolved to `targets`, in this order:

* `start` — the entry alone, when it is within the limits by itself;
* `known` — one more import was followed, to a key that was already found;
* `new` — one more import was followed, to a new key, whose source came last.

Everything that holds of every walk is an induction over these three cases, and
the effects of the walk are looked at once, to see that they are such steps.

A `SourceSpace` fixes what there is to find: an entry, and a text for every URL.
It spans a graph, possibly infinite, in which `Reaches` is reachability from the
entry and `within n` lists what lies at most `n` imports away.
-/
import CompileGate.Proofs.EncodedSize
import CompileGate.SourceGraph
import Mathlib.Algebra.Order.Ring.Nat
import Mathlib.Data.List.Basic
import Mathlib.Logic.Relation

namespace CompileGate

/-! ### Lists without repetitions -/

section EraseDups

variable {α : Type*} [BEq α] [LawfulBEq α]

/-- Where each element is kept at its first place only, none comes twice. -/
theorem nodup_eraseDups (l : List α) : l.eraseDups.Nodup := by
  match l with
  | [] => exact List.nodup_nil
  | a :: l =>
    rw [List.eraseDups_cons, List.nodup_cons]
    refine ⟨?_, nodup_eraseDups _⟩
    rw [List.mem_eraseDups, List.mem_filter]
    rintro ⟨-, h⟩
    simp at h
termination_by l.length
decreasing_by exact Nat.lt_succ_of_le (List.length_filter_le _ _)

/-- An element that came before is not kept again. -/
theorem eraseDups_concat_of_mem {l : List α} {a : α} (h : a ∈ l) :
    (l ++ [a]).eraseDups = l.eraseDups := by
  rw [List.eraseDups_append]
  simp [List.removeAll, h]

/-- A new one is kept at the end. -/
theorem eraseDups_concat_of_not_mem {l : List α} {a : α} (h : a ∉ l) :
    (l ++ [a]).eraseDups = l.eraseDups ++ [a] := by
  rw [List.eraseDups_append]
  simp [List.removeAll, h]
  rfl

/-- What is kept of a list comes first in what is kept of a longer one. -/
theorem eraseDups_isPrefix {l l' : List α} (h : l <+: l') : l.eraseDups <+: l'.eraseDups := by
  obtain ⟨r, rfl⟩ := h
  rw [List.eraseDups_append]
  exact List.prefix_append _ _

end EraseDups

/-! ### Sources -/

/-- A source without the edges of its imports. -/
structure Source where
  key : Text
  content : Text
  /-- The URL that relative imports are resolved against. -/
  base : Option Text

/-- The source of a node. -/
def SourceNode.source (node : SourceNode) : Source := ⟨node.key, node.content, node.base⟩

@[simp] theorem SourceNode.source_key (node : SourceNode) : node.source.key = node.key := rfl

variable {τ : Type}

/-- The keys that specifiers of a source at `base` resolve to. -/
def targetsOf (ctx : Context τ) (base : Option Text) (specifiers : List Text) : List Text :=
  specifiers.filterMap fun s => (Specifier.resolve s base ctx none).toOption

namespace Source

def specifiers (x : Source) : List Text := Import.specifiers x.content

/-- The keys that the imports of a source resolve to, in order. -/
def targets (ctx : Context τ) (x : Source) : List Text := targetsOf ctx x.base x.specifiers

/-- The source of a fetched text: it stands at its own URL. -/
def fetched (url content : Text) : Source := ⟨url, content, some url⟩

end Source

theorem targetsOf_append (ctx : Context τ) (base : Option Text) (l l' : List Text) :
    targetsOf ctx base (l ++ l') = targetsOf ctx base l ++ targetsOf ctx base l' :=
  List.filterMap_append

/-- The number of bytes of sources together. -/
def totalSize (sources : List Source) : Nat :=
  (sources.map fun x => Utf8.byteLength x.content).sum

theorem totalSize_append (l l' : List Source) : totalSize (l ++ l') = totalSize l + totalSize l' := by
  simp [totalSize]

theorem totalSize_singleton (x : Source) : totalSize [x] = Utf8.byteLength x.content := by
  simp [totalSize]

/-! ### The referrer of an import -/

namespace Specifier

/-- Who imports a URL does not matter for whether it is allowed. -/
theorem toOption_assertAllowed (url : Text) (ctx : Context τ) (specifier : Option Text)
    (r r' : Option Text) :
    (assertAllowed url ctx specifier r).toOption
      = (assertAllowed url ctx specifier r').toOption := by
  simp only [assertAllowed]
  split
  · rfl
  · rfl

/-- Steps that agree on their successes agree in a row. -/
theorem toOption_bind_congr {ε α β : Type} (x : Except ε α) {f g : α → Except ε β}
    (h : ∀ a, (f a).toOption = (g a).toOption) :
    (x >>= f).toOption = (x >>= g).toOption := by
  cases x with
  | error e => rfl
  | ok a => exact h a

/-- Nor does it matter for whether a URL is admitted, -/
theorem toOption_admitted (url : Text) (ctx : Context τ) (specifier : Text)
    (r r' : Option Text) :
    (admitted url ctx specifier r).toOption = (admitted url ctx specifier r').toOption :=
  toOption_bind_congr _ fun u => toOption_assertAllowed u ctx (some specifier) r r'

/-- or for what a package stands for. -/
theorem toOption_expandPackage (spec : Text) (ctx : Context τ) (r r' : Option Text) :
    (expandPackage spec ctx r).toOption = (expandPackage spec ctx r').toOption := by
  simp only [expandPackage]
  split
  · rfl
  · split <;> rfl

/-- The importing file only shows up in failures: it does not change what a specifier names. -/
theorem toOption_resolve (s : Text) (base : Option Text) (ctx : Context τ) (r r' : Option Text) :
    (resolve s base ctx r).toOption = (resolve s base ctx r').toOption := by
  -- one split for each form of a specifier
  simp only [resolve]
  split
  · exact toOption_bind_congr _ fun u => toOption_admitted u ctx s r r'
  split
  · cases expandGithub? (Text.strip s) with
    | none => rfl
    | some url => exact toOption_admitted url ctx s r r'
  split
  · have h := toOption_expandPackage (Text.strip s) ctx r r'
    cases hr : expandPackage (Text.strip s) ctx r with
    | error e =>
      cases hr' : expandPackage (Text.strip s) ctx r' with
      | error e' => rfl
      | ok url => rw [hr, hr'] at h; cases h
    | ok url =>
      cases hr' : expandPackage (Text.strip s) ctx r' with
      | error e' => rw [hr, hr'] at h; cases h
      | ok url' =>
        rw [hr, hr'] at h
        obtain rfl : url = url' := Option.some.inj h
        exact toOption_admitted url ctx s r r'
  split
  · split
    · rfl
    · exact toOption_bind_congr _ fun u => toOption_admitted u ctx s r r'
  · rfl

/-- So a success is the same whichever file imports. -/
theorem resolve_ok_congr {s : Text} {base : Option Text} {ctx : Context τ} {r : Option Text}
    {target : Text} (h : resolve s base ctx r = .ok target) (r' : Option Text) :
    resolve s base ctx r' = .ok target := by
  have e := toOption_resolve s base ctx r r'
  rw [h] at e
  cases hr : resolve s base ctx r' with
  | error e' => rw [hr] at e; cases e
  | ok target' => rw [hr] at e; rw [Option.some.inj e]

end Specifier

/-- What a specifier resolves to is all that it names. -/
theorem targetsOf_singleton {ctx : Context τ} {base : Option Text} {s t : Text}
    {r : Option Text} (h : Specifier.resolve s base ctx r = .ok t) :
    targetsOf ctx base [s] = [t] := by
  have h' := Specifier.resolve_ok_congr h none
  simp [targetsOf, h', Except.toOption]

/-- Each target is that of some specifier. -/
theorem exists_resolve_of_mem_targetsOf {ctx : Context τ} {base : Option Text}
    {specifiers : List Text} {target : Text} (h : target ∈ targetsOf ctx base specifiers) :
    ∃ s ∈ specifiers, Specifier.resolve s base ctx none = .ok target := by
  obtain ⟨s, hs, htarget⟩ := List.mem_filterMap.mp h
  refine ⟨s, hs, ?_⟩
  cases hr : Specifier.resolve s base ctx none with
  | error e =>
    rw [hr] at htarget
    cases htarget
  | ok target' =>
    rw [hr] at htarget
    exact congrArg Except.ok (Option.some.inj htarget)

/-! ### Discovery -/

/-- A walk from `entry` within the limits of `ctx` can have found `sources` after following
imports that resolved to `targets`. -/
inductive Discovered (entry : Source) (ctx : Context τ) : List Source → List Text → Prop
  | start : Utf8.Encodable entry.content → 1 ≤ ctx.maxSources →
      (Utf8.byteLength entry.content : Int) ≤ ctx.maxTotalBytes →
      Discovered entry ctx [entry] []
  | known {sources targets child} : Discovered entry ctx sources targets →
      child ∈ sources.map Source.key → Discovered entry ctx sources (targets ++ [child])
  | new {sources targets importer child content} : Discovered entry ctx sources targets →
      importer ∈ sources → child ∈ importer.targets ctx → child ∉ sources.map Source.key →
      (sources.length : Int) < ctx.maxSources → Utf8.Encodable content →
      ((totalSize sources + Utf8.byteLength content : Nat) : Int) ≤ ctx.maxTotalBytes →
      Discovered entry ctx (sources ++ [.fetched child content]) (targets ++ [child])

namespace Discovered

variable {entry : Source} {ctx : Context τ} {sources : List Source} {targets : List Text}

/-- The entry is found first. -/
theorem exists_eq_cons (h : Discovered entry ctx sources targets) :
    ∃ rest, sources = entry :: rest := by
  induction h with
  | start => exact ⟨[], rfl⟩
  | known _ _ ih => exact ih
  | new _ _ _ _ _ _ _ ih =>
    obtain ⟨rest, rfl⟩ := ih
    exact ⟨_, List.cons_append⟩

theorem entry_mem (h : Discovered entry ctx sources targets) : entry ∈ sources := by
  obtain ⟨rest, rfl⟩ := h.exists_eq_cons
  exact List.mem_cons_self

/-- A source that was fetched is the base of its own imports. -/
theorem eq_entry_or_base_eq (h : Discovered entry ctx sources targets) :
    ∀ x ∈ sources, x = entry ∨ x.base = some x.key := by
  induction h with
  | start => exact fun x hx => Or.inl (List.mem_singleton.mp hx)
  | known _ _ ih => exact ih
  | new _ _ _ _ _ _ _ ih =>
    intro x hx
    rcases List.mem_append.mp hx with hx | hx
    · exact ih x hx
    · rw [List.mem_singleton.mp hx]
      exact Or.inr rfl

/-- The keys found are the targets of the imports followed, in the order in which they came up
first, after the key of the entry. -/
theorem keys_eq (h : Discovered entry ctx sources targets) :
    sources.map Source.key = (entry.key :: targets).eraseDups := by
  -- a step that finds nothing new repeats a target, and one that does appends its key
  induction h with
  | start => rfl
  | @known sources targets child h hc ih =>
    have hm : child ∈ entry.key :: targets := by
      rw [ih, List.mem_eraseDups] at hc
      exact hc
    rw [← List.cons_append, eraseDups_concat_of_mem hm, ih]
  | @new sources targets importer child content h _ _ hc _ _ _ ih =>
    have hm : child ∉ entry.key :: targets := by
      rw [ih, List.mem_eraseDups] at hc
      exact hc
    rw [← List.cons_append, eraseDups_concat_of_not_mem hm, List.map_append, ih]
    rfl

/-- No key is found twice. -/
theorem nodup_keys (h : Discovered entry ctx sources targets) :
    (sources.map Source.key).Nodup := by
  rw [h.keys_eq]
  exact nodup_eraseDups _

/-- The ceiling on the number of sources is kept at every step. -/
theorem length_le (h : Discovered entry ctx sources targets) :
    (sources.length : Int) ≤ ctx.maxSources := by
  induction h with
  | start _ h => exact h
  | known _ _ ih => exact ih
  | new _ _ _ _ hlt _ _ _ =>
    rw [List.length_append]
    show ((_ + 1 : Nat) : Int) ≤ _
    omega

/-- So is the ceiling on bytes. -/
theorem totalSize_le (h : Discovered entry ctx sources targets) :
    (totalSize sources : Int) ≤ ctx.maxTotalBytes := by
  induction h with
  | start _ _ h => simpa [totalSize] using h
  | known _ _ ih => exact ih
  | new _ _ _ _ _ _ hle _ => simpa [totalSize, Source.fetched] using hle

/-- All sources found have a UTF-8 form. -/
theorem encodable (h : Discovered entry ctx sources targets) :
    ∀ x ∈ sources, Utf8.Encodable x.content := by
  induction h with
  | start h =>
    intro x hx
    obtain rfl := List.mem_singleton.mp hx
    exact h
  | known _ _ ih => exact ih
  | new _ _ _ _ _ hc _ ih =>
    intro x hx
    rcases List.mem_append.mp hx with hx | hx
    · exact ih x hx
    · obtain rfl := List.mem_singleton.mp hx
      exact hc

end Discovered

/-! ### The graph of all sources -/

/-- Everything that a walk can find: an entry, and the text of every URL. -/
structure SourceSpace where
  entry : Source
  text : Text → Text

namespace SourceSpace

/-- The source of a key.  The key of the entry always names the entry itself. -/
def sourceAt (S : SourceSpace) (key : Text) : Source :=
  if key = S.entry.key then S.entry else .fetched key (S.text key)

/-- The keys that the imports of a source resolve to, in order. -/
def importsOf (S : SourceSpace) (ctx : Context τ) (key : Text) : List Text :=
  (S.sourceAt key).targets ctx

def Imports (S : SourceSpace) (ctx : Context τ) (key key' : Text) : Prop :=
  key' ∈ S.importsOf ctx key

/-- The key is that of the entry, or can be reached from it by imports. -/
def Reaches (S : SourceSpace) (ctx : Context τ) (key : Text) : Prop :=
  Relation.ReflTransGen (S.Imports ctx) S.entry.key key

/-- The keys at most `n` imports away from the entry, breadth first: the entry, and then what the
keys of the round before import, in order, each key where it comes up first. -/
def within (S : SourceSpace) (ctx : Context τ) : Nat → List Text
  | 0 => [S.entry.key]
  | n + 1 => (S.entry.key :: (S.within ctx n).flatMap (S.importsOf ctx)).eraseDups

variable {S : SourceSpace} {ctx : Context τ} {sources : List Source} {targets : List Text}

@[simp] theorem sourceAt_entry : S.sourceAt S.entry.key = S.entry := if_pos rfl

/-- A round keeps the keys of the round before in front. -/
theorem within_isPrefix_succ (n : Nat) : S.within ctx n <+: S.within ctx (n + 1) := by
  induction n with
  | zero =>
    show [S.entry.key] <+: _
    rw [within, List.eraseDups_cons]
    exact ⟨_, rfl⟩
  | succ n ih =>
    obtain ⟨r, hr⟩ := ih
    apply eraseDups_isPrefix
    rw [← hr, List.flatMap_append]
    exact ⟨r.flatMap (S.importsOf ctx), rfl⟩

/-- Later rounds begin with the earlier ones. -/
theorem within_isPrefix {n m : Nat} (h : n ≤ m) : S.within ctx n <+: S.within ctx m := by
  induction h with
  | refl => exact List.prefix_refl _
  | step _ ih => exact ih.trans (within_isPrefix_succ _)

/-- Keys that are closed under imports and hold the entry's hold all that is reached. -/
theorem mem_of_reaches {keys : List Text} (hentry : S.entry.key ∈ keys)
    (hclosed : ∀ key ∈ keys, ∀ target ∈ S.importsOf ctx key, target ∈ keys) {key : Text}
    (h : S.Reaches ctx key) : key ∈ keys := by
  induction h with
  | refl => exact hentry
  | @tail k k' _ hstep ih => exact hclosed k ih k' hstep

/-- What can be reached is reached in some round. -/
theorem exists_mem_within {key : Text} (h : S.Reaches ctx key) : ∃ n, key ∈ S.within ctx n := by
  induction h with
  | refl => exact ⟨0, List.mem_singleton.mpr rfl⟩
  | @tail k k' _ hk ih =>
    obtain ⟨n, hn⟩ := ih
    refine ⟨n + 1, ?_⟩
    rw [within, List.mem_eraseDups]
    exact List.mem_cons_of_mem _ (List.mem_flatMap.mpr ⟨k, hn, hk⟩)

/-- Reachability goes on to what a source imports. -/
theorem reaches_of_target {x : Source} {child : Text} (hx : x = S.sourceAt x.key)
    (h : S.Reaches ctx x.key) (ht : child ∈ x.targets ctx) : S.Reaches ctx child := by
  have hstep : S.Imports ctx x.key child := by
    rw [Imports, importsOf, ← hx]
    exact ht
  exact h.tail hstep

/-- What is discovered in a space is reached in it. -/
theorem reaches_of_discovered (h : Discovered S.entry ctx sources targets)
    (hS : ∀ x ∈ sources, x = S.sourceAt x.key) : ∀ x ∈ sources, S.Reaches ctx x.key := by
  induction h with
  | start =>
    intro x hx
    obtain rfl := List.mem_singleton.mp hx
    exact Relation.ReflTransGen.refl
  | known _ _ ih => exact ih hS
  | @new sources targets importer child content _ hm ht _ _ _ _ ih =>
    have hS' : ∀ x ∈ sources, x = S.sourceAt x.key := fun x hx =>
      hS x (List.mem_append_left _ hx)
    intro x hx
    rcases List.mem_append.mp hx with hx | hx
    · exact ih hS' x hx
    · obtain rfl := List.mem_singleton.mp hx
      exact reaches_of_target (hS' importer hm) (ih hS' importer hm) ht

/-! ### Finished walks -/

section Finished

variable (h : Discovered S.entry ctx sources (sources.flatMap (Source.targets ctx)))
variable (hS : ∀ x ∈ sources, x = S.sourceAt x.key)

include h hS

/-- Once all imports are followed, the keys found are the first occurrences among the keys that
they import themselves. -/
theorem keys_eq_of_finished :
    sources.map Source.key
      = (S.entry.key :: (sources.map Source.key).flatMap (S.importsOf ctx)).eraseDups := by
  have e : sources.flatMap (Source.targets ctx)
      = (sources.map Source.key).flatMap (S.importsOf ctx) := by
    rw [List.flatMap_map]
    apply List.flatMap_congr
    intro x hx
    show _ = (S.sourceAt x.key).targets ctx
    rw [← hS x hx]
  rw [← e]
  exact h.keys_eq

/-- A finished walk has found what can be reached, and nothing else. -/
theorem mem_keys_iff_reaches (key : Text) : key ∈ sources.map Source.key ↔ S.Reaches ctx key := by
  constructor
  · intro hk
    obtain ⟨x, hx, rfl⟩ := List.mem_map.mp hk
    exact reaches_of_discovered h hS x hx
  · -- along the imports that lead to the key: what was found is closed under them
    intro hk
    induction hk with
    | refl => exact List.mem_map_of_mem h.entry_mem
    | @tail k k' _ hstep ih =>
      rw [keys_eq_of_finished h hS, List.mem_eraseDups]
      exact List.mem_cons_of_mem _ (List.mem_flatMap.mpr ⟨k, ih, hstep⟩)

/-- Nearer keys come first. -/
theorem within_isPrefix_keys (n : Nat) : S.within ctx n <+: sources.map Source.key := by
  induction n with
  | zero =>
    obtain ⟨rest, rfl⟩ := h.exists_eq_cons
    exact ⟨rest.map Source.key, rfl⟩
  | succ n ih =>
    obtain ⟨r, hr⟩ := ih
    rw [keys_eq_of_finished h hS]
    apply eraseDups_isPrefix
    refine ⟨r.flatMap (S.importsOf ctx), ?_⟩
    rw [List.cons_append, ← List.flatMap_append, hr]

/-- Some round of the breadth-first order is complete, and it is what was found. -/
theorem exists_within_eq : ∃ n, S.within ctx n = sources.map Source.key := by
  -- each key lies in some round, so finitely many lie in one
  have hall : ∀ l : List Text, (∀ k ∈ l, S.Reaches ctx k) →
      ∃ n, ∀ k ∈ l, k ∈ S.within ctx n := by
    intro l
    induction l with
    | nil => exact fun _ => ⟨0, by simp⟩
    | cons k l ih =>
      intro hl
      obtain ⟨n, hn⟩ := ih fun k' hk' => hl k' (List.mem_cons_of_mem _ hk')
      obtain ⟨m, hm⟩ := exists_mem_within (hl k List.mem_cons_self)
      refine ⟨max n m, ?_⟩
      intro k' hk'
      rcases List.mem_cons.mp hk' with rfl | hk'
      · exact (within_isPrefix (Nat.le_max_right n m)).subset hm
      · exact (within_isPrefix (Nat.le_max_left n m)).subset (hn k' hk')
  obtain ⟨n, hn⟩ := hall _ fun k hk => (mem_keys_iff_reaches h hS k).mp hk
  refine ⟨n, ?_⟩
  -- that round is a prefix that holds all keys, and none comes twice: nothing is left
  obtain ⟨r, hr⟩ := within_isPrefix_keys h hS n
  have hnodup := h.nodup_keys
  rw [← hr] at hn hnodup ⊢
  cases r with
  | nil => simp
  | cons k r =>
    have hk := hn k (List.mem_append_right _ List.mem_cons_self)
    exact absurd rfl ((List.nodup_append.mp hnodup).2.2 k hk k List.mem_cons_self)

end Finished

end SourceSpace

end CompileGate
