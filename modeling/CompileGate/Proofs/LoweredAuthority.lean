/-
CompileGate/Proofs/LoweredAuthority.lean

Authorities in lower case, and without a port.

`hostAndPort` divides an authority at `@`, `[`, `]` and `:`.  The first three are
walls, so the host of a lowered authority is the lowered host, unless it ends at a
colon behind which no port can be read (`hostAndPort_toLower`).  The port stays
as it is, if it can be read on either side.  Hence an authority that may stand in a
URL may stand there in lower case (`Accepted.toLower`), and the allow-list is asked
about the same host (`allowKey_toLower`): the host with its port (`allowKey_of_port`).

What a colon and digits at the end of an authority are, depends on what stands
before them (`hostAndPort_append`): they are the port, or they end a text that is
no port, or they belong to an address whose bracket was never closed.  In a canonical
form they are cut off all the same, if they spell the port that the scheme implies
(`canonicalAuthority_cases`).
-/
import CompileGate.Proofs.LoweredAddress
import CompileGate.Proofs.UrlParts

namespace CompileGate

/-! ### Code points that hide a mark -/

namespace CodePoint

/-- Lowering brings no code point that hides a mark. -/
theorem eq_of_hidden {c d : CodePoint} {form : Text} (hform : form ∈ c.lowerForms)
    (hd : d ∈ form) (hhidden : d.toNat ∈ Url.hiddenDelimiters) : d = c := by
  -- neither the lower-case forms nor those of the two exceptions hide a mark
  have hcapitals : ∀ n ∈ Url.hiddenDelimiters, n ∉ loweredCapitals := by decide +kernel
  have hexceptions : ∀ form ∈ [[('i' : CodePoint), CodePoint.ofNat 0x307], [('ς' : CodePoint)],
      [('σ' : CodePoint)]], ∀ d ∈ form, d.toNat ∉ Url.hiddenDelimiters := by decide +kernel
  unfold lowerForms at hform
  split_ifs at hform
  · obtain rfl := List.mem_singleton.mp hform
    exact absurd hhidden (hexceptions _ (by simp) d hd)
  · exact absurd hhidden (hexceptions form (List.mem_cons_of_mem _ hform) d hd)
  · obtain rfl := List.mem_singleton.mp hform
    obtain rfl := List.mem_singleton.mp hd
    rcases c.toLower_eq_or_mem with e | ⟨-, hlowered⟩
    · exact e
    · exact absurd hlowered (hcapitals _ hhidden)

end CodePoint

namespace Text

/-- What hides a mark in a lowered text hid it in the text. -/
theorem Lowers.mem_of_hidden {t u : Text} (h : Lowers t u) {c : CodePoint} (hc : c ∈ u)
    (hhidden : c.toNat ∈ Url.hiddenDelimiters) : c ∈ t := by
  induction h with
  | nil => exact hc
  | cons hform _ ih =>
    rcases List.mem_append.mp hc with hc | hc
    · rw [CodePoint.eq_of_hidden hform hc hhidden]
      exact List.mem_cons_self
    · exact List.mem_cons_of_mem _ (ih hc)

end Text

namespace Url

open Text

/-! ### Cutting -/

/-- A text with the mark is put together again around it. -/
theorem cutAt_fst_append {mark : CodePoint} {t : Text} (h : mark ∈ t) :
    t = (cutAt mark t).1 ++ mark :: (cutAt mark t).2 := by
  unfold cutAt
  cases hcut : Text.cutFirst? mark t with
  | none => exact absurd h (cutFirst?_eq_none_iff.mp hcut)
  | some parts => exact (eq_append_of_cutFirst? hcut).1

/-- A mark and more behind a text are cut with it, unless there was nothing to cut. -/
theorem cutAt_append_mark (mark : CodePoint) (t more : Text) :
    (mark ∉ t ∧ cutAt mark (t ++ mark :: more) = (t, more) ∧ cutAt mark t = (t, []))
      ∨ (mark ∈ t ∧ cutAt mark (t ++ mark :: more)
        = ((cutAt mark t).1, (cutAt mark t).2 ++ mark :: more)) := by
  by_cases h : mark ∈ t
  · right
    refine ⟨h, ?_⟩
    have hcut : t ++ mark :: more
        = (cutAt mark t).1 ++ mark :: ((cutAt mark t).2 ++ mark :: more) := by
      rw [← List.cons_append, ← List.append_assoc, ← cutAt_fst_append h]
    rw [hcut]
    exact cutAt_append (not_mem_cutAt mark t) _
  · exact Or.inl ⟨h, cutAt_append h more, cutAt_of_not_mem h⟩

/-- Without the mark, a text that follows is cut or not by its own. -/
theorem cutFirst?_append_of_not_mem {mark : CodePoint} {t more : Text} (h : mark ∉ more) :
    Text.cutFirst? mark (t ++ more)
      = (Text.cutFirst? mark t).map fun parts => (parts.1, parts.2 ++ more) := by
  cases hcut : Text.cutFirst? mark t with
  | none =>
    refine cutFirst?_eq_none_iff.mpr fun hmem => ?_
    rcases List.mem_append.mp hmem with hmem | hmem
    · exact cutFirst?_eq_none_iff.mp hcut hmem
    · exact h hmem
  | some parts =>
    obtain ⟨heq, hnot⟩ := eq_append_of_cutFirst? hcut
    rw [heq, List.append_assoc, List.cons_append]
    exact cutFirst?_append hnot

/-- A text without the mark is added to what stands behind it, or to all where there is none. -/
theorem cutAt_append_of_not_mem {mark : CodePoint} {more : Text} (h : mark ∉ more) (t : Text) :
    (mark ∉ t ∧ cutAt mark (t ++ more) = (t ++ more, []) ∧ cutAt mark t = (t, []))
      ∨ cutAt mark (t ++ more) = ((cutAt mark t).1, (cutAt mark t).2 ++ more) := by
  unfold cutAt
  rw [cutFirst?_append_of_not_mem h]
  cases hcut : Text.cutFirst? mark t with
  | none => exact Or.inl ⟨cutFirst?_eq_none_iff.mp hcut, rfl, rfl⟩
  | some parts => exact Or.inr rfl

/-- Cutting at a wall and lowering can be done in either order. -/
theorem cutAt_toLower {wall : CodePoint} (h : wall.IsWall) (t : Text) :
    cutAt wall (toLower t) = (toLower (cutAt wall t).1, toLower (cutAt wall t).2) := by
  unfold cutAt
  rw [cutFirst?_toLower h]
  cases Text.cutFirst? wall t with
  | none => rfl
  | some parts => rfl

/-- On both sides of a mark the parts are lowered, each in some context. -/
theorem lowers_cutAt {mark : CodePoint} (hmark : mark.IsMark) {t u : Text} (h : Lowers t u) :
    Lowers (cutAt mark t).1 (cutAt mark u).1 ∧ Lowers (cutAt mark t).2 (cutAt mark u).2 := by
  unfold cutAt
  rcases h.cutFirst? hmark with ⟨ht, hu⟩ | ⟨a, b, a', b', ht, hu, ha, hb⟩
  · rw [ht, hu]
    exact ⟨h, .nil⟩
  · rw [ht, hu]
    exact ⟨ha, hb⟩

/-! ### The host and the port -/

/-- The names before the host end at a wall. -/
theorem hostPart_toLower (authority : Text) :
    hostPart (toLower authority) = toLower (hostPart authority) := by
  unfold hostPart
  rw [cutLast?_toLower CodePoint.isWall_at]
  cases Text.cutLast? '@' authority with
  | none => rfl
  | some parts => rfl

/-- What is added without the wall is added to the host part. -/
theorem hostPart_append {more : Text} (h : ('@' : CodePoint) ∉ more) (authority : Text) :
    hostPart (authority ++ more) = hostPart authority ++ more := by
  unfold hostPart
  cases hcut : Text.cutLast? '@' authority with
  | none =>
    have hnot : ('@' : CodePoint) ∉ authority ++ more := by
      rw [List.mem_append, not_or]
      exact ⟨cutLast?_eq_none_iff.mp hcut, h⟩
    rw [cutLast?_eq_none_iff.mpr hnot]
  | some parts =>
    obtain ⟨heq, hnot⟩ := eq_append_of_cutLast? hcut
    have hnot' : ('@' : CodePoint) ∉ parts.2 ++ more := by
      rw [List.mem_append, not_or]
      exact ⟨hnot, h⟩
    rw [heq, List.append_assoc, List.cons_append, cutLast?_append hnot']

/-- Without a bracket the first colon ends the host. -/
theorem hostAndPort_of_plain {authority : Text}
    (h : Text.cutFirst? '[' (hostPart authority) = none) :
    hostAndPort authority = cutAt ':' (hostPart authority) := by
  unfold hostAndPort
  dsimp only
  rw [h]

/-- With one the host is what is in the brackets, and a colon behind them starts the port. -/
theorem hostAndPort_of_open {authority before rest : Text}
    (h : Text.cutFirst? '[' (hostPart authority) = some (before, rest)) :
    hostAndPort authority = ((cutAt ']' rest).1, (cutAt ':' (cutAt ']' rest).2).2) := by
  unfold hostAndPort
  dsimp only
  rw [h]

/-! ### Ports -/

theorem readPort?_eq_none_of_colon {t : Text} (h : (':' : CodePoint) ∈ t) : readPort? t = none := by
  unfold readPort?
  have hne : ¬ t.isEmpty = true := fun hempty => by
    rw [List.isEmpty_iff.mp hempty] at h
    cases h
  have hdigits : ¬ t.all CodePoint.isAsciiDigit = true := fun hall =>
    absurd (List.all_eq_true.mp hall _ h) (by decide)
  rw [if_neg hne, if_neg fun hand => hdigits (Bool.and_eq_true_iff.mp hand).1]

/-- What can be read as a port is made of digits, if of anything. -/
theorem digits_of_readPort? {t : Text} (h : readPort? t ≠ none) :
    t.all CodePoint.isAsciiDigit = true := by
  unfold readPort? at h
  split_ifs at h with hempty hdigits
  · rw [List.isEmpty_iff.mp hempty]
    rfl
  · exact (Bool.and_eq_true_iff.mp hdigits).1
  · exact absurd rfl h

/-- A port that can be read is in lower case, and no other text is lowered to it. -/
theorem readPort?_of_lowers {t u : Text} (h : Lowers t u) : readPort? u = readPort? t := by
  by_cases ht : t.all CodePoint.isAsciiDigit = true
  · rw [h.eq_of_isMark fun c hc => CodePoint.isMark_of_isAsciiDigit (List.all_eq_true.mp ht c hc)]
  · by_cases hu : u.all CodePoint.isAsciiDigit = true
    · rw [h.eq_of_le fun c hc =>
        (CodePoint.isMark_of_isAsciiDigit (List.all_eq_true.mp hu c hc)).1]
    · have hunread : ∀ v : Text, ¬ v.all CodePoint.isAsciiDigit = true → readPort? v = none :=
        fun v hv => by_contra fun hread => hv (digits_of_readPort? hread)
      rw [hunread t ht, hunread u hu]

/-- Behind a host, a colon and digits bring no cased letter. -/
theorem meetsCased_port {digits : Text} (h : digits.all CodePoint.isAsciiDigit = true) :
    meetsCased ((':' : CodePoint) :: digits) = false := by
  -- digits are neither cased nor ignored, and the colon is ignored
  have htable : ∀ n < 0x3A, (CodePoint.ofNat n).isAsciiDigit = true →
      (CodePoint.ofNat n).isCaseIgnored = false ∧ (CodePoint.ofNat n).isCased = false := by
    decide +kernel
  rw [meetsCased_cons, if_pos (by decide)]
  cases digits with
  | nil => rfl
  | cons c digits =>
    rw [List.all_cons, Bool.and_eq_true] at h
    have hlt : c.toNat < 0x3A := by
      have hdigit := h.1
      rw [CodePoint.isAsciiDigit, Bool.and_eq_true, decide_eq_true_iff, decide_eq_true_iff]
        at hdigit
      omega
    have hc := htable c.toNat hlt
    rw [CodePoint.ofNat_toNat] at hc
    obtain ⟨hignored, hcased⟩ := hc h.1
    rw [meetsCased_cons, hignored, if_neg Bool.false_ne_true, hcased]

/-- A port at the end of a text stays there when the text is lowered. -/
theorem toLower_append_port {digits : Text} (h : digits.all CodePoint.isAsciiDigit = true)
    (t : Text) : toLower (t ++ (':' : CodePoint) :: digits)
      = toLower t ++ (':' : CodePoint) :: digits := by
  have hmarks : ∀ c ∈ (':' : CodePoint) :: digits, c.IsLower :=
    List.forall_mem_cons.mpr ⟨CodePoint.isMark_colon.2, fun c hc =>
      (CodePoint.isMark_of_isAsciiDigit (List.all_eq_true.mp h c hc)).2⟩
  rw [toLower, toLowerAfter_append (meetsCased_port h), toLowerAfter_eq_self hmarks]
  rfl

/-! ### The host and the port in lower case -/

/-- Host and port are lowered apart, and the host as if it stood alone if the port can be read. -/
theorem hostAndPort_toLower (authority : Text) :
    Lowers (hostAndPort authority).1 (hostAndPort (toLower authority)).1
      ∧ Lowers (hostAndPort authority).2 (hostAndPort (toLower authority)).2
      ∧ (readPort? (hostAndPort authority).2 ≠ none →
        (hostAndPort (toLower authority)).1 = toLower (hostAndPort authority).1) := by
  have hlower := cutFirst?_toLower CodePoint.isWall_open (hostPart authority)
  cases hcut : Text.cutFirst? '[' (hostPart authority) with
  | none =>
    rw [← hostPart_toLower, hcut] at hlower
    rw [hostAndPort_of_plain hcut, hostAndPort_of_plain hlower, hostPart_toLower]
    obtain ⟨hhost, hport⟩ := lowers_cutAt CodePoint.isMark_colon (lowers_toLower (hostPart authority))
    refine ⟨hhost, hport, fun hread => ?_⟩
    by_cases hcolon : (':' : CodePoint) ∈ hostPart authority
    · -- with digits behind the colon no cased letter is met there
      have heq := toLower_append_port (digits_of_readPort? hread)
        (cutAt ':' (hostPart authority)).1
      rw [← cutAt_fst_append hcolon] at heq
      rw [heq, cutAt_append]
      exact mt (mem_toLower_iff CodePoint.isMark_colon).mp (not_mem_cutAt ':' _)
    · have hcolon' := mt (mem_toLower_iff CodePoint.isMark_colon).mp hcolon
      rw [cutAt_of_not_mem hcolon, cutAt_of_not_mem hcolon']
  | some parts =>
    rw [← hostPart_toLower, hcut] at hlower
    rw [hostAndPort_of_open hcut, hostAndPort_of_open hlower]
    dsimp only
    rw [cutAt_toLower CodePoint.isWall_close]
    exact ⟨lowers_toLower _, (lowers_cutAt CodePoint.isMark_colon (lowers_toLower _)).2,
      fun _ => rfl⟩

/-! ### The host that the allow-list is asked about -/

theorem toLower_eq_nil_iff {t : Text} : toLower t = [] ↔ t = [] := (lowers_toLower t).eq_nil_iff

/-- Lowering twice is lowering once. -/
theorem toLower_toLower (t : Text) : toLower (toLower t) = toLower t :=
  toLower_eq_self_iff.mpr fun _ hc => isLower_of_mem_toLower hc

/-- The allow-list is asked about the same host when the authority is lowered. -/
theorem allowKey_toLower (url : Url) :
    allowKey { url with authority := toLower url.authority } = url.allowKey := by
  obtain ⟨-, hport, hhost⟩ := hostAndPort_toLower url.authority
  have hread := readPort?_of_lowers hport
  unfold allowKey
  dsimp only
  -- without a readable port there is no key; with one the host was lowered by itself
  rw [hread]
  cases hp : readPort? (hostAndPort url.authority).2 with
  | none => rfl
  | some port => rw [hhost (by rw [hp]; exact Option.some_ne_none _), toLower_toLower]

/-! ### The host with its port -/

/-- The host of a URL, as it is written. -/
def host (url : Url) : Text := (hostAndPort url.authority).1

/-- What is written as the port of a URL. -/
def portText (url : Url) : Text := (hostAndPort url.authority).2

/-- The host in lower case, with its port unless none is named or the scheme implies it. -/
def namedKey (url : Url) : Option Nat → Text
  | none => toLower url.host
  | some port =>
    if defaultPort? url.scheme = some port then toLower url.host
    else toLower url.host ++ ":" ++ Text.ofNat port

/-- How a URL is known: by nothing without a readable port or a host, else by its host, to which a
port is added that is named and is neither 0 nor implied. -/
theorem allowKey_eq (url : Url) : url.allowKey = match readPort? url.portText with
    | none => []
    | some port =>
      if url.host = [] then []
      else if port = some 0 then toLower url.host else url.namedKey port := by
  unfold allowKey
  change (match readPort? url.portText with
    | none => []
    | some port =>
      if (toLower url.host).isEmpty then []
      else match port with
        | none => toLower url.host
        | some port =>
          if port = 0 || defaultPort? url.scheme = some port then toLower url.host
          else toLower url.host ++ ":" ++ Text.ofNat port) = _
  have hempty : (toLower url.host).isEmpty = true ↔ url.host = [] :=
    List.isEmpty_iff.trans toLower_eq_nil_iff
  cases readPort? url.portText with
  | none => rfl
  | some port =>
    simp only [hempty]
    cases port with
    | none => rfl
    | some port => simp only [Bool.or_eq_true, decide_eq_true_iff, Option.some.injEq, namedKey,
        ite_or]

/-- A URL with a host and a readable port is known by its host and port, but for the port 0. -/
theorem allowKey_of_port {url : Url} {port : Option Nat} (hhost : url.host ≠ [])
    (hport : readPort? url.portText = some port) :
    url.allowKey = if port = some 0 then toLower url.host else url.namedKey port := by
  rw [allowKey_eq, hport]
  exact if_neg hhost

/-- A URL is known by nothing if it has no host, or a port that cannot be read. -/
theorem allowKey_eq_nil_iff {url : Url} :
    url.allowKey = [] ↔ url.host = [] ∨ readPort? url.portText = none := by
  by_cases hhost : url.host = []
  · refine iff_of_true ?_ (Or.inl hhost)
    rw [allowKey_eq]
    split
    · rfl
    · exact if_pos hhost
  · rw [or_iff_right hhost]
    cases hport : readPort? url.portText with
    | none =>
      refine iff_of_true ?_ rfl
      rw [allowKey_eq, hport]
    | some port =>
      refine iff_of_false ?_ (Option.some_ne_none _)
      have hne : toLower url.host ≠ [] := mt toLower_eq_nil_iff.mp hhost
      rw [allowKey_of_port hhost hport]
      cases port with
      | none => exact hne
      | some port =>
        rw [namedKey]
        split_ifs
        · exact hne
        · exact hne
        · exact List.append_ne_nil_of_left_ne_nil (List.append_ne_nil_of_left_ne_nil hne _) _

/-- Only two ports are implied. -/
theorem defaultPort?_eq_some {scheme : Text} {port : Nat} (h : defaultPort? scheme = some port) :
    port = 80 ∨ port = 443 := by
  unfold defaultPort? at h
  split at h
  · exact Or.inl (Option.some.inj h).symm
  · split at h
    · exact Or.inr (Option.some.inj h).symm
    · cases h

/-- The port 0 is implied by no scheme, so a key that names it differs from the host. -/
theorem namedKey_zero_ne {url : Url} : toLower url.host ≠ url.namedKey (some 0) := by
  have hdefault : ¬ defaultPort? url.scheme = some 0 := fun h =>
    (defaultPort?_eq_some h).elim (by decide) (by decide)
  rw [namedKey, if_neg hdefault, List.append_assoc]
  exact fun h => absurd (List.self_eq_append_right.mp h) (by decide)

/-! ### Accepted authorities -/

/-- A bracket that is opened stands at the front, and behind it closed stands at most a port. -/
def WellPlaced (host : Text) : Prop :=
  ∀ before rest, Text.cutFirst? '[' host = some (before, rest) → before = []
    ∧ ∀ address after, Text.cutFirst? ']' rest = some (address, after) →
      after = [] ∨ after.head? = some (':' : CodePoint)

theorem before_eq (sep : CodePoint) (t : Text) : Text.before sep t = (cutAt sep t).1 := by
  induction t with
  | nil => rfl
  | cons c t ih =>
    by_cases hc : c = sep
    · rw [hc, Text.before, List.takeWhile_cons, if_neg (by simp), cutAt, Text.cutFirst?, if_pos rfl]
      rfl
    · rw [cutAt_cons hc, ← ih, Text.before, List.takeWhile_cons, if_pos (by simpa using hc)]
      rfl

theorem error_ne_ok {α : Type} {defect : Defect} {a : α} :
    (.error defect : Except Defect α) ≠ .ok a := by
  rintro ⟨⟩

/-- The check of brackets asks for their places and for the address between them. -/
theorem checkBracketed_eq_ok_iff {authority : Text} : checkBracketed authority = .ok ()
    ↔ WellPlaced (hostPart authority) ∧ checkAddress (hostAndPort authority).1 = .ok () := by
  unfold checkBracketed
  dsimp only
  -- without an opening bracket the places are in order
  cases hopen : Text.cutFirst? '[' (hostPart authority) with
  | none =>
    have hplaced : WellPlaced (hostPart authority) := fun before rest h => by
      rw [hopen] at h
      cases h
    dsimp only
    rw [hostAndPort_of_plain hopen, before_eq]
    exact (and_iff_right hplaced).symm
  | some parts =>
    obtain ⟨before, rest⟩ := parts
    have hplaced : WellPlaced (hostPart authority) ↔ before = []
        ∧ ∀ address after, Text.cutFirst? ']' rest = some (address, after) →
          after = [] ∨ after.head? = some (':' : CodePoint) := by
      unfold WellPlaced
      rw [hopen]
      constructor
      · exact fun h => h before rest rfl
      · rintro h _ _ ⟨⟩
        exact h
    dsimp only
    rw [hplaced, hostAndPort_of_open hopen, cutAt]
    by_cases hbefore : before = []
    · rw [if_neg (by simp [hbefore])]
      cases hclose : Text.cutFirst? ']' rest with
      | none => simp [hbefore]
      | some parts =>
        obtain ⟨address, after⟩ := parts
        have hgood : (!after.isEmpty && after.head? ≠ some (':' : CodePoint)) = true
            ↔ ¬ (after = [] ∨ after.head? = some (':' : CodePoint)) := by
          simp
        change (if (!after.isEmpty && after.head? ≠ some (':' : CodePoint)) = true then _ else _) = _
          ↔ _
        by_cases hafter : after = [] ∨ after.head? = some (':' : CodePoint)
        · rw [if_neg (fun h => hgood.mp h hafter)]
          refine (and_iff_right ⟨hbefore, ?_⟩).symm
          rintro _ _ ⟨⟩
          exact hafter
        · rw [if_pos (hgood.mpr hafter)]
          exact iff_of_false error_ne_ok fun h => hafter (h.1.2 address after rfl)
    · rw [if_pos (by simpa using hbefore)]
      exact iff_of_false error_ne_ok fun h => hbefore h.1.1

/-- No code point may hide a mark. -/
theorem checkHidden_eq_ok_iff {authority : Text} : checkHidden authority = .ok ()
    ↔ ∀ c ∈ authority, c.toNat ∉ hiddenDelimiters := by
  unfold checkHidden
  by_cases h : (authority.any fun c => hiddenDelimiters.contains c.toNat) = true
  · rw [if_pos h]
    obtain ⟨c, hc, hhidden⟩ := List.any_eq_true.mp h
    exact iff_of_false error_ne_ok fun hnot =>
      hnot c hc (List.contains_iff_mem.mp hhidden)
  · rw [if_neg h]
    refine iff_of_true rfl fun c hc hhidden => h ?_
    exact List.any_eq_true.mpr ⟨c, hc, List.contains_iff_mem.mpr hhidden⟩

/-- What may stand in a URL as its authority. -/
theorem accepted_iff {authority : Text} : Accepted authority
    ↔ ((('[' : CodePoint) ∈ authority ∨ (']' : CodePoint) ∈ authority) →
        ('[' : CodePoint) ∈ authority ∧ (']' : CodePoint) ∈ authority
          ∧ WellPlaced (hostPart authority) ∧ checkAddress (hostAndPort authority).1 = .ok ())
      ∧ ∀ c ∈ authority, c.toNat ∉ hiddenDelimiters := by
  -- the brackets count together, whichever of the two is there
  have hbrackets : checkBrackets authority = .ok ()
      ↔ ((('[' : CodePoint) ∈ authority ∨ (']' : CodePoint) ∈ authority) →
        ('[' : CodePoint) ∈ authority ∧ (']' : CodePoint) ∈ authority
          ∧ WellPlaced (hostPart authority) ∧ checkAddress (hostAndPort authority).1 = .ok ()) := by
    rw [← checkBracketed_eq_ok_iff]
    unfold checkBrackets
    simp only [← List.contains_iff_mem]
    cases authority.contains ('[' : CodePoint) with
    | true => cases authority.contains (']' : CodePoint) <;> simp
    | false => cases authority.contains (']' : CodePoint) <;> simp
  rw [Accepted, hbrackets, checkHidden_eq_ok_iff]

/-- Both brackets are walls and a colon stays, so the places are as before. -/
theorem WellPlaced.toLower {host : Text} (h : WellPlaced host) : WellPlaced (toLower host) := by
  intro before rest hopen
  rw [cutFirst?_toLower CodePoint.isWall_open] at hopen
  obtain ⟨⟨before', rest'⟩, hopen', heq⟩ := Option.map_eq_some_iff.mp hopen
  obtain ⟨rfl, rfl⟩ := Prod.mk.inj heq
  obtain ⟨rfl, hclosed⟩ := h before' rest' hopen'
  refine ⟨rfl, fun address after hclose => ?_⟩
  rw [cutFirst?_toLower CodePoint.isWall_close] at hclose
  obtain ⟨⟨address', after'⟩, hclose', heq⟩ := Option.map_eq_some_iff.mp hclose
  obtain ⟨rfl, rfl⟩ := Prod.mk.inj heq
  rcases hclosed address' after' hclose' with rfl | hhead
  · exact Or.inl rfl
  · right
    obtain ⟨more, rfl⟩ : ∃ more, after' = (':' : CodePoint) :: more := by
      cases after' with
      | nil => cases hhead
      | cons c more => exact ⟨more, by rw [Option.some.inj hhead]⟩
    dsimp only
    rw [Text.toLower, toLowerAfter_cons_of_isLower CodePoint.isMark_colon.2]
    rfl

/-- An authority that may stand in a URL may stand there in lower case. -/
theorem Accepted.toLower {authority : Text} (h : Accepted authority) :
    Accepted (toLower authority) := by
  obtain ⟨hbrackets, hhidden⟩ := accepted_iff.mp h
  rw [accepted_iff, mem_toLower_iff CodePoint.isWall_open.mark,
    mem_toLower_iff CodePoint.isWall_close.mark, hostPart_toLower]
  refine ⟨fun hor => ?_, fun c hc hmem => ?_⟩
  · obtain ⟨hopen, hclose, hplaced, haddress⟩ := hbrackets hor
    exact ⟨hopen, hclose, hplaced.toLower,
      checkAddress_of_lowers (hostAndPort_toLower authority).1 haddress⟩
  · exact hhidden c ((lowers_toLower authority).mem_of_hidden hc hmem) hmem

/-! ### Digits at the end of an authority -/

/-- A colon and digits hold none of the walls. -/
theorem not_mem_port {digits : Text} (h : digits.all CodePoint.isAsciiDigit = true) :
    ('@' : CodePoint) ∉ (':' : CodePoint) :: digits ∧ ('[' : CodePoint) ∉ (':' : CodePoint) :: digits
      ∧ (']' : CodePoint) ∉ (':' : CodePoint) :: digits := by
  have hnot : ∀ mark : CodePoint, mark ≠ ':' → mark.isAsciiDigit = false →
      mark ∉ (':' : CodePoint) :: digits := by
    intro mark hcolon hdigit hmem
    rcases List.mem_cons.mp hmem with e | hmem
    · exact hcolon e
    · rw [List.all_eq_true.mp h mark hmem] at hdigit
      cases hdigit
  exact ⟨hnot _ (by decide) (by decide), hnot _ (by decide) (by decide),
    hnot _ (by decide) (by decide)⟩

/-- What is put behind a host moves no bracket, if it has none. -/
theorem WellPlaced.of_append {host more : Text} (hopen : ('[' : CodePoint) ∉ more)
    (hclose : (']' : CodePoint) ∉ more) (h : WellPlaced (host ++ more)) : WellPlaced host := by
  intro before rest hcut
  have hcut' : Text.cutFirst? '[' (host ++ more) = some (before, rest ++ more) := by
    rw [cutFirst?_append_of_not_mem hopen, hcut]
    rfl
  obtain ⟨hbefore, hclosed⟩ := h _ _ hcut'
  refine ⟨hbefore, fun address after hend => ?_⟩
  have hend' : Text.cutFirst? ']' (rest ++ more) = some (address, after ++ more) := by
    rw [cutFirst?_append_of_not_mem hclose, hend]
    rfl
  cases after with
  | nil => exact Or.inl rfl
  | cons c after => exact Or.inr ((hclosed _ _ hend').resolve_left (List.cons_ne_nil _ _))

/-- Where it does not belong to the host, a colon with digits can be left off an authority. -/
theorem Accepted.of_append_port {authority digits : Text}
    (h : digits.all CodePoint.isAsciiDigit = true)
    (hhost : (hostAndPort (authority ++ (':' : CodePoint) :: digits)).1 = (hostAndPort authority).1)
    (haccepted : Accepted (authority ++ (':' : CodePoint) :: digits)) : Accepted authority := by
  obtain ⟨hat, hopen, hclose⟩ := not_mem_port h
  obtain ⟨hbrackets, hhidden⟩ := accepted_iff.mp haccepted
  rw [hhost, hostPart_append hat, List.mem_append, List.mem_append, or_iff_left hopen,
    or_iff_left hclose] at hbrackets
  refine accepted_iff.mpr ⟨fun hor => ?_, fun c hc => hhidden c (List.mem_append_left _ hc)⟩
  obtain ⟨hmem, hmem', hplaced, haddress⟩ := hbrackets hor
  exact ⟨hmem, hmem', hplaced.of_append hopen hclose, haddress⟩

/-- A colon and digits at the end of an authority are its port, or end a text that is no port, or
belong to an address whose bracket is not closed. -/
theorem hostAndPort_append {digits : Text} (h : digits.all CodePoint.isAsciiDigit = true)
    (authority : Text) :
    (hostAndPort (authority ++ (':' : CodePoint) :: digits) = ((hostAndPort authority).1, digits)
        ∧ (hostAndPort authority).2 = [])
      ∨ hostAndPort (authority ++ (':' : CodePoint) :: digits)
        = ((hostAndPort authority).1, (hostAndPort authority).2 ++ (':' : CodePoint) :: digits)
      ∨ (hostAndPort (authority ++ (':' : CodePoint) :: digits)
          = ((hostAndPort authority).1 ++ (':' : CodePoint) :: digits, [])
        ∧ (hostAndPort authority).2 = []) := by
  obtain ⟨hat, hopen, hclose⟩ := not_mem_port h
  have hhost := hostPart_append hat authority
  have hcut' := cutFirst?_append_of_not_mem (t := hostPart authority) hopen
  rw [← hhost] at hcut'
  -- with a bracket, it matters whether it is closed
  cases hcut : Text.cutFirst? '[' (hostPart authority) with
  | none =>
    rw [hcut] at hcut'
    rw [hostAndPort_of_plain hcut, hostAndPort_of_plain hcut', hhost]
    rcases cutAt_append_mark ':' (hostPart authority) digits with ⟨-, hport, hself⟩ | ⟨-, hport⟩
    · rw [hport, hself]
      exact Or.inl ⟨rfl, rfl⟩
    · exact Or.inr (Or.inl hport)
  | some parts =>
    obtain ⟨before, rest⟩ := parts
    rw [hcut] at hcut'
    rw [hostAndPort_of_open hcut, hostAndPort_of_open hcut']
    dsimp only
    rcases cutAt_append_of_not_mem hclose rest with ⟨-, hend', hend⟩ | hend'
    · -- it is not: all that follows belongs to the address
      rw [hend', hend]
      exact Or.inr (Or.inr ⟨rfl, rfl⟩)
    · rw [hend']
      dsimp only
      rcases cutAt_append_mark ':' (cutAt ']' rest).2 digits with ⟨-, hport, hself⟩ | ⟨-, hport⟩
      · rw [hport, hself]
        exact Or.inl ⟨rfl, rfl⟩
      · rw [hport]
        exact Or.inr (Or.inl rfl)

/-! ### The authority of a canonical form -/

/-- A text with an ending is what stands before it, and the ending. -/
theorem beforeEnd?_eq_some {ending t rest : Text} (h : Text.beforeEnd? ending t = some rest) :
    t = rest ++ ending := by
  obtain ⟨back, hback, rfl⟩ := Option.map_eq_some_iff.mp h
  rw [← List.reverse_reverse t, Text.eq_append_of_afterStart? hback]
  simp

/-- The port that ends an authority is not empty. -/
theorem port_ne_nil (port : Nat) : (":" : Text) ++ Text.ofNat port ≠ [] :=
  List.append_ne_nil_of_left_ne_nil (by decide) _

theorem beforeEnd?_append (ending t : Text) : Text.beforeEnd? ending (t ++ ending) = some t := by
  rw [Text.beforeEnd?, List.reverse_append, afterStart?_append, Option.map_some,
    List.reverse_reverse]

/-- The ports that schemes imply are read as they are written. -/
theorem digits_of_defaultPort? {scheme : Text} {port : Nat} (h : defaultPort? scheme = some port) :
    (Text.ofNat port).all CodePoint.isAsciiDigit = true
      ∧ readPort? (Text.ofNat port) = some (some port) := by
  rcases defaultPort?_eq_some h with rfl | rfl
  · decide
  · decide

theorem colon_append (digits : Text) : (":" : Text) ++ digits = (':' : CodePoint) :: digits := rfl

/-- The default port is cut off the end of an authority, or there is none, and what is left is
lowered. -/
theorem canonicalAuthority_cases (url : Url) :
    (∃ port rest, defaultPort? url.scheme = some port
        ∧ url.authority = rest ++ (":" ++ Text.ofNat port)
        ∧ canonicalAuthority url.scheme url.authority = toLower rest)
      ∨ (∀ port rest, defaultPort? url.scheme = some port →
          url.authority ≠ rest ++ (":" ++ Text.ofNat port))
        ∧ canonicalAuthority url.scheme url.authority = toLower url.authority := by
  unfold canonicalAuthority
  dsimp only
  cases hdefault : defaultPort? url.scheme with
  | none => exact Or.inr ⟨fun _ _ h => absurd h.symm (Option.some_ne_none _), rfl⟩
  | some port =>
    obtain ⟨hdigits, -⟩ := digits_of_defaultPort? hdefault
    dsimp only
    rw [colon_append]
    cases hend : Text.beforeEnd? ((':' : CodePoint) :: Text.ofNat port)
        (toLower url.authority) with
    | none =>
      right
      -- no such ending in lower case, so none before
      refine ⟨?_, rfl⟩
      rintro _ rest ⟨⟩ hauthority
      rw [hauthority, colon_append, toLower_append_port hdigits, beforeEnd?_append] at hend
      cases hend
    | some front =>
      left
      -- digits and colon are lowered from themselves only, so the ending was there before
      have hlower := beforeEnd?_eq_some hend
      have hlowers := lowers_toLower url.authority
      rw [hlower] at hlowers
      obtain ⟨rest, hrest⟩ := hlowers.exists_append (List.forall_mem_cons.mpr
        ⟨by decide, fun c hc =>
          (CodePoint.isMark_of_isAsciiDigit (List.all_eq_true.mp hdigits c hc)).1⟩)
      refine ⟨port, rest, rfl, hrest, ?_⟩
      rw [hrest, toLower_append_port hdigits] at hlower
      exact (List.append_cancel_right hlower).symm

/-- Where nothing is left of the authority, there was no host. -/
theorem host_eq_nil_of_canonicalAuthority {url : Url}
    (h : canonicalAuthority url.scheme url.authority = []) : url.host = [] := by
  rcases canonicalAuthority_cases url with ⟨port, rest, hdefault, hauthority, hcut⟩ | ⟨-, hlower⟩
  · rw [hcut, toLower_eq_nil_iff] at h
    rw [h, List.nil_append] at hauthority
    rw [host, hauthority]
    rcases defaultPort?_eq_some hdefault with rfl | rfl
    · rfl
    · rfl
  · rw [hlower, toLower_eq_nil_iff] at h
    rw [host, h]
    rfl

end Url

end CompileGate
