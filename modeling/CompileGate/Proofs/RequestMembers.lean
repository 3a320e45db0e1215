/-
CompileGate/Proofs/RequestMembers.lean

Which members of a payload decide what becomes of it.

The members of a request have nine names in a payload, since three of them have two.  All
checks but one look under these names alone.  The last one is for the entry key: no payload
has to give one, and what it gives is not used, but it is checked all the same.  A payload
with a member of that name is refused unless the member is null or a text, and the complaint
about it comes after all others (`check_eq`).

So two payloads that agree on the nine names (`Table.AgreeOn`) have the same outcome exactly
when this check lets both of them through or neither (`parseRequest_eq_iff_of_agreeOn`).

Main result: `extra_members_ignored_iff`.
-/
import CompileGate.Proofs.Framing
import CompileGate.Proofs.PathSegments
import CompileGate.Proofs.SessionWalk

namespace CompileGate

/-! ### Tables that agree -/

namespace Table

variable {α : Type u} {names names' : List Text} {t t' : Table α}

/-- Two tables have the same entries under some names. -/
def AgreeOn (names : List Text) (t t' : Table α) : Prop :=
  ∀ name ∈ names, get? name t = get? name t'

theorem AgreeOn.mono (h : AgreeOn names t t') (hnames : ∀ name ∈ names', name ∈ names) :
    AgreeOn names' t t' := fun name hname => h name (hnames name hname)

/-- The entries under all other names. -/
def without (names : List Text) (t : Table α) : Table α := t.filter fun entry => entry.1 ∉ names

/-- Entries that are left out are not found; the others are. -/
theorem get?_without (names : List Text) (t : Table α) (name : Text) :
    get? name (without names t) = if name ∈ names then none else get? name t := by
  induction t with
  | nil => simp [without]
  | cons entry rest ih =>
    obtain ⟨key, value⟩ := entry
    by_cases hkey : key ∈ names
    · have hdrop : without names ((key, value) :: rest) = without names rest := by
        simp [without, hkey]
      rw [hdrop, ih]
      by_cases hname : name ∈ names
      · rw [if_pos hname, if_pos hname]
      · have hne : key ≠ name := fun h => hname (h ▸ hkey)
        rw [if_neg hname, if_neg hname, get?, if_neg hne]
    · have hkeep : without names ((key, value) :: rest) = (key, value) :: without names rest := by
        simp [without, hkey]
      rw [hkeep, get?, ih, get?]
      by_cases hk : key = name
      · subst hk
        rw [if_pos rfl, if_neg hkey, if_pos rfl]
      · rw [if_neg hk, if_neg hk]

/-- Entries under other names make no difference. -/
theorem agreeOn_without {extras : List Text} (h : ∀ name ∈ extras, name ∉ names) (t : Table α) :
    AgreeOn names t (without extras t) := by
  intro name hname
  rw [get?_without, if_neg fun hextra => h name hextra hname]

end Table

open Table

namespace Request

/-! ### The names of the members -/

/-- The names under which a payload gives the members of a request. -/
def wireNames : List Text := [
  "source", "filename", "compilerVersion", "compiler_version", "returnArtifacts",
  "return_artifacts", "packageVersions", "package_versions", "settings"]

/-- The name of the entry key, which is worked out from the other members. -/
def keyName : Text := "entry_key"

theorem keyName_notMem_wireNames : keyName ∉ wireNames := by decide

/-- All names that a check looks under. -/
def checkedNames : List Text := wireNames ++ [keyName]

/-- A payload without a member for the entry key. -/
def bare (payload : Table Json) : Table Json := payload.without [keyName]

section Agreement

variable {names : List Text} {payload payload' : Table Json}

/-- What is given under some names depends on these entries only. -/
theorem given?_congr (h : AgreeOn names payload payload') :
    given? payload names = given? payload' names := by
  induction names with
  | nil => rfl
  | cons name names ih =>
    rw [given?, given?, h name List.mem_cons_self,
      ih (h.mono fun _ hname => List.mem_cons_of_mem name hname)]

theorem checkOptional_congr (h : AgreeOn names payload payload') :
    checkOptional payload names = checkOptional payload' names := by
  rw [checkOptional, checkOptional, given?_congr h]

variable (h : AgreeOn wireNames payload payload')

include h

theorem checkSource_congr : checkSource payload = checkSource payload' := by
  rw [checkSource, checkSource, given?_congr (h.mono (by decide))]

theorem checkVersion_congr : checkVersion payload = checkVersion payload' := by
  rw [checkVersion, checkVersion, checkOptional_congr (h.mono (by decide))]

theorem checkArtifacts_congr : checkArtifacts payload = checkArtifacts payload' := by
  rw [checkArtifacts, checkArtifacts, given?_congr (h.mono (by decide))]

theorem checkVersions_congr : checkVersions payload = checkVersions payload' := by
  rw [checkVersions, checkVersions, given?_congr (h.mono (by decide))]

theorem checkSettings_congr : checkSettings payload = checkSettings payload' := by
  rw [checkSettings, checkSettings, given?_congr (h.mono (by decide))]

theorem checkFilename_congr :
    checkOptional payload ["filename"] = checkOptional payload' ["filename"] :=
  checkOptional_congr (h.mono (by decide))

omit h in
/-- All checks together look under the ten names and nowhere else. -/
theorem check_congr (h : AgreeOn checkedNames payload payload') :
    check payload = check payload' := by
  have hwire : AgreeOn wireNames payload payload' := h.mono (by decide)
  have hkey : checkOptional payload ["entry_key"] = checkOptional payload' ["entry_key"] :=
    checkOptional_congr (h.mono (by decide))
  rw [check, check, checkSource_congr hwire, checkFilename_congr hwire, checkVersion_congr hwire,
    checkArtifacts_congr hwire, checkVersions_congr hwire, checkSettings_congr hwire, hkey]

/-- What the nine names leave open is the entry key. -/
theorem check_bare_congr : check (bare payload) = check (bare payload') := by
  refine check_congr fun name hname => ?_
  rw [bare, bare, get?_without, get?_without]
  by_cases hkey : name ∈ [keyName]
  · rw [if_pos hkey, if_pos hkey]
  · rw [if_neg hkey, if_neg hkey]
    exact h name ((List.mem_append.mp hname).resolve_right hkey)

end Agreement

/-! ### The entry key of a payload -/

/-- The member for the entry key is missing, null or a text. -/
def AcceptsKey (payload : Table Json) : Prop :=
  ∀ value, get? keyName payload = some value → value = .null ∨ ∃ key, value = .string key

/-- What is wrong with any other one. -/
def keyComplaint : Complaint := ⟨[keyName], "Input should be a valid string"⟩

/-- A payload without the member has nothing to be refused for. -/
theorem acceptsKey_of_get?_eq_none {payload : Table Json} (h : get? keyName payload = none) :
    AcceptsKey payload := by
  intro value hvalue
  rw [h] at hvalue
  cases hvalue

theorem acceptsKey_congr {payload payload' : Table Json}
    (h : get? keyName payload = get? keyName payload') :
    AcceptsKey payload ↔ AcceptsKey payload' := by
  rw [AcceptsKey, AcceptsKey, h]

/-- The member has one name, and its check is that of an optional text. -/
theorem checkKey_eq (payload : Table Json) :
    checkOptional payload [keyName] =
      match get? keyName payload with
      | none => .ok none
      | some value => checkOptionalText [keyName] value := by
  rw [checkOptional, given?]
  cases get? keyName payload with
  | none => rfl
  | some value => rfl

/-- Null and texts pass the check. -/
theorem exists_checkKey_of_acceptsKey {payload : Table Json} (h : AcceptsKey payload) :
    ∃ key, checkOptional payload [keyName] = .ok key := by
  rw [checkKey_eq]
  cases hget : get? keyName payload with
  | none => exact ⟨none, rfl⟩
  | some value =>
    rcases h value hget with rfl | ⟨key, rfl⟩
    · exact ⟨none, rfl⟩
    · exact ⟨some key, rfl⟩

/-- Any other value is complained of in the same words. -/
theorem checkKey_of_not_acceptsKey {payload : Table Json} (h : ¬ AcceptsKey payload) :
    checkOptional payload [keyName] = .error [keyComplaint] := by
  rw [checkKey_eq]
  cases hget : get? keyName payload with
  | none => exact absurd (acceptsKey_of_get?_eq_none hget) h
  | some value =>
    have hother : ¬ (value = .null ∨ ∃ key, value = .string key) := by
      intro hvalue
      refine h fun value' hget' => ?_
      obtain rfl := Option.some.inj (hget.symm.trans hget')
      exact hvalue
    cases value with
    | null => exact absurd (.inl rfl) hother
    | string key => exact absurd (.inr ⟨key, rfl⟩) hother
    | _ => rfl

/-- Without the member the check passes. -/
theorem checkKey_bare (payload : Table Json) : checkOptional (bare payload) [keyName] = .ok none := by
  rw [checkKey_eq, bare, get?_without, if_pos (List.mem_singleton_self keyName)]

/-- The entry key is checked last, and its value is not used. -/
theorem check_eq (payload : Table Json) :
    check payload =
      match checkOptional payload [keyName] with
      | .ok _ => check (bare payload)
      | .error more => .error (complaints (check (bare payload)) ++ more) := by
  -- the six other checks do not see the difference
  have hbare : AgreeOn wireNames payload (bare payload) :=
    agreeOn_without (fun name hname => List.mem_singleton.mp hname ▸ keyName_notMem_wireNames) payload
  have hkey : checkOptional (bare payload) ["entry_key"] = .ok none := checkKey_bare payload
  have hname : keyName = "entry_key" := rfl
  rw [check, check, ← checkSource_congr hbare, ← checkVersion_congr hbare,
    ← checkArtifacts_congr hbare, ← checkVersions_congr hbare, ← checkSettings_congr hbare,
    ← checkFilename_congr hbare, hkey, hname]
  generalize checkSource payload = source
  generalize checkOptional payload ["filename"] = filename
  generalize checkVersion payload = version
  generalize checkArtifacts payload = artifacts
  generalize checkVersions payload = versions
  generalize checkSettings payload = settings
  generalize checkOptional payload ["entry_key"] = key
  -- the first member that fails decides; behind it only the entry key matters
  cases source with
  | error => cases key <;> simp [complaints]
  | ok source =>
  cases filename with
  | error => cases key <;> simp [complaints]
  | ok filename =>
  cases version with
  | error => cases key <;> simp [complaints]
  | ok version =>
  cases artifacts with
  | error => cases key <;> simp [complaints]
  | ok artifacts =>
  cases versions with
  | error => cases key <;> simp [complaints]
  | ok versions =>
  cases settings with
  | error => cases key <;> simp [complaints]
  | ok settings => cases key <;> simp [complaints]

/-! ### Refusals -/

section Refusals

variable {τ : Type} {payload payload' : Table Json}

/-- The text of a list of complaints. -/
def report (cs : List Complaint) : Text := Text.join "; " (cs.map Complaint.message)

theorem message_keyComplaint : keyComplaint.message = "entry_key: Input should be a valid string" := by
  decide

/-- One complaint more is another report. -/
theorem report_concat_ne (cs : List Complaint) : report (cs ++ [keyComplaint]) ≠ report cs := by
  intro heq
  rw [report, report, List.map_append, List.map_singleton, message_keyComplaint] at heq
  cases cs with
  | nil => exact absurd heq (by decide)
  | cons c cs =>
    rw [Text.join_concat (by simp)] at heq
    -- the longer report ends in one more message
    have hlength := congrArg List.length heq
    simp only [List.length_append] at hlength
    have hpos : 0 < ("entry_key: Input should be a valid string" : Text).length := by decide
    omega

/-- Complaints are reported together. -/
theorem read_of_check_error {cs : List Complaint} (h : check payload = .error cs) :
    read (τ := τ) (.object payload) = .error (.gateway (.invalidRequest [.string (report cs)])) := by
  rw [read, h]
  rfl

/-- What passes is named. -/
theorem read_of_check_ok {request : Request} (h : check payload = .ok request) :
    read (τ := τ) (.object payload) = (do
      let key ← Failure.ofEncoding (EntryKey.choose request.filename request.source)
      return { request with entryKey := key }) := by
  rw [read, h]

theorem read_congr (h : check payload = check payload') :
    read (τ := τ) (.object payload) = read (.object payload') := by
  rw [read, read, h]

/-- An entry key that is accepted makes no difference. -/
theorem check_of_acceptsKey (h : AcceptsKey payload) : check payload = check (bare payload) := by
  obtain ⟨key, hkey⟩ := exists_checkKey_of_acceptsKey h
  rw [check_eq, hkey]

/-- One that is not is complained of, after everything else. -/
theorem check_of_not_acceptsKey (h : ¬ AcceptsKey payload) :
    check payload = .error (complaints (check (bare payload)) ++ [keyComplaint]) := by
  rw [check_eq, checkKey_of_not_acceptsKey h]

/-- An entry key that is not accepted makes a difference. -/
theorem read_ne_of_acceptsKey (hagree : AgreeOn wireNames payload payload')
    (h : AcceptsKey payload) (h' : ¬ AcceptsKey payload') :
    read (τ := τ) (.object payload) ≠ read (.object payload') := by
  have hcheck : check payload = check (bare payload') :=
    (check_of_acceptsKey h).trans (check_bare_congr hagree)
  rw [read_of_check_error (check_of_not_acceptsKey h')]
  -- the payload without the member fails as well or not: its report is shorter, or there is none
  cases hbare : check (bare payload') with
  | error cs =>
    rw [read_of_check_error (hcheck.trans hbare)]
    intro heq
    simp only [Except.error.injEq, Failure.gateway.injEq, GatewayError.invalidRequest.injEq,
      List.cons.injEq, Json.string.injEq, and_true] at heq
    exact report_concat_ne cs heq.symm
  | ok request =>
    rw [read_of_check_ok (hcheck.trans hbare)]
    cases EntryKey.choose request.filename request.source with
    | ok key => exact nofun
    | error e => exact nofun

/-- Of payloads that agree otherwise, the entry keys decide by being accepted. -/
theorem read_eq_iff_of_agreeOn (hagree : AgreeOn wireNames payload payload') :
    read (τ := τ) (.object payload) = read (.object payload')
      ↔ (AcceptsKey payload ↔ AcceptsKey payload') := by
  by_cases h : AcceptsKey payload
  · by_cases h' : AcceptsKey payload'
    · have hcheck : check payload = check payload' := by
        rw [check_of_acceptsKey h, check_of_acceptsKey h', check_bare_congr hagree]
      simp only [read_congr hcheck, h, h']
    · simp only [read_ne_of_acceptsKey hagree h h', h, h', iff_false, not_true_eq_false]
  · by_cases h' : AcceptsKey payload'
    · have hne := read_ne_of_acceptsKey (τ := τ) (fun name hname => (hagree name hname).symm) h' h
      simp only [hne.symm, h, h', iff_true]
    · have hcheck : check payload = check payload' := by
        rw [check_of_not_acceptsKey h, check_of_not_acceptsKey h', check_bare_congr hagree]
      simp only [read_congr hcheck, h, h']

end Refusals

end Request

open Request

namespace Pipeline

variable {τ : Type} [Seconds τ] {config : Config τ} {w : World τ}

/-! ### The stage -/

/-- The stage adds the context of the request to what it reads. -/
theorem parseRequest_of_read_ok {payload : Json} {request : Request}
    (h : Request.read (τ := τ) payload = .ok request) :
    parseRequest config payload w
      = .ok (request, Context.ofConfig config request.packageVersions w.now) w := by
  have hstage : parseRequest config payload w
      = World.lift (Request.readWithContext config w.now payload) w := rfl
  rw [hstage, Request.readWithContext, h]
  rfl

/-- The stage fails as reading does. -/
theorem parseRequest_of_read_error {payload : Json} {e : Failure τ}
    (h : Request.read payload = .error e) : parseRequest config payload w = .error e w := by
  have hstage : parseRequest config payload w
      = World.lift (Request.readWithContext config w.now payload) w := rfl
  rw [hstage, Request.readWithContext, h]
  rfl

/-- The outcome of the stage is that of reading the payload. -/
theorem parseRequest_eq_iff {payload payload' : Json} :
    parseRequest config payload w = parseRequest config payload' w
      ↔ Request.read (τ := τ) payload = Request.read payload' := by
  cases h : Request.read (τ := τ) payload with
  | ok request =>
    rw [parseRequest_of_read_ok h]
    cases h' : Request.read (τ := τ) payload' with
    | ok request' =>
      rw [parseRequest_of_read_ok h', Except.ok.injEq]
      constructor
      · rintro ⟨⟩
        rfl
      · rintro rfl
        rfl
    | error e' =>
      rw [parseRequest_of_read_error h']
      exact ⟨nofun, nofun⟩
  | error e =>
    rw [parseRequest_of_read_error h]
    cases h' : Request.read (τ := τ) payload' with
    | ok request' =>
      rw [parseRequest_of_read_ok h']
      exact ⟨nofun, nofun⟩
    | error e' =>
      rw [parseRequest_of_read_error h', Except.error.injEq]
      constructor
      · rintro ⟨⟩
        rfl
      · rintro rfl
        rfl

/-- What the names of the members leave open is whether the entry key passes its check. -/
theorem parseRequest_eq_iff_of_agreeOn {payload payload' : Table Json}
    (hagree : AgreeOn wireNames payload payload') :
    parseRequest config (.object payload) w = parseRequest config (.object payload') w
      ↔ (AcceptsKey payload ↔ AcceptsKey payload') :=
  parseRequest_eq_iff.trans (read_eq_iff_of_agreeOn hagree)

/-- **Members under other names than those of a request make no difference, unless one of them is
an entry key that is neither null nor a text: with it the payload is refused.** -/
theorem extra_members_ignored_iff (config : Config τ) (w : World τ) (payload : Table Json)
    {extras : List Text} (hextras : ∀ name ∈ extras, name ∉ wireNames) :
    (parseRequest config (.object payload) w
        = parseRequest config (.object (payload.without extras)) w
      ↔ (keyName ∈ extras → AcceptsKey payload))
      ∧ (¬ AcceptsKey payload → ∃ before : List Complaint,
        parseRequest config (.object payload) w
          = .error (.gateway (.invalidRequest [.string (report (before ++ [keyComplaint]))])) w) := by
  constructor
  · rw [parseRequest_eq_iff_of_agreeOn (agreeOn_without hextras payload)]
    by_cases hkey : keyName ∈ extras
    · have hbare : AcceptsKey (payload.without extras) :=
        acceptsKey_of_get?_eq_none (by rw [get?_without, if_pos hkey])
      simp only [hbare, hkey, iff_true, true_implies]
    · have hsame : get? keyName (payload.without extras) = get? keyName payload := by
        rw [get?_without, if_neg hkey]
      simp only [acceptsKey_congr hsame, hkey, false_implies]
  · intro h
    exact ⟨_, parseRequest_of_read_error (read_of_check_error (check_of_not_acceptsKey h))⟩

open Http.Exchange (stillWorld)

/-- A payload with a member for the entry key. -/
def keyedPayload (key : Json) : Table Json := [
  ("source", .string "contract A \x7b\x7d"), ("filename", .string "a.sol"), ("debug", .bool true),
  ("entry_key", key)]

/-- A text in its place is ignored. -/
theorem text_key_ignored : (∀ name ∈ (["debug", "entry_key"] : List Text), name ∉ wireNames)
    ∧ parseRequest Config.builtin (.object (keyedPayload (.string "hack"))) stillWorld
      = parseRequest Config.builtin
        (.object ((keyedPayload (.string "hack")).without ["debug", "entry_key"])) stillWorld := by
  have hextras : ∀ name ∈ (["debug", "entry_key"] : List Text), name ∉ wireNames := by decide
  refine ⟨hextras, (extra_members_ignored_iff Config.builtin stillWorld _ hextras).1.mpr ?_⟩
  intro _ value hvalue
  have hkey : get? keyName (keyedPayload (.string "hack")) = some (.string "hack") := rfl
  exact .inr ⟨"hack", (Option.some.inj (hkey.symm.trans hvalue)).symm⟩

/-- A number is not: the payload is refused with it and accepted without it. -/
theorem number_key_refused : keyName ∉ wireNames
    ∧ parseRequest Config.builtin (.object (keyedPayload (.int 5))) stillWorld
      = .error (.gateway (.invalidRequest
        [.string "entry_key: Input should be a valid string"])) stillWorld
    ∧ ∃ request ctx, request.entryKey = ("a.sol" : Text)
      ∧ parseRequest Config.builtin (.object ((keyedPayload (.int 5)).without [keyName])) stillWorld
        = .ok (request, ctx) stillWorld := by
  refine ⟨keyName_notMem_wireNames, ?_, ?_⟩
  · have hnumber : ¬ AcceptsKey (keyedPayload (.int 5)) := by
      intro h
      rcases h (.int 5) rfl with h | ⟨key, h⟩
      · cases h
      · cases h
    have hbare : complaints (check (bare (keyedPayload (.int 5)))) = [] := by rfl
    rw [parseRequest_of_read_error (read_of_check_error (check_of_not_acceptsKey hnumber)), hbare,
      List.nil_append]
    rfl
  · exact ⟨⟨"contract A \x7b\x7d", some "a.sol", none, false, [], [], "a.sol"⟩, _, rfl,
      parseRequest_of_read_ok rfl⟩

end Pipeline

end CompileGate
