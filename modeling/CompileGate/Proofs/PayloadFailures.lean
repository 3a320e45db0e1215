/-
CompileGate/Proofs/PayloadFailures.lean

How reading a payload can fail.

A payload that does not pass its checks is refused (`RefusedWith`), and each complaint is
about a member under one of its names (`Blames`).  A payload that passes them can still fail:
without a usable file name the entry is named after the digest of the source, and a source
that holds a surrogate has no bytes to digest (`Unnameable`).  This failure is no refusal, so
over HTTP it is not reported as the fault of the client.

Main result: `payload_failures`.
-/
import CompileGate.Proofs.EncodedSize
import CompileGate.Proofs.FrontEnds
import CompileGate.Proofs.RequestMembers

namespace CompileGate

namespace Utf8

/-- A text with a surrogate has no bytes. -/
theorem encode_eq_error {t : Text} (h : ¬ Encodable t) : ∃ e, encode t = .error e := by
  rw [encode]
  cases hfirst : surrogates? 0 t with
  | none => exact absurd (surrogates?_eq_none_iff.mp hfirst) h
  | some e => exact ⟨e, rfl⟩

end Utf8

/-! ### Names of entries -/

namespace EntryKey

variable {name : Option Text} {source : Text}

/-- What is left of a file name is the key. -/
theorem choose_of_sanitize_ne_nil (h : sanitize (name.getD []) ≠ []) :
    choose name source = .ok (sanitize (name.getD [])) := by
  rw [choose]
  exact if_neg fun hempty => h (List.isEmpty_iff.mp hempty)

/-- Without one the source is named after its digest. -/
theorem choose_of_sanitize_eq_nil (h : sanitize (name.getD []) = []) :
    choose name source = ofSource source := by
  rw [choose, h]
  rfl

/-- The name has eight digits of the digest in it. -/
theorem ofSource_eq_ok (h : Utf8.Encodable source) :
    ofSource source
      = .ok ("Contract_" ++ (Sha256.hexDigest (source.flatMap Utf8.encodePoint)).take 8 ++ ".sol") := by
  rw [ofSource, digest, Utf8.encode_eq_ok h]
  rfl

/-- Without bytes there is no digest. -/
theorem ofSource_eq_error (h : ¬ Utf8.Encodable source) : ∃ e, ofSource source = .error e := by
  obtain ⟨e, he⟩ := Utf8.encode_eq_error h
  exact ⟨e, by rw [ofSource, digest, he]; rfl⟩

/-- A source with a UTF-8 form can always be named. -/
theorem exists_choose (h : sanitize (name.getD []) = [] → Utf8.Encodable source) :
    ∃ key, choose name source = .ok key := by
  by_cases hname : sanitize (name.getD []) = []
  · exact ⟨_, (choose_of_sanitize_eq_nil hname).trans (ofSource_eq_ok (h hname))⟩
  · exact ⟨_, choose_of_sanitize_ne_nil hname⟩

end EntryKey

namespace Request

/-! ### Complaints and the members that they are about -/

/-- There are complaints, and each is about a member under one of some names. -/
def Blames (names : List Text) (cs : List Complaint) : Prop :=
  cs ≠ [] ∧ ∀ c ∈ cs, ∃ name ∈ names, ∃ inside, c.place = name :: inside

/-- A check that fails complains, and only about members under some names. -/
def Checks {α : Type} (names : List Text) (x : Checked α) : Prop :=
  ∀ cs, x = .error cs → Blames names cs

namespace Checks

variable {α β : Type} {names names' : List Text} {x : Checked α}

theorem ok (a : α) : Checks names (.ok a : Checked α) := nofun

theorem complain {name : Text} (hname : name ∈ names) (inside : List Text) (problem : Text) :
    Checks names (complain (α := α) (name :: inside) problem) := by
  rintro _ ⟨⟩
  refine ⟨List.cons_ne_nil _ _, fun c hc => ?_⟩
  rw [List.mem_singleton.mp hc]
  exact ⟨name, hname, inside, rfl⟩

theorem bind {f : α → Checked β} (hx : Checks names x) (hf : ∀ a, Checks names (f a)) :
    Checks names (x >>= f) := by
  intro cs h
  cases x with
  | ok a => exact hf a cs h
  | error cs' =>
    obtain rfl := Except.error.inj h
    exact hx cs' rfl

theorem map (f : α → β) (hx : Checks names x) : Checks names (x.map f) := by
  intro cs h
  cases x with
  | ok a => cases h
  | error cs' =>
    obtain rfl := Except.error.inj h
    exact hx cs' rfl

theorem mono (hx : Checks names x) (hnames : ∀ name ∈ names, name ∈ names') : Checks names' x := by
  intro cs h
  obtain ⟨hne, hall⟩ := hx cs h
  refine ⟨hne, fun c hc => ?_⟩
  obtain ⟨name, hname, hplace⟩ := hall c hc
  exact ⟨name, hnames name hname, hplace⟩

/-- A check that has no complaints has a result. -/
theorem exists_of_complaints_eq_nil (hx : Checks names x) (h : complaints x = []) :
    ∃ a, x = .ok a := by
  cases x with
  | ok a => exact ⟨a, rfl⟩
  | error cs => exact absurd h (hx cs rfl).1

/-- Each complaint names its member. -/
theorem of_mem_complaints (hx : Checks names x) {c : Complaint} (h : c ∈ complaints x) :
    ∃ name ∈ names, ∃ inside, c.place = name :: inside := by
  cases x with
  | ok a => cases h
  | error cs => exact (hx cs rfl).2 c h

end Checks

section Members

variable {names : List Text} {name : Text} (hname : name ∈ names) (inside : List Text)

include hname

theorem checks_checkText (value : Json) : Checks names (checkText (name :: inside) value) := by
  cases value with
  | string s => exact .ok s
  | _ => exact .complain hname inside _

theorem checks_checkOptionalText (value : Json) :
    Checks names (checkOptionalText (name :: inside) value) := by
  cases value with
  | null => exact .ok none
  | string s => exact .ok (some s)
  | _ => exact .complain hname inside _

/-- Truth values come in several shapes, and there is a complaint for each that fails. -/
theorem checks_checkTruth (value : Json) : Checks names (checkTruth (name :: inside) value) := by
  have hcomplain := fun problem => Checks.complain (α := Bool) hname inside problem
  -- by the kinds of values that can stand for a truth, and by whether this one does
  unfold checkTruth
  dsimp only
  split
  · exact .ok _
  · split
    · exact .ok _
    · split
      · exact hcomplain _
      · exact hcomplain _
  · split
    · exact hcomplain _
    · split
      · exact .ok _
      · split
        · exact hcomplain _
        · exact hcomplain _
  · split
    · exact .ok _
    · split
      · exact .ok _
      · split
        · exact hcomplain _
        · exact hcomplain _
  · exact hcomplain _

theorem checks_checkObject (value : Json) : Checks names (checkObject (name :: inside) value) := by
  cases value with
  | null => exact .ok []
  | object members => exact .ok members
  | _ => exact .complain hname inside _

/-- The texts of a table are checked one by one, and all complaints are kept. -/
theorem checks_checkTexts (members : Table Json) :
    Checks names (checkTexts (name :: inside) members) := by
  induction members with
  | nil => exact .ok []
  | cons member rest ih =>
    obtain ⟨key, value⟩ := member
    have htext := checks_checkText hname (inside ++ [key]) value
    rw [checkTexts]
    -- whether the first text passes, and whether the rest does
    split
    · exact .ok _
    · rename_i cs _ hrest
      exact fun _ h => Except.error.inj h ▸ ih cs hrest
    · rename_i cs _ hfirst _
      exact fun _ h => Except.error.inj h ▸ htext cs hfirst
    · rename_i cs more hfirst hmore
      rintro _ ⟨⟩
      refine ⟨List.append_ne_nil_of_left_ne_nil (htext cs hfirst).1 _, fun c hc => ?_⟩
      rcases List.mem_append.mp hc with hc | hc
      · exact (htext cs hfirst).2 c hc
      · exact (ih more hmore).2 c hc

end Members

/-- A member is found under one of the names that are looked at. -/
theorem mem_of_given? {payload : Table Json} {names : List Text} {name : Text} {value : Json}
    (h : given? payload names = some (name, value)) : name ∈ names := by
  induction names with
  | nil => cases h
  | cons first names ih =>
    rw [given?] at h
    split at h
    · obtain ⟨rfl, -⟩ := Prod.mk.inj (Option.some.inj h)
      exact List.mem_cons_self
    · exact List.mem_cons_of_mem first (ih h)

section Payload

variable (payload : Table Json)

/-- A member that is missing is no cause for complaint. -/
theorem checks_checkOptional (names : List Text) : Checks names (checkOptional payload names) := by
  unfold checkOptional
  split
  · exact .ok none
  · rename_i name value hgiven
    exact checks_checkOptionalText (mem_of_given? hgiven) [] value

/-- A source has to be there, to be a text and not to be blank. -/
theorem checks_checkSource : Checks ["source"] (checkSource payload) := by
  unfold checkSource
  split
  · exact .complain List.mem_cons_self [] _
  · rename_i name value hgiven
    have hname := mem_of_given? hgiven
    refine (checks_checkText hname [] value).bind fun source => ?_
    split
    · exact .complain hname [] _
    · exact .ok source

/-- A blank version counts as none. -/
theorem checks_checkVersion :
    Checks ["compilerVersion", "compiler_version"] (checkVersion payload) := by
  refine (checks_checkOptional payload _).bind fun version => ?_
  split
  · exact .ok none
  · exact .ok none
  · exact .ok _

/-- The member has two names, as some others have. -/
theorem checks_checkArtifacts :
    Checks ["returnArtifacts", "return_artifacts"] (checkArtifacts payload) := by
  unfold checkArtifacts
  split
  · exact .ok false
  · rename_i name value hgiven
    exact checks_checkTruth (mem_of_given? hgiven) [] value

/-- Every version has to be a text. -/
theorem checks_checkVersions :
    Checks ["packageVersions", "package_versions"] (checkVersions payload) := by
  unfold checkVersions
  split
  · exact .ok []
  · rename_i name value hgiven
    have hname := mem_of_given? hgiven
    exact (checks_checkObject hname [] value).bind fun members => checks_checkTexts hname [] members

/-- Of the settings it is only asked that they are an object. -/
theorem checks_checkSettings : Checks ["settings"] (checkSettings payload) := by
  unfold checkSettings
  split
  · exact .ok []
  · rename_i name value hgiven
    exact checks_checkObject (mem_of_given? hgiven) [] value

/-- A payload that does not pass has complaints, and each is about a member under its name. -/
theorem checks_check : Checks checkedNames (check payload) := by
  have hsource : Checks checkedNames (checkSource payload) :=
    (checks_checkSource payload).mono (by decide)
  have hfilename : Checks checkedNames (checkOptional payload ["filename"]) :=
    (checks_checkOptional payload _).mono (by decide)
  have hversion : Checks checkedNames (checkVersion payload) :=
    (checks_checkVersion payload).mono (by decide)
  have hartifacts : Checks checkedNames (checkArtifacts payload) :=
    (checks_checkArtifacts payload).mono (by decide)
  have hversions : Checks checkedNames (checkVersions payload) :=
    (checks_checkVersions payload).mono (by decide)
  have hsettings : Checks checkedNames (checkSettings payload) :=
    (checks_checkSettings payload).mono (by decide)
  have hkey : Checks checkedNames (checkOptional payload ["entry_key"]) :=
    (checks_checkOptional payload _).mono (by decide)
  intro cs hcs
  unfold check at hcs
  dsimp only at hcs
  split at hcs
  · cases hcs
  rename_i hfails
  obtain rfl := Except.error.inj hcs
  constructor
  · -- without a complaint all seven checks have results, and the payload passes
    intro hnil
    simp only [List.append_eq_nil_iff] at hnil
    obtain ⟨⟨⟨⟨⟨⟨h₁, h₂⟩, h₃⟩, h₄⟩, h₅⟩, h₆⟩, h₇⟩ := hnil
    obtain ⟨source, h₁⟩ := hsource.exists_of_complaints_eq_nil h₁
    obtain ⟨filename, h₂⟩ := hfilename.exists_of_complaints_eq_nil h₂
    obtain ⟨version, h₃⟩ := hversion.exists_of_complaints_eq_nil h₃
    obtain ⟨artifacts, h₄⟩ := hartifacts.exists_of_complaints_eq_nil h₄
    obtain ⟨versions, h₅⟩ := hversions.exists_of_complaints_eq_nil h₅
    obtain ⟨settings, h₆⟩ := hsettings.exists_of_complaints_eq_nil h₆
    obtain ⟨key, h₇⟩ := hkey.exists_of_complaints_eq_nil h₇
    exact hfails _ _ _ _ _ _ _ h₁ h₂ h₃ h₄ h₅ h₆ h₇
  · -- a complaint is one of the seven checks
    intro c hc
    simp only [List.mem_append] at hc
    rcases hc with (((((hc | hc) | hc) | hc) | hc) | hc) | hc
    · exact hsource.of_mem_complaints hc
    · exact hfilename.of_mem_complaints hc
    · exact hversion.of_mem_complaints hc
    · exact hartifacts.of_mem_complaints hc
    · exact hversions.of_mem_complaints hc
    · exact hsettings.of_mem_complaints hc
    · exact hkey.of_mem_complaints hc

end Payload

/-! ### Failures -/

/-- What a payload is refused with: it is no object, or does not pass its checks. -/
inductive RefusedWith : Json → Text → Prop
  | shape {payload : Json} : payload.isObject = false →
      RefusedWith payload "Request body must be a JSON object."
  | members {payload : Table Json} {cs : List Complaint} : check payload = .error cs →
      Blames checkedNames cs → RefusedWith (.object payload) (report cs)

/-- The payload passes its checks, but it has no usable file name and its source has no digest to be
named after. -/
def Unnameable (payload : Json) : Prop :=
  ∃ members request, payload = .object members ∧ check members = .ok request
    ∧ EntryKey.sanitize (request.filename.getD []) = [] ∧ ¬ Utf8.Encodable request.source

variable {τ : Type} {payload : Json}

/-- The complaints become the message of the refusal. -/
theorem read_of_refusedWith {message : Text} (h : RefusedWith payload message) :
    read (τ := τ) payload = .error (.gateway (.invalidRequest [.string message])) := by
  cases h with
  | shape hshape =>
    cases payload with
    | object members => cases hshape
    | _ => rfl
  | members hcheck _ => exact read_of_check_error hcheck

/-- A source that cannot be hashed fails outside of the checks. -/
theorem read_of_unnameable (h : Unnameable payload) :
    ∃ error, read (τ := τ) payload = .error (.unencodable error) := by
  obtain ⟨members, request, rfl, hcheck, hname, hsource⟩ := h
  obtain ⟨error, herror⟩ := EntryKey.ofSource_eq_error hsource
  refine ⟨error, ?_⟩
  rw [read_of_check_ok hcheck, EntryKey.choose_of_sanitize_eq_nil hname, herror]
  rfl

/-- All other payloads give a request. -/
theorem read_cases (payload : Json) : Unnameable payload
    ∨ (∃ message, RefusedWith payload message)
    ∨ ∃ request, read (τ := τ) payload = .ok request := by
  cases hshape : payload.isObject with
  | false => exact .inr (.inl ⟨_, .shape hshape⟩)
  | true =>
  obtain ⟨members, rfl⟩ : ∃ members, payload = .object members := by
    cases payload with
    | object members => exact ⟨members, rfl⟩
    | _ => cases hshape
  cases hcheck : check members with
  | error cs => exact .inr (.inl ⟨_, .members hcheck (checks_check members cs hcheck)⟩)
  | ok request =>
    by_cases hname : EntryKey.sanitize (request.filename.getD []) = []
        → Utf8.Encodable request.source
    · obtain ⟨key, hkey⟩ := EntryKey.exists_choose hname
      refine .inr (.inr ⟨{ request with entryKey := key }, ?_⟩)
      rw [read_of_check_ok hcheck, hkey]
      rfl
    · rw [Classical.not_imp] at hname
      exact .inl ⟨members, request, rfl, hcheck, hname⟩

/-- A payload that cannot be read is refused, or it is unnameable. -/
theorem read_error_cases {e : Failure τ} (h : read payload = .error e) :
    (∃ message, e = .gateway (.invalidRequest [.string message]) ∧ RefusedWith payload message
        ∧ ¬ Unnameable payload)
      ∨ Unnameable payload ∧ ∃ error, e = .unencodable error := by
  -- the three cases exclude each other, for each decides what reading gives
  rcases read_cases (τ := τ) payload with hunnameable | ⟨message, hrefused⟩ | ⟨request, hok⟩
  · obtain ⟨error, herror⟩ := read_of_unnameable (τ := τ) hunnameable
    exact .inr ⟨hunnameable, error, Except.error.inj (h.symm.trans herror)⟩
  · have hread := read_of_refusedWith (τ := τ) hrefused
    refine .inl ⟨message, Except.error.inj (h.symm.trans hread), hrefused, fun hunnameable => ?_⟩
    obtain ⟨error, herror⟩ := read_of_unnameable (τ := τ) hunnameable
    cases hread.symm.trans herror
  · cases h.symm.trans hok

end Request

open Request
open Http (Holds Reply simpleVersion)
open Http.Exchange (signs)

namespace Pipeline

variable {τ : Type} [Seconds τ] {config : Config τ} {payload : Json} {w v : World τ}

/-- The stage only reads. -/
theorem read_of_parseRequest_error {e : Failure τ} (h : parseRequest config payload w = .error e v) :
    v = w ∧ Request.read payload = .error e := by
  cases hread : Request.read (τ := τ) payload with
  | ok request =>
    rw [parseRequest_of_read_ok hread] at h
    cases h
  | error e' =>
    rw [parseRequest_of_read_error hread] at h
    cases h
    exact ⟨rfl, rfl⟩

/-- Of the failures of the first stage those are refusals that are for other reasons than the name
of the entry. -/
theorem refuses_iff_of_failsAt {owned : Bool} {e : Failure τ} (hw : w.breakdown = none)
    (h : FailsAt owned config payload w .parseRequest e v) :
    Refuses owned config payload w ↔ ¬ Unnameable payload := by
  have hread := (failsAt_parseRequest_iff.mp h).2
  rw [Refuses, and_iff_right hw]
  rcases read_error_cases hread with ⟨message, rfl, -, hnameable⟩ | ⟨hunnameable, error, rfl⟩
  · exact ⟨fun _ => hnameable, fun _ => .inl ⟨_, hread⟩⟩
  · refine ⟨?_, fun hnameable => absurd hunnameable hnameable⟩
    rintro (⟨details, hrefused⟩ | ⟨S, f, v', hfault, -⟩)
    · cases hread.symm.trans hrefused
    · cases hfault.eq h

/-- **A payload that cannot be read leaves the world as it was and is refused as invalid, which over
HTTP is the status 400 — unless it passes its checks, has no usable file name and has a source with
a surrogate: then it always fails, but as a text that cannot be written, with the status 200.** -/
theorem payload_failures (payload : Json) :
    (∀ (config : Config τ) (w v : World τ) (e : Failure τ),
      parseRequest config payload w = .error e v →
      v = w ∧ ((¬ Unnameable payload ∧ ∃ message, RefusedWith payload message
          ∧ e = .gateway (.invalidRequest [.string message]))
        ∨ Unnameable payload ∧ ∃ error, e = .unencodable error))
      ∧ (Unnameable payload → ∀ (config : Config τ) (w : World τ), ∃ error,
        parseRequest config payload w = .error (.unencodable error) w)
      ∧ ∀ (x : Http.Exchange τ) (head : Http.Head) (body rest : Http.Bytes) (e : Failure τ)
          (v : World τ), x.Receives head body rest →
        Holds x.server.world.room.request body payload →
        x.server.world.breakdown = none →
        parseRequest x.server.config payload x.server.world = .error e v →
        ∃ status members,
          x.step.output = (Reply.json status members).bytes (head.line.version = simpleVersion)
            :: (signs head ++ x.output)
          ∧ Table.get? "stage" members = some (.string "parse_request")
          ∧ Table.get? "errorKind" members = some (.string e.kind)
          ∧ (status = 400 ∧ ¬ Unnameable payload ∨ status = 200 ∧ Unnameable payload) := by
  refine ⟨?_, ?_, ?_⟩
  · intro config w v e h
    -- the stage fails as reading does
    obtain ⟨rfl, hread⟩ := read_of_parseRequest_error h
    refine ⟨rfl, (read_error_cases hread).imp_left ?_⟩
    rintro ⟨message, he, hrefused, hnameable⟩
    exact ⟨hnameable, message, hrefused, he⟩
  · intro h config w
    -- an unnameable payload fails whatever the settings are
    obtain ⟨error, hread⟩ := read_of_unnameable (τ := τ) h
    exact ⟨error, parseRequest_of_read_error hread⟩
  · intro x head body rest e v hreceives hholds hworld hparse
    have hfails : FailsAt true x.server.config payload x.server.world .parseRequest e
        x.server.world :=
      failsAt_parseRequest_iff.mpr ⟨rfl, (read_of_parseRequest_error hparse).2⟩
    have hrefuses := refuses_iff_of_failsAt hworld hfails
    have hrun := run_eq_of_error hworld (stages_of_failsAt hfails)
    obtain ⟨y, hstep, houtput, -, -, -, hconfig, hworld'⟩ :=
      Http.Exchange.step_of_receives hreceives
    -- the exchange that answers has the settings and the world of the one that received
    rw [← hworld'] at hholds
    obtain ⟨status, hreplies, hstatus⟩ := Http.Exchange.answer_of_holds y head hholds
    rw [hconfig, hworld'] at hreplies hstatus
    rw [hrefuses, not_not] at hstatus
    refine ⟨status, (run true x.server.config payload x.server.world).1, ?_, ?_, ?_, hstatus⟩
    · rw [hstep, hreplies.output_eq, houtput]
    · rw [hrun]
      rfl
    · rw [hrun]
      rfl

/-! ### A source that cannot be named -/

open Http.Exchange (sending stillWorld plainHead)

/-- A source that ends in half of a pair. -/
def unpairedSource : Text := ['x', .ofNat 0xD800]

/-- A request for it, without a file name. -/
def unpairedMembers : Table Json := [("source", .string unpairedSource)]

def unpairedBody : Text := Json.print .compact (.object unpairedMembers)

/-- Its source cannot be hashed, and it has no other name. -/
theorem unnameable_unpaired : Unnameable (.object unpairedMembers) := by
  refine ⟨unpairedMembers, ⟨unpairedSource, none, none, false, [], [], []⟩, rfl, rfl, rfl, fun h => ?_⟩
  cases h (.ofNat 0xD800) (by decide)

/-- The escape of the surrogate is read as the surrogate. -/
theorem holds_unpairedBody :
    Holds stillWorld.room.request (Http.latin1Bytes unpairedBody) (.object unpairedMembers) := by
  have hreadable : Json.IsReadable (.object unpairedMembers) := by
    refine .object fun m hm => ?_
    rw [List.mem_singleton.mp hm]
    exact .string _
  have hroom : Json.HasRoom stillWorld.room.request (.object unpairedMembers) := by
    rintro _ ⟨⟩
    decide
  have hread := Json.readWithin_print Json.Style.isPlain_compact hreadable hroom
  have hname : Json.rereadText true "source" = "source" := by decide +kernel
  have hsource : Json.rereadText true unpairedSource = unpairedSource := by decide +kernel
  have hsame : Json.reread .compact (.object unpairedMembers) = .object unpairedMembers := by
    show Json.object [(Json.rereadText true "source",
      .string (Json.rereadText true unpairedSource))] = _
    rw [hname, hsource, unpairedMembers]
  rw [hsame] at hread
  exact ⟨unpairedBody, Utf8.decode_latin1Bytes (by decide +kernel), hread⟩

/-- The request fails with the status of a request that was answered. -/
theorem unpaired_source_answered :
    (sending (compileHead "20" ++ unpairedBody)).Receives (plainHead "POST" "/compile" (some "20"))
        (Http.latin1Bytes unpairedBody) []
      ∧ Holds stillWorld.room.request (Http.latin1Bytes unpairedBody) (.object unpairedMembers)
      ∧ Unnameable (.object unpairedMembers)
      ∧ ∃ error members,
        parseRequest Config.builtin (.object unpairedMembers) stillWorld
          = .error (.unencodable error) stillWorld
        ∧ (sending (compileHead "20" ++ unpairedBody)).step.output
          = [(Reply.json 200 members).bytes false]
        ∧ Table.get? "stage" members = some (.string "parse_request") := by
  have hreceives : (sending (compileHead "20" ++ unpairedBody)).Receives
      (plainHead "POST" "/compile" (some "20")) (Http.latin1Bytes unpairedBody) [] :=
    ⟨by decide +kernel, rfl, by decide +kernel, ⟨"20", by decide +kernel, by decide +kernel⟩,
      by decide +kernel, RateLimiter.allow_fresh _ _ _ _⟩
  obtain ⟨-, hfails, hreply⟩ := payload_failures (τ := Int) (.object unpairedMembers)
  obtain ⟨error, hparse⟩ := hfails unnameable_unpaired Config.builtin stillWorld
  obtain ⟨status, members, houtput, hstage, -, hstatus⟩ :=
    hreply _ _ _ _ _ _ hreceives holds_unpairedBody rfl hparse
  refine ⟨hreceives, holds_unpairedBody, unnameable_unpaired, error, members, hparse, ?_, hstage⟩
  rcases hstatus with ⟨-, hnameable⟩ | ⟨rfl, -⟩
  · exact absurd unnameable_unpaired hnameable
  · exact houtput

/-- The failure is no refusal. -/
theorem unpaired_source_unencodable : ∃ e : Failure Int,
    parseRequest Config.builtin (.object unpairedMembers) stillWorld = .error e stillWorld
      ∧ e.isRefusal = false := by
  obtain ⟨error, hread⟩ := read_of_unnameable (τ := Int) unnameable_unpaired
  exact ⟨_, parseRequest_of_read_error hread, rfl⟩

end Pipeline

end CompileGate
