import AcpCore.Replay.Remap

/-!
# What remapping tolerates

Which frames a replay with `remap_ids` accepts in place of a recorded one, in any state:
its comparison does not look at the kind of the frames, so that a client's response is
renumbered like a request.

## The model

A state is a cursor at a recorded client frame, an id map, and what has been read and
written so far. `Accepts` and `Diverges` are what the whole replay does from there with
one more frame, whatever follows it.

## What is proved

* `matchFrame_event_iff` — a frame matches as it is, or with the recorded id;
* `accepts_iff_match`, `Diverges.not_accepts` — what matches is accepted, and all else diverges;
* **`requestsOnly_iff`** — only requests are renumbered, unless a response differs from the
  one recorded in its id only;
* `requestsOnly_fails` — such a response, whose id is then given to another answer.
-/

namespace AcpCore.Replay

open AcpCore.Text AcpCore.Wire AcpCore.Trace

variable (X : Crates)

/-- The replay takes a frame and goes on with a map, whatever follows. -/
def Accepts (trace : TraceReader) (d : Disk) (cursor consumed : ℕ) (idMap : IdMap) (g : Frame) (idMap' : IdMap) : Prop :=
  ∀ rest out emitted, resume X trace d true (.ok g :: rest) cursor consumed idMap out emitted
    = resume X trace d true rest (cursor + 1) (consumed + 1) idMap' out emitted

/-- The replay ends with a divergence, whatever follows. -/
def Diverges (trace : TraceReader) (d : Disk) (cursor consumed : ℕ) (idMap : IdMap) (g : Frame) : Prop :=
  ∃ detail, ∀ rest out emitted, resume X trace d true (.ok g :: rest) cursor consumed idMap out emitted
    = (.error (.error (.divergence detail)), out)

/-- Only requests are renumbered, in place of a recorded frame. -/
structure RequestsOnly (trace : TraceReader) (d : Disk) (cursor consumed : ℕ) (idMap : IdMap) (f g : Frame) : Prop where
  /-- A frame is accepted that is the one recorded, or a request that is with the recorded id. -/
  accepts : (∃ idMap', Accepts X trace d cursor consumed idMap g idMap') ↔
    Same g.value f.value ∨ f.kind = .request ∧ g.kind = .request ∧
      ∃ i j, f.id = some i ∧ g.id = some j ∧ Same (withId g.value i) f.value
  /-- Any other diverges. -/
  diverges : (¬ ∃ idMap', Accepts X trace d cursor consumed idMap g idMap') →
    Diverges X trace d cursor consumed idMap g
  /-- What is no request leaves the map. -/
  keeps : g.kind ≠ .request → (∃ idMap', Accepts X trace d cursor consumed idMap g idMap') →
    Accepts X trace d cursor consumed idMap g idMap

/-- Both frames are responses, with two ids, that are the same with one. -/
def RenumberedResponse (f g : Frame) : Prop :=
  f.kind = .response ∧ g.kind = .response ∧
    ∃ i j, f.id = some i ∧ g.id = some j ∧ i ≠ j ∧ Same (withId g.value i) f.value

/-- The canonical forms a frame is compared by: the recorded frame's, its own, and its own with the recorded id. -/
def formsCompared (f g : Frame) : Set Bytes :=
  {b | b = canonicalize X f.value ∨ b = canonicalize X g.value ∨ ∃ i, f.id = some i ∧ b = canonicalize X (withId g.value i)}

variable {X}

/-! ### Matching -/

/-- **What matches**, and the map after it. -/
theorem matchFrame_ok_iff {idMap idMap' : IdMap} {e : EventRecord} {g : Frame} {consumed : ℕ} :
    matchFrame X true idMap e g consumed = .ok idMap' ↔
      (g.payloadHashStr X = e.hash ∧ idMap' = idMap) ∨
      (g.payloadHashStr X ≠ e.hash ∧ ∃ i j, e.id = some i ∧ g.id = some j ∧
        hashWithId X g.value (recordIdToWire i) = e.hash ∧
        idMap' = Function.update idMap (recordIdToWire i) (some j)) := by
  unfold matchFrame
  by_cases hhash : g.payloadHashStr X = e.hash
  · rw [if_pos hhash]
    constructor
    · intro h
      cases h
      exact .inl ⟨hhash, rfl⟩
    · rintro (⟨-, rfl⟩ | ⟨hne, -⟩)
      · rfl
      · exact absurd hhash hne
  rw [if_neg hhash, if_pos rfl]
  constructor
  · intro h
    split at h
    · next i j hi hj =>
      split_ifs at h with hwith
      cases h
      exact .inr ⟨hhash, i, j, hi, hj, hwith, rfl⟩
    · cases h
  · rintro (⟨heq, -⟩ | ⟨-, i, j, hi, hj, hwith, rfl⟩)
    · exact absurd heq hhash
    · simp only [hi, hj, if_pos hwith]

/-- What does not match is a divergence. -/
theorem matchFrame_error {idMap : IdMap} {e : EventRecord} {g : Frame} {consumed : ℕ} {err : ReplayError}
    (h : matchFrame X true idMap e g consumed = .error err) : ∃ detail, err = .divergence detail := by
  unfold matchFrame at h
  by_cases hhash : g.payloadHashStr X = e.hash
  · rw [if_pos hhash] at h
    cases h
  rw [if_neg hhash, if_pos rfl] at h
  split at h
  · split_ifs at h
    cases h
    exact ⟨_, rfl⟩
  · cases h
    exact ⟨_, rfl⟩

/-- What matches a recorded frame, by the values compared. -/
theorem matchFrame_event_iff (hnum : Function.Injective X.printNumber) {f g : Frame} {line : Bytes}
    (hg : Frame.parse X line = .ok g) (hcoll : (formsCompared X f g).InjOn X.blake3) {seq : U64} {now : U128}
    {idMap idMap' : IdMap} {consumed : ℕ} :
    matchFrame X true idMap (TraceWriter.eventRecord X seq .c2a f now) g consumed = .ok idMap' ↔
      (Same g.value f.value ∧ idMap' = idMap) ∨
      (¬ Same g.value f.value ∧ ∃ i j, f.id = some i ∧ g.id = some j ∧ Same (withId g.value i) f.value ∧
        idMap' = Function.update idMap i (some j)) := by
  obtain ⟨-, -, heg, -⟩ := (Frame.parse_eq_ok_iff X).mp hg
  have houtright : g.payloadHashStr X = (TraceWriter.eventRecord X seq .c2a f now).hash ↔ Same g.value f.value := by
    rw [TraceWriter.eventRecord_hash, payloadHashStr_eq_iff]
    exact payloadHash_eq_iff X hnum hcoll g.value_unique (.inr (.inl rfl)) (.inl rfl)
  have hwith : ∀ i j, f.id = some i → g.id = some j →
      (hashWithId X g.value i = (TraceWriter.eventRecord X seq .c2a f now).hash ↔ Same (withId g.value i) f.value) := by
    intro i j hi hj
    rw [hj] at heg
    rw [hashWithId_of_id heg i, ← payloadHash_eq_iff X hnum hcoll (withId_unique g.value_unique i)
      (.inr (.inr ⟨i, hi, rfl⟩)) (.inl rfl), TraceWriter.eventRecord_hash, Frame.payloadHashStr,
      hexWithPrefix_injective.eq_iff, Subtype.ext_iff]
    rfl
  rw [matchFrame_ok_iff, Ne, houtright]
  refine or_congr_right (and_congr_right fun _ => ?_)
  constructor
  · rintro ⟨r, j, hr, hj, hhash, rfl⟩
    obtain ⟨i, hi, rfl⟩ := Option.map_eq_some_iff.mp hr
    rw [recordIdToWire_ofId] at hhash ⊢
    exact ⟨i, j, hi, hj, (hwith i j hi hj).mp hhash, rfl⟩
  · rintro ⟨i, j, hi, hj, hsame, rfl⟩
    refine ⟨.ofId i, j, congrArg (Option.map RecordId.ofId) hi, hj, ?_, ?_⟩ <;> rw [recordIdToWire_ofId]
    exact (hwith i j hi hj).mpr hsame

/-! ### Accepting and diverging -/

section

variable {trace : TraceReader} {d : Disk} {cursor consumed : ℕ} {idMap : IdMap}

/-- Writing what the agent wrote fails otherwise. -/
theorem emitLine_ne_divergence (remapIds : Bool) (rec : EventRecord) (detail : DivergenceDetail) :
    emitLine X trace d idMap remapIds rec ≠ .error (.error (.divergence detail)) := by
  have htrace : ∀ e, ofTrace e ≠ .error (.divergence detail) := fun e => by cases e <;> simp [ofTrace]
  intro h
  unfold emitLine at h
  split_ifs at h <;> split at h
  · next e _ => exact htrace e (by simpa using h)
  · split at h
    · cases h
    · split_ifs at h
      split at h
      · cases h
      · split at h <;> cases h
  · next e _ => exact htrace e (by simpa using h)
  · cases h

theorem emitA2cBlock_ne_divergence (remapIds : Bool) (events : List EventRecord) (idx : ℕ) (out : Bytes)
    (emitted : ℕ) (detail : DivergenceDetail) :
    (emitA2cBlock X trace d idMap remapIds events idx out emitted).1 ≠ .error (.error (.divergence detail)) := by
  induction events generalizing idx out emitted with
  | nil => intro h; cases h
  | cons rec events ih =>
    rw [emitA2cBlock]
    split_ifs
    · intro h; cases h
    cases hline : emitLine X trace d idMap remapIds rec with
    | error e =>
      intro h
      cases h
      exact emitLine_ne_divergence remapIds rec detail hline
    | ok line =>
      simp only
      rcases writeLine out line with ⟨_ | _, out'⟩
      · intro h; cases h
      · exact ih (idx + 1) out' (emitted + 1)

/-- Without a client's frame nothing diverges. -/
theorem resume_nil_ne_divergence (remapIds : Bool) (out : Bytes) (emitted : ℕ) (detail : DivergenceDetail) :
    (resume X trace d remapIds [] cursor consumed idMap out emitted).1 ≠ .error (.error (.divergence detail)) := by
  have hblock : (emitA2cBlock X trace d idMap remapIds (trace.events.drop cursor) cursor out emitted).1
      ≠ .error (.error (.divergence detail)) := emitA2cBlock_ne_divergence remapIds _ _ _ _ detail
  unfold resume
  rcases hemit : emitA2cBlock X trace d idMap remapIds (trace.events.drop cursor) cursor out emitted with
    ⟨e | cursor', out', emitted'⟩ <;> rw [hemit] at hblock
  · exact hblock
  · intro h; cases h

/-- What diverges is not accepted. -/
theorem Diverges.not_accepts {g : Frame} (h : Diverges X trace d cursor consumed idMap g) (idMap' : IdMap) :
    ¬ Accepts X trace d cursor consumed idMap g idMap' := by
  obtain ⟨detail, h⟩ := h
  intro haccepts
  have hresume := haccepts [] [] 0
  rw [h] at hresume
  exact resume_nil_ne_divergence true [] 0 detail (by rw [← hresume])

variable {e : EventRecord} {events : List EventRecord} {g : Frame}

theorem accepts_of_match (h : trace.events.drop cursor = e :: events) (hdir : e.dir = .c2a) {idMap' : IdMap}
    (hmatch : matchFrame X true idMap e g consumed = .ok idMap') : Accepts X trace d cursor consumed idMap g idMap' := by
  intro rest out emitted
  rw [resume_c2a X h hdir]
  simp only [hmatch]

theorem diverges_of_error (h : trace.events.drop cursor = e :: events) (hdir : e.dir = .c2a) {err : ReplayError}
    (hmatch : matchFrame X true idMap e g consumed = .error err) : Diverges X trace d cursor consumed idMap g := by
  obtain ⟨detail, rfl⟩ := matchFrame_error hmatch
  refine ⟨detail, fun rest out emitted => ?_⟩
  rw [resume_c2a X h hdir]
  simp only [hmatch]

/-- **A frame is accepted or diverges**, and it is accepted where it matches. -/
theorem accepts_iff_match (h : trace.events.drop cursor = e :: events) (hdir : e.dir = .c2a) :
    (∃ idMap', Accepts X trace d cursor consumed idMap g idMap') ↔
      ∃ idMap', matchFrame X true idMap e g consumed = .ok idMap' := by
  refine ⟨fun ⟨idMap', haccepts⟩ => ?_, fun ⟨idMap', hmatch⟩ => ⟨idMap', accepts_of_match h hdir hmatch⟩⟩
  cases hmatch : matchFrame X true idMap e g consumed with
  | ok idMap'' => exact ⟨idMap'', rfl⟩
  | error err => exact absurd haccepts ((diverges_of_error h hdir hmatch).not_accepts idMap')

theorem diverges_of_not_accepts (h : trace.events.drop cursor = e :: events) (hdir : e.dir = .c2a)
    (hnot : ¬ ∃ idMap', Accepts X trace d cursor consumed idMap g idMap') : Diverges X trace d cursor consumed idMap g := by
  cases hmatch : matchFrame X true idMap e g consumed with
  | ok idMap' => exact absurd ⟨idMap', accepts_of_match h hdir hmatch⟩ hnot
  | error err => exact diverges_of_error h hdir hmatch

end

/-! ### Kinds and ids -/

/-- What has an id is a request or a response. -/
theorem kind_of_id {v : Value} {kind : Kind} {method : Option Str} {i : Id}
    (h : envelope v = .ok (kind, method, some i)) : kind = .request ∨ kind = .response := by
  obtain ⟨_, -, -, -, -, hkind⟩ := envelope_eq_ok_iff.mp h
  generalize (_ || _) = hasOutcome at hkind
  cases method <;> cases hasOutcome <;> cases hkind
  · exact .inr rfl
  · exact .inl rfl

section

variable {f g : Frame} {line line' : Bytes} {i j : Id}

/-- Frames that are the same with one id are of one kind. -/
theorem kind_eq_of_withId (hf : Frame.parse X line = .ok f) (hg : Frame.parse X line' = .ok g) (hj : g.id = some j)
    (hsame : Same (withId g.value i) f.value) : f.kind = g.kind ∧ (g.kind = .request ∨ g.kind = .response) := by
  obtain ⟨-, -, hef, -⟩ := (Frame.parse_eq_ok_iff X).mp hf
  obtain ⟨-, -, heg, -⟩ := (Frame.parse_eq_ok_iff X).mp hg
  rw [hj] at heg
  have henv := envelope_of_same (withId_unique g.value_unique i) hsame
  rw [envelope_withId heg, hef] at henv
  simp only [Except.ok.injEq, Prod.mk.injEq] at henv
  exact ⟨henv.1.symm, kind_of_id heg⟩

/-- Frames that are the same with the id of one are the same if it is the id of both. -/
theorem same_iff_id_eq (hf : Frame.parse X line = .ok f) (hg : Frame.parse X line' = .ok g) (hi : f.id = some i)
    (hj : g.id = some j) (hsame : Same (withId g.value i) f.value) : Same g.value f.value ↔ i = j := by
  obtain ⟨-, -, hef, -⟩ := (Frame.parse_eq_ok_iff X).mp hf
  obtain ⟨-, -, heg, -⟩ := (Frame.parse_eq_ok_iff X).mp hg
  rw [hi] at hef
  rw [hj] at heg
  constructor
  · intro h
    have henv := envelope_of_same g.value_unique h
    rw [heg, hef] at henv
    simp only [Except.ok.injEq, Prod.mk.injEq, Option.some.injEq] at henv
    exact henv.2.2.symm
  · rintro rfl
    rwa [withId_self heg] at hsame

end

/-! ### Requests only -/

section

variable {trace : TraceReader} {d : Disk} {cursor consumed : ℕ} {idMap : IdMap} {f g : Frame} {line line' : Bytes}
  {seq : U64} {now : U128} {events : List EventRecord}

/-- **What is accepted**: the frame recorded, or one that is with the recorded id. -/
theorem accepts_event_iff (hnum : Function.Injective X.printNumber) (hg : Frame.parse X line' = .ok g)
    (hcoll : (formsCompared X f g).InjOn X.blake3)
    (h : trace.events.drop cursor = TraceWriter.eventRecord X seq .c2a f now :: events) (d : Disk) (consumed : ℕ)
    (idMap : IdMap) : (∃ idMap', Accepts X trace d cursor consumed idMap g idMap') ↔
      Same g.value f.value ∨ ∃ i j, f.id = some i ∧ g.id = some j ∧ Same (withId g.value i) f.value := by
  rw [accepts_iff_match h rfl]
  simp only [matchFrame_event_iff hnum hg hcoll]
  constructor
  · rintro ⟨idMap', ⟨hsame, -⟩ | ⟨-, i, j, hi, hj, hsame, -⟩⟩
    · exact .inl hsame
    · exact .inr ⟨i, j, hi, hj, hsame⟩
  · intro haccepted
    by_cases hsame : Same g.value f.value
    · exact ⟨idMap, .inl ⟨hsame, rfl⟩⟩
    · obtain ⟨i, j, hi, hj, hwith⟩ := haccepted.resolve_left hsame
      exact ⟨_, .inr ⟨hsame, i, j, hi, hj, hwith, rfl⟩⟩

/-- The frame recorded leaves the map. -/
theorem accepts_of_same (hnum : Function.Injective X.printNumber) (hg : Frame.parse X line' = .ok g)
    (hcoll : (formsCompared X f g).InjOn X.blake3)
    (h : trace.events.drop cursor = TraceWriter.eventRecord X seq .c2a f now :: events) (hsame : Same g.value f.value) :
    Accepts X trace d cursor consumed idMap g idMap :=
  accepts_of_match h rfl ((matchFrame_event_iff hnum hg hcoll).mpr (.inl ⟨hsame, rfl⟩))

/-- A response under another id is accepted. -/
theorem not_requestsOnly (hnum : Function.Injective X.printNumber) (hf : Frame.parse X line = .ok f)
    (hg : Frame.parse X line' = .ok g) (hcoll : (formsCompared X f g).InjOn X.blake3)
    (h : trace.events.drop cursor = TraceWriter.eventRecord X seq .c2a f now :: events)
    (hresponse : RenumberedResponse f g) : ¬ RequestsOnly X trace d cursor consumed idMap f g := by
  obtain ⟨hkind, -, i, j, hi, hj, hne, hwith⟩ := hresponse
  intro honly
  have haccepts := (accepts_event_iff hnum hg hcoll h d consumed idMap).mpr (.inr ⟨i, j, hi, hj, hwith⟩)
  rcases honly.accepts.mp haccepts with hsame | ⟨hrequest, -⟩
  · exact hne ((same_iff_id_eq hf hg hi hj hwith).mp hsame)
  · rw [hkind] at hrequest
    cases hrequest

/-- **Only requests are renumbered.** At a recorded client frame, in any state of a replay with remapping:
a frame is accepted if and only if it is the one recorded up to the order of members, or both are requests
and it is with the recorded id; any other is a divergence; and what is no request leaves the map. All this holds
if and only if the two frames are not responses that differ in their ids only. -/
theorem requestsOnly_iff (hnum : Function.Injective X.printNumber) (hf : Frame.parse X line = .ok f)
    (hg : Frame.parse X line' = .ok g) (hcoll : (formsCompared X f g).InjOn X.blake3)
    (h : trace.events.drop cursor = TraceWriter.eventRecord X seq .c2a f now :: events) (d : Disk) (consumed : ℕ)
    (idMap : IdMap) : RequestsOnly X trace d cursor consumed idMap f g ↔ ¬ RenumberedResponse f g := by
  refine ⟨fun honly hresponse => not_requestsOnly hnum hf hg hcoll h hresponse honly, fun hresponse => ?_⟩
  -- what is renumbered is a request
  have hrequest : ∀ i j, f.id = some i → g.id = some j → Same (withId g.value i) f.value →
      Same g.value f.value ∨ f.kind = .request ∧ g.kind = .request := by
    intro i j hi hj hwith
    obtain ⟨hkind, hg' | hg'⟩ := kind_eq_of_withId hf hg hj hwith
    · exact .inr ⟨hkind.trans hg', hg'⟩
    · by_cases hij : i = j
      · exact .inl ((same_iff_id_eq hf hg hi hj hwith).mpr hij)
      · exact absurd ⟨hkind.trans hg', hg', i, j, hi, hj, hij, hwith⟩ hresponse
  have haccepts := accepts_event_iff hnum hg hcoll h d consumed idMap
  refine ⟨haccepts.trans ⟨?_, ?_⟩, diverges_of_not_accepts h rfl, fun hkind haccepted => ?_⟩
  · rintro (hsame | ⟨i, j, hi, hj, hwith⟩)
    · exact .inl hsame
    · exact (hrequest i j hi hj hwith).imp_right fun hkinds => ⟨hkinds.1, hkinds.2, i, j, hi, hj, hwith⟩
  · exact Or.imp_right fun ⟨_, _, hids⟩ => hids
  · apply accepts_of_same hnum hg hcoll h
    rcases haccepts.mp haccepted with hsame | ⟨i, j, hi, hj, hwith⟩
    · exact hsame
    · exact (hrequest i j hi hj hwith).resolve_right fun hkinds => hkind hkinds.2

end

/-- The forms compared of a request are those of the sample frames. -/
theorem injOn_formsCompared_sample : (formsCompared (.plain sampleDigests) (sampleRequest 1) (sampleRequest 7)).InjOn
    (Crates.plain sampleDigests).blake3 := by
  apply injOn_sampleForms.mono
  rintro b (rfl | rfl | ⟨i, hi, rfl⟩)
  · exact .inl rfl
  · exact .inr (.inl rfl)
  · cases hi
    exact .inl rfl

/-- A request under another id is the request. -/
theorem requestsOnly_iff_sample :
    RequestsOnly (.plain sampleDigests) (sampleReplay (sampleSteps 7 1)) sampleDisk 0 0 (fun _ => none) (sampleRequest 1)
      (sampleRequest 7) :=
  (requestsOnly_iff (printNumber_plain_injective sampleDigests) (parse_sampleRequest _ 1) (parse_sampleRequest _ 7)
    injOn_formsCompared_sample rfl sampleDisk 0 _).mpr fun hresponse => by cases hresponse.1

/-! ### A renumbered answer -/

/-- `{"jsonrpc":"2.0","id":7,"result":0}`. -/
def answerTree : List (Str × Json.Tree) := [versionMember, (idKey, .num (Json.natLit 7)), (resultKey, .num (Json.natLit 0))]

/-- The sample response under the id 7. -/
def sampleAnswer : Frame where
  kind := .response
  method := none
  id := some (sampleId 7)
  value := .object [(jsonrpcKey, .string ['2', '.', '0']), (idKey, .number (.posInt 7)), (resultKey, .number (.posInt 0))]
  value_unique := ⟨by decide, trivial, trivial, trivial, trivial⟩
  raw := utf8 (Json.render (.obj answerTree))

theorem parse_sampleAnswer (table : List (Bytes × Digest)) :
    Frame.parse (.plain table) sampleAnswer.raw = .ok sampleAnswer := parse_render_frame table answerTree rfl rfl rfl

/-- The digests of the sample frames, and of the answer. -/
def answerDigests : List (Bytes × Digest) := sampleDigests ++
  [(utf8 (Json.render (.obj [(idKey, .num (Json.natLit 7)), versionMember, (resultKey, .num (Json.natLit 0))])),
    ⟨[0x3c, 0xed, 0x2b, 0xad, 0x43, 0x8f, 0x73, 0x99, 0x38, 0x0b, 0xf9, 0xff, 0xd5, 0x96, 0x30, 0x52,
    0x26, 0xaa, 0x2f, 0xfa, 0x89, 0x38, 0xb1, 0x74, 0x7a, 0xf8, 0xf4, 0x89, 0x72, 0xaf, 0x73, 0x37], rfl⟩)]

theorem payloadHash_sampleAnswer :
    (payloadHash (.plain answerDigests) sampleAnswer.value).1.head? = some 0x3c ∧
    (payloadHash (.plain answerDigests) sampleResponse.value).1.head? = some 0x20 ∧
    (payloadHash (.plain answerDigests) (sampleRequest 1).value).1.head? = some 0x5e := by
  decide +kernel

/-- The agent asks and the client answers, then the client asks and the agent answers, all under the id 1. -/
def answeredCalls : List Call :=
  [⟨.a2c, sampleRequest 1, 0⟩, ⟨.c2a, sampleResponse, 0⟩, ⟨.c2a, sampleRequest 1, 0⟩, ⟨.a2c, sampleResponse, 0⟩]

/-- The trace of these calls. -/
def answeredTrace : TraceReader where
  root := ['t']
  manifest := .newWithClock ['1'] [] ['0']
  events := records (.plain answerDigests) 0 answeredCalls

/-- The blob of a frame. -/
def answeredPath (f : Frame) : Str :=
  blobPath (join ['t'] blobsDir) (formatBlake3Hex (f.payloadHash (.plain answerDigests)).1)

/-- A disk with their blobs. -/
def answeredDisk : Disk :=
  (emptyDisk.set (answeredPath sampleResponse) sampleResponse.raw).set (answeredPath (sampleRequest 1)) (sampleRequest 1).raw

theorem blobStore_answeredDisk :
    blobStore ['t'] answeredDisk (sampleResponse.payloadHash (.plain answerDigests)) = some sampleResponse.raw ∧
    blobStore ['t'] answeredDisk ((sampleRequest 1).payloadHash (.plain answerDigests)) = some (sampleRequest 1).raw := by
  decide +kernel

/-- The client's lines: its answer under another id, and its request. -/
def answeredClient : Bytes := Lines.joinLines 0x0A [sampleAnswer.raw, (sampleRequest 1).raw]

theorem results_answeredClient :
    (FrameReader.new answeredClient).results (.plain answerDigests) = [.ok sampleAnswer, .ok (sampleRequest 1)] := by
  show (FrameReader.new (Lines.joinLines 0x0A ([sampleAnswer, sampleRequest 1].map Frame.raw))).results _ = _
  refine FrameReader.results_of_last (whitespace_plain _) fun f hf => ?_
  simp only [List.mem_cons, List.not_mem_nil, or_false] at hf
  rcases hf with rfl | rfl
  · exact ⟨parse_sampleAnswer _, by decide +kernel⟩
  · exact ⟨parse_sampleRequest _ 1, by decide +kernel⟩

theorem injOn_formsCompared_answer :
    (formsCompared (.plain answerDigests) sampleResponse sampleAnswer).InjOn (Crates.plain answerDigests).blake3 := by
  obtain ⟨hanswer, hresponse, -⟩ := payloadHash_sampleAnswer
  rw [payloadHash] at hanswer hresponse
  have hforms : ∀ b ∈ formsCompared (.plain answerDigests) sampleResponse sampleAnswer,
      b = canonicalize (.plain answerDigests) sampleResponse.value ∨
        b = canonicalize (.plain answerDigests) sampleAnswer.value := by
    rintro b (rfl | rfl | ⟨i, hi, rfl⟩)
    · exact .inl rfl
    · exact .inr rfl
    · cases hi
      exact .inl rfl
  intro a ha b hb hab
  rcases hforms a ha with rfl | rfl <;> rcases hforms b hb with rfl | rfl
  · rfl
  · rw [hab, hanswer] at hresponse
    exact absurd hresponse (by decide)
  · rw [hab, hresponse] at hanswer
    exact absurd hanswer (by decide)
  · rfl

theorem loadBlob_answeredTrace {f : Frame} (hf : f = sampleResponse ∨ f = sampleRequest 1) {rec : EventRecord}
    (hrec : rec.hash = f.payloadHashStr (.plain answerDigests)) :
    answeredTrace.loadBlob (.plain answerDigests) answeredDisk rec = .ok f.raw := by
  apply (loadBlob_eq_ok_iff _ rfl (hrec.trans (f.payloadHashStr_eq _))).mpr
  rcases hf with rfl | rfl
  · exact ⟨blobStore_answeredDisk.1, _, parse_sampleResponse _, rfl⟩
  · exact ⟨blobStore_answeredDisk.2, _, parse_sampleRequest _ 1, rfl⟩

/-- The client's answer is accepted, and the agent's is written under its id. -/
theorem replay_answeredTrace :
    replayInteractiveWith (.plain answerDigests) answeredTrace answeredDisk answeredClient true
      = (.ok 2, Lines.joinLines 0x0A [(sampleRequest 1).raw,
          rewriteIdInValue (.plain answerDigests) sampleResponse.value (sampleId 7)]) := by
  have hask : ∀ idMap, emitLine (.plain answerDigests) answeredTrace answeredDisk idMap true
      (TraceWriter.eventRecord (.plain answerDigests) 0 .a2c (sampleRequest 1) 0) = .ok (sampleRequest 1).raw := by
    intro idMap
    rw [emitLine, if_neg (by decide), loadBlob_answeredTrace (.inr rfl) (TraceWriter.eventRecord_hash ..)]
  have hanswer : emitLine (.plain answerDigests) answeredTrace answeredDisk
      (Function.update (fun _ => none) (sampleId 1) (some (sampleId 7))) true
      (TraceWriter.eventRecord (.plain answerDigests) 3 .a2c sampleResponse 0)
        = .ok (rewriteIdInValue (.plain answerDigests) sampleResponse.value (sampleId 7)) := by
    rw [emitLine, if_pos ⟨rfl, rfl⟩, loadBlob_answeredTrace (.inl rfl) (TraceWriter.eventRecord_hash ..)]
    simp only [parse_sampleResponse]
    rfl
  have hresponse : matchFrame (.plain answerDigests) true (fun _ => none)
      (TraceWriter.eventRecord (.plain answerDigests) 1 .c2a sampleResponse 0) sampleAnswer 0
        = .ok (Function.update (fun _ => none) (sampleId 1) (some (sampleId 7))) := by
    refine (matchFrame_event_iff (printNumber_plain_injective _) (parse_sampleAnswer _) injOn_formsCompared_answer).mpr
      (.inr ⟨fun hsame => ?_, sampleId 1, sampleId 7, rfl, rfl, .refl _, rfl⟩)
    have hid := (same_iff_id_eq (parse_sampleResponse answerDigests) (parse_sampleAnswer answerDigests)
      (i := sampleId 1) (j := sampleId 7) rfl rfl (.refl _)).mp hsame
    exact absurd hid (by decide)
  have hn : 0x0A ∉ (sampleRequest 1).raw := Frame.newline_notMem_raw _ (parse_sampleRequest answerDigests 1)
  rw [replayInteractiveWith_eq, results_answeredClient, resume_a2c _ rfl rfl (hask _) hn,
    accepts_of_match rfl rfl hresponse, accepts_of_match rfl rfl (matchFrame_ok_iff.mpr (.inl ⟨rfl, rfl⟩)),
    resume_a2c _ rfl rfl hanswer (by decide +kernel), resume_nil _ rfl]
  rfl

/-- The agent asks, and the client answers under the id 7 in place of the recorded 1. This is accepted, and the
answer to the client's own request, sent under its recorded id 1, is written under 7. -/
theorem requestsOnly_fails :
    RenumberedResponse sampleResponse sampleAnswer ∧
    (formsCompared (.plain answerDigests) sampleResponse sampleAnswer).InjOn (Crates.plain answerDigests).blake3 ∧
    answeredTrace.events.drop 1 = TraceWriter.eventRecord (.plain answerDigests) 1 .c2a sampleResponse 0
      :: answeredTrace.events.drop 2 ∧
    replayInteractiveWith (.plain answerDigests) answeredTrace answeredDisk answeredClient true
      = (.ok 2, Lines.joinLines 0x0A [(sampleRequest 1).raw,
          rewriteIdInValue (.plain answerDigests) sampleResponse.value (sampleId 7)]) ∧
    ¬ RequestsOnly (.plain answerDigests) answeredTrace answeredDisk 1 0 (fun _ => none) sampleResponse sampleAnswer := by
  have hrenumbered : RenumberedResponse sampleResponse sampleAnswer :=
    ⟨rfl, rfl, sampleId 1, sampleId 7, rfl, rfl, by decide, .refl _⟩
  refine ⟨hrenumbered, injOn_formsCompared_answer, rfl, replay_answeredTrace, ?_⟩
  exact not_requestsOnly (printNumber_plain_injective _) (parse_sampleResponse _) (parse_sampleAnswer _)
    injOn_formsCompared_answer rfl hrenumbered

end AcpCore.Replay
