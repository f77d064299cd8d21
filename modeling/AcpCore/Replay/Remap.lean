import AcpCore.Replay.Strict
import AcpCore.Wire.Written

/-!
# Replaying under other ids

With `remap_ids` a client may number its requests as it likes: a request is matched
with its id replaced by the recorded one, and the recorded response is written under
the id the client used.

## The model

A session is a list of `Step`s, one for each event of the trace: what was recorded,
and for a client's event what the client sends now. `outstanding` says, at any point,
under which id the client waits for the answer to each recorded id.
`idMapAfter` is the replay's own map, which knows only the requests sent under
another id, and forgets none of them.

## What is proved

* `matchFrame_client` — every request is accepted under its new id;
* `idMapAfter_of_outstanding`, `exists_of_idMapAfter`, `isSome_idMapAfter` — what the map says;
* `replay_remapped` — what a whole replay writes;
* **`remap_iff`** — each answer has the id of its request if and only if no request
  that keeps its recorded id comes after one that did not, and what `serde_json` prints
  of the answers to those that did not reads back;
* `remap_fails` — a session in which one does.
-/

namespace AcpCore.Replay

open AcpCore.Text AcpCore.Wire AcpCore.Trace

variable (X : Crates)

/-! ### Sessions -/

/-- An event of the trace, and what is replayed against it. -/
inductive Step where
  /-- A client's frame was recorded; the client sends another. -/
  | client (event : EventRecord) (recorded sent : Frame)
  /-- An agent's frame was recorded. -/
  | agent (event : EventRecord) (recorded : Frame)

/-- The event of a step. -/
def Step.event : Step → EventRecord
  | .client event _ _ => event
  | .agent event _ => event

/-- What the client sends in a step. -/
def Step.sent : Step → Option Frame
  | .client _ _ sent => some sent
  | .agent _ _ => none

/-- The frame sent is the one recorded, up to canonical form, but for the id of a request. -/
def Renumbered (recorded sent : Frame) : Prop :=
  if recorded.kind = .request then ∃ i, canonicalize X sent.value = canonicalize X (withId recorded.value i)
  else canonicalize X sent.value = canonicalize X recorded.value

/-- The event describes the frame recorded, which the client sends renumbered or whose blob loads. -/
def Step.Describes (trace : TraceReader) (d : Disk) : Step → Prop
  | .client event recorded sent =>
    event.dir = .c2a ∧ event.hash = recorded.payloadHashStr X ∧ event.id = recorded.id.map RecordId.ofId ∧
      (∃ line, Frame.parse X line = .ok recorded) ∧ Renumbered X recorded sent
  | .agent event recorded =>
    event.dir = .a2c ∧ event.kind = .ofKind recorded.kind ∧ trace.loadBlob X d event = .ok recorded.raw ∧
      Frame.parse X recorded.raw = .ok recorded

/-- The canonical forms of what the client sent when recorded, and sends now. -/
def formsSent (steps : List Step) : Set Bytes :=
  {b | ∃ event recorded sent, .client event recorded sent ∈ steps ∧
    (b = canonicalize X recorded.value ∨ b = canonicalize X sent.value)}

/-- The recorded id of a request, and the id the client sends it under. -/
def Step.request : Step → Option (Id × Id)
  | .client _ recorded sent =>
    if recorded.kind = .request then recorded.id.bind fun r => sent.id.map fun c => (r, c) else none
  | .agent _ _ => none

/-- The recorded id of a response of the agent. -/
def Step.response : Step → Option Id
  | .client _ _ _ => none
  | .agent _ recorded => if recorded.kind = .response then recorded.id else none

/-- The requests outstanding after a step: the client's id of the last request recorded under an id and
not yet answered. -/
def Step.pending (pending : IdMap) (s : Step) : IdMap :=
  match s.request, s.response with
  | some (r, c), _ => Function.update pending r (some c)
  | none, some r => Function.update pending r none
  | none, none => pending

/-- The requests outstanding after some steps. -/
def outstanding (steps : List Step) : IdMap := steps.foldl Step.pending fun _ => none

/-- The replay writes a line for each event of the agent: the frame recorded where it is no
response, and for the answer to an outstanding request a frame that differs in its id only,
which is the client's. -/
def AnswersUnderOwnIds (steps : List Step) (result : Except (Abort ReplayError) ℕ × Bytes) : Prop :=
  ∃ lines : List Bytes, result = (.ok (a2cEvents (steps.map Step.event)).length, Lines.joinLines 0x0A lines) ∧
    lines.length = (a2cEvents (steps.map Step.event)).length ∧ (∀ line ∈ lines, 0x0A ∉ line) ∧
    ∀ pre event recorded post, steps = pre ++ .agent event recorded :: post →
      ∃ line, lines[(a2cEvents (pre.map Step.event)).length]? = some line ∧
        (recorded.kind ≠ .response → line = recorded.raw) ∧
        ∀ r c, (Step.agent event recorded).response = some r → outstanding pre r = some c →
          ∃ v, X.fromSlice line = some v ∧ Same v (withId recorded.value c)

/-- Where a request answered kept its recorded id, so did all requests recorded under it before. -/
def KeptIdsWereKept (steps : List Step) : Prop :=
  ∀ pre s post r, steps = pre ++ s :: post → s.response = some r → outstanding pre r = some r →
    ∀ s' ∈ pre, ∀ c, s'.request = some (r, c) → c = r

/-- What `serde_json` prints of an answer to a request sent under another id it reads back, which it does not of
every double. -/
def AnswersReadBack (steps : List Step) : Prop :=
  ∀ pre event recorded post r c, steps = pre ++ .agent event recorded :: post →
    (Step.agent event recorded).response = some r → outstanding pre r = some c → c ≠ r →
      ∃ v, X.fromSlice (X.toVec (withId recorded.value c)) = some v ∧ Same v (withId recorded.value c)

/-- The requests outstanding at any moment are recorded under distinct ids, and sent under distinct ids. -/
def DistinctIds (steps : List Step) : Prop :=
  ∀ pre s post r c, steps = pre ++ s :: post → s.request = some (r, c) →
    outstanding pre r = none ∧ ∀ r', outstanding pre r' ≠ some c

/-- A session that replays a trace against a client. -/
structure Session (trace : TraceReader) (d : Disk) (clientIn : Bytes) (steps : List Step) : Prop where
  /-- The steps are the trace's events. -/
  events : trace.events = steps.map Step.event
  /-- Each describes what was recorded, and is renumbered only. -/
  describes : ∀ s ∈ steps, s.Describes X trace d
  /-- The client's stream is the frames it sends. -/
  client : (FrameReader.new clientIn).results X = (steps.filterMap Step.sent).map .ok
  /-- No two canonical forms collide. -/
  noCollision : (formsSent X steps).InjOn X.blake3

/-! ### Values with another id -/

/-- An object with an id has it as a member. -/
theorem exists_object {v : Value} {kind : Kind} {method : Option Str} {r : Id}
    (h : envelope v = .ok (kind, method, some r)) : ∃ ms, v = .object ms ∧ Map.get ms idKey = some r.toValue := by
  obtain ⟨ms, rfl, -, -, hid, -⟩ := envelope_eq_ok_iff.mp h
  obtain ⟨v, hv, hr⟩ := Option.bind_eq_some_iff.mp hid
  exact ⟨ms, rfl, by rw [hv, Id.toValue_of_fromValue hr]⟩

/-- A request has an id. -/
theorem exists_id_of_request {v : Value} {method : Option Str} {id : Option Id}
    (h : envelope v = .ok (.request, method, id)) : ∃ r, id = some r := by
  obtain ⟨_, -, -, -, -, hkind⟩ := envelope_eq_ok_iff.mp h
  cases id with
  | some r => exact ⟨r, rfl⟩
  | none =>
    generalize (_ || _) = hasOutcome at hkind
    cases method <;> cases hasOutcome <;> cases hkind

theorem withId_self {v : Value} {kind : Kind} {method : Option Str} {r : Id}
    (h : envelope v = .ok (kind, method, some r)) : withId v r = v := by
  obtain ⟨ms, rfl, hget⟩ := exists_object h
  rw [withId, Map.insert_of_get hget]

theorem withId_withId (v : Value) (i j : Id) : withId (withId v i) j = withId v j := by
  cases v with
  | object ms => rw [withId, withId, withId, Map.insert_insert]
  | null | bool | number | string | array => rfl

/-- Another id changes nothing else of a frame. -/
theorem envelope_withId {v : Value} {kind : Kind} {method : Option Str} {r : Id}
    (h : envelope v = .ok (kind, method, some r)) (i : Id) : envelope (withId v i) = .ok (kind, method, some i) := by
  obtain ⟨ms, rfl, hversion, hmethod, -, hkind⟩ := envelope_eq_ok_iff.mp h
  have hother : ∀ {k : Str}, idKey ≠ k → Map.get (Map.insert ms idKey i.toValue) k = Map.get ms k := fun hk => by
    rw [Map.get_insert, if_neg hk]
  have hid : (Map.get (Map.insert ms idKey i.toValue) idKey).bind Id.fromValue = some i := by
    rw [Map.get_insert, if_pos rfl, Option.bind_some, Id.fromValue_toValue]
  refine envelope_eq_ok_iff.mpr ⟨_, rfl, ?_, ?_, hid, ?_⟩
  · rw [hother (by decide), hversion]
  · rw [hother (by decide), hmethod]
  · rw [Map.containsKey, Map.containsKey, hother (by decide), hother (by decide), ← hkind]
    rfl

theorem withId_unique {v : Value} (hv : v.Unique) (i : Id) : (withId v i).Unique := by
  cases v with
  | object ms =>
    have hi : i.toValue.Unique := by cases i <;> trivial
    exact ⟨Map.nodup_insert hv.1, Map.uniqueMembers_insert hv.2 hi⟩
  | null | bool | number | string | array => exact hv

theorem withId_of_same {v w : Value} (hv : v.Unique) (h : Same v w) (i : Id) : Same (withId v i) (withId w i) := by
  cases h with
  | object hp hs => exact Same.insert hv.1 (.object hp hs) idKey i.toValue
  | null | bool | number | string | array => simpa only [withId] using by constructor <;> assumption

/-- Values with two ids are not the same. -/
theorem id_of_same {v : Value} {kind : Kind} {method : Option Str} {r : Id} (hv : v.Unique)
    (h : envelope v = .ok (kind, method, some r)) {i j : Id} (hsame : Same (withId v i) (withId v j)) : i = j := by
  have henv := envelope_of_same (withId_unique hv i) hsame
  rw [envelope_withId h, envelope_withId h] at henv
  simpa using henv

/-- What is read of a frame written under an id has that id. -/
theorem id_of_written {num : Json.Literal → Option Number} (hX : X.Says num) {v : Value} {kind : Kind}
    {method : Option Str} {r : Id} (hv : v.Unique) (h : envelope v = .ok (kind, method, some r)) {x c : Id} {w : Value}
    (hw : X.fromSlice (X.toVec (withId v x)) = some w) (hsame : Same w (withId v c)) : x = c := by
  obtain ⟨ms, rfl, -⟩ := exists_object h
  have hwritten : Map.get (Map.insert ms idKey x.toValue) idKey = some x.toValue := by rw [Map.get_insert, if_pos rfl]
  obtain ⟨ns, rfl, hx⟩ := get_of_fromSlice hX (withId_unique hv x).1 hwritten (read_id hX x) hw
  -- the frame it is to be has the id `c`
  have henv := envelope_of_same (X.fromSlice_unique hw) hsame
  rw [envelope_withId h c] at henv
  obtain ⟨ns', hns, hc⟩ := exists_object henv
  cases hns
  have hid := congrArg Id.fromValue (Option.some.inj (hx.symm.trans hc))
  rw [Id.fromValue_toValue, Id.fromValue_toValue] at hid
  exact Option.some.inj hid

/-! ### Matching requests -/

/-- The replay's map after a step: a request sent under another id is noted. -/
def Step.remember (idMap : IdMap) (s : Step) : IdMap :=
  match s.request with
  | some (r, c) => if c = r then idMap else Function.update idMap r (some c)
  | none => idMap

/-- The replay's map after some steps. -/
def idMapAfter (steps : List Step) : IdMap := steps.foldl Step.remember fun _ => none

variable {X}

theorem recordIdToWire_ofId (i : Id) : recordIdToWire (.ofId i) = i := by cases i <;> rfl

/-- A request is sent with an id, and is the same as the one recorded but for it. -/
theorem same_of_renumbered (hnum : Function.Injective X.printNumber) {recorded sent : Frame} {line line' : Bytes}
    (hf : Frame.parse X line = .ok recorded) (hg : Frame.parse X line' = .ok sent) (h : Renumbered X recorded sent)
    (hkind : recorded.kind = .request) :
    ∃ r c, recorded.id = some r ∧ sent.id = some c ∧ Same sent.value (withId recorded.value c) := by
  obtain ⟨-, -, hef, -⟩ := (Frame.parse_eq_ok_iff X).mp hf
  obtain ⟨-, -, heg, -⟩ := (Frame.parse_eq_ok_iff X).mp hg
  rw [Renumbered, if_pos hkind] at h
  obtain ⟨c, hc⟩ := h
  rw [canonicalize_eq_iff X hnum sent.value_unique] at hc
  rw [hkind] at hef
  obtain ⟨r, hr⟩ := exists_id_of_request hef
  rw [hr] at hef
  have henv := envelope_of_same sent.value_unique hc
  rw [heg, envelope_withId hef c] at henv
  simp only [Except.ok.injEq, Prod.mk.injEq] at henv
  exact ⟨r, c, hr, henv.2.2, hc⟩

/-- A request has the recorded hash exactly when it has the recorded id. -/
theorem payloadHashStr_eq_iff_id (hnum : Function.Injective X.printNumber) {recorded sent : Frame} {line : Bytes} {r c : Id}
    (hf : Frame.parse X line = .ok recorded) (hr : recorded.id = some r) (hc : sent.id = some c)
    (hsame : Same sent.value (withId recorded.value c))
    (hcoll : Set.InjOn X.blake3 {canonicalize X recorded.value, canonicalize X sent.value}) :
    sent.payloadHashStr X = recorded.payloadHashStr X ↔ sent.id = some r := by
  obtain ⟨-, -, hef, -⟩ := (Frame.parse_eq_ok_iff X).mp hf
  rw [hr] at hef
  rw [payloadHashStr_eq_iff, hc, Option.some.injEq]
  have hcanon : canonicalize X sent.value = canonicalize X (withId recorded.value c) :=
    (canonicalize_eq_iff X hnum sent.value_unique).mpr hsame
  constructor
  · intro h
    have hrec : canonicalize X (withId recorded.value r) = canonicalize X (withId recorded.value c) := by
      rw [withId_self hef, ← hcanon]
      exact (hcoll (.inr rfl) (.inl rfl) h).symm
    have hsame := (canonicalize_eq_iff X hnum (withId_unique recorded.value_unique r)).mp hrec
    exact (id_of_same recorded.value_unique hef hsame).symm
  · rintro rfl
    rw [withId_self hef] at hsame
    exact payloadHash_of_same X sent.value_unique hsame

/-- Of a frame with an id, the hash with another id is that of the value with the id inserted. -/
theorem hashWithId_of_id {v : Value} {kind : Kind} {method : Option Str} {c : Id}
    (h : envelope v = .ok (kind, method, some c)) (r : Id) :
    hashWithId X v r = Wire.hexWithPrefix (payloadHash X (withId v r)).1 := by
  obtain ⟨ms, rfl, hget⟩ := exists_object h
  have hkey : Map.containsKey ms idKey = true := by rw [Map.containsKey, hget]; rfl
  unfold hashWithId
  simp only [hkey, ↓reduceIte]
  exact hexWithPrefix_eq _

/-- With the recorded id inserted a request has the recorded hash. -/
theorem hashWithId_eq {recorded sent : Frame} {line : Bytes} {r c : Id} (hf : Frame.parse X line = .ok recorded)
    (hr : recorded.id = some r) (hg : Frame.parse X sent.raw = .ok sent) (hc : sent.id = some c)
    (hsame : Same sent.value (withId recorded.value c)) : hashWithId X sent.value r = recorded.payloadHashStr X := by
  obtain ⟨-, -, hef, -⟩ := (Frame.parse_eq_ok_iff X).mp hf
  obtain ⟨-, -, heg, -⟩ := (Frame.parse_eq_ok_iff X).mp hg
  rw [hr] at hef
  rw [hc] at heg
  have hback := withId_of_same sent.value_unique hsame r
  rw [withId_withId, withId_self hef] at hback
  rw [hashWithId_of_id heg, payloadHash_of_same X (withId_unique sent.value_unique r) hback]
  rfl

/-- **A request is accepted under its new id**, which is noted if it is another one; what is
not a request is accepted as it is. -/
theorem matchFrame_client (hnum : Function.Injective X.printNumber) {trace : TraceReader} {d : Disk} {event : EventRecord}
    {recorded sent : Frame} (h : (Step.client event recorded sent).Describes X trace d)
    (hg : Frame.parse X sent.raw = .ok sent)
    (hcoll : Set.InjOn X.blake3 {canonicalize X recorded.value, canonicalize X sent.value}) (idMap : IdMap)
    (consumed : ℕ) :
    matchFrame X true idMap event sent consumed = .ok ((Step.client event recorded sent).remember idMap) := by
  obtain ⟨-, hhash, hid, ⟨line, hf⟩, hren⟩ := h
  by_cases hkind : recorded.kind = .request
  · obtain ⟨r, c, hr, hc, hsame⟩ := same_of_renumbered hnum hf hg hren hkind
    have hiff := payloadHashStr_eq_iff_id hnum hf hr hc hsame hcoll
    have hrequest : (Step.client event recorded sent).request = some (r, c) := by
      rw [Step.request, if_pos hkind, hr, hc]
      rfl
    rw [hc, Option.some.injEq] at hiff
    rw [matchFrame, Step.remember, hrequest, hhash]
    by_cases hkept : c = r
    · simp only [if_pos (hiff.mpr hkept), if_pos hkept]
    · have hne : ¬ sent.payloadHashStr X = recorded.payloadHashStr X := fun h => hkept (hiff.mp h)
      simp only [if_neg hne, if_neg hkept, hid, hr, hc, Option.map_some, recordIdToWire_ofId,
        hashWithId_eq hf hr hg hc hsame, if_true]
  · rw [Renumbered, if_neg hkind, canonicalize_eq_iff X hnum sent.value_unique] at hren
    rw [matchFrame, hhash, if_pos ((payloadHashStr_eq_iff X).mpr (payloadHash_of_same X sent.value_unique hren)),
      Step.remember, Step.request, if_neg hkind]

/-! ### What is written -/

/-- The line written for a frame of the agent. -/
def lineFor (X : Crates) (idMap : IdMap) (recorded : Frame) : Bytes :=
  if recorded.kind = .response then
    match recorded.id.bind idMap with
    | some c => rewriteIdInValue X recorded.value c
    | none => recorded.raw
  else recorded.raw

/-- The lines written from a map on. -/
def linesFrom (X : Crates) : IdMap → List Step → List Bytes
  | _, [] => []
  | idMap, .client event recorded sent :: steps =>
    linesFrom X ((Step.client event recorded sent).remember idMap) steps
  | idMap, .agent _ recorded :: steps => lineFor X idMap recorded :: linesFrom X idMap steps

theorem emitLine_agent {trace : TraceReader} {d : Disk} {event : EventRecord} {recorded : Frame}
    (h : (Step.agent event recorded).Describes X trace d) (idMap : IdMap) :
    emitLine X trace d idMap true event = .ok (lineFor X idMap recorded) := by
  obtain ⟨-, hkind, hload, hf⟩ := h
  have hresponse : event.kind = .response ↔ recorded.kind = .response := by
    rw [hkind]
    cases recorded.kind <;> decide
  rw [emitLine, lineFor]
  simp only [hload, hf, true_and, hresponse]
  split_ifs
  · cases recorded.id with
    | none => rfl
    | some r =>
      rw [Option.bind_some]
      cases hc : idMap r <;> simp only [hc]
  · rfl

theorem newline_notMem_lineFor {trace : TraceReader} {d : Disk} {event : EventRecord} {recorded : Frame}
    (h : (Step.agent event recorded).Describes X trace d) (idMap : IdMap) : 0x0A ∉ lineFor X idMap recorded := by
  have hraw : 0x0A ∉ recorded.raw := Frame.newline_notMem_raw X h.2.2.2
  unfold lineFor
  split_ifs
  · split
    · exact Json.newline_notMem_render _
    · exact hraw
  · exact hraw

/-- A client's frame is taken, and its id noted. -/
theorem resume_client (hnum : Function.Injective X.printNumber) {trace : TraceReader} {d : Disk} {event : EventRecord}
    {recorded sent : Frame} (hdesc : (Step.client event recorded sent).Describes X trace d)
    (hg : Frame.parse X sent.raw = .ok sent)
    (hcoll : Set.InjOn X.blake3 {canonicalize X recorded.value, canonicalize X sent.value}) {cursor : ℕ}
    {events : List EventRecord} (h : trace.events.drop cursor = event :: events) (results : List (Except WireError Frame))
    (consumed : ℕ) (idMap : IdMap) (out : Bytes) (emitted : ℕ) :
    resume X trace d true (.ok sent :: results) cursor consumed idMap out emitted
      = resume X trace d true results (cursor + 1) (consumed + 1) ((Step.client event recorded sent).remember idMap) out
        emitted := by
  rw [resume_c2a X h hdesc.1]
  simp only [matchFrame_client hnum hdesc hg hcoll]

/-- A frame of the agent is written. -/
theorem resume_agent {trace : TraceReader} {d : Disk} {event : EventRecord} {recorded : Frame}
    (hdesc : (Step.agent event recorded).Describes X trace d) {cursor : ℕ} {events : List EventRecord}
    (h : trace.events.drop cursor = event :: events) (results : List (Except WireError Frame)) (consumed : ℕ)
    (idMap : IdMap) (out : Bytes) (emitted : ℕ) :
    resume X trace d true results cursor consumed idMap out emitted
      = resume X trace d true results (cursor + 1) consumed idMap (out ++ (lineFor X idMap recorded ++ [0x0A]))
        (emitted + 1) :=
  resume_a2c X h hdesc.1 (emitLine_agent hdesc idMap) (newline_notMem_lineFor hdesc idMap)

/-- **What a replay writes from a cursor on.** -/
theorem resume_steps (hnum : Function.Injective X.printNumber) {trace : TraceReader} {d : Disk} (steps : List Step)
    (hsteps : ∀ s ∈ steps, s.Describes X trace d) (hsent : ∀ g ∈ steps.filterMap Step.sent, Frame.parse X g.raw = .ok g)
    (hcoll : (formsSent X steps).InjOn X.blake3) (cursor consumed : ℕ) (idMap : IdMap) (out : Bytes) (emitted : ℕ)
    (hevents : trace.events.drop cursor = steps.map Step.event) :
    resume X trace d true ((steps.filterMap Step.sent).map .ok) cursor consumed idMap out emitted
      = (.ok (emitted + (a2cEvents (steps.map Step.event)).length),
        out ++ Lines.joinLines 0x0A (linesFrom X idMap steps)) := by
  induction steps generalizing cursor consumed idMap out emitted with
  | nil =>
    rw [resume_nil X hevents]
    simp [linesFrom, a2cEvents]
  | cons s steps ih =>
    have hmono : formsSent X steps ⊆ formsSent X (s :: steps) := by
      rintro b ⟨e, f, g, hmem, hb⟩
      exact ⟨e, f, g, List.mem_cons_of_mem s hmem, hb⟩
    have ih := ih (fun s' hs' => hsteps s' (List.mem_cons_of_mem s hs'))
      (fun g hg => hsent g (List.filterMap_subset _ (List.subset_cons_self s steps) hg)) (hcoll.mono hmono)
    have hrest := drop_succ_of_drop hevents
    have hdesc := hsteps s List.mem_cons_self
    cases s with
    | client event recorded sent =>
      have hg : Frame.parse X sent.raw = .ok sent := hsent sent (List.mem_cons_self ..)
      have hpair : ({canonicalize X recorded.value, canonicalize X sent.value} : Set Bytes) ⊆
          formsSent X (Step.client event recorded sent :: steps) := by
        rintro b (rfl | rfl)
        · exact ⟨_, _, _, List.mem_cons_self, .inl rfl⟩
        · exact ⟨_, _, _, List.mem_cons_self, .inr rfl⟩
      have hc2a : a2cEvents ((Step.client event recorded sent :: steps).map Step.event) = a2cEvents (steps.map Step.event) :=
        List.filter_cons_of_neg (by simp [Step.event, hdesc.1])
      rw [hc2a, linesFrom, ← ih (cursor + 1) (consumed + 1) _ _ _ hrest]
      exact resume_client hnum hdesc hg (hcoll.mono hpair) hevents ..
    | agent event recorded =>
      have ha2c : a2cEvents ((Step.agent event recorded :: steps).map Step.event)
          = event :: a2cEvents (steps.map Step.event) := List.filter_cons_of_pos (by simp [Step.event, hdesc.1])
      have hstep := resume_agent hdesc hevents ((steps.filterMap Step.sent).map .ok) consumed idMap out emitted
      rw [List.filterMap_cons_none rfl, hstep, ih _ _ _ _ _ hrest, ha2c, linesFrom, Lines.joinLines_cons,
        List.length_cons, Nat.add_assoc, Nat.add_comm 1]
      simp only [List.append_assoc, List.singleton_append]

theorem length_linesFrom {trace : TraceReader} {d : Disk} (steps : List Step) (hsteps : ∀ s ∈ steps, s.Describes X trace d)
    (idMap : IdMap) : (linesFrom X idMap steps).length = (a2cEvents (steps.map Step.event)).length := by
  induction steps generalizing idMap with
  | nil => rfl
  | cons s steps ih =>
    have ih := ih fun s' hs' => hsteps s' (List.mem_cons_of_mem s hs')
    have hdir := hsteps s List.mem_cons_self
    cases s with
    | client event recorded sent =>
      rw [linesFrom, ih, List.map_cons, a2cEvents, a2cEvents, List.filter_cons_of_neg (by simp [Step.event, hdir.1])]
    | agent event recorded =>
      rw [linesFrom, List.length_cons, ih, List.map_cons, a2cEvents, a2cEvents,
        List.filter_cons_of_pos (by simp [Step.event, hdir.1]), List.length_cons]

theorem newline_notMem_linesFrom {trace : TraceReader} {d : Disk} (steps : List Step)
    (hsteps : ∀ s ∈ steps, s.Describes X trace d) (idMap : IdMap) : ∀ line ∈ linesFrom X idMap steps, 0x0A ∉ line := by
  induction steps generalizing idMap with
  | nil => intro line h; cases h
  | cons s steps ih =>
    have ih := ih fun s' hs' => hsteps s' (List.mem_cons_of_mem s hs')
    cases s with
    | client event recorded sent => exact ih _
    | agent event recorded =>
      intro line h
      rcases List.mem_cons.mp h with rfl | h
      · exact newline_notMem_lineFor (hsteps _ List.mem_cons_self) idMap
      · exact ih idMap line h

/-- The line of an event of the agent is written with the map at that point. -/
theorem getElem?_linesFrom {trace : TraceReader} {d : Disk} (pre : List Step) (hpre : ∀ s ∈ pre, s.Describes X trace d)
    (event : EventRecord) (recorded : Frame) (post : List Step) (idMap : IdMap) :
    (linesFrom X idMap (pre ++ .agent event recorded :: post))[(a2cEvents (pre.map Step.event)).length]?
      = some (lineFor X (pre.foldl Step.remember idMap) recorded) := by
  induction pre generalizing idMap with
  | nil => rfl
  | cons s pre ih =>
    have ih := ih fun s' hs' => hpre s' (List.mem_cons_of_mem s hs')
    have hdir := hpre s List.mem_cons_self
    cases s with
    | client event' recorded' sent' =>
      rw [List.map_cons, a2cEvents, List.filter_cons_of_neg (by simp [Step.event, hdir.1])]
      exact ih _
    | agent event' recorded' =>
      rw [List.map_cons, a2cEvents, List.filter_cons_of_pos (by simp [Step.event, hdir.1])]
      exact ih idMap

/-! ### What the map says -/

/-- The map knows the outstanding requests sent under another id. -/
def KnowsRenumbered (pending idMap : IdMap) : Prop := ∀ r c, pending r = some c → c ≠ r → idMap r = some c

theorem KnowsRenumbered.step {pending idMap : IdMap} (h : KnowsRenumbered pending idMap) (s : Step) :
    KnowsRenumbered (s.pending pending) (s.remember idMap) := by
  intro r c hr hne
  unfold Step.pending at hr
  unfold Step.remember
  cases hrequest : s.request with
  | some ids =>
    obtain ⟨r', c'⟩ := ids
    simp only [hrequest] at hr ⊢
    by_cases heq : r = r'
    · subst heq
      rw [Function.update_self, Option.some.injEq] at hr
      subst hr
      rw [if_neg hne, Function.update_self]
    · rw [Function.update_of_ne heq] at hr
      split_ifs
      · exact h r c hr hne
      · rw [Function.update_of_ne heq]
        exact h r c hr hne
  | none =>
    cases hresponse : s.response with
    | some r' =>
      simp only [hrequest, hresponse] at hr ⊢
      by_cases heq : r = r'
      · subst heq
        rw [Function.update_self] at hr
        cases hr
      · rw [Function.update_of_ne heq] at hr
        exact h r c hr hne
    | none =>
      simp only [hrequest, hresponse] at hr ⊢
      exact h r c hr hne

/-- **An outstanding request sent under another id is in the map.** -/
theorem idMapAfter_of_outstanding (steps : List Step) : KnowsRenumbered (outstanding steps) (idMapAfter steps) := by
  induction steps using List.reverseRecOn with
  | nil => intro r c h; cases h
  | append_singleton steps s ih =>
    rw [outstanding, idMapAfter, List.foldl_append, List.foldl_append]
    exact ih.step s

theorem Step.remember_eq_some {idMap : IdMap} {s : Step} {r c : Id} (h : s.remember idMap r = some c) :
    (s.request = some (r, c) ∧ c ≠ r) ∨ idMap r = some c := by
  unfold Step.remember at h
  cases hrequest : s.request with
  | none => rw [hrequest] at h; exact .inr h
  | some ids =>
    obtain ⟨r', c'⟩ := ids
    simp only [hrequest] at h
    split_ifs at h with hkept
    · exact .inr h
    · by_cases heq : r = r'
      · subst heq
        rw [Function.update_self, Option.some.injEq] at h
        subst h
        exact .inl ⟨rfl, hkept⟩
      · rw [Function.update_of_ne heq] at h
        exact .inr h

theorem Step.isSome_remember {idMap : IdMap} {s : Step} {r : Id}
    (h : (∃ c, s.request = some (r, c) ∧ c ≠ r) ∨ (idMap r).isSome) : (s.remember idMap r).isSome := by
  unfold Step.remember
  rcases h with ⟨c, hrequest, hne⟩ | h
  · simp only [hrequest, if_neg hne, Function.update_self, Option.isSome_some]
  · cases s.request with
    | none => exact h
    | some ids =>
      obtain ⟨r', c'⟩ := ids
      simp only
      split_ifs
      · exact h
      · rw [Function.update_apply]
        split_ifs
        · rfl
        · exact h

/-- What is in the map was sent, for a request recorded under another id. -/
theorem exists_of_idMapAfter (steps : List Step) {r c : Id} (h : idMapAfter steps r = some c) :
    ∃ s ∈ steps, s.request = some (r, c) ∧ c ≠ r := by
  induction steps using List.reverseRecOn with
  | nil => cases h
  | append_singleton steps s ih =>
    rw [idMapAfter, List.foldl_append] at h
    rcases Step.remember_eq_some h with h | h
    · exact ⟨s, by simp, h⟩
    · obtain ⟨s', hs', h⟩ := ih h
      exact ⟨s', List.mem_append_left _ hs', h⟩

/-- **A request sent under another id leaves its recorded id in the map**, answered or not. -/
theorem isSome_idMapAfter (steps : List Step) {s : Step} (hs : s ∈ steps) {r c : Id} (h : s.request = some (r, c))
    (hne : c ≠ r) : (idMapAfter steps r).isSome := by
  induction steps using List.reverseRecOn with
  | nil => cases hs
  | append_singleton steps s' ih =>
    rw [idMapAfter, List.foldl_append]
    apply Step.isSome_remember
    rcases List.mem_append.mp hs with hs | hs
    · exact .inr (ih hs)
    · obtain rfl := List.mem_singleton.mp hs
      exact .inl ⟨c, h, hne⟩

/-! ### Whole replays -/

/-- **What a whole replay writes.** -/
theorem replay_remapped (hnum : Function.Injective X.printNumber) {trace : TraceReader} {d : Disk} {clientIn : Bytes}
    {steps : List Step} (h : Session X trace d clientIn steps) :
    replayInteractiveWith X trace d clientIn true
      = (.ok (a2cEvents (steps.map Step.event)).length, Lines.joinLines 0x0A (linesFrom X (fun _ => none) steps)) := by
  have hsent : ∀ g ∈ steps.filterMap Step.sent, Frame.parse X g.raw = .ok g := fun g hg => by
    apply FrameReader.parse_of_mem_results X (r := .new clientIn)
    rw [h.client]
    exact List.mem_map_of_mem hg
  rw [replayInteractiveWith_eq, h.client, resume_steps hnum steps h.describes hsent h.noCollision 0 0 _ _ _ h.events,
    Nat.zero_add, List.nil_append]

theorem response_eq_some_iff {event : EventRecord} {recorded : Frame} {r : Id} :
    (Step.agent event recorded).response = some r ↔ recorded.kind = .response ∧ recorded.id = some r := by
  rw [Step.response]
  split_ifs with hkind
  · exact (and_iff_right hkind).symm
  · exact ⟨fun h => (by cases h), fun h => absurd h.1 hkind⟩

/-- **One answer.** It is written under its request's own id if and only if the request was renumbered and
what is printed reads back, or none recorded under its id was. -/
theorem answer_iff {num : Json.Literal → Option Number} (hX : X.Says num) {trace : TraceReader} {d : Disk}
    {pre : List Step} {event : EventRecord} {recorded : Frame} {r c : Id}
    (hdesc : (Step.agent event recorded).Describes X trace d)
    (hresponse : (Step.agent event recorded).response = some r) (hr : outstanding pre r = some c) :
    (∃ v, X.fromSlice (lineFor X (idMapAfter pre) recorded) = some v ∧ Same v (withId recorded.value c)) ↔
      (c = r → ∀ s ∈ pre, ∀ i, s.request = some (r, i) → i = r) ∧
        (c ≠ r → ∃ v, X.fromSlice (X.toVec (withId recorded.value c)) = some v ∧ Same v (withId recorded.value c)) := by
  obtain ⟨hkind, hid⟩ := response_eq_some_iff.mp hresponse
  obtain ⟨-, hv, henv, -⟩ := (Frame.parse_eq_ok_iff X).mp hdesc.2.2.2
  rw [hid] at henv
  rw [lineFor, if_pos hkind, hid, Option.bind_some]
  by_cases hcr : c = r
  · subst hcr
    simp only [forall_const, ne_eq, not_true_eq_false, false_implies, and_true]
    cases hmap : idMapAfter pre c with
    | none =>
      -- no request under this id was renumbered
      refine ⟨fun _ s hs i hi => ?_, fun _ => ⟨_, hv, ?_⟩⟩
      · by_contra hne
        have := isSome_idMapAfter pre hs hi hne
        rw [hmap] at this
        cases this
      · rw [withId_self henv]
        exact .refl _
    | some x =>
      -- one was, and its id is written
      obtain ⟨s, hs, hx, hxc⟩ := exists_of_idMapAfter pre hmap
      constructor
      · rintro ⟨w, hw, hsame⟩
        exact absurd (id_of_written X hX recorded.value_unique henv hw hsame) hxc
      · intro hkept
        exact absurd (hkept s hs x hx) hxc
  · rw [idMapAfter_of_outstanding pre r c hr hcr]
    simp only [hcr, false_implies, ne_eq, not_false_eq_true, forall_const, true_and]
    rfl

/-- The answers have their requests' own ids exactly where each line has. -/
theorem answersUnderOwnIds_iff (hnum : Function.Injective X.printNumber) {trace : TraceReader} {d : Disk}
    {clientIn : Bytes} {steps : List Step} (h : Session X trace d clientIn steps) :
    AnswersUnderOwnIds X steps (replayInteractiveWith X trace d clientIn true) ↔
      ∀ pre event recorded post r c, steps = pre ++ .agent event recorded :: post →
        (Step.agent event recorded).response = some r → outstanding pre r = some c →
          ∃ v, X.fromSlice (lineFor X (idMapAfter pre) recorded) = some v ∧ Same v (withId recorded.value c) := by
  have hline : ∀ {pre event recorded post}, steps = pre ++ .agent event recorded :: post →
      (linesFrom X (fun _ => none) steps)[(a2cEvents (pre.map Step.event)).length]?
        = some (lineFor X (idMapAfter pre) recorded) := by
    rintro pre event recorded post rfl
    exact getElem?_linesFrom pre (fun s hs => h.describes s (List.mem_append_left _ hs)) event recorded post _
  constructor
  · rintro ⟨lines, hout, -, hlines, hown⟩ pre event recorded post r c hsteps hresponse hr
    rw [replay_remapped hnum h, Prod.mk.injEq] at hout
    obtain rfl := Lines.joinLines_injective 0x0A (newline_notMem_linesFrom steps h.describes _) hlines hout.2
    obtain ⟨line, hl, -, hown⟩ := hown pre event recorded post hsteps
    rw [hline hsteps, Option.some.injEq] at hl
    subst hl
    exact hown r c hresponse hr
  · intro hown
    refine ⟨_, replay_remapped hnum h, length_linesFrom steps h.describes _, newline_notMem_linesFrom steps h.describes _,
      fun pre event recorded post hsteps => ⟨_, hline hsteps, fun hkind => by rw [lineFor, if_neg hkind], ?_⟩⟩
    exact fun r c => hown pre event recorded post r c hsteps

/-! ### Sample sessions -/

/-- A request recorded under the id 1 and sent under `n`, and its response. -/
def sampleExchange (seq : U64) (n : Fin (2 ^ 63)) : List Step :=
  [.client (TraceWriter.eventRecord (.plain sampleDigests) seq .c2a (sampleRequest 1) 0) (sampleRequest 1) (sampleRequest n),
    .agent (TraceWriter.eventRecord (.plain sampleDigests) (seq + 1) .a2c sampleResponse 0) sampleResponse]

theorem request_sampleExchange {seq : U64} {n : Fin (2 ^ 63)} {s : Step} (hs : s ∈ sampleExchange seq n) {r c : Id}
    (h : s.request = some (r, c)) : r = sampleId 1 ∧ c = sampleId n := by
  simp only [sampleExchange, List.mem_cons, List.not_mem_nil, or_false] at hs
  rcases hs with rfl | rfl
  · exact ⟨(congrArg Prod.fst (Option.some.inj h)).symm, (congrArg Prod.snd (Option.some.inj h)).symm⟩
  · cases h

theorem describes_sampleExchange {trace : TraceReader} (hroot : trace.root = ['t']) {seq : U64} {n : Fin (2 ^ 63)} {s : Step}
    (hs : s ∈ sampleExchange seq n) : s.Describes (.plain sampleDigests) trace sampleDisk := by
  simp only [sampleExchange, List.mem_cons, List.not_mem_nil, or_false] at hs
  rcases hs with rfl | rfl
  · have hkind : (sampleRequest 1).kind = .request := rfl
    refine ⟨rfl, TraceWriter.eventRecord_hash .., rfl, ⟨_, parse_sampleRequest _ 1⟩, ?_⟩
    rw [Renumbered, if_pos hkind]
    exact ⟨sampleId n, rfl⟩
  · exact ⟨rfl, rfl, loadBlob_sampleDisk hroot (TraceWriter.eventRecord_hash ..), parse_sampleResponse _⟩

/-- The trace of some steps. -/
def sampleReplay (steps : List Step) : TraceReader where
  root := ['t']
  manifest := .newWithClock ['1'] [] ['0']
  events := steps.map Step.event

/-- Two exchanges recorded under the id 1, the first sent under `n` and the second under `m`. -/
def sampleSteps (n m : Fin (2 ^ 63)) : List Step := sampleExchange 0 n ++ sampleExchange 2 m

/-- The lines of the client. -/
def sampleClient (n m : Fin (2 ^ 63)) : Bytes := Lines.joinLines 0x0A [(sampleRequest n).raw, (sampleRequest m).raw]

theorem session_sampleSteps {n m : Fin (2 ^ 63)} (hn : n = 1 ∨ n = 7) (hm : m = 1 ∨ m = 7) :
    Session (.plain sampleDigests) (sampleReplay (sampleSteps n m)) sampleDisk (sampleClient n m) (sampleSteps n m) where
  events := rfl
  describes s hs := by
    rcases List.mem_append.mp hs with hs | hs <;> exact describes_sampleExchange rfl hs
  client := by
    show (FrameReader.new (Lines.joinLines 0x0A ([sampleRequest n, sampleRequest m].map Frame.raw))).results _ = _
    refine FrameReader.results_of_last (whitespace_plain _) fun f hf => ?_
    simp only [List.mem_cons, List.not_mem_nil, or_false] at hf
    rcases hf with rfl | rfl
    · exact ⟨parse_sampleRequest _ n, by rcases hn with rfl | rfl <;> decide +kernel⟩
    · exact ⟨parse_sampleRequest _ m, by rcases hm with rfl | rfl <;> decide +kernel⟩
  noCollision := by
    apply injOn_sampleForms.mono
    have hform : ∀ k : Fin (2 ^ 63), k = 1 ∨ k = 7 →
        canonicalize (.plain sampleDigests) (sampleRequest k).value ∈ sampleForms := by
      rintro k (rfl | rfl)
      · exact .inl rfl
      · exact .inr (.inl rfl)
    rintro b ⟨event, recorded, sent, hmem, hb⟩
    simp only [sampleSteps, sampleExchange, List.cons_append, List.nil_append, List.mem_cons, List.not_mem_nil, or_false,
      reduceCtorEq, false_or, Step.client.injEq] at hmem
    rcases hmem with ⟨-, rfl, rfl⟩ | ⟨-, rfl, rfl⟩
    · exact hb.elim (fun h => h ▸ hform 1 (.inl rfl)) fun h => h ▸ hform n hn
    · exact hb.elim (fun h => h ▸ hform 1 (.inl rfl)) fun h => h ▸ hform m hm

/-- A request kept and then one renumbered. -/
theorem kept_sampleSteps : KeptIdsWereKept (sampleSteps 1 7) := by
  rintro pre s post r hsplit hresponse hr s' hs' c hrequest
  rcases pre with _ | ⟨a, _ | ⟨b, _ | ⟨e, _ | ⟨f, pre⟩⟩⟩⟩ <;>
    simp only [sampleSteps, sampleExchange, List.cons_append, List.nil_append, List.cons.injEq, reduceCtorEq,
      and_false, List.nil_eq, List.append_eq_nil_iff] at hsplit
  · cases hs'
  · obtain ⟨rfl, -⟩ := hsplit
    obtain rfl := List.mem_singleton.mp hs'
    obtain ⟨rfl, rfl⟩ := request_sampleExchange (show _ ∈ sampleExchange 0 1 from List.mem_cons_self) hrequest
    rfl
  · obtain ⟨-, -, rfl, -⟩ := hsplit
    cases hresponse
  · obtain ⟨rfl, rfl, rfl, rfl, -⟩ := hsplit
    obtain rfl : sampleId 1 = r := Option.some.inj hresponse
    exact absurd hr (by decide)

/-- What is printed of the sample response reads back. -/
theorem readBack_sampleSteps : AnswersReadBack (.plain sampleDigests) (sampleSteps 1 7) := by
  rintro pre event recorded post r c hsplit hresponse hr hne
  rcases pre with _ | ⟨a, _ | ⟨b, _ | ⟨e, _ | ⟨f, pre⟩⟩⟩⟩ <;>
    simp only [sampleSteps, sampleExchange, List.cons_append, List.nil_append, List.cons.injEq, reduceCtorEq,
      and_false, false_and, List.nil_eq, List.append_eq_nil_iff] at hsplit
  · obtain ⟨rfl, hstep, -⟩ := hsplit
    cases hstep
    obtain rfl : sampleId 1 = r := Option.some.inj hresponse
    exact absurd (Option.some.inj hr).symm hne
  · obtain ⟨rfl, rfl, rfl, hstep, -⟩ := hsplit
    cases hstep
    obtain rfl : sampleId 1 = r := Option.some.inj hresponse
    obtain rfl : sampleId 7 = c := Option.some.inj hr
    exact ⟨_, fromSlice_render sampleDigests _, .refl _⟩

/-- **Ids are given back.** Replay a session whose requests are renumbered. Each answer is
written under its request's own id, and all else as recorded, if and only if no request
answered has kept its recorded id after another recorded under that id did not, and what is
printed of the answers to those that did not reads back. -/
theorem remap_iff (hnum : Function.Injective X.printNumber) {num : Json.Literal → Option Number} (hX : X.Says num)
    {trace : TraceReader} {d : Disk} {clientIn : Bytes} {steps : List Step} (h : Session X trace d clientIn steps) :
    AnswersUnderOwnIds X steps (replayInteractiveWith X trace d clientIn true) ↔
      KeptIdsWereKept steps ∧ AnswersReadBack X steps := by
  have hdesc : ∀ {pre event recorded post}, steps = pre ++ .agent event recorded :: post →
      (Step.agent event recorded).Describes X trace d := by
    rintro pre event recorded post rfl
    exact h.describes _ (by simp)
  rw [answersUnderOwnIds_iff hnum h]
  constructor
  · intro hown
    constructor
    · rintro pre s post r hsteps hresponse hr
      cases s with
      | client event recorded sent => cases hresponse
      | agent event recorded =>
        exact ((answer_iff hX (hdesc hsteps) hresponse hr).mp (hown _ _ _ _ _ _ hsteps hresponse hr)).1 rfl
    · intro pre event recorded post r c hsteps hresponse hr hne
      exact ((answer_iff hX (hdesc hsteps) hresponse hr).mp (hown _ _ _ _ _ _ hsteps hresponse hr)).2 hne
  · rintro ⟨hkept, hread⟩ pre event recorded post r c hsteps hresponse hr
    refine (answer_iff hX (hdesc hsteps) hresponse hr).mpr ⟨?_, hread _ _ _ _ _ _ hsteps hresponse hr⟩
    rintro rfl
    exact hkept _ _ _ _ hsteps hresponse hr

theorem remap_iff_sample :
    AnswersUnderOwnIds (.plain sampleDigests) (sampleSteps 1 7)
      (replayInteractiveWith (.plain sampleDigests) (sampleReplay (sampleSteps 1 7)) sampleDisk (sampleClient 1 7) true) :=
  (remap_iff (printNumber_plain_injective _) (says_plain _) (session_sampleSteps (.inl rfl) (.inr rfl))).mpr
    ⟨kept_sampleSteps, readBack_sampleSteps⟩

/-- After an exchange no request is outstanding. -/
theorem outstanding_sampleExchange (seq : U64) (n : Fin (2 ^ 63)) : outstanding (sampleExchange seq n) = fun _ => none := by
  show Function.update (Function.update (fun _ => none) (sampleId 1) (some (sampleId n))) (sampleId 1) none = _
  rw [Function.update_idem, Function.update_eq_self]

theorem distinct_sampleSteps : DistinctIds (sampleSteps 7 1) := by
  rintro pre s post r c hsplit hrequest
  rcases pre with _ | ⟨a, _ | ⟨b, _ | ⟨e, _ | ⟨f, pre⟩⟩⟩⟩ <;>
    simp only [sampleSteps, sampleExchange, List.cons_append, List.nil_append, List.cons.injEq, reduceCtorEq,
      and_false, List.nil_eq, List.append_eq_nil_iff] at hsplit
  · exact ⟨rfl, fun r' h => by cases h⟩
  · obtain ⟨-, rfl, -⟩ := hsplit
    cases hrequest
  · obtain ⟨rfl, rfl, rfl, -⟩ := hsplit
    have hnone := outstanding_sampleExchange 0 7
    unfold sampleExchange at hnone
    rw [hnone]
    exact ⟨rfl, fun r' h => by cases h⟩
  · obtain ⟨-, -, -, rfl, -⟩ := hsplit
    cases hrequest

/-- A request renumbered from 1 to 7 is answered, then one recorded under 1 keeps its id: its answer
is written under 7. -/
theorem remap_fails :
    Session (.plain sampleDigests) (sampleReplay (sampleSteps 7 1)) sampleDisk (sampleClient 7 1) (sampleSteps 7 1) ∧
    DistinctIds (sampleSteps 7 1) ∧
    replayInteractiveWith (.plain sampleDigests) (sampleReplay (sampleSteps 7 1)) sampleDisk (sampleClient 7 1) true
      = (.ok 2, Lines.joinLines 0x0A [rewriteIdInValue (.plain sampleDigests) sampleResponse.value (sampleId 7),
          rewriteIdInValue (.plain sampleDigests) sampleResponse.value (sampleId 7)]) ∧
    ¬ AnswersUnderOwnIds (.plain sampleDigests) (sampleSteps 7 1)
      (replayInteractiveWith (.plain sampleDigests) (sampleReplay (sampleSteps 7 1)) sampleDisk (sampleClient 7 1) true) := by
  have hnum := printNumber_plain_injective sampleDigests
  have hsession := session_sampleSteps (n := 7) (m := 1) (.inr rfl) (.inl rfl)
  refine ⟨hsession, distinct_sampleSteps, replay_remapped hnum hsession, fun h => ?_⟩
  -- the second answer, as it is written, reads under 7
  have hown := (answersUnderOwnIds_iff hnum hsession).mp h (sampleExchange 0 7 ++ (sampleExchange 2 1).take 1) _ _ []
    (sampleId 1) (sampleId 1) rfl rfl (by decide)
  obtain ⟨v, hv, hsame⟩ := hown
  have hid := id_of_written _ (says_plain _) sampleResponse.value_unique rfl hv hsame
  exact absurd hid (by decide)

end AcpCore.Replay
