import AcpCore.Replay.Strict

/-!
# Recording and replaying

What a recording gives back, byte by byte: through `load_blob`, through offline
replay, and through interactive replay of the client's own lines.

## The model

Blobs are named by canonical hash and the first one written stays, so an event can
load another frame's bytes. `SpelledOnce` is when that cannot show: no recorded
frame meets a blob of other bytes, and recorded frames that are the same value are
the same bytes.

## What is proved

* `loads_iff` — every event loads its own frame's bytes exactly when the frames are
  spelled once;
* **`roundTrip_iff`** — record and replay are byte-exact exactly then.
-/

namespace AcpCore.Replay

open AcpCore.Text AcpCore.Wire AcpCore.Trace

variable (X : Crates)

/-- The bytes recorded in a direction, in order. -/
def rawLines (dir : Direction) (calls : List Call) : List Bytes := (calls.filter (·.dir = dir)).map (·.frame.raw)

/-- Every event loads the bytes of its frame, whose length it has; offline replay, and interactive
replay of the client's lines, write the agent's lines and return their number. -/
structure RoundTrips (r : TraceReader) (d : Disk) (calls : List Call) : Prop where
  /-- What is loaded. -/
  load : ∀ (i : ℕ) (c : Call) (rec : EventRecord), calls[i]? = some c → r.events[i]? = some rec →
    r.loadBlob X d rec = .ok c.frame.raw ∧ rec.bytes = Fin.ofNat _ c.frame.raw.length
  /-- Offline replay. -/
  offline : replayOffline X r d = (.ok (rawLines .a2c calls).length, Lines.joinLines 0x0A (rawLines .a2c calls))
  /-- Interactive replay of what the client wrote. -/
  interactive : replayInteractive X r d (Lines.joinLines 0x0A (rawLines .c2a calls))
    = (.ok (rawLines .a2c calls).length, Lines.joinLines 0x0A (rawLines .a2c calls))

/-- No recorded frame finds other bytes under its hash, and frames of one value are the same bytes. -/
def SpelledOnce (s : Digest → Option Bytes) (calls : List Call) : Prop :=
  (∀ c ∈ calls, ∀ b, s (c.frame.payloadHash X) = some b → b = c.frame.raw) ∧
    ∀ c ∈ calls, ∀ c' ∈ calls, Same c.frame.value c'.frame.value → c.frame.raw = c'.frame.raw

/-- The canonical forms of the frames recorded. -/
def formsRecorded (calls : List Call) : Set Bytes := {b | ∃ c ∈ calls, b = canonicalize X c.frame.value}

variable {X}

/-! ### What is loaded -/

/-- After the puts every frame's hash has its own bytes exactly when the frames are spelled once. -/
theorem stored_iff (hnum : Function.Injective X.printNumber) {calls : List Call}
    (hcoll : (formsRecorded X calls).InjOn X.blake3) (s : Digest → Option Bytes) :
    (∀ c ∈ calls, FirstWins.puts s (puts X calls) (c.frame.payloadHash X) = some c.frame.raw) ↔ SpelledOnce X s calls := by
  constructor
  · intro h
    refine ⟨fun c hc b hb => ?_, fun c hc c' hc' hsame => ?_⟩
    · have := h c hc
      rw [FirstWins.puts_keeps hb, Option.some.injEq] at this
      exact this
    · have hhash : c.frame.payloadHash X = c'.frame.payloadHash X := payloadHash_of_same X c.frame.value_unique hsame
      have := h c hc
      rw [hhash, h c' hc', Option.some.injEq] at this
      exact this.symm
  · rintro ⟨hstart, hsame⟩ c hc
    rw [FirstWins.puts_apply]
    cases hs : s (c.frame.payloadHash X) with
    | some b => rw [Option.some_or, hstart c hc b hs]
    | none =>
      have hmem : c.frame.payloadHash X ∈ (puts X calls).map Prod.fst := by
        rw [puts, List.map_map]
        exact List.mem_map_of_mem hc
      obtain ⟨b, hb⟩ := Option.isSome_iff_exists.mp (FirstWins.isSome_lookup.mpr hmem)
      obtain ⟨c', hc', heq⟩ := List.mem_map.mp (FirstWins.mem_of_lookup hb)
      obtain ⟨hhash, rfl⟩ := Prod.mk.inj heq
      have : Same c'.frame.value c.frame.value :=
        (payloadHash_eq_iff X hnum hcoll c'.frame.value_unique ⟨c', hc', rfl⟩ ⟨c, hc, rfl⟩).mp hhash
      rw [Option.none_or, hb, hsame c' hc' c hc this]

/-- What the events of a direction say is what their calls say. -/
theorem map_filter_records {β : Type} (f : EventRecord → β) (g : Call → β) (dir : Direction) (calls : List Call)
    (h : ∀ c ∈ calls, ∀ seq, f (TraceWriter.eventRecord X seq c.dir c.frame c.now) = g c) (n : ℕ) :
    ((records X n calls).filter (·.dir = dir)).map f = (calls.filter (·.dir = dir)).map g := by
  induction calls generalizing n with
  | nil => rfl
  | cons c calls ih =>
    have ih := ih (fun c' hc' => h c' (List.mem_cons_of_mem c hc')) (n + 1)
    by_cases hdir : c.dir = dir
    · rw [records, List.filter_cons_of_pos (by simp [TraceWriter.eventRecord, hdir]),
        List.filter_cons_of_pos (by simpa using hdir), List.map_cons, List.map_cons, ih, h c List.mem_cons_self]
    · rw [records, List.filter_cons_of_neg (by simp [TraceWriter.eventRecord, hdir]),
        List.filter_cons_of_neg (by simpa using hdir), ih]

theorem exists_call_of_mem_records {calls : List Call} {n : ℕ} {rec : EventRecord} (h : rec ∈ records X n calls) :
    ∃ c ∈ calls, rec.hash = c.frame.payloadHashStr X := by
  obtain ⟨i, hi⟩ := List.mem_iff_getElem?.mp h
  rw [getElem?_records, Option.map_eq_some_iff] at hi
  obtain ⟨c, hc, rfl⟩ := hi
  exact ⟨c, List.mem_of_getElem? hc, TraceWriter.eventRecord_hash ..⟩

/-- **Every event loads its own frame's bytes exactly when the frames are spelled once.** -/
theorem loads_iff (hnum : Function.Injective X.printNumber) {root : Str} {d : Disk} (hd : d.faults = .none) {calls : List Call}
    (hp : Parsed X calls) (hcoll : (formsRecorded X calls).InjOn X.blake3) {s : Digest → Option Bytes}
    (hblobs : blobStore root d = FirstWins.puts s (puts X calls)) {r : TraceReader} (hroot : r.root = root) :
    (∀ (rec : EventRecord), ∀ c ∈ calls, rec.hash = c.frame.payloadHashStr X → r.loadBlob X d rec = .ok c.frame.raw) ↔
      SpelledOnce X s calls := by
  rw [← stored_iff hnum hcoll s, ← hblobs, ← hroot]
  constructor
  · intro h c hc
    have hload := h (TraceWriter.eventRecord X 0 c.dir c.frame c.now) c hc (TraceWriter.eventRecord_hash ..)
    exact ((loadBlob_eq_ok_iff X hd rfl).mp hload).1
  · intro h rec c hc hrec
    obtain ⟨line, hline⟩ := hp c hc
    rw [c.frame.payloadHashStr_eq] at hrec
    exact (loadBlob_eq_ok_iff X hd hrec).mpr ⟨h c hc, c.frame, Frame.parse_raw X hline, rfl⟩

/-! ### What is replayed -/

/-- When every client frame has the hash expected, all of them match. -/
theorem matched_eq_length {es : List EventRecord} {gs : List Frame}
    (h : gs.map (·.payloadHashStr X) = es.map (·.hash)) : matched X es (gs.map .ok) = es.length := by
  induction es generalizing gs with
  | nil => rw [List.map_nil, List.map_eq_nil_iff] at h; rw [h]; rfl
  | cons e es ih =>
    cases gs with
    | nil => cases h
    | cons g gs =>
      rw [List.map_cons, List.map_cons, List.cons.injEq] at h
      rw [List.map_cons, matched, if_pos h.1, ih h.2, List.length_cons]

/-- Frames read back from their lines have their hashes. -/
theorem map_payloadHashStr {gs fs : List Frame} (h : List.Forall₂ (fun g f => ∃ raw, g = { f with raw }) gs fs) :
    gs.map (·.payloadHashStr X) = fs.map (·.payloadHashStr X) := by
  induction h with
  | nil => rfl
  | cons hgf _ ih =>
    obtain ⟨raw, rfl⟩ := hgf
    rw [List.map_cons, List.map_cons, ih]
    rfl

/-- Where every event loads its own frame's bytes, both replays write the agent's lines. -/
theorem replays_of_loads (hws : X.Whitespace) {calls : List Call} (hp : Parsed X calls) {r : TraceReader} {d : Disk}
    (hevents : r.events = records X 0 calls)
    (hload : ∀ (rec : EventRecord), ∀ c ∈ calls, rec.hash = c.frame.payloadHashStr X →
      r.loadBlob X d rec = .ok c.frame.raw) :
    replayOffline X r d = (.ok (rawLines .a2c calls).length, Lines.joinLines 0x0A (rawLines .a2c calls)) ∧
    replayInteractive X r d (Lines.joinLines 0x0A (rawLines .c2a calls))
      = (.ok (rawLines .a2c calls).length, Lines.joinLines 0x0A (rawLines .a2c calls)) := by
  let raw : EventRecord → Bytes := fun rec => (r.loadBlob X d rec).toOption.getD []
  have hraw : ∀ (rec : EventRecord), ∀ c ∈ calls, rec.hash = c.frame.payloadHashStr X → raw rec = c.frame.raw := by
    intro rec c hc hrec
    simp only [raw, hload rec c hc hrec, Except.toOption, Option.getD_some]
  have hevent : ∀ rec ∈ r.events, rec.dir = .a2c → r.loadBlob X d rec = .ok (raw rec) := by
    intro rec hrec _
    obtain ⟨c, hc, hhash⟩ := exists_call_of_mem_records (hevents ▸ hrec)
    rw [hload rec c hc hhash, hraw rec c hc hhash]
  have hlines : (a2cEvents r.events).map raw = rawLines .a2c calls := by
    rw [a2cEvents, hevents, rawLines]
    exact map_filter_records raw _ .a2c calls (fun c hc _ => hraw _ c hc (TraceWriter.eventRecord_hash ..)) 0
  have hcount : (a2cEvents r.events).length = (rawLines .a2c calls).length := by rw [← hlines, List.length_map]
  refine ⟨by rw [replayOffline_eq hevent, hlines, hcount], ?_⟩
  -- the client's lines are read back as frames of the hashes recorded
  have hclient : rawLines .c2a calls = ((calls.filter (·.dir = .c2a)).map (·.frame)).map Frame.raw := by
    rw [rawLines, List.map_map]
    rfl
  have hparsed : ∀ f ∈ (calls.filter (·.dir = .c2a)).map (·.frame), ∃ line, Frame.parse X line = .ok f := by
    intro f hf
    obtain ⟨c, hc, rfl⟩ := List.mem_map.mp hf
    exact hp c (List.mem_filter.mp hc).1
  obtain ⟨gs, hgs, hsame⟩ := FrameReader.results_joinLines hws hparsed
  have hhash : gs.map (·.payloadHashStr X) = (c2aEvents r.events).map (·.hash) := by
    rw [map_payloadHashStr hsame, List.map_map, c2aEvents, hevents]
    exact (map_filter_records (·.hash) _ .c2a calls (fun _ _ _ => TraceWriter.eventRecord_hash ..) 0).symm
  have hk : matched X (c2aEvents r.events) (gs.map .ok) = (c2aEvents r.events).length := matched_eq_length hhash
  have hend : (gs.map Except.ok : List (Except WireError Frame))[(c2aEvents r.events).length]? = none := by
    have := congrArg List.length hhash
    rw [List.length_map, List.length_map] at this
    rw [List.getElem?_eq_none]
    rw [List.length_map, this]
  rw [replayInteractive_eq hevent, hclient, hgs, hk, (blocks_isPrefix r.events _).2 rfl, hlines, strictResult, hend,
    (blocks_isPrefix r.events _).2 rfl, Nat.zero_add, hcount]

/-! ### The sample recordings -/

/-- On the sample frames the two tables agree. -/
theorem blake3_loggedDigests :
    sampleForms.EqOn (Crates.plain sampleDigests).blake3 (Crates.plain loggedDigests).blake3 := by
  rintro b (rfl | rfl | rfl) <;> decide +kernel

theorem formsRecorded_sampleCalls : formsRecorded (.plain loggedDigests) sampleCalls ⊆ sampleForms := by
  rintro b ⟨c, hc, rfl⟩
  simp only [sampleCalls, List.mem_cons, List.not_mem_nil, or_false] at hc
  rcases hc with rfl | rfl | rfl
  · exact .inl rfl
  · exact .inr (.inr rfl)
  · exact .inr (.inr canonicalize_sampleResponse')

theorem injOn_formsRecorded : (formsRecorded (.plain loggedDigests) sampleCalls).InjOn (Crates.plain loggedDigests).blake3 :=
  (injOn_sampleForms.congr blake3_loggedDigests).mono formsRecorded_sampleCalls

/-- A store with the sample calls keeps the first spelling of the response. -/
theorem puts_sampleCalls :
    FirstWins.puts (blobStore ['t'] emptyDisk) (puts (.plain loggedDigests) sampleCalls)
        (sampleResponse'.payloadHash (.plain loggedDigests)) = some sampleResponse.raw := by
  decide +kernel

/-- The request and its response are spelled once. -/
theorem spelledOnce_sampleCalls : SpelledOnce (.plain loggedDigests) (blobStore ['t'] emptyDisk) (sampleCalls.take 2) := by
  refine ⟨fun _ _ _ h => (by cases h), fun c hc c' hc' hsame => ?_⟩
  have hhash := payloadHash_of_same (.plain loggedDigests) c.frame.value_unique hsame
  simp only [sampleCalls, List.take_succ_cons, List.take_zero, List.mem_cons, List.not_mem_nil, or_false] at hc hc'
  rcases hc with rfl | rfl <;> rcases hc' with rfl | rfl
  · rfl
  · exact absurd hhash (by decide +kernel)
  · exact absurd hhash (by decide +kernel)
  · rfl

/-! ### Round trips -/

/-- **Record and replay are byte-exact if and only if the frames are spelled once.** -/
theorem roundTrip_iff (hnum : Function.Injective X.printNumber) (htext : X.ReadsText) (hws : X.Whitespace) {d : Disk}
    (hd : d.faults = .none) (root recorderVersion : Str) (agentArgv : List Str) (startedAt endedAt : Str)
    {calls : List Call} (hp : Parsed X calls) (hcoll : (formsRecorded X calls).InjOn X.blake3) :
    ∃ d' r, recording X root (.newWithClock recorderVersion agentArgv startedAt) calls endedAt d = (.ok (), d') ∧
      TraceReader.open X root d' = .ok r ∧ r.events.length = calls.length ∧
      (RoundTrips X r d' calls ↔ SpelledOnce X (blobStore root d) calls) := by
  obtain ⟨d', hrec, hf, hlog, hm, hblobs⟩ :=
    recording_noFaults X hd root (.newWithClock recorderVersion agentArgv startedAt) calls endedAt
  obtain ⟨r, hopen, hroot, hevents⟩ : ∃ r, TraceReader.open X root d' = .ok r ∧ r.root = root ∧
      r.events = records X 0 calls := ⟨_, open_recorded htext hf hm rfl hlog, rfl, rfl⟩
  refine ⟨d', r, hrec, hopen, by rw [hevents, length_records], ?_⟩
  have hloads := loads_iff hnum hf hp hcoll hblobs hroot
  constructor
  · refine fun h => hloads.mp fun rec c hc hrec => ?_
    obtain ⟨i, hi⟩ := List.mem_iff_getElem?.mp hc
    have hload := (h.load i c _ hi (by rw [hevents, getElem?_records, hi, Option.map_some])).1
    rw [c.frame.payloadHashStr_eq] at hrec
    exact (loadBlob_eq_ok_iff X hf hrec).mpr ((loadBlob_eq_ok_iff X hf rfl).mp hload)
  · intro h
    have hload := hloads.mpr h
    obtain ⟨hoffline, hinteractive⟩ := replays_of_loads hws hp hevents hload
    refine ⟨fun i c rec hc hrec => ?_, hoffline, hinteractive⟩
    rw [hevents, getElem?_records, hc, Option.map_some, Option.some.injEq] at hrec
    subst hrec
    exact ⟨hload _ c (List.mem_of_getElem? hc) (TraceWriter.eventRecord_hash ..), rfl⟩

theorem roundTrip_iff_sample :
    ∃ d' r, recording (.plain loggedDigests) ['t'] (.newWithClock ['1'] [] ['0']) (sampleCalls.take 2) ['1'] emptyDisk
        = (.ok (), d') ∧ TraceReader.open (.plain loggedDigests) ['t'] d' = .ok r ∧ r.events.length = 2 ∧
      RoundTrips (.plain loggedDigests) r d' (sampleCalls.take 2) := by
  have hp : Parsed (.plain loggedDigests) (sampleCalls.take 2) := fun c hc =>
    parsed_sampleCalls _ c (List.mem_of_mem_take hc)
  have hforms :
      formsRecorded (.plain loggedDigests) (sampleCalls.take 2) ⊆ formsRecorded (.plain loggedDigests) sampleCalls :=
    fun _ ⟨c, hc, hb⟩ => ⟨c, List.mem_of_mem_take hc, hb⟩
  obtain ⟨d', r, hrec, hopen, hlen, hiff⟩ := roundTrip_iff (printNumber_plain_injective loggedDigests)
    (readsText_plain loggedDigests) (whitespace_plain loggedDigests) (d := emptyDisk) rfl ['t'] ['1'] [] ['0'] ['1'] hp
    (injOn_formsRecorded.mono hforms)
  exact ⟨d', r, hrec, hopen, hlen, hiff.mpr spelledOnce_sampleCalls⟩

/-- Where a response is recorded in two spellings, the second is replayed in the first. -/
theorem roundTrip_fails :
    Parsed (.plain loggedDigests) sampleCalls ∧
    (formsRecorded (.plain loggedDigests) sampleCalls).InjOn (Crates.plain loggedDigests).blake3 ∧
    ∃ d' r rec, recording (.plain loggedDigests) ['t'] (.newWithClock ['1'] [] ['0']) sampleCalls ['1'] emptyDisk
        = (.ok (), d') ∧ TraceReader.open (.plain loggedDigests) ['t'] d' = .ok r ∧ r.events[2]? = some rec ∧
      sampleCalls[2]?.map (·.frame.raw) = some sampleResponse'.raw ∧
      r.loadBlob (.plain loggedDigests) d' rec = .ok sampleResponse.raw ∧ sampleResponse.raw ≠ sampleResponse'.raw ∧
      ¬ RoundTrips (.plain loggedDigests) r d' sampleCalls := by
  refine ⟨parsed_sampleCalls _, injOn_formsRecorded, ?_⟩
  obtain ⟨d', hrec, hf, hlog, hm, hblobs⟩ :=
    recording_noFaults (.plain loggedDigests) (d := emptyDisk) rfl ['t'] (.newWithClock ['1'] [] ['0']) sampleCalls ['1']
  obtain ⟨r, hopen, hroot, hevents⟩ : ∃ r, TraceReader.open (.plain loggedDigests) ['t'] d' = .ok r ∧ r.root = ['t'] ∧
      r.events = records (.plain loggedDigests) 0 sampleCalls :=
    ⟨_, open_recorded (readsText_plain loggedDigests) hf hm rfl hlog, rfl, rfl⟩
  have hevent : r.events[2]? = some (TraceWriter.eventRecord (.plain loggedDigests) 2 .a2c sampleResponse' 0) := by
    rw [hevents]
    rfl
  have hload : r.loadBlob (.plain loggedDigests) d'
      (TraceWriter.eventRecord (.plain loggedDigests) 2 .a2c sampleResponse' 0) = .ok sampleResponse.raw := by
    refine (loadBlob_eq_ok_iff _ hf rfl).mpr ⟨?_, sampleResponse, parse_sampleResponse _, by decide +kernel⟩
    rw [hroot, hblobs]
    exact puts_sampleCalls
  have hne : sampleResponse.raw ≠ sampleResponse'.raw := by decide +kernel
  refine ⟨d', r, _, hrec, hopen, hevent, rfl, hload, hne, fun h => hne ?_⟩
  have := (h.load 2 _ _ rfl hevent).1
  rw [hload] at this
  exact Except.ok.inj this

end AcpCore.Replay
