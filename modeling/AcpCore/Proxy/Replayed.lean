import AcpCore.Proxy.Serial

/-!
# What a run's trace replays

From the peers' lines through the relay threads, the writer and the disk, and back
through the reader and the replay.

## The model

`framesSent` are the frames the peers sent in a run, in either direction. They are
`SpelledAlike` where blobs named by their values cannot be mistaken for one another.
Nothing else is assumed of what is sent, nor of the order of the actions; the disk does
not fail.

## What is proved

* `kept_of_run` — in every state the directory holds what the calls logged recorded;
* **`replays_of_run`** — in every state the trace opens and replays what was recorded, that
  is all the client was sent but for the frame that waits for the lock;
* **`replays_session`** — when `run` has returned, no step has failed and the writer was not
  taken too early, the client's own lines are answered with the agent's own lines.
-/

namespace AcpCore.Proxy

open AcpCore.Text AcpCore.Wire AcpCore.Trace AcpCore.Replay

/-- The frames sent in a run. -/
def framesSent (as : List Action) : List Frame :=
  (sent .c2a as ++ sent .a2c as).filterMap Except.toOption

variable (X : Crates)

/-- Frames that are lines, none of which finds other bytes under its hash: those of one value are the same bytes, and
canonical forms do not collide. -/
structure SpelledAlike (s : Digest → Option Bytes) (fs : List Frame) : Prop where
  /-- They are parsed from lines. -/
  parsed : ∀ f ∈ fs, ∃ line, Frame.parse X line = .ok f
  /-- No blob of other bytes is there. -/
  fresh : ∀ f ∈ fs, ∀ b, s (f.payloadHash X) = some b → b = f.raw
  /-- Those of one value are the same bytes. -/
  same : ∀ f ∈ fs, ∀ g ∈ fs, Same f.value g.value → f.raw = g.raw
  /-- Canonical forms do not collide. -/
  noCollision : {b | ∃ f ∈ fs, b = canonicalize X f.value}.InjOn X.blake3

/-- A directory holds what some calls have recorded. -/
structure Kept (root : Str) (d : Disk) (calls : List Call) (d' : Disk) : Prop where
  /-- Nothing fails. -/
  noFaults : d'.faults = .none
  /-- There is a manifest. -/
  manifest : ∃ m : Manifest, d'.files (join root manifestFile) = some m.toVecPretty ∧ m.formatVersion = formatVersion
  /-- The log has the calls' records. -/
  log : d'.files (join root eventsFile) = some (logBytes (records X 0 calls))
  /-- The first blobs put are there. -/
  blobs : blobStore root d' = FirstWins.puts (blobStore root d) (puts X calls)

variable {X}

/-! ### What is on the disk -/

/-- **In every state** the directory holds what the calls logged recorded. -/
theorem kept_of_run {cfg : ProxyConfig} {p : Process} {now : Str} {spawned : Bool} {d : Disk}
    (hd : d.faults = .none) {s₀ s : State} {as : List Action} (hstart : start cfg p now spawned d = .ok s₀)
    (hrun : run X Machine.anything s₀ as = some s) : Kept X cfg.traceDir d (s.log.map Entry.call) s.disk := by
  obtain ⟨hfaultless, -, hclosed⟩ := invariants_of_run hd hstart hrun
  obtain ⟨w₀, d₀, hcreate, hserial⟩ := serial_of_run hstart hrun hfaultless.unfailed
  obtain ⟨w₀', d₀', hcreate', h₀, hblobs₀, -⟩ := createWithClock_noFaults hd cfg.traceDir (cfg.manifest p now)
  rw [hcreate, Prod.mk.injEq, Except.ok.injEq] at hcreate'
  obtain ⟨rfl, rfl⟩ := hcreate'
  obtain ⟨w₁, d₁, hall, h₁, hblobs₁, -⟩ := recordAll_noFaults X (s.log.map Entry.call) h₀
  have hlog : d₁.files (join cfg.traceDir eventsFile) = some (logBytes (records X 0 (s.log.map Entry.call))) := h₁.log
  have hblobs := hblobs₁.trans (congrArg (FirstWins.puts · _) hblobs₀)
  cases hslot : s.slot with
  | some w =>
    have hw := hserial.writer w hslot
    rw [hall, Prod.mk.injEq, Prod.mk.injEq] at hw
    obtain ⟨-, -, rfl⟩ := hw
    exact ⟨h₁.noFaults, ⟨_, h₁.manifestFile, cfg.manifest_formatVersion p now⟩, hlog, hblobs⟩
  | none =>
    obtain ⟨-, w, d₂, endedAt, hall', hfin⟩ := hserial.finalized (hclosed.taken.mp hslot)
    rw [hall, Prod.mk.injEq, Prod.mk.injEq] at hall'
    obtain ⟨-, rfl, rfl⟩ := hall'
    obtain ⟨d', hfin', hf, hfiles⟩ := finalize_noFaults X h₁ endedAt
    rw [hfin, Prod.mk.injEq] at hfin'
    obtain ⟨-, rfl⟩ := hfin'
    refine ⟨hf, ⟨finalManifest X (cfg.manifest p now) _ endedAt, by rw [hfiles, Function.update_self],
      cfg.manifest_formatVersion p now⟩, ?_, ?_⟩
    · rw [hfiles, Function.update_of_ne (eventsPath_ne_manifestPath cfg.traceDir), hlog]
    · rw [blobStore_manifest rfl hfiles, hblobs]

/-! ### What is replayed -/

theorem mem_framesSent {as : List Action} {dir : Direction} {f : Frame} (h : .ok f ∈ sent dir as) : f ∈ framesSent as := by
  refine List.mem_filterMap.mpr ⟨.ok f, ?_, rfl⟩
  cases dir with
  | c2a => exact List.mem_append_left _ h
  | a2c => exact List.mem_append_right _ h

/-- The frames recorded were sent. -/
theorem frame_mem_framesSent {cfg : ProxyConfig} {p : Process} {now : Str} {spawned : Bool} {d : Disk} {s₀ s : State}
    {as : List Action} (hstart : start cfg p now spawned d = .ok s₀) (hrun : run X Machine.anything s₀ as = some s) :
    ∀ c ∈ s.log.map Entry.call, c.frame ∈ framesSent as := by
  obtain ⟨hflows, hlogged, -⟩ := flows_of_run hstart hrun
  rintro c hc
  obtain ⟨e, he, rfl⟩ := List.mem_map.mp hc
  obtain ⟨rest, hrest, -⟩ := hlogged e.event.dir
  have hmem : e.item ∈ (s.lane e.event.dir).forwarded := by
    rw [hrest]
    exact List.mem_append_left _ (List.mem_map_of_mem (List.mem_filter.mpr ⟨he, by simp⟩))
  exact mem_framesSent ((hflows e.event.dir).isPrefix.subset (List.mem_map.mpr ⟨e.item, hmem, rfl⟩))

/-- The lines recorded in a direction. -/
theorem rawLines_log (dir : Direction) (log : List Entry) :
    rawLines dir (log.map Entry.call) = (recordedIn dir log).map (·.frame.raw) := by
  rw [rawLines, List.filter_map, recordedIn, List.map_map, List.map_map]
  rfl

/-- A directory that holds what some calls recorded is opened. -/
theorem Kept.open (htext : X.ReadsText) {root : Str} {d d' : Disk} {calls : List Call} (h : Kept X root d calls d') :
    ∃ r, TraceReader.open X root d' = .ok r ∧ r.root = root ∧ r.events = records X 0 calls := by
  obtain ⟨m, hm, hversion⟩ := h.manifest
  exact ⟨_, open_recorded htext h.noFaults hm hversion h.log, rfl, rfl⟩

/-- Each call's record loads its line. -/
theorem Kept.loads (hnum : Function.Injective X.printNumber) {root : Str} {d d' : Disk} {calls : List Call}
    (h : Kept X root d calls d') {fs : List Frame} (hfs : SpelledAlike X (blobStore root d) fs)
    (hcalls : ∀ c ∈ calls, c.frame ∈ fs) {r : TraceReader} (hroot : r.root = root) (rec : EventRecord) :
    ∀ c ∈ calls, rec.hash = c.frame.payloadHashStr X → r.loadBlob X d' rec = .ok c.frame.raw := by
  have hforms : formsRecorded X calls ⊆ {b | ∃ f ∈ fs, b = canonicalize X f.value} := by
    rintro b ⟨c, hc, rfl⟩
    exact ⟨c.frame, hcalls c hc, rfl⟩
  have hspelled : SpelledOnce X (blobStore root d) calls := by
    constructor
    · exact fun c hc b hb => hfs.fresh c.frame (hcalls c hc) b hb
    · exact fun c hc c' hc' => hfs.same c.frame (hcalls c hc) c'.frame (hcalls c' hc')
  exact (loads_iff hnum h.noFaults (fun c hc => hfs.parsed c.frame (hcalls c hc)) (hfs.noCollision.mono hforms) h.blobs
    hroot).mpr hspelled rec

/-- It replays them. -/
theorem replays_of_kept (hnum : Function.Injective X.printNumber) (htext : X.ReadsText) (hws : X.Whitespace) {root : Str}
    {d d' : Disk} {calls : List Call} (h : Kept X root d calls d') {fs : List Frame}
    (hfs : SpelledAlike X (blobStore root d) fs) (hcalls : ∀ c ∈ calls, c.frame ∈ fs) :
    ∃ r, TraceReader.open X root d' = .ok r ∧
      replayOffline X r d' = (.ok (rawLines .a2c calls).length, Lines.joinLines 0x0A (rawLines .a2c calls)) ∧
      replayInteractive X r d' (Lines.joinLines 0x0A (rawLines .c2a calls))
        = (.ok (rawLines .a2c calls).length, Lines.joinLines 0x0A (rawLines .a2c calls)) := by
  obtain ⟨r, hopen, hroot, hevents⟩ := h.open htext
  exact ⟨r, hopen, replays_of_loads hws (fun c hc => hfs.parsed c.frame (hcalls c hc)) hevents
    (h.loads hnum hfs hcalls hroot)⟩

theorem map_ok_injective : Function.Injective (List.map (Except.ok (ε := WireError) (α := Frame))) :=
  List.map_injective_iff.mpr fun _ _ h => Except.ok.inj h

/-- Where nothing is lost, all that was forwarded is recorded when `run` has returned. -/
theorem recorded_of_lossless {cfg : ProxyConfig} {p : Process} {now : Str} {spawned : Bool} {d : Disk} {s₀ s : State}
    {as : List Action} (hstart : start cfg p now spawned d = .ok s₀) (hrun : run X (lossless X) s₀ as = some s)
    {code : ℤ} (hret : s.main = .returned (.ok code)) (dir : Direction) :
    recordedIn dir s.log = (s.lane dir).forwarded := by
  obtain ⟨w, d', -, rfl⟩ := start_ok hstart
  obtain ⟨hawaited, h⟩ : Awaited s ∧ Lossless s := by
    refine Machine.run_invariant (P := fun s => Awaited s ∧ Lossless s) ?_ hrun
      ⟨⟨nofun, nofun⟩, fun _ => rfl, fun _ => rfl, fun _ h => absurd rfl h⟩
    rintro s a s' hallowed hstep ⟨hawaited, h⟩
    have he := Effect.of_step hstep
    exact ⟨hawaited.step he, h.step hallowed he hawaited⟩
  have hdone : ∃ r, (s.lane dir).thread = .done r := by
    cases dir with
    | c2a => exact hawaited.returned code hret
    | a2c => exact hawaited.joined (by rw [hret]; rfl)
  obtain ⟨r, hr⟩ := hdone
  rw [h.forwarded dir, hr, Thread.held_done, List.append_nil]

/-- **A session is replayed, from end to end.** Take a run that has returned `Ok`, in which no step has failed, no frame
was written after the writer was taken and none waited to be recorded when it was. What the client sent are the lines of
some frames, and so is what the agent sent; the trace opens, offline replay writes the agent's lines, and
interactive replay of the client's lines writes the agent's lines. -/
theorem replays_session (hnum : Function.Injective X.printNumber) (htext : X.ReadsText) (hws : X.Whitespace)
    {cfg : ProxyConfig} {p : Process} {now : Str} {spawned : Bool} {d : Disk} (hd : d.faults = .none) {s₀ s : State}
    {as : List Action} (hstart : start cfg p now spawned d = .ok s₀)
    (hrun : run X (fun s a => unfailing X s a && lossless X s a) s₀ as = some s) {code : ℤ}
    (hret : s.main = .returned (.ok code)) (hfs : SpelledAlike X (blobStore cfg.traceDir d) (framesSent as)) :
    ∃ (r : TraceReader) (frames : Direction → List Frame), TraceReader.open X cfg.traceDir s.disk = .ok r ∧
      (∀ dir, sent dir as = (frames dir).map .ok) ∧
      replayOffline X r s.disk
        = (.ok (frames .a2c).length, Lines.joinLines 0x0A ((frames .a2c).map (·.raw))) ∧
      replayInteractive X r s.disk (Lines.joinLines 0x0A ((frames .c2a).map (·.raw)))
        = (.ok (frames .a2c).length, Lines.joinLines 0x0A ((frames .a2c).map (·.raw))) := by
  have hany := Machine.run_anything hrun
  have hrelayed := relayed_of_unfailing hstart (Machine.run_mono (fun _ _ h => (Bool.and_eq_true _ _ ▸ h).1) hrun) hret
  have hlossless := recorded_of_lossless hstart (Machine.run_mono (fun _ _ h => (Bool.and_eq_true _ _ ▸ h).2) hrun) hret
  obtain ⟨r, hopen, hoffline, hinteractive⟩ := replays_of_kept hnum htext hws (kept_of_run hd hstart hany) hfs
    (frame_mem_framesSent hstart hany)
  have hlines : ∀ dir, rawLines dir (s.log.map Entry.call) = ((s.lane dir).forwarded.map Item.frame).map (·.raw) := by
    intro dir
    rw [rawLines_log, hlossless dir, List.map_map]
    rfl
  simp only [hlines, List.length_map (f := Frame.raw)] at hoffline hinteractive
  refine ⟨r, fun dir => (s.lane dir).forwarded.map Item.frame, hopen, fun dir => ?_, hoffline, hinteractive⟩
  rw [hrelayed.forwarded dir, List.map_map]
  rfl

/-! ### The sample runs -/

/-- The request and its response can be told apart. -/
theorem spelledAlike_sample :
    SpelledAlike (.plain loggedDigests) (blobStore ['t'] emptyDisk) [sampleRequest 1, sampleResponse] := by
  have hcalls : ∀ f ∈ [sampleRequest 1, sampleResponse], ∃ c ∈ sampleCalls.take 2, c.frame = f := by
    intro f hf
    simp only [List.mem_cons, List.not_mem_nil, or_false] at hf
    rcases hf with rfl | rfl
    · exact ⟨_, List.mem_cons_self, rfl⟩
    · exact ⟨_, List.mem_cons_of_mem _ List.mem_cons_self, rfl⟩
  refine ⟨fun f hf => ?_, fun _ _ _ h => (by cases h), fun f hf g hg hsame => ?_, injOn_formsRecorded.mono ?_⟩
  · obtain ⟨c, hc, rfl⟩ := hcalls f hf
    exact parsed_sampleCalls _ c (List.mem_of_mem_take hc)
  · obtain ⟨c, hc, rfl⟩ := hcalls f hf
    obtain ⟨c', hc', rfl⟩ := hcalls g hg
    exact spelledOnce_sampleCalls.2 c hc c' hc' hsame
  · rintro b ⟨f, hf, rfl⟩
    obtain ⟨c, hc, rfl⟩ := hcalls f hf
    exact ⟨c, List.mem_of_mem_take hc, rfl⟩

theorem replays_session_sample :
    ∃ s₀ s r, sampleStart = .ok s₀ ∧
      run (.plain loggedDigests) Machine.anything s₀
        (sampleExchange ++ [.record .c2a 0, .record .a2c 0] ++ sampleExit ++ sampleHangup) = some s ∧
      TraceReader.open (.plain loggedDigests) ['t'] s.disk = .ok r ∧
      replayInteractive (.plain loggedDigests) r s.disk (Lines.joinLines 0x0A [(sampleRequest 1).raw])
        = (.ok 1, Lines.joinLines 0x0A [sampleResponse.raw]) := by
  obtain ⟨s₀, s, hstart, hrun, hmain⟩ := exists_run (.plain loggedDigests)
    (fun s a => unfailing (.plain loggedDigests) s a && lossless (.plain loggedDigests) s a)
    (sampleExchange ++ [.record .c2a 0, .record .a2c 0] ++ sampleExit ++ sampleHangup) State.main (.returned (.ok 0))
    (by decide +kernel)
  obtain ⟨r, frames, hopen, hsent, -, hinteractive⟩ := replays_session (printNumber_plain_injective _) (readsText_plain _)
    (whitespace_plain _) (d := emptyDisk) rfl hstart hrun hmain spelledAlike_sample
  have hc2a : [sampleRequest 1] = frames .c2a := map_ok_injective (hsent .c2a)
  have ha2c : [sampleResponse] = frames .a2c := map_ok_injective (hsent .a2c)
  rw [← hc2a, ← ha2c] at hinteractive
  exact ⟨s₀, s, r, hstart, Machine.run_anything hrun, hopen, hinteractive⟩

end AcpCore.Proxy
