import AcpCore.Proxy.Replayed
import AcpCore.Trace.Environment

/-!
# Recording the same session again

With a fixed clock a recording is to come out the same byte for byte, so that it can be
compared with one kept from before.

## The model

`FixedClock` is the clock; how `time` formats seconds and nanoseconds is given. In a run
that is `pinned` all that is read from a clock is read from it. Two such runs of the
proxy may be interleaved in different ways, in different directories that hold what
they like.

## What is proved

* `pinned_of_run` — what a pinned run leaves says nothing but what was recorded, and when
  the clock stands;
* **`reproducible`** — two pinned runs of the same agent that record the same frames in the
  same order leave the same log and, of what both directories had none or the same, the
  same blobs; and the same manifest exactly where the same environment was captured, or
  none.
-/

namespace AcpCore.Trace

open AcpCore.Text

/-- `FixedClock`. -/
structure FixedClock where
  /-- Nanoseconds since the epoch. -/
  nanos : U128

namespace FixedClock

/-- `FixedClock::epoch`. -/
def epoch : FixedClock := ⟨0⟩

/-- `FixedClock::at_nanos`. -/
def atNanos (nanos : U128) : FixedClock := ⟨nanos⟩

/-- `FixedClock::unix_nanos`. -/
def unixNanos (c : FixedClock) : U128 := c.nanos

/-- `"1970-01-01T00:00:00Z"`. -/
def epochText : Str := ['1', '9', '7', '0', '-', '0', '1', '-', '0', '1', 'T', '0', '0', ':', '0', '0', ':', '0', '0', 'Z']

/-- `FixedClock::rfc3339_now`, where `format` is of `time`: the text for seconds and nanoseconds, if there is one. -/
def rfc3339Now (format : ℕ → ℕ → Option Str) (c : FixedClock) : Str :=
  let secs := min (c.nanos.val / 1000000000) (2 ^ 63 - 1)
  let nanos := c.nanos.val % 1000000000
  (format secs nanos).getD epochText

end FixedClock

end AcpCore.Trace

namespace AcpCore.Proxy

open AcpCore.Text AcpCore.Wire AcpCore.Trace AcpCore.Replay

/-- What an action reads from the clock is what the fixed clock says. -/
def pinned (format : ℕ → ℕ → Option Str) (clock : FixedClock) (_ : State) : Action → Bool
  | .record _ now => now = clock.unixNanos
  | .finalize now => now = clock.rfc3339Now format
  | _ => true

variable {X : Crates}

/-! ### One run -/

/-- What a pinned run has read from the clock. -/
structure Pinned (root : Str) (m : Manifest) (nanos : U128) (text : Str) (s : State) : Prop where
  /-- An event says when it was recorded. -/
  events : ∀ e ∈ s.log, e.event.tWallNs = nanos
  /-- When the writer is gone, the manifest says when that was. -/
  manifest : s.slot = none →
    s.disk.files (join root manifestFile) = some (Trace.finalManifest X m (s.log.map Entry.event) text).toVecPretty

/-- **One pinned action.** -/
theorem Pinned.step {root : Str} {m : Manifest} {format : ℕ → ℕ → Option Str} {clock : FixedClock} {s s' : State}
    {a : Action} (ha : pinned format clock s a = true) (hs : step X s a = some s') (hf : Faultless root m s)
    (h : Pinned (X := X) root m clock.unixNanos (clock.rfc3339Now format) s) :
    Pinned (X := X) root m clock.unixNanos (clock.rfc3339Now format) s' := by
  cases Effect.of_step hs with
  | lane _ => exact ⟨h.events, h.manifest⟩
  | skipped _ _ => exact ⟨h.events, h.manifest⟩
  | recorded hthread hslot hrec =>
    refine ⟨fun e he => ?_, fun hnone => by cases hnone⟩
    rcases List.mem_append.mp he with he | he
    · exact h.events e he
    · obtain rfl := List.mem_singleton.mp he
      exact of_decide_eq_true ha
  | failed _ _ _ => exact ⟨h.events, fun hnone => by cases hnone⟩
  | @finalized now w _ _ _ hslot _ =>
    refine ⟨h.events, fun _ => ?_⟩
    obtain ⟨d, hfin, -, hfiles⟩ := hf.finalize (X := X) hslot now
    rw [← show now = clock.rfc3339Now format from of_decide_eq_true ha]
    simpa only [hfin] using hfiles
  | quiet _ hslot hdisk hlog _ _ =>
    refine ⟨fun e he => h.events e (hlog ▸ he), fun hnone => ?_⟩
    rw [hdisk, hlog]
    exact h.manifest (hslot ▸ hnone)

/-- The events logged are the records of their calls. -/
theorem InOrder.records_eq {s : State} (h : InOrder X s) : s.log.map Entry.event = records X 0 (s.log.map Entry.call) := by
  apply List.ext_getElem?
  intro i
  rw [getElem?_records, List.getElem?_map, List.getElem?_map, Option.map_map]
  cases he : s.log[i]? with
  | none => rfl
  | some e =>
    obtain ⟨seq, now, hevent⟩ := h.event e (List.mem_of_getElem? he)
    have hseq := h.seq i e he
    rw [hevent] at hseq
    simp only [Option.map_some, Function.comp_apply, Entry.call, Nat.zero_add, Option.some.injEq]
    rw [hevent]
    simp only [TraceWriter.eventRecord] at hseq ⊢
    rw [hseq]

/-- **What a pinned run leaves** when it has returned. -/
theorem pinned_of_run {format : ℕ → ℕ → Option Str} {clock : FixedClock} {cfg : ProxyConfig} {p : Process}
    {spawned : Bool} {d : Disk} (hd : d.faults = .none) {s₀ s : State} {as : List Action}
    (hstart : start cfg p (clock.rfc3339Now format) spawned d = .ok s₀)
    (hrun : run X (pinned format clock) s₀ as = some s) {code : ℤ} (hret : s.main = .returned (.ok code)) :
    ∃ calls : List Call, calls = s.log.map (fun e => ⟨e.event.dir, e.item.frame, clock.unixNanos⟩) ∧
      s.disk.files (join cfg.traceDir manifestFile) = some (Trace.finalManifest X
        (cfg.manifest p (clock.rfc3339Now format)) (records X 0 calls) (clock.rfc3339Now format)).toVecPretty ∧
      s.disk.files (join cfg.traceDir eventsFile) = some (logBytes (records X 0 calls)) ∧
      blobStore cfg.traceDir s.disk = FirstWins.puts (blobStore cfg.traceDir d) (puts X calls) := by
  have hany := Machine.run_anything hrun
  have hkept := kept_of_run hd hstart hany
  obtain ⟨-, horder, hclosed⟩ := invariants_of_run hd hstart hany
  have hpinned : Pinned (X := X) cfg.traceDir (cfg.manifest p (clock.rfc3339Now format)) clock.unixNanos
      (clock.rfc3339Now format) s := by
    obtain ⟨w, d', hcreate, rfl⟩ := start_ok hstart
    obtain ⟨w', d'', hcreate', hrecorded, -⟩ := createWithClock_noFaults hd cfg.traceDir
      (cfg.manifest p (clock.rfc3339Now format))
    rw [hcreate, Prod.mk.injEq, Except.ok.injEq] at hcreate'
    obtain ⟨rfl, rfl⟩ := hcreate'
    have hinit : Faultless cfg.traceDir (cfg.manifest p (clock.rfc3339Now format)) (.initial w d') := by
      refine ⟨hrecorded.noFaults, fun _ => rfl, fun w' hw' => ?_, fun hnone => by cases hnone⟩
      cases hw'
      exact recorded_of_create hcreate
    have hpinned : Pinned (X := X) cfg.traceDir (cfg.manifest p (clock.rfc3339Now format)) clock.unixNanos
        (clock.rfc3339Now format) (.initial w d') := by
      refine ⟨fun e he => ?_, fun hnone => ?_⟩
      · cases he
      · cases hnone
    refine (Machine.run_invariant (P := fun s => Faultless cfg.traceDir _ s ∧ Pinned (X := X) cfg.traceDir _ clock.unixNanos
      (clock.rfc3339Now format) s) ?_ hrun ⟨hinit, hpinned⟩).2
    rintro s a s' ha hstep ⟨hf, hpinned⟩
    exact ⟨hf.step (Effect.of_step hstep), hpinned.step ha hstep hf⟩
  have hcalls : s.log.map Entry.call = s.log.map (fun e => ⟨e.event.dir, e.item.frame, clock.unixNanos⟩) := by
    refine List.map_congr_left fun e he => ?_
    rw [Entry.call, hpinned.events e he]
  have hslot : s.slot = none := hclosed.taken.mpr (by rw [hret]; rfl)
  refine ⟨s.log.map Entry.call, hcalls, ?_, hkept.log, hkept.blobs⟩
  rw [hpinned.manifest hslot, horder.records_eq]

/-! ### Two runs -/

/-- Frames that are parsed from lines are told by their bytes. -/
theorem frames_eq_of_raw {fs gs : List (Direction × Frame)} (hf : ∀ p ∈ fs, ∃ line, Frame.parse X line = .ok p.2)
    (hg : ∀ p ∈ gs, ∃ line, Frame.parse X line = .ok p.2)
    (h : fs.map (fun p => (p.1, p.2.raw)) = gs.map (fun p => (p.1, p.2.raw))) : fs = gs := by
  induction fs generalizing gs with
  | nil => exact (List.map_eq_nil_iff.mp h.symm).symm
  | cons p fs ih =>
    cases gs with
    | nil => cases h
    | cons q gs =>
      rw [List.map_cons, List.map_cons, List.cons.injEq, Prod.mk.injEq] at h
      obtain ⟨⟨hdir, hraw⟩, htail⟩ := h
      obtain ⟨line, hline⟩ := hf p List.mem_cons_self
      obtain ⟨line', hline'⟩ := hg q List.mem_cons_self
      have hparse := Frame.parse_raw X hline
      rw [hraw, Frame.parse_raw X hline', Except.ok.injEq] at hparse
      rw [ih (fun p hp => hf p (List.mem_cons_of_mem _ hp)) (fun q hq => hg q (List.mem_cons_of_mem _ hq)) htail,
        show p = q from Prod.ext hdir hparse.symm]

/-- What is added to a manifest at the end tells nothing of the process. -/
theorem finalManifest_eq_iff (cfg : ProxyConfig) {p q : Process} {now endedAt : Str} {traceDir : Str}
    {recs : List EventRecord} :
    Trace.finalManifest X (cfg.manifest p now) recs endedAt
        = Trace.finalManifest X ({ cfg with traceDir }.manifest q now) recs endedAt ↔
      cfg.skipRecordingEnv = true ∨
        RecordingEnv.capture cfg.envWhitelist p = RecordingEnv.capture cfg.envWhitelist q := by
  rw [ProxyConfig.manifest, ProxyConfig.manifest, Trace.finalManifest, Trace.finalManifest]
  cases cfg.skipRecordingEnv with
  | true => simp [Manifest.withCapture]
  | false => simp [Manifest.withCapture, Manifest.withRecordingEnv]

/-- **A session is recorded the same again.** Take two runs of the proxy with the same arguments, but for the directory of
the trace, and the same fixed clock, that have returned `Ok` and recorded the same lines in the same order; for the rest
they may be interleaved in any way, in any two processes, on disks that do not fail. They leave the same log, byte for
byte, and under each hash the same blob, unless the directories had different ones before. They leave the same manifest
if and only if the environment is skipped, or the same was captured of both processes. -/
theorem reproducible {format : ℕ → ℕ → Option Str} {clock : FixedClock} {cfg : ProxyConfig} (traceDir : Str) {p q : Process}
    {spawned₁ spawned₂ : Bool} {d₁ d₂ : Disk} (hd₁ : d₁.faults = .none) (hd₂ : d₂.faults = .none) {s₀ s t₀ t : State}
    {as bs : List Action} (hstart₁ : start cfg p (clock.rfc3339Now format) spawned₁ d₁ = .ok s₀)
    (hstart₂ : start { cfg with traceDir } q (clock.rfc3339Now format) spawned₂ d₂ = .ok t₀)
    (hrun₁ : run X (pinned format clock) s₀ as = some s) (hrun₂ : run X (pinned format clock) t₀ bs = some t)
    {code₁ code₂ : ℤ} (hret₁ : s.main = .returned (.ok code₁)) (hret₂ : t.main = .returned (.ok code₂))
    (hparsed₁ : ∀ f ∈ framesSent as, ∃ line, Frame.parse X line = .ok f)
    (hparsed₂ : ∀ f ∈ framesSent bs, ∃ line, Frame.parse X line = .ok f)
    (hsame : s.log.map (fun e => (e.event.dir, e.item.frame.raw)) = t.log.map fun e => (e.event.dir, e.item.frame.raw)) :
    (s.disk.files (join cfg.traceDir manifestFile) = t.disk.files (join traceDir manifestFile) ↔
        cfg.skipRecordingEnv = true ∨
          RecordingEnv.capture cfg.envWhitelist p = RecordingEnv.capture cfg.envWhitelist q) ∧
      s.disk.files (join cfg.traceDir eventsFile) = t.disk.files (join traceDir eventsFile) ∧
      ∀ h, blobStore cfg.traceDir d₁ h = blobStore traceDir d₂ h →
        blobStore cfg.traceDir s.disk h = blobStore traceDir t.disk h := by
  obtain ⟨calls₁, hcalls₁, hmanifest₁, hlog₁, hblobs₁⟩ := pinned_of_run hd₁ hstart₁ hrun₁ hret₁
  obtain ⟨calls₂, hcalls₂, hmanifest₂, hlog₂, hblobs₂⟩ := pinned_of_run hd₂ hstart₂ hrun₂ hret₂
  have hframes : s.log.map (fun e => (e.event.dir, e.item.frame)) = t.log.map fun e => (e.event.dir, e.item.frame) := by
    apply frames_eq_of_raw (X := X)
    · intro p hp
      obtain ⟨e, he, rfl⟩ := List.mem_map.mp hp
      exact hparsed₁ _ (frame_mem_framesSent hstart₁ (Machine.run_anything hrun₁) _ (List.mem_map_of_mem he))
    · intro p hp
      obtain ⟨e, he, rfl⟩ := List.mem_map.mp hp
      exact hparsed₂ _ (frame_mem_framesSent hstart₂ (Machine.run_anything hrun₂) _ (List.mem_map_of_mem he))
    · rw [List.map_map, List.map_map]
      exact hsame
  obtain rfl : calls₁ = calls₂ := by
    have hmap := congrArg (List.map fun p => (⟨p.1, p.2, clock.unixNanos⟩ : Call)) hframes
    rw [List.map_map, List.map_map] at hmap
    rw [hcalls₁, hcalls₂]
    exact hmap
  refine ⟨?_, hlog₁.trans hlog₂.symm, fun h hbefore => ?_⟩
  · rw [hmanifest₁, hmanifest₂, Option.some.injEq, Manifest.toVecPretty_injective.eq_iff, finalManifest_eq_iff]
  · rw [hblobs₁, hblobs₂, FirstWins.puts_apply, FirstWins.puts_apply, hbefore]

/-! ### The sample runs -/

/-- The agent exits, and the clock stands. -/
def sampleReturn : List Action :=
  [.lane .a2c .close, .stderr .close, .exit (some 0), .lane .a2c .read, .stderr (.read 0), .wait, .joinA2c, .joinStderr,
    .finalize ['0']]

/-- The answer is recorded before the client hangs up. -/
def sampleFirst : List Action := sampleExchange ++ [.record .c2a 0, .record .a2c 0] ++ sampleReturn ++ sampleHangup

/-- The client hangs up before the answer is recorded. -/
def sampleSecond : List Action :=
  sampleExchange ++ [.record .c2a 0, .lane .c2a .close, .lane .c2a .read, .record .a2c 0] ++ sampleReturn ++ [.joinC2a]

theorem reproducible_sample :
    ∃ s₀ s t, sampleStart = .ok s₀ ∧
      run (.plain loggedDigests) (pinned (fun _ _ => some ['0']) .epoch) s₀ sampleFirst = some s ∧
      run (.plain loggedDigests) (pinned (fun _ _ => some ['0']) .epoch) s₀ sampleSecond = some t ∧
      s.disk.files (join ['t'] manifestFile) = t.disk.files (join ['t'] manifestFile) ∧
      s.disk.files (join ['t'] eventsFile) = t.disk.files (join ['t'] eventsFile) ∧
      ∀ h, blobStore ['t'] s.disk h = blobStore ['t'] t.disk h := by
  obtain ⟨s₀, s, hstart, hrun₁, hs⟩ := exists_run (.plain loggedDigests) (pinned (fun _ _ => some ['0']) .epoch)
    sampleFirst (fun s => (s.main, s.log.map fun e => (e.event.dir, e.item.frame.raw)))
    (.returned (.ok 0), [(.c2a, (sampleRequest 1).raw), (.a2c, sampleResponse.raw)]) (by decide +kernel)
  obtain ⟨t₀, t, hstart', hrun₂, ht⟩ := exists_run (.plain loggedDigests) (pinned (fun _ _ => some ['0']) .epoch)
    sampleSecond (fun s => (s.main, s.log.map fun e => (e.event.dir, e.item.frame.raw)))
    (.returned (.ok 0), [(.c2a, (sampleRequest 1).raw), (.a2c, sampleResponse.raw)]) (by decide +kernel)
  rw [hstart, Except.ok.injEq] at hstart'
  obtain rfl := hstart'
  simp only [Prod.mk.injEq] at hs ht
  have hnow : start sampleConfig sampleProcess (FixedClock.epoch.rfc3339Now fun _ _ => some ['0']) true emptyDisk = .ok s₀ :=
    hstart
  obtain ⟨hmanifest, hlog, hblobs⟩ := reproducible ['t'] rfl rfl hnow hnow hrun₁ hrun₂ hs.1 ht.1
    spelledAlike_sample.parsed spelledAlike_sample.parsed (hs.2.trans ht.2.symm)
  exact ⟨s₀, s, t, hstart, hrun₁, hrun₂, hmanifest.mpr (.inr rfl), hlog, fun h => hblobs h rfl⟩

end AcpCore.Proxy
