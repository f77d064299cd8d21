import AcpCore.Proxy.Completeness

/-!
# The form of the trace

Both relay threads share the writer, and the c2a thread may go on after the main thread
has taken it.

## What is proved

* `Faultless.step` — where the disk does not fail, no thread fails to record;
* `InOrder.step` — events are numbered as they are recorded, and those of a direction
  are of the frames its thread has forwarded, from the first on;
* `Closed.step` — the writer is gone once the main thread has finalized, with the
  manifest it left, and nothing changes the disk after that;
* **`wellFormed_of_run`** — what holds of the log in every state of every run.
-/

namespace AcpCore.Proxy

open AcpCore.Text AcpCore.Wire AcpCore.Trace

/-- The main thread has finalized. -/
def Main.finalized : Main → Bool
  | .joiningC2a _ => true
  | .returned (.ok _) => true
  | _ => false

variable (X : Crates)

/-- An event says what a frame is, and which way it went. -/
def EventOf (dir : Direction) (event : EventRecord) (item : Item) : Prop :=
  ∃ seq now, event = TraceWriter.eventRecord X seq dir item.frame now

/-- The disk does not fail, and so nothing does that is done on it. -/
structure Faultless (root : Str) (m : Manifest) (s : State) : Prop where
  /-- Nothing fails. -/
  noFaults : s.disk.faults = .none
  /-- No thread has failed to record. -/
  unfailed : s.Unfailed
  /-- The log has a line for each frame recorded. -/
  written : Written root m s

/-- The frames recorded are those forwarded, in their order. -/
structure InOrder (s : State) : Prop where
  /-- Events are numbered from 0. -/
  seq : ∀ i e, s.log[i]? = some e → e.event.seq = Fin.ofNat _ i
  /-- An event is its frame's. -/
  event : ∀ e ∈ s.log, EventOf X e.event.dir e.event e.item
  /-- What a thread has forwarded begins with what it has recorded; as long as there is a writer the rest is
  what it is about to record. -/
  forwarded : ∀ dir, ∃ rest, (s.lane dir).forwarded = recordedIn dir s.log ++ rest ∧
    (s.slot.isSome = true → rest = (s.lane dir).thread.held)

/-- The writer is gone exactly when the main thread has finalized. -/
structure Closed (root : Str) (m : Manifest) (s : State) : Prop where
  /-- It takes the writer when it does. -/
  taken : s.slot = none ↔ s.main.finalized = true
  /-- It has written the manifest of the frames recorded. -/
  manifest : s.slot = none → ∃ now,
    s.disk.files (join root manifestFile) = some (Trace.finalManifest X m (s.log.map Entry.event) now).toVecPretty

variable {X}

/-! ### Without faults -/

theorem healed_of_noFaults {d : Disk} (h : d.faults = .none) : d.healed = d := by
  rw [Disk.healed, ← h]

/-- A writer records where nothing fails. -/
theorem Faultless.record {root : Str} {m : Manifest} {s : State} (h : Faultless root m s) {w : TraceWriter}
    (hslot : s.slot = some w) (dir : Direction) (f : Frame) (now : U128) :
    ∃ hash w' d, w.record X dir f now s.disk = (.ok hash, w', d) ∧ d.faults = .none := by
  have hw := h.written.writer w hslot
  rw [healed_of_noFaults h.noFaults] at hw
  obtain ⟨w', d, hrec, hw', -⟩ := record_noFaults X hw ⟨dir, f, now⟩
  exact ⟨_, w', d, hrec, hw'.noFaults⟩

/-- The main thread finalizes where nothing fails. -/
theorem Faultless.finalize {root : Str} {m : Manifest} {s : State} (h : Faultless root m s) {w : TraceWriter}
    (hslot : s.slot = some w) (now : Str) :
    ∃ d, w.finalize X now s.disk = (.ok (), d) ∧ d.faults = .none ∧ d.files (join root manifestFile)
      = some (Trace.finalManifest X m (s.log.map Entry.event) now).toVecPretty := by
  have hw := h.written.writer w hslot
  rw [healed_of_noFaults h.noFaults] at hw
  obtain ⟨d, hfin, hf, hfiles⟩ := finalize_noFaults X hw now
  exact ⟨d, hfin, hf, by rw [hfiles, Function.update_self]⟩

/-- **One action** on a disk that does not fail. -/
theorem Faultless.step {root : Str} {m : Manifest} {s s' : State} {a : Action} (he : Effect X s a s')
    (h : Faultless root m s) : Faultless root m s' := by
  have hdisk : s'.disk.faults = .none ∧ s'.Unfailed := by
    cases he with
    | lane hl =>
      exact ⟨h.noFaults, State.forall_setLane (P := fun _ l => l.thread.failed = false) (hl.failed (h.unfailed _))
        fun dir' _ => h.unfailed dir'⟩
    | skipped _ _ =>
      exact ⟨h.noFaults, State.forall_setLane (P := fun _ l => l.thread.failed = false) rfl fun dir' _ => h.unfailed dir'⟩
    | @recorded dir now item _ _ _ _ _ hslot hrec =>
      obtain ⟨_, _, _, hrec', hf⟩ := h.record hslot dir item.frame now
      rw [hrec] at hrec'
      cases hrec'
      exact ⟨hf, State.forall_setLane (P := fun _ l => l.thread.failed = false) rfl fun dir' _ => h.unfailed dir'⟩
    | @failed dir now item _ _ _ _ _ hslot hrec =>
      obtain ⟨_, _, _, hrec', -⟩ := h.record hslot dir item.frame now
      rw [hrec] at hrec'
      cases hrec'
    | @finalized now _ _ _ _ hslot _ =>
      obtain ⟨d, hfin, hf, -⟩ := h.finalize (X := X) hslot now
      refine ⟨?_, h.unfailed⟩
      simp only [hfin, hf]
    | quiet hlane _ hdisk _ _ _ =>
      refine ⟨hdisk ▸ h.noFaults, ?_⟩
      rw [State.Unfailed, hlane]
      exact h.unfailed
  exact ⟨hdisk.1, hdisk.2, h.written.step hdisk.2 he⟩

/-! ### In order -/

theorem InOrder.initial (w : TraceWriter) (d : Disk) : InOrder X (.initial w d) where
  seq i e he := by
    rw [State.initial, List.getElem?_nil] at he
    cases he
  event e he := by cases he
  forwarded _ := ⟨[], rfl, fun _ => rfl⟩

/-- An action of a lane leaves what is recorded, and forwards what is to be recorded next. -/
theorem InOrder.lane {s : State} {dir : Direction} {a : LaneAction} {l : Lane} {after : ℕ} (h : InOrder X s)
    (hl : LaneStep after a (s.lane dir) l) : InOrder X (s.setLane dir l) where
  seq := h.seq
  event := h.event
  forwarded := by
    refine State.forall_setLane (P := fun dir l => ∃ rest, l.forwarded = recordedIn dir s.log ++ rest ∧
      (s.slot.isSome = true → rest = l.thread.held)) ?_ fun dir' _ => h.forwarded dir'
    obtain ⟨rest, hrest, hheld⟩ := h.forwarded dir
    rcases hl.forwarded with ⟨hforwarded, hrec⟩ | ⟨item, -, hthread, hforwarded, hthread'⟩
    · exact ⟨rest, hforwarded.trans hrest, fun hslot => (hheld hslot).trans (Thread.held_congr hrec).symm⟩
    · refine ⟨rest ++ [item], by rw [hforwarded, hrest, List.append_assoc], fun hslot => ?_⟩
      rw [hheld hslot, hthread, hthread', Thread.held_writing, Thread.held_recording, List.nil_append]

/-- What is recorded was to be recorded next. -/
theorem InOrder.recorded {s s' : State} {a : Action} {e : Entry} (h : InOrder X s) (happ : Appends X s a s' e)
    (hevent : EventOf X e.event.dir e.event e.item) (hseq : e.event.seq = Fin.ofNat _ s.log.length) : InOrder X s' where
  seq i e' he' := by
    rw [happ.log] at he'
    rcases Nat.lt_or_ge i s.log.length with hlt | hge
    · rw [List.getElem?_append_left hlt] at he'
      exact h.seq i e' he'
    · rw [List.getElem?_append_right hge] at he'
      obtain ⟨hlt, heq⟩ := List.getElem?_eq_some_iff.mp he'
      rw [List.length_singleton] at hlt
      obtain rfl : i = s.log.length := by omega
      rw [← heq, List.getElem_singleton]
      exact hseq
  event e' he' := by
    rw [happ.log] at he'
    rcases List.mem_append.mp he' with he' | he'
    · exact h.event e' he'
    · cases List.mem_singleton.mp he'
      exact hevent
  forwarded dir := by
    obtain ⟨w, hslot, -⟩ := happ.seq
    have hsome : s.slot.isSome = true := by rw [hslot]; rfl
    rw [happ.lane, happ.log]
    refine State.forall_setLane (P := fun dir l => ∃ rest, l.forwarded = recordedIn dir (s.log ++ [e]) ++ rest ∧
      (s'.slot.isSome = true → rest = l.thread.held)) ?_ (fun dir' hdir => ?_) dir
    · obtain ⟨rest, hrest, hheld⟩ := h.forwarded e.event.dir
      refine ⟨[], ?_, fun _ => rfl⟩
      rw [recordedIn_concat_self, List.append_nil, hrest, hheld hsome, happ.thread, Thread.held_recording]
    · obtain ⟨rest, hrest, hheld⟩ := h.forwarded dir'
      refine ⟨rest, by rw [recordedIn_concat_of_ne hdir.symm, hrest], fun _ => hheld hsome⟩

/-- **One action** keeps the order. -/
theorem InOrder.step {root : Str} {m : Manifest} {s s' : State} {a : Action} (he : Effect X s a s')
    (hs' : s'.Unfailed) (hw : Written root m s) (h : InOrder X s) : InOrder X s' := by
  cases he with
  | lane hl => exact h.lane hl
  | @skipped dir _ _ hthread hslot =>
    refine ⟨h.seq, h.event, State.forall_setLane (P := fun dir l => ∃ rest, l.forwarded = recordedIn dir s.log ++ rest ∧
      (s.slot.isSome = true → rest = l.thread.held)) ?_ fun dir' _ => h.forwarded dir'⟩
    obtain ⟨rest, hrest, -⟩ := h.forwarded dir
    refine ⟨rest, hrest, fun hsome => ?_⟩
    rw [hslot] at hsome
    cases hsome
  | @recorded dir now item w _ _ _ hthread hslot _ =>
    refine h.recorded (a := .record dir now) (.recorded hthread hslot rfl rfl) ⟨_, _, rfl⟩ ?_
    have := (hw.writer w hslot).nextSeq_eq
    rwa [List.length_map] at this
  | @failed dir _ _ _ _ _ _ _ _ _ =>
    have hdir := hs' dir
    rw [State.setLane_self] at hdir
    cases hdir
  | finalized _ _ _ =>
    refine ⟨h.seq, h.event, fun dir => ?_⟩
    obtain ⟨rest, hrest, -⟩ := h.forwarded dir
    exact ⟨rest, hrest, nofun⟩
  | quiet hlane hslot _ hlog _ _ =>
    refine ⟨?_, ?_, ?_⟩
    · rw [hlog]
      exact h.seq
    · rw [hlog]
      exact h.event
    · rw [hlane, hlog, hslot]
      exact h.forwarded

/-! ### Once the writer is gone -/

/-- Without a writer nothing is written. -/
theorem Effect.of_slot_none {s s' : State} {a : Action} (he : Effect X s a s') (hslot : s.slot = none) :
    s'.slot = none ∧ s'.disk = s.disk ∧ s'.log = s.log := by
  cases he with
  | lane _ => exact ⟨hslot, rfl, rfl⟩
  | skipped _ _ => exact ⟨hslot, rfl, rfl⟩
  | recorded _ hsome _ => rw [hslot] at hsome; cases hsome
  | failed _ hsome _ => rw [hslot] at hsome; cases hsome
  | finalized _ hsome _ => rw [hslot] at hsome; cases hsome
  | quiet _ hslot' hdisk hlog _ _ => exact ⟨hslot'.trans hslot, hdisk, hlog⟩

/-- Only finalizing takes the writer. -/
theorem Effect.slot_isSome {s s' : State} {a : Action} (he : Effect X s a s') (ha : ∀ now, a ≠ .finalize now)
    (hslot : s.slot ≠ none) : s'.slot ≠ none := by
  cases he with
  | lane _ => exact hslot
  | skipped _ hnone => exact absurd hnone hslot
  | recorded _ _ _ => exact nofun
  | failed _ _ _ => exact nofun
  | @finalized now _ _ _ _ _ _ => exact absurd rfl (ha now)
  | quiet _ hslot' _ _ _ _ => rwa [hslot']

/-- Only finalizing gets the main thread past it. -/
theorem finalized_of_step {s s' : State} {a : Action} (h : step X s a = some s') (ha : ∀ now, a ≠ .finalize now) :
    s'.main.finalized = s.main.finalized := by
  cases a with
  | finalize now => exact absurd rfl (ha now)
  | lane dir a =>
    obtain ⟨l, -, rfl⟩ := Option.map_eq_some_iff.mp h
    rfl
  | record dir now =>
    rw [step, State.record] at h
    split at h
    · split at h
      · cases h
        rfl
      · split at h <;> cases h <;> rfl
    · cases h
  | stderr a =>
    obtain ⟨e, -, rfl⟩ := Option.map_eq_some_iff.mp h
    rfl
  | exit status =>
    rw [step] at h
    split_ifs at h
    cases h
    rfl
  | wait | joinA2c | joinStderr | joinC2a =>
    rw [step] at h
    split at h
    · next hmain _ =>
      cases h
      rw [hmain]
      rfl
    · cases h
  | waitFails =>
    rw [step] at h
    split at h
    · next hmain =>
      cases h
      rw [hmain]
      rfl
    · cases h

/-- **One action** on a disk that does not fail. -/
theorem Closed.step {root : Str} {m : Manifest} {s s' : State} {a : Action} (hs : step X s a = some s')
    (hf : Faultless root m s) (h : Closed X root m s) : Closed X root m s' := by
  have he := Effect.of_step hs
  by_cases ha : ∀ now, a ≠ .finalize now
  · have hslot : s'.slot = none ↔ s.slot = none :=
      ⟨fun hnone => by_contra fun hsome => he.slot_isSome ha hsome hnone, fun hnone => (he.of_slot_none hnone).1⟩
    refine ⟨by rw [hslot, h.taken, finalized_of_step hs ha], fun hnone => ?_⟩
    obtain ⟨-, hdisk, hlog⟩ := he.of_slot_none (hslot.mp hnone)
    rw [hdisk, hlog]
    exact h.manifest (hslot.mp hnone)
  · obtain ⟨now, rfl⟩ := not_forall_not.mp ha
    rw [AcpCore.Proxy.step, State.finalize] at hs
    split at hs
    · next status hmain =>
      split at hs
      · next hslot =>
        have := h.taken.mp hslot
        rw [hmain] at this
        cases this
      · next w hslot =>
        obtain ⟨d, hfin, -, hfiles⟩ := hf.finalize (X := X) hslot now
        rw [hfin] at hs
        cases hs
        exact ⟨iff_of_true rfl rfl, fun _ => ⟨now, hfiles⟩⟩
    · cases hs

/-! ### Every run -/

/-- The events of a direction are those of the frames recorded in it. -/
theorem InOrder.events {s : State} (h : InOrder X s) (dir : Direction) :
    List.Forall₂ (EventOf X dir) ((s.log.map Entry.event).filter (·.dir = dir)) (recordedIn dir s.log) := by
  rw [List.filter_map, recordedIn, List.forall₂_map_left_iff, List.forall₂_map_right_iff]
  refine List.forall₂_same.mpr fun e he => ?_
  obtain ⟨hmem, hdir⟩ := List.mem_filter.mp he
  have hevent := h.event e hmem
  rwa [of_decide_eq_true hdir] at hevent

/-- What holds in every state of a run on a disk that does not fail. -/
theorem invariants_of_run {cfg : ProxyConfig} {p : Process} {now : Str} {spawned : Bool} {d : Disk}
    (hd : d.faults = .none) {s₀ s : State} {as : List Action}
    (hstart : start cfg p now spawned d = .ok s₀)
    (hrun : run X Machine.anything s₀ as = some s) :
    Faultless cfg.traceDir (cfg.manifest p now) s ∧ InOrder X s ∧ Closed X cfg.traceDir (cfg.manifest p now) s := by
  obtain ⟨w, d', hcreate, rfl⟩ := start_ok hstart
  obtain ⟨w', d'', hcreate', hrecorded, -⟩ := createWithClock_noFaults hd cfg.traceDir (cfg.manifest p now)
  rw [hcreate, Prod.mk.injEq, Except.ok.injEq] at hcreate'
  obtain ⟨rfl, rfl⟩ := hcreate'
  refine Machine.run_invariant (P := fun s => Faultless cfg.traceDir _ s ∧ InOrder X s ∧ Closed X cfg.traceDir _ s) ?_
    hrun ?_
  · rintro s a s' - hstep ⟨hf, horder, hclosed⟩
    have he := Effect.of_step hstep
    have hf' := hf.step he
    exact ⟨hf', horder.step he hf'.unfailed hf.written, hclosed.step hstep hf⟩
  · refine ⟨⟨hrecorded.noFaults, fun _ => rfl, fun w' hw' => ?_, nofun⟩, .initial w d', ⟨⟨nofun, nofun⟩, nofun⟩⟩
    cases hw'
    exact recorded_of_create hcreate

/-- Without a writer no more actions change the disk. -/
theorem disk_of_run {s s' : State} {as : List Action} (hslot : s.slot = none)
    (hrun : run X Machine.anything s as = some s') : s'.disk = s.disk := by
  have hclosed : s'.slot = none ∧ s'.disk = s.disk := by
    refine Machine.run_invariant (P := fun s' => s'.slot = none ∧ s'.disk = s.disk) ?_ hrun ⟨hslot, rfl⟩
    rintro s₁ a s₂ - hstep ⟨hslot₁, hdisk₁⟩
    obtain ⟨hslot₂, hdisk₂, -⟩ := (Effect.of_step hstep).of_slot_none hslot₁
    exact ⟨hslot₂, hdisk₂.trans hdisk₁⟩
  exact hclosed.2

/-- **The log is well formed in every state of every run** on a disk that does not fail. It has the lines of
some records: they are numbered in order (a `u64` is a number modulo `2 ^ 64`), those of each direction
are of the frames its thread has forwarded, in their order, from the first on, and once the main thread
has finalized, the manifest has their number and the log's hash, and no more actions change the disk. -/
theorem wellFormed_of_run {cfg : ProxyConfig} {p : Process} {now : Str} {spawned : Bool} {d : Disk}
    (hd : d.faults = .none) {s₀ s : State} {as : List Action}
    (hstart : start cfg p now spawned d = .ok s₀)
    (hrun : run X Machine.anything s₀ as = some s) :
    ∃ recs, s.disk.files (join cfg.traceDir eventsFile) = some (logBytes recs) ∧
      (∀ i e, recs[i]? = some e → e.seq.val = i % 2 ^ 64) ∧
      (∀ dir, ∃ items, items <+: (s.lane dir).forwarded ∧
        List.Forall₂ (EventOf X dir) (recs.filter (·.dir = dir)) items) ∧
      (s.main.finalized = true →
        (∃ m : Manifest, s.disk.files (join cfg.traceDir manifestFile) = some m.toVecPretty ∧
          m.eventCount = some (Fin.ofNat _ recs.length) ∧
          m.eventsHash = some (blake3Prefix ++ formatBlake3Hex (X.blake3 (logBytes recs)).1)) ∧
        ∀ as' s', run X Machine.anything s as' = some s' → s'.disk = s.disk) := by
  obtain ⟨hf, horder, hclosed⟩ := invariants_of_run hd hstart hrun
  refine ⟨s.log.map Entry.event, hf.written.file, fun i e he => ?_, fun dir => ?_, fun hmain => ?_⟩
  · rw [List.getElem?_map, Option.map_eq_some_iff] at he
    obtain ⟨entry, hentry, rfl⟩ := he
    rw [horder.seq i entry hentry]
    rfl
  · obtain ⟨rest, hrest, -⟩ := horder.forwarded dir
    exact ⟨recordedIn dir s.log, hrest ▸ List.prefix_append _ _, horder.events dir⟩
  · have hslot := hclosed.taken.mpr hmain
    obtain ⟨now', hmanifest⟩ := hclosed.manifest hslot
    exact ⟨⟨_, hmanifest, rfl, rfl⟩, fun _ _ => disk_of_run hslot⟩

theorem wellFormed_of_run_sample :
    ∃ s₀ s, sampleStart = .ok s₀ ∧
      run (.plain loggedDigests) Machine.anything s₀
        (sampleExchange ++ [.record .a2c 0, .record .c2a 0] ++ sampleExit) = some s ∧
      s.main.finalized = true ∧ ∃ recs, s.disk.files (join ['t'] eventsFile) = some (logBytes recs) ∧
        (∀ i e, recs[i]? = some e → e.seq.val = i % 2 ^ 64) ∧
        (∀ dir, ∃ items, items <+: (s.lane dir).forwarded ∧
          List.Forall₂ (EventOf (.plain loggedDigests) dir) (recs.filter (·.dir = dir)) items) ∧
        ∀ as' s', run (.plain loggedDigests) Machine.anything s as' = some s' → s'.disk = s.disk := by
  obtain ⟨s₀, s, hstart, hrun, hmain⟩ := exists_run (.plain loggedDigests) Machine.anything
    (sampleExchange ++ [.record .a2c 0, .record .c2a 0] ++ sampleExit) (fun s => s.main.finalized) true
    (by decide +kernel)
  obtain ⟨recs, hlog, hseq, hdir, hfinal⟩ := wellFormed_of_run (d := emptyDisk) rfl hstart hrun
  exact ⟨s₀, s, hstart, hrun, hmain, recs, hlog, hseq, hdir, (hfinal hmain).2⟩

end AcpCore.Proxy
