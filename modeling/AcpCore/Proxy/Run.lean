import AcpCore.Library.Machine
import AcpCore.Proxy.Lane

/-!
# The proxy

`run` spawns the agent and relays: one thread reads the client's frames, writes each
to the agent and records it; another does the same the other way; a third passes
stderr on. The main thread waits for the agent, joins all but the first of these,
takes the writer and finalizes the trace, and joins the first.

## The model

A `State` has a `Lane` for each direction, stderr, the writer in its slot and the main
thread. What a thread does holding the lock (recording, finalizing) is one action, as is
a call that reads or writes. The peers act at any time, and a call may fail at any
time; the agent stands for all that holds its pipes.

## What is proved

* `Effect.of_step` — what one action can do;
* `written_of_run` — every run: where no `record` has failed, the log on the disk has
  a line for each frame recorded, in the order in which they were.
-/

namespace AcpCore.Proxy

open AcpCore.Text AcpCore.Wire AcpCore.Trace

/-! ### The whole -/

/-- An agent's exit status: its exit code, or that a signal ended it. -/
abbrev ExitStatus := Option ℤ

/-- Where the main thread is. -/
inductive Main where
  /-- `child.wait()`. -/
  | waiting
  /-- `a2c.join()`. -/
  | joiningA2c (status : ExitStatus)
  /-- `stderr.join()`. -/
  | joiningStderr (status : ExitStatus)
  /-- It takes and finalizes the writer. -/
  | finalizing (status : ExitStatus)
  /-- `c2a.join()`. -/
  | joiningC2a (status : ExitStatus)
  /-- `run` has returned. -/
  | returned (result : Except ProxyError ℤ)
  deriving DecidableEq

/-- A frame recorded: `record` returned `Ok` for it. -/
structure Entry where
  /-- Which of the frames forwarded in its direction it is. -/
  index : ℕ
  /-- The frame. -/
  item : Item
  /-- Its event. -/
  event : EventRecord

/-- The state of a run. -/
structure State where
  /-- The lanes. -/
  lane : Direction → Lane
  /-- Stderr. -/
  stderr : Stderr
  /-- The agent's exit status, once it has exited. -/
  exited : Option ExitStatus
  /-- The writer, in its slot. -/
  slot : Option TraceWriter
  /-- The disk. -/
  disk : Disk
  /-- The main thread. -/
  main : Main
  /-- The frames recorded, in order. -/
  log : List Entry

/-- The state when all threads have been spawned. -/
def State.initial (w : TraceWriter) (d : Disk) : State where
  lane := fun _ => .idle
  stderr := .idle
  exited := none
  slot := some w
  disk := d
  main := .waiting
  log := []

/-- `ProxyConfig`, but for the clock: what is read from it is given. -/
structure ProxyConfig where
  /-- The agent's executable and its arguments. -/
  agentArgv : List OsString
  /-- The directory of the trace. -/
  traceDir : Str
  /-- The recorder's version. -/
  recorderVersion : Str
  /-- The environment variables to capture. -/
  envWhitelist : List Str
  /-- No environment is recorded. -/
  skipRecordingEnv : Bool

/-- The manifest that `run` makes, in a process. -/
def ProxyConfig.manifest (cfg : ProxyConfig) (p : Process) (now : Str) : Manifest :=
  (Manifest.newWithClock cfg.recorderVersion (cfg.agentArgv.map toStringLossy) now).withCapture cfg.skipRecordingEnv
    cfg.envWhitelist p

/-- It is of the version that is read. -/
@[simp] theorem ProxyConfig.manifest_formatVersion (cfg : ProxyConfig) (p : Process) (now : Str) :
    (cfg.manifest p now).formatVersion = formatVersion :=
  Manifest.withCapture_formatVersion ..

/-- `run` up to the spawning of its threads; whether the agent can be spawned is given. -/
def start (cfg : ProxyConfig) (p : Process) (now : Str) (spawned : Bool) (d : Disk) : Except ProxyError State :=
  if cfg.agentArgv = [] then .error .emptyArgv
  else
    match TraceWriter.createWithClock cfg.traceDir (cfg.manifest p now) d with
    | (.error e, _) => .error (.trace e)
    | (.ok w, d) => if spawned then .ok (.initial w d) else .error .io

/-- An action. -/
inductive Action where
  /-- On a lane. -/
  | lane (dir : Direction) (a : LaneAction)
  /-- A relay thread takes the lock and records. -/
  | record (dir : Direction) (now : U128)
  /-- On stderr. -/
  | stderr (a : StderrAction)
  /-- The agent exits. -/
  | exit (status : ExitStatus)
  /-- `child.wait()` returns. -/
  | wait
  /-- `child.wait()` fails. -/
  | waitFails
  /-- `a2c.join()` returns. -/
  | joinA2c
  /-- `stderr.join()` returns. -/
  | joinStderr
  /-- The main thread takes the lock, takes the writer and finalizes it. -/
  | finalize (now : Str)
  /-- `c2a.join()` returns, and then `run`. -/
  | joinC2a

variable (X : Crates)

/-- A state with another lane. -/
def State.setLane (s : State) (dir : Direction) (l : Lane) : State := { s with lane := Function.update s.lane dir l }

@[simp] theorem State.setLane_self (s : State) (dir : Direction) (l : Lane) : (s.setLane dir l).lane dir = l :=
  Function.update_self ..

theorem State.setLane_of_ne (s : State) {dir dir' : Direction} (h : dir' ≠ dir) (l : Lane) :
    (s.setLane dir l).lane dir' = s.lane dir' := Function.update_of_ne h ..

theorem State.forall_setLane {P : Direction → Lane → Prop} {s : State} {dir : Direction} {l : Lane} (h : P dir l)
    (hother : ∀ dir', dir' ≠ dir → P dir' (s.lane dir')) (dir' : Direction) : P dir' ((s.setLane dir l).lane dir') := by
  by_cases hdir : dir' = dir
  · subst hdir
    rwa [setLane_self]
  · rw [setLane_of_ne _ hdir]
    exact hother dir' hdir

/-- What a relay thread does holding the lock. -/
def State.record (s : State) (dir : Direction) (now : U128) : Option State :=
  match (s.lane dir).thread with
  | .recording item =>
    match s.slot with
    | none => some (s.setLane dir { s.lane dir with thread := .reading })
    | some w =>
      match w.record X dir item.frame now s.disk with
      | (.ok _, w', d) =>
        some { s.setLane dir { s.lane dir with thread := .reading } with
          slot := some w'
          disk := d
          log := s.log ++ [⟨(s.lane dir).forwarded.length - 1, item,
            TraceWriter.eventRecord X w.nextSeq dir item.frame now⟩] }
      | (.error e, w', d) =>
        some { s.setLane dir { s.lane dir with thread := .done (.failed (.trace e)) } with slot := some w', disk := d }
  | _ => none

/-- A thread that takes the lock now does not fail to record. -/
def State.recordSucceeds (s : State) (dir : Direction) (now : U128) : Bool :=
  match (s.lane dir).thread, s.slot with
  | .recording item, some w => (w.record X dir item.frame now s.disk).1.isOk
  | _, _ => true

/-- What the main thread does holding the lock. -/
def State.finalize (s : State) (now : Str) : Option State :=
  match s.main with
  | .finalizing status =>
    match s.slot with
    | none => some { s with main := .joiningC2a status }
    | some w =>
      match w.finalize X now s.disk with
      | (.ok (), d) => some { s with slot := none, disk := d, main := .joiningC2a status }
      | (.error e, d) => some { s with slot := none, disk := d, main := .returned (.error (.trace e)) }
  | _ => none

/-- One action. -/
def step (s : State) : Action → Option State
  | .lane dir a => ((s.lane dir).step (s.lane (other dir)).received a).map (s.setLane dir)
  | .record dir now => s.record X dir now
  | .stderr a => (s.stderr.step a).map fun stderr => { s with stderr }
  | .exit status => if s.exited.isSome then none else some { s with exited := some status }
  | .wait =>
    match s.main, s.exited with
    | .waiting, some status => some { s with main := .joiningA2c status }
    | _, _ => none
  | .waitFails =>
    match s.main with
    | .waiting => some { s with main := .returned (.error .io) }
    | _ => none
  | .joinA2c =>
    match s.main, (s.lane .a2c).thread with
    | .joiningA2c status, .done _ => some { s with main := .joiningStderr status }
    | _, _ => none
  | .joinStderr =>
    match s.main, s.stderr.thread with
    | .joiningStderr status, .done => some { s with main := .finalizing status }
    | _, _ => none
  | .finalize now => s.finalize X now
  | .joinC2a =>
    match s.main, (s.lane .c2a).thread with
    -- the results of the threads are not looked at
    | .joiningC2a status, .done _ => some { s with main := .returned (.ok (status.getD 0)) }
    | _, _ => none

/-- The actions of a run, each allowed where it is taken. -/
abbrev run (allowed : State → Action → Bool) : State → List Action → Option State := Machine.run (step X) allowed

/-! ### What an action can do -/

/-- The main thread has seen the a2c thread return, and has not returned an error. -/
def Main.joined : Main → Bool
  | .joiningStderr _ => true
  | .finalizing _ => true
  | .joiningC2a _ => true
  | .returned (.ok _) => true
  | _ => false

/-- All that an action can do to the state. -/
inductive Effect (s : State) : Action → State → Prop where
  /-- An action of a lane. -/
  | lane {dir : Direction} {a : LaneAction} {l : Lane} :
      LaneStep (s.lane (other dir)).received a (s.lane dir) l → Effect s (.lane dir a) (s.setLane dir l)
  /-- A thread finds no writer. -/
  | skipped {dir : Direction} {now : U128} {item : Item} :
      (s.lane dir).thread = .recording item → s.slot = none →
      Effect s (.record dir now) (s.setLane dir { s.lane dir with thread := .reading })
  /-- A thread records its frame. -/
  | recorded {dir : Direction} {now : U128} {item : Item} {w w' : TraceWriter} {d : Disk} {hash : Str} :
      (s.lane dir).thread = .recording item → s.slot = some w →
      w.record X dir item.frame now s.disk = (.ok hash, w', d) →
      Effect s (.record dir now)
        { s.setLane dir { s.lane dir with thread := .reading } with
          slot := some w'
          disk := d
          log := s.log ++ [⟨(s.lane dir).forwarded.length - 1, item,
            TraceWriter.eventRecord X w.nextSeq dir item.frame now⟩] }
  /-- A thread fails to record its frame. -/
  | failed {dir : Direction} {now : U128} {item : Item} {w w' : TraceWriter} {d : Disk} {e : TraceError} :
      (s.lane dir).thread = .recording item → s.slot = some w →
      w.record X dir item.frame now s.disk = (.error e, w', d) →
      Effect s (.record dir now)
        { s.setLane dir { s.lane dir with thread := .done (.failed (.trace e)) } with slot := some w', disk := d }
  /-- The main thread finalizes the writer. -/
  | finalized {now : Str} {w : TraceWriter} {status : ExitStatus} {main : Main} :
      s.main = .finalizing status → s.slot = some w → (∀ code, main ≠ .returned (.ok code)) →
      Effect s (.finalize now) { s with slot := none, disk := (w.finalize X now s.disk).2, main := main }
  /-- Anything else: the peers, the stderr thread, and the main thread waiting. -/
  | quiet {a : Action} {s' : State} :
      s'.lane = s.lane → s'.slot = s.slot → s'.disk = s.disk → s'.log = s.log →
      (s'.main.joined = true → s.main.joined = true ∨ ∃ r, (s.lane .a2c).thread = .done r) →
      (∀ code, s'.main = .returned (.ok code) → s.main = .returned (.ok code) ∨ ∃ r, (s.lane .c2a).thread = .done r) →
      Effect s a s'

variable {X} in
/-- **What an action can do.** -/
theorem Effect.of_step {s s' : State} {a : Action} (h : step X s a = some s') : Effect X s a s' := by
  cases a with
  | lane dir a =>
    obtain ⟨l, hl, rfl⟩ := Option.map_eq_some_iff.mp h
    exact .lane (.of_step hl)
  | record dir now =>
    rw [step, State.record] at h
    split at h
    · next item hthread =>
      split at h
      · next hslot =>
        cases h
        exact .skipped hthread hslot
      · next w hslot =>
        split at h
        · next hash w' d hrec =>
          cases h
          exact .recorded hthread hslot hrec
        · next e w' d hrec =>
          cases h
          exact .failed hthread hslot hrec
    · cases h
  | finalize now =>
    rw [step, State.finalize] at h
    split at h
    · next status hmain =>
      split at h
      · cases h
        exact .quiet rfl rfl rfl rfl (fun _ => .inl (by rw [hmain]; rfl)) nofun
      · next w hslot =>
        split at h
        · next d hfin =>
          cases h
          obtain rfl : (w.finalize X now s.disk).2 = d := by rw [hfin]
          exact .finalized hmain hslot nofun
        · next e d hfin =>
          cases h
          obtain rfl : (w.finalize X now s.disk).2 = d := by rw [hfin]
          exact .finalized hmain hslot nofun
    · cases h
  | stderr a =>
    obtain ⟨e, -, rfl⟩ := Option.map_eq_some_iff.mp h
    exact .quiet rfl rfl rfl rfl .inl fun _ => .inl
  | exit status =>
    rw [step] at h
    split_ifs at h
    cases h
    exact .quiet rfl rfl rfl rfl .inl fun _ => .inl
  | wait | waitFails =>
    rw [step] at h
    split at h
    · cases h
      exact .quiet rfl rfl rfl rfl nofun nofun
    · cases h
  | joinA2c =>
    rw [step] at h
    split at h
    · next status r _ hthread =>
      cases h
      exact .quiet rfl rfl rfl rfl (fun _ => .inr ⟨r, hthread⟩) nofun
    · cases h
  | joinStderr =>
    rw [step] at h
    split at h
    · next status hmain _ =>
      cases h
      exact .quiet rfl rfl rfl rfl (fun _ => .inl (by rw [hmain]; rfl)) nofun
    · cases h
  | joinC2a =>
    rw [step] at h
    split at h
    · next status r hmain hthread =>
      cases h
      exact .quiet rfl rfl rfl rfl (fun _ => .inl (by rw [hmain]; rfl)) fun _ _ => .inr ⟨r, hthread⟩
    · cases h

/-- What a thread that records its frame adds to the log. -/
structure Appends (s : State) (a : Action) (s' : State) (e : Entry) : Prop where
  /-- It is the thread's action. -/
  action : ∃ now, a = .record e.event.dir now
  /-- The frame was the thread's. -/
  thread : (s.lane e.event.dir).thread = .recording e.item
  /-- It is the last one forwarded. -/
  index : e.index = (s.lane e.event.dir).forwarded.length - 1
  /-- The thread goes on. -/
  lane : s'.lane = (s.setLane e.event.dir { s.lane e.event.dir with thread := .reading }).lane
  /-- The event is the next one. -/
  seq : ∃ w, s.slot = some w ∧ e.event.seq = w.nextSeq
  /-- The event has the frame's hash. -/
  hash : e.event.hash = e.item.frame.payloadHashStr X
  /-- It is added at the end. -/
  log : s'.log = s.log ++ [e]

variable {X}

/-- Recording adds the thread's frame. -/
theorem Appends.recorded {s s' : State} {dir : Direction} {now : U128} {item : Item} {w : TraceWriter}
    (hthread : (s.lane dir).thread = .recording item) (hslot : s.slot = some w)
    (hlane : s'.lane = (s.setLane dir { s.lane dir with thread := .reading }).lane)
    (hlog : s'.log = s.log ++ [⟨(s.lane dir).forwarded.length - 1, item,
      TraceWriter.eventRecord X w.nextSeq dir item.frame now⟩]) :
    Appends X s (.record dir now) s' ⟨(s.lane dir).forwarded.length - 1, item,
      TraceWriter.eventRecord X w.nextSeq dir item.frame now⟩ where
  action := ⟨now, rfl⟩
  thread := hthread
  index := rfl
  lane := hlane
  seq := ⟨w, hslot, rfl⟩
  hash := TraceWriter.eventRecord_hash ..
  log := hlog

/-- Every action leaves the log or adds one frame. -/
theorem Effect.log {s s' : State} {a : Action} (h : Effect X s a s') :
    s'.log = s.log ∨ ∃ e, Appends X s a s' e := by
  cases h with
  | lane _ => exact .inl rfl
  | skipped _ _ => exact .inl rfl
  | recorded hthread hslot _ => exact .inr ⟨_, .recorded hthread hslot rfl rfl⟩
  | failed _ _ _ => exact .inl rfl
  | finalized _ _ _ => exact .inl rfl
  | quiet _ _ _ hlog _ _ => exact .inl hlog

theorem Effect.mem_log {s s' : State} {a : Action} (h : Effect X s a s') {g : Entry} (hg : g ∈ s'.log) :
    g ∈ s.log ∨ Appends X s a s' g := by
  rcases h.log with hlog | ⟨e, happ⟩
  · exact .inl (hlog ▸ hg)
  · rw [happ.log] at hg
    rcases List.mem_append.mp hg with hg | hg
    · exact .inl hg
    · cases List.mem_singleton.mp hg
      exact .inr happ

/-! ### The log on the disk -/

/-- No thread has failed to record. -/
def State.Unfailed (s : State) : Prop := ∀ dir, (s.lane dir).thread.failed = false

theorem State.Unfailed.of_setLane {s : State} {dir : Direction} {l : Lane} (h : (s.setLane dir l).Unfailed)
    (hl : l.thread.failed = false → (s.lane dir).thread.failed = false) : s.Unfailed := by
  intro dir'
  have hdir' := h dir'
  by_cases hdir : dir' = dir
  · subst hdir
    rw [setLane_self] at hdir'
    exact hl hdir'
  · rwa [setLane_of_ne _ hdir] at hdir'

/-- A thread that has failed stays so. -/
theorem LaneStep.failed_of_failed {after : ℕ} {a : LaneAction} {l l' : Lane} (h : LaneStep after a l l')
    (hl' : l'.thread.failed = false) : l.thread.failed = false := by
  cases hthread : l.thread with
  | done r => rwa [h.done r hthread] at hl'
  | reading => rfl
  | writing item => rfl
  | recording item => rfl

theorem Effect.unfailed {s s' : State} {a : Action} (h : Effect X s a s') (hs' : s'.Unfailed) : s.Unfailed := by
  cases h with
  | lane hl => exact hs'.of_setLane hl.failed_of_failed
  | skipped hthread _ => exact State.Unfailed.of_setLane hs' fun _ => by rw [hthread]; rfl
  | recorded hthread _ _ => exact State.Unfailed.of_setLane hs' fun _ => by rw [hthread]; rfl
  | failed hthread _ _ => exact State.Unfailed.of_setLane hs' fun _ => by rw [hthread]; rfl
  | finalized _ _ _ => exact hs'
  | quiet hlane _ _ _ _ _ => rwa [State.Unfailed, hlane] at hs'

/-- A thread that fails to record does not succeed. -/
theorem recordSucceeds_of_failed {s : State} {dir : Direction} {now : U128} {item : Item} {w w' : TraceWriter} {d : Disk}
    {e : TraceError} (hthread : (s.lane dir).thread = .recording item) (hslot : s.slot = some w)
    (hrec : w.record X dir item.frame now s.disk = (.error e, w', d)) : s.recordSucceeds X dir now = false := by
  simp only [State.recordSucceeds, hthread, hslot, hrec]
  rfl

/-- Where every `record` succeeds, no thread fails to. -/
theorem Effect.unfailed_of_recordSucceeds {s s' : State} {a : Action} (h : Effect X s a s')
    (hrecord : ∀ dir now, a = .record dir now → s.recordSucceeds X dir now = true) (hs : s.Unfailed) : s'.Unfailed := by
  have hset : ∀ {dir : Direction} {l : Lane}, l.thread.failed = false → (s.setLane dir l).Unfailed := fun hl =>
    State.forall_setLane (P := fun _ l => l.thread.failed = false) hl fun dir' _ => hs dir'
  cases h with
  | lane hl => exact hset (hl.failed (hs _))
  | skipped _ _ => exact hset rfl
  | recorded _ _ _ => exact hset (l := { s.lane _ with thread := .reading }) rfl
  | failed hthread hslot hrec =>
    have hok := hrecord _ _ rfl
    rw [recordSucceeds_of_failed hthread hslot hrec] at hok
    cases hok
  | finalized _ _ _ => exact hs
  | quiet hlane _ _ _ _ _ => rwa [State.Unfailed, hlane]

/-- The log on the disk has a line for each frame recorded. -/
structure Written (root : Str) (m : Manifest) (s : State) : Prop where
  /-- The writer is where these lines put it. -/
  writer : ∀ w, s.slot = some w → Recorded root m (s.log.map Entry.event) w s.disk.healed
  /-- Once the writer is gone, the lines are there. -/
  closed : s.slot = none → s.disk.files (join root eventsFile) = some (logBytes (s.log.map Entry.event))

theorem Written.file {root : Str} {m : Manifest} {s : State} (h : Written root m s) :
    s.disk.files (join root eventsFile) = some (logBytes (s.log.map Entry.event)) := by
  cases hslot : s.slot with
  | none => exact h.closed hslot
  | some w => exact (h.writer w hslot).log

/-- The log and the disk are all that this is about. -/
theorem Written.congr {root : Str} {m : Manifest} {s s' : State} (h : Written root m s) (hslot : s'.slot = s.slot)
    (hdisk : s'.disk = s.disk) (hlog : s'.log = s.log) : Written root m s' where
  writer w hw := by
    rw [hlog, hdisk]
    exact h.writer w (hslot ▸ hw)
  closed hw := by
    rw [hlog, hdisk]
    exact h.closed (hslot ▸ hw)

theorem Written.step {root : Str} {m : Manifest} {s s' : State} {a : Action} (hs' : s'.Unfailed) (h : Effect X s a s')
    (hw : Written root m s) : Written root m s' := by
  cases h with
  | lane _ => exact hw.congr rfl rfl rfl
  | skipped _ _ => exact hw.congr rfl rfl rfl
  | recorded _ hslot hrec =>
    refine ⟨fun w' hw' => ?_, nofun⟩
    cases hw'
    rw [List.map_append]
    exact recorded_of_record (hw.writer _ hslot) (c := ⟨_, _, _⟩) hrec
  | @failed dir _ _ _ _ _ _ _ _ _ =>
    have hdir := hs' dir
    rw [State.setLane_self] at hdir
    cases hdir
  | @finalized now _ _ _ _ hslot _ => exact ⟨nofun, fun _ => finalize_log X (hw.writer _ hslot) now⟩
  | quiet _ hslot hdisk hlog _ _ => exact hw.congr hslot hdisk hlog

/-- What `start` leaves. -/
theorem start_ok {cfg : ProxyConfig} {p : Process} {now : Str} {spawned : Bool} {d : Disk} {s : State}
    (h : start cfg p now spawned d = .ok s) :
    ∃ w d', TraceWriter.createWithClock cfg.traceDir (cfg.manifest p now) d = (.ok w, d') ∧ s = .initial w d' := by
  rw [start] at h
  split at h
  · cases h
  · split at h
    · cases h
    · next w d' hcreate =>
      split_ifs at h
      cases h
      exact ⟨w, d', hcreate, rfl⟩

/-- **Every run**: where no thread has failed to record, the log on the disk has a line for each frame
recorded, in the order in which they were. -/
theorem written_of_run {cfg : ProxyConfig} {p : Process} {now : Str} {spawned : Bool} {d : Disk}
    {allowed : State → Action → Bool} {s₀ s : State} {as : List Action} (hstart : start cfg p now spawned d = .ok s₀)
    (hrun : run X allowed s₀ as = some s) (hs : s.Unfailed) : Written cfg.traceDir (cfg.manifest p now) s := by
  obtain ⟨w, d', hcreate, rfl⟩ := start_ok hstart
  refine Machine.run_invariant (P := fun s => s.Unfailed → Written cfg.traceDir _ s) ?_ hrun ?_ hs
  · intro s a s' _ h ih hs'
    have he := Effect.of_step h
    exact (ih (he.unfailed hs')).step hs' he
  · intro _
    refine ⟨fun w' hw' => ?_, nofun⟩
    cases hw'
    exact recorded_of_create hcreate

/-! ### Runs on fixed actions -/

/-- The sample agent is `a`, whose directory is `t`. -/
def sampleConfig : ProxyConfig where
  agentArgv := [[0x61]]
  traceDir := ['t']
  recorderVersion := ['1']
  envWhitelist := [['P']]
  skipRecordingEnv := false

/-- A run of it on an empty disk. -/
def sampleStart : Except ProxyError State := start sampleConfig sampleProcess ['0'] true emptyDisk

/-- A request is written, the agent answers it, and the answer is written. -/
def sampleExchange : List Action :=
  [.lane .c2a (.send (.ok (sampleRequest 1))), .lane .c2a .read, .lane .c2a (.drain 100), .lane .c2a .write,
    .lane .c2a .receive, .lane .a2c (.send (.ok sampleResponse)), .lane .a2c .read, .lane .a2c (.drain 100),
    .lane .a2c .write]

/-- A run is looked at through a function of its last state. -/
theorem exists_run (X : Crates) (allowed : State → Action → Bool) (as : List Action) {β : Type} (g : State → β) (b : β)
    (h : (sampleStart.toOption.bind fun s₀ => run X allowed s₀ as).map g = some b) :
    ∃ s₀ s, sampleStart = .ok s₀ ∧ run X allowed s₀ as = some s ∧ g s = b := by
  obtain ⟨s, hs, hg⟩ := Option.map_eq_some_iff.mp h
  obtain ⟨s₀, hstart, hrun⟩ := Option.bind_eq_some_iff.mp hs
  refine ⟨s₀, s, ?_, hrun, hg⟩
  cases h₀ : sampleStart with
  | error e => rw [h₀] at hstart; cases hstart
  | ok _ => rw [h₀] at hstart; cases hstart; rfl

end AcpCore.Proxy
