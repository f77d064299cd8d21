import AcpCore.Proxy.Completeness

/-!
# Shutting down

When the agent has exited the main thread joins the relay threads, of which one may be
reading from the client.

## The model

A read from the client is possible when the client has sent a line or closed its end
(`Lane.step`). `own` are the actions of the proxy's threads, and `Unblocked` says that
one of them is possible until `run` has returned, once the agent has exited and closed
its stdout and stderr (`Gone`).

## What is proved

* `exists_call`, `exists_own_step` — wherever the threads are, one of them can go on, unless the main
  thread joins the c2a thread and that waits for the client (`Stalled`);
* `not_own_step` — and then none can;
* `not_stalled_of_step` — how a run gets there;
* **`unblocked_iff`** — a state that is reached is unblocked exactly when it is not
  stalled, and every state is in which a run arrives that does not leave the client's
  thread waiting.
-/

namespace AcpCore.Proxy

open AcpCore.Text AcpCore.Wire AcpCore.Trace

/-- The agent has exited, and its stdout and stderr are at their end. -/
structure Gone (s : State) : Prop where
  /-- It has exited. -/
  exited : s.exited.isSome = true
  /-- Nothing more comes from its stdout. -/
  stdout : (s.lane .a2c).closed = true
  /-- Nothing more comes from its stderr. -/
  stderr : s.stderr.closed = true

/-- An action of a lane's thread. -/
def LaneAction.own : LaneAction → Bool
  | .read => true
  | .write => true
  | .writeFails _ => true
  | _ => false

/-- An action of the stderr thread. -/
def StderrAction.own : StderrAction → Bool
  | .read _ => true
  | .readFails => true
  | .write => true
  | .writeFails _ => true
  | _ => false

/-- An action of one of the proxy's threads. -/
def own : Action → Bool
  | .lane _ a => a.own
  | .stderr a => a.own
  | .exit _ => false
  | _ => true

/-- Nothing is left to read, and the sender has its end open. -/
def Lane.starved (l : Lane) : Bool := l.queue.isEmpty && !l.closed

/-- It joins the c2a thread. -/
def Main.joinsC2a : Main → Bool
  | .joiningC2a _ => true
  | _ => false

/-- The main thread joins the c2a thread, which waits for the client. -/
structure Stalled (s : State) : Prop where
  /-- The main thread joins it. -/
  main : s.main.joinsC2a = true
  /-- It reads a frame. -/
  thread : (s.lane .c2a).thread = .reading
  /-- There is none, and the client may still send one. -/
  starved : (s.lane .c2a).starved = true

/-- The main thread does not come to join a c2a thread that waits for the client, nor does that thread come to wait
once the main thread joins it. -/
def ready (s : State) : Action → Bool
  | .finalize _ => !((s.lane .c2a).thread.isReading && (s.lane .c2a).starved)
  | .record .c2a _ => !(s.main.joinsC2a && (s.lane .c2a).starved)
  | _ => true

/-- A call of one of the threads that goes well, and that no receiver can hold up. -/
def calls : Action → Bool
  | .lane _ .read => true
  | .record _ _ => true
  | .stderr (.read _) => true
  | .wait => true
  | .joinA2c => true
  | .joinStderr => true
  | .finalize _ => true
  | .joinC2a => true
  | _ => false

/-- One of the threads is about to write. -/
def State.Writes (s : State) : Prop :=
  (∃ dir item, (s.lane dir).thread = .writing item) ∨ ∃ buf, s.stderr.thread = .writing buf

variable (X : Crates)

/-- Once the agent is gone, one of the proxy's threads can go on, until `run` has returned. -/
def Unblocked (s : State) : Prop :=
  Gone s → (∃ result, s.main = .returned result) ∨ ∃ a, own a = true ∧ (step X s a).isSome = true

variable {X}

/-! ### Where a thread can go on -/

/-- A thread can read unless it waits for its sender. -/
theorem isSome_read {s : State} {dir : Direction} (hthread : (s.lane dir).thread = .reading)
    (hstarved : (s.lane dir).starved = false) : (step X s (.lane dir .read)).isSome = true := by
  rw [step, Option.isSome_map, Lane.step, hthread]
  cases hqueue : (s.lane dir).queue with
  | nil =>
    rw [Lane.starved, hqueue, List.isEmpty_nil, Bool.true_and, Bool.not_eq_false'] at hstarved
    simp [hstarved]
  | cons r queue => cases r <;> rfl

/-- A thread that has read a frame can write it, or fail to. -/
theorem exists_write {s : State} {dir : Direction} {item : Item} (hthread : (s.lane dir).thread = .writing item) :
    ∃ a, own a = true ∧ (step X s a).isSome = true := by
  by_cases hblocked : (s.lane dir).refused = true ∨ (s.lane dir).room < item.line.length
  · refine ⟨.lane dir (.writeFails 0), rfl, ?_⟩
    rw [step, Option.isSome_map, Lane.step, hthread]
    simp
  · refine ⟨.lane dir .write, rfl, ?_⟩
    rw [step, Option.isSome_map, Lane.step, hthread]
    simp [hblocked]

/-- So can the stderr thread write what it has read, or fail to. -/
theorem exists_stderr_write {s : State} {buf : Bytes} (hthread : s.stderr.thread = .writing buf) :
    ∃ a, own a = true ∧ (step X s a).isSome = true := by
  by_cases hblocked : s.stderr.refused = true ∨ s.stderr.room < buf.length
  · refine ⟨.stderr (.writeFails 0), rfl, ?_⟩
    rw [step, Option.isSome_map, Stderr.step, hthread]
    simp
  · refine ⟨.stderr .write, rfl, ?_⟩
    rw [step, Option.isSome_map, Stderr.step, hthread]
    simp [hblocked]

/-- A thread that has written a frame can record it. -/
theorem isSome_record {s : State} {dir : Direction} {item : Item} (hthread : (s.lane dir).thread = .recording item)
    (now : U128) : (step X s (.record dir now)).isSome = true := by
  rw [step, State.record, hthread]
  cases s.slot with
  | none => rfl
  | some w =>
    simp only
    split <;> rfl

/-- A relay thread that has not returned can make a call or writes, unless it waits for its sender. -/
theorem call_of_thread {s : State} (dir : Direction)
    (hwaits : (s.lane dir).thread = .reading → (s.lane dir).starved = false)
    (hdone : ∀ r, (s.lane dir).thread ≠ .done r) : (∃ a, calls a = true ∧ (step X s a).isSome = true) ∨ s.Writes := by
  cases hthread : (s.lane dir).thread with
  | reading => exact .inl ⟨.lane dir .read, rfl, isSome_read hthread (hwaits hthread)⟩
  | writing item => exact .inr (.inl ⟨dir, item, hthread⟩)
  | recording item => exact .inl ⟨.record dir 0, rfl, isSome_record hthread 0⟩
  | done r => exact absurd hthread (hdone r)

/-- So can the stderr thread, once the agent's stderr is closed. -/
theorem call_of_stderr {s : State} (hclosed : s.stderr.closed = true) (hdone : s.stderr.thread ≠ .done) :
    (∃ a, calls a = true ∧ (step X s a).isSome = true) ∨ s.Writes := by
  cases hthread : s.stderr.thread with
  | reading =>
    cases hqueue : s.stderr.queue with
    | nil =>
      refine .inl ⟨.stderr (.read 0), rfl, ?_⟩
      rw [step, Option.isSome_map, Stderr.step, hthread]
      simp [hqueue, hclosed]
    | cons b queue =>
      refine .inl ⟨.stderr (.read 1), rfl, ?_⟩
      rw [step, Option.isSome_map, Stderr.step, hthread]
      simp [hqueue, bufSize]
  | writing buf => exact .inr (.inr ⟨buf, hthread⟩)
  | done => exact absurd hthread hdone

/-- **Some thread can make a call or writes** until `run` has returned, unless the main thread waits for one that waits
for the client. -/
theorem exists_call {s : State} (hgone : Gone s) (hstalled : ¬ Stalled s) :
    (∃ result, s.main = .returned result) ∨ (∃ a, calls a = true ∧ (step X s a).isSome = true) ∨ s.Writes := by
  cases hmain : s.main with
  | returned result => exact .inl ⟨result, rfl⟩
  | waiting =>
    obtain ⟨status, hexited⟩ := Option.isSome_iff_exists.mp hgone.exited
    exact .inr (.inl ⟨.wait, rfl, by simp [step, hmain, hexited]⟩)
  | joiningA2c status =>
    right
    by_cases hdone : ∃ r, (s.lane .a2c).thread = .done r
    · obtain ⟨r, hr⟩ := hdone
      exact .inl ⟨.joinA2c, rfl, by simp [step, hmain, hr]⟩
    · apply call_of_thread .a2c
      · intro _
        simp [Lane.starved, hgone.stdout]
      · exact not_exists.mp hdone
  | joiningStderr status =>
    right
    by_cases hdone : s.stderr.thread = .done
    · exact .inl ⟨.joinStderr, rfl, by simp [step, hmain, hdone]⟩
    · exact call_of_stderr hgone.stderr hdone
  | finalizing status =>
    refine .inr (.inl ⟨.finalize [], rfl, ?_⟩)
    rw [step, State.finalize, hmain]
    cases s.slot with
    | none => rfl
    | some w =>
      simp only
      split <;> rfl
  | joiningC2a status =>
    right
    by_cases hdone : ∃ r, (s.lane .c2a).thread = .done r
    · obtain ⟨r, hr⟩ := hdone
      exact .inl ⟨.joinC2a, rfl, by simp [step, hmain, hr]⟩
    · apply call_of_thread .c2a
      · intro hthread
        by_contra hstarved
        exact hstalled ⟨by rw [hmain]; rfl, hthread, Bool.eq_true_of_not_eq_false hstarved⟩
      · exact not_exists.mp hdone

theorem own_of_calls {a : Action} (h : calls a = true) : own a = true := by
  cases a with
  | lane dir a => cases a <;> first | rfl | cases h
  | stderr a => cases a <;> first | rfl | cases h
  | exit => cases h
  | record | wait | waitFails | joinA2c | joinStderr | finalize | joinC2a => rfl

/-- **Some thread can go on** until `run` has returned, unless the main thread waits for one that waits for the
client. -/
theorem exists_own_step {s : State} (hgone : Gone s) (hstalled : ¬ Stalled s) :
    (∃ result, s.main = .returned result) ∨ ∃ a, own a = true ∧ (step X s a).isSome = true := by
  rcases exists_call (X := X) hgone hstalled with hreturned | ⟨a, ha, hstep⟩ | ⟨dir, item, hthread⟩ | ⟨buf, hthread⟩
  · exact .inl hreturned
  · exact .inr ⟨a, own_of_calls ha, hstep⟩
  · exact .inr (exists_write hthread)
  · exact .inr (exists_stderr_write hthread)

/-! ### Where none can -/

/-- The main thread has joined the stderr thread. -/
def Main.joinedStderr : Main → Bool
  | .finalizing _ => true
  | .joiningC2a _ => true
  | _ => false

/-- Recording moves a relay thread, and neither the main thread nor the stderr thread. -/
theorem record_frame {s s' : State} {dir : Direction} {now : U128} (h : s.record X dir now = some s') :
    s'.main = s.main ∧ s'.stderr = s.stderr ∧
      ∃ thread, s'.lane = (s.setLane dir { s.lane dir with thread }).lane := by
  unfold State.record at h
  split at h
  · split at h
    · cases h
      exact ⟨rfl, rfl, _, rfl⟩
    · split at h <;> cases h <;> exact ⟨rfl, rfl, _, rfl⟩
  · cases h

/-- Finalizing moves the main thread alone. -/
theorem finalize_frame {s s' : State} {now : Str} (h : s.finalize X now = some s') :
    s'.lane = s.lane ∧ s'.stderr = s.stderr ∧ ∃ status, s.main = .finalizing status := by
  unfold State.finalize at h
  split at h
  · next status hmain =>
    split at h
    · cases h
      exact ⟨rfl, rfl, status, hmain⟩
    · split at h <;> cases h <;> exact ⟨rfl, rfl, status, hmain⟩
  · cases h

/-- When the main thread has joined the stderr thread, that has returned. -/
theorem stderrDone_of_step {s s' : State} {a : Action} (h : step X s a = some s')
    (hs : s.main.joinedStderr = true → s.stderr.thread = .done) :
    s'.main.joinedStderr = true → s'.stderr.thread = .done := by
  cases a with
  | lane dir a =>
    obtain ⟨l, -, rfl⟩ := Option.map_eq_some_iff.mp h
    exact hs
  | record dir now =>
    obtain ⟨hmain, hstderr, -⟩ := record_frame h
    rwa [hmain, hstderr]
  | stderr a =>
    obtain ⟨e, he, rfl⟩ := Option.map_eq_some_iff.mp h
    exact fun hjoined => Stderr.done_of_step he (hs hjoined)
  | exit status =>
    rw [step] at h
    split_ifs at h
    cases h
    exact hs
  | wait | joinA2c | joinC2a | waitFails =>
    rw [step] at h
    split at h
    · cases h
      intro hjoined
      cases hjoined
    · cases h
  | joinStderr =>
    rw [step] at h
    split at h
    · next hdone =>
      cases h
      exact fun _ => hdone
    · cases h
  | finalize now =>
    obtain ⟨-, hstderr, status, hmain⟩ := finalize_frame h
    intro _
    rw [hstderr]
    exact hs (by rw [hmain]; rfl)

/-- A thread that has returned does nothing. -/
theorem step_lane_of_done {s : State} {dir : Direction} {r : Outcome}
    (hthread : (s.lane dir).thread = .done r) (a : LaneAction) (ha : own (.lane dir a) = true) :
    step X s (.lane dir a) = none := by
  rw [step, Option.map_eq_none_iff]
  cases a with
  | read | write | writeFails => rw [Lane.step, hthread]
  | send result | close | refuse | drain | receive => cases ha

/-- Nor does the stderr thread. -/
theorem step_stderr_of_done {s : State} (hthread : s.stderr.thread = .done) (a : StderrAction)
    (ha : own (.stderr a) = true) : step X s (.stderr a) = none := by
  rw [step, Option.map_eq_none_iff]
  cases a with
  | read | readFails | write | writeFails => rw [Stderr.step, hthread]
  | emit | close | refuse | drain => cases ha

/-- **No thread can go on** when the main thread waits for one that waits for the client. -/
theorem not_own_step {s : State} (h : Stalled s) (hdone : ∃ r, (s.lane .a2c).thread = .done r)
    (hstderr : s.stderr.thread = .done) {a : Action} (ha : own a = true) : step X s a = none := by
  obtain ⟨hmain, hthread, hstarved⟩ := h
  obtain ⟨r, hr⟩ := hdone
  obtain ⟨status, hstatus⟩ : ∃ status, s.main = .joiningC2a status := by
    cases hs : s.main with
    | joiningC2a status => exact ⟨status, rfl⟩
    | waiting | joiningA2c | joiningStderr | finalizing | returned => rw [hs] at hmain; cases hmain
  cases a with
  | lane dir a =>
    cases dir with
    | a2c => exact step_lane_of_done hr a ha
    | c2a =>
      rw [Lane.starved, Bool.and_eq_true, List.isEmpty_iff, Bool.not_eq_true'] at hstarved
      rw [step, Option.map_eq_none_iff]
      cases a with
      | read | write | writeFails => simp [Lane.step, hthread, hstarved.1, hstarved.2]
      | send result | close | refuse | drain | receive => cases ha
  | record dir now =>
    rw [step, State.record]
    cases dir with
    | a2c => rw [hr]
    | c2a => rw [hthread]
  | stderr a => exact step_stderr_of_done hstderr a ha
  | exit status => cases ha
  | wait | waitFails | joinA2c | joinStderr => simp [step, hstatus]
  | finalize now => simp [step, State.finalize, hstatus]
  | joinC2a => simp [step, hstatus, hthread]

/-! ### How a run gets there -/

/-- An action of a lane does not make its thread wait. -/
theorem Lane.starved_of_step {l l' : Lane} {after : ℕ} {a : LaneAction} (h : l.step after a = some l')
    (hthread : l'.thread = .reading) (hstarved : l'.starved = true) : l.thread = .reading ∧ l.starved = true := by
  cases a with
  | send result =>
    rw [Lane.step] at h
    split_ifs at h
    cases h
    simp [Lane.starved] at hstarved
  | close =>
    rw [Lane.step] at h
    split_ifs at h
    cases h
    simp [Lane.starved] at hstarved
  | refuse | receive =>
    rw [Lane.step] at h
    split_ifs at h
    cases h
    exact ⟨hthread, hstarved⟩
  | drain n =>
    cases h
    exact ⟨hthread, hstarved⟩
  | read =>
    rw [Lane.step] at h
    split at h
    · cases h
      cases hthread
    · cases h
      cases hthread
    · split_ifs at h
      cases h
      cases hthread
    · cases h
  | write =>
    rw [Lane.step] at h
    split at h
    · split_ifs at h
      cases h
      cases hthread
    · cases h
  | writeFails n =>
    rw [Lane.step] at h
    split at h
    · split_ifs at h
      cases h
      cases hthread
    · cases h

/-- **A step that is ready** does not stall the run. -/
theorem not_stalled_of_step {s s' : State} {a : Action} (h : step X s a = some s') (hready : ready s a = true)
    (hs : ¬ Stalled s) : ¬ Stalled s' := by
  rintro ⟨hmain, hthread, hstarved⟩
  cases a with
  | lane dir a =>
    obtain ⟨l, hl, rfl⟩ := Option.map_eq_some_iff.mp h
    cases dir with
    | a2c => exact hs ⟨hmain, hthread, hstarved⟩
    | c2a =>
      rw [State.setLane_self] at hthread hstarved
      obtain ⟨hthread, hstarved⟩ := Lane.starved_of_step hl hthread hstarved
      exact hs ⟨hmain, hthread, hstarved⟩
  | record dir now =>
    obtain ⟨hmain', -, thread, hlane⟩ := record_frame h
    rw [hmain'] at hmain
    rw [hlane] at hthread hstarved
    cases dir with
    | a2c => exact hs ⟨hmain, hthread, hstarved⟩
    | c2a =>
      rw [State.setLane_self] at hstarved
      have hstarved' : (s.lane .c2a).starved = true := hstarved
      simp [ready, hmain, hstarved'] at hready
  | stderr a =>
    obtain ⟨e, -, rfl⟩ := Option.map_eq_some_iff.mp h
    exact hs ⟨hmain, hthread, hstarved⟩
  | exit status =>
    rw [step] at h
    split_ifs at h
    cases h
    exact hs ⟨hmain, hthread, hstarved⟩
  | wait | waitFails | joinA2c | joinStderr | joinC2a =>
    rw [step] at h
    split at h
    · cases h
      cases hmain
    · cases h
  | finalize now =>
    obtain ⟨hlane, -, -⟩ := finalize_frame h
    rw [hlane] at hthread hstarved
    simp [ready, hthread, hstarved, Thread.isReading] at hready

/-! ### Whole runs -/

/-- **The proxy is stuck** in a state that is reached exactly when the main thread joins a c2a thread that waits for
the client; and it never is in a run in which the main thread does not come to join such a thread, nor that thread to
wait once it is joined. -/
theorem unblocked_iff {cfg : ProxyConfig} {p : Process} {now : Str} {spawned : Bool} {d : Disk}
    {s₀ s : State} {as : List Action} (hstart : start cfg p now spawned d = .ok s₀)
    (hrun : run X Machine.anything s₀ as = some s) :
    (Unblocked X s ↔ (Gone s → ¬ Stalled s)) ∧ (run X ready s₀ as = some s → Unblocked X s) := by
  have hinit : ¬ Stalled s₀ ∧ Awaited s₀ ∧ (s₀.main.joinedStderr = true → s₀.stderr.thread = .done) := by
    obtain ⟨w, d', -, rfl⟩ := start_ok hstart
    exact ⟨fun h => (by cases h.main), ⟨nofun, nofun⟩, nofun⟩
  obtain ⟨hawaited, hstderr⟩ : Awaited s ∧ (s.main.joinedStderr = true → s.stderr.thread = .done) := by
    refine Machine.run_invariant (P := fun s => Awaited s ∧ (s.main.joinedStderr = true → s.stderr.thread = .done)) ?_ hrun
      hinit.2
    rintro s a s' - hstep ⟨hawaited, hstderr⟩
    exact ⟨hawaited.step (Effect.of_step hstep), stderrDone_of_step hstep hstderr⟩
  constructor
  · constructor
    · intro h hgone hstalled
      have hjoins : s.main.joined = true ∧ s.main.joinedStderr = true ∧ ∀ result, s.main ≠ .returned result := by
        have hmain := hstalled.main
        cases hs : s.main with
        | joiningC2a status => exact ⟨rfl, rfl, nofun⟩
        | waiting | joiningA2c | joiningStderr | finalizing | returned => rw [hs] at hmain; cases hmain
      obtain ⟨hjoined, hjoinedStderr, hreturned⟩ := hjoins
      rcases h hgone with ⟨result, hresult⟩ | ⟨a, ha, hstep⟩
      · exact hreturned result hresult
      · rw [not_own_step hstalled (hawaited.joined hjoined) (hstderr hjoinedStderr) ha] at hstep
        cases hstep
    · intro h hgone
      exact exists_own_step hgone (h hgone)
  · intro hready hgone
    apply exists_own_step hgone
    exact Machine.run_invariant (P := fun s => ¬ Stalled s) (fun _ _ _ hallowed hstep => not_stalled_of_step hstep hallowed)
      hready hinit.1

/-! ### The sample runs -/

theorem unblocked_iff_sample :
    ∃ s₀ s, sampleStart = .ok s₀ ∧ run (.plain loggedDigests) ready s₀ (.lane .c2a .close :: sampleExit) = some s ∧
      Gone s ∧ (Unblocked (.plain loggedDigests) s ↔ (Gone s → ¬ Stalled s)) ∧ Unblocked (.plain loggedDigests) s := by
  obtain ⟨s₀, s, hstart, hrun, hs⟩ := exists_run (.plain loggedDigests) ready (.lane .c2a .close :: sampleExit)
    (fun s => (s.exited.isSome, (s.lane .a2c).closed, s.stderr.closed)) (true, true, true) (by decide +kernel)
  simp only [Prod.mk.injEq] at hs
  obtain ⟨hiff, hready⟩ := unblocked_iff hstart (Machine.run_anything hrun)
  exact ⟨s₀, s, hstart, hrun, ⟨hs.1, hs.2.1, hs.2.2⟩, hiff, hready hrun⟩

/-- The client sends nothing and keeps its end open; the agent exits, and the main thread joins the c2a thread. -/
theorem unblocked_fails :
    ∃ s₀ s, sampleStart = .ok s₀ ∧ run (.plain loggedDigests) Machine.anything s₀ sampleExit = some s ∧ Gone s ∧
      s.main = .joiningC2a (some 0) ∧ ¬ Unblocked (.plain loggedDigests) s := by
  obtain ⟨s₀, s, hstart, hrun, hs⟩ := exists_run (.plain loggedDigests) Machine.anything sampleExit
    (fun s => ((s.exited.isSome, (s.lane .a2c).closed, s.stderr.closed), s.main,
      (s.lane .c2a).thread.isReading && (s.lane .c2a).starved, s.stderr.thread, (s.lane .a2c).thread.isDone))
    ((true, true, true), .joiningC2a (some 0), true, .done, true) (by decide +kernel)
  simp only [Prod.mk.injEq, Bool.and_eq_true] at hs
  obtain ⟨⟨hexited, hclosed, hstderrClosed⟩, hmain, ⟨hreading, hstarved⟩, hstderr, hdone⟩ := hs
  have hgone : Gone s := ⟨hexited, hclosed, hstderrClosed⟩
  refine ⟨s₀, s, hstart, hrun, hgone, hmain, fun h => ?_⟩
  have hthread : (s.lane .c2a).thread = .reading := by
    cases ht : (s.lane .c2a).thread with
    | reading => rfl
    | writing | recording | done => rw [ht] at hreading; cases hreading
  have hdone' : ∃ r, (s.lane .a2c).thread = .done r := by
    cases ht : (s.lane .a2c).thread with
    | done r => exact ⟨r, rfl⟩
    | reading | writing | recording => rw [ht] at hdone; cases hdone
  rcases h hgone with ⟨result, hresult⟩ | ⟨a, ha, hstep⟩
  · rw [hmain] at hresult
    cases hresult
  · rw [not_own_step ⟨by rw [hmain]; rfl, hthread, hstarved⟩ hdone' hstderr ha] at hstep
    cases hstep

end AcpCore.Proxy
