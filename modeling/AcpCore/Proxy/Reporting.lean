import AcpCore.Proxy.Completeness

/-!
# What the proxy reports

A relay thread that fails returns an error, which the main thread does not look at.

## The model

`sent` is what was sent in a direction, read off the actions of a run. A run is
`Relayed` when no thread has stopped on an error, all that was sent was forwarded, and
what the agent sent was recorded. A step fails (`unfailing`) when it stops a thread: a
line that is no frame is read, a write fails, or `record` fails.

## What is proved

* `unstopped_iff_of_step` — no thread has stopped after a step exactly when none had
  before, and the step does not fail;
* `Relaying.step` — as long as no step fails, what was sent is forwarded, about to be
  written, or still to be read, and what the agent's thread has written is recorded;
* **`relayed_iff`** — when `run` has returned `Ok`, the session was relayed exactly when
  no step of the run has failed.
-/

namespace AcpCore.Proxy

open AcpCore.Text AcpCore.Wire AcpCore.Trace

/-- It has returned an error. -/
def Thread.stopped : Thread → Bool
  | .done outcome => !outcome.result.isOk
  | _ => false

theorem Thread.stopped_done {outcome : Outcome} : (Thread.done outcome).stopped = false ↔ outcome = .ok := by
  cases outcome <;> simp [stopped, Outcome.result, Except.isOk, Except.toBool]

/-- No thread has stopped on an error. -/
def State.Unstopped (s : State) : Prop := ∀ dir, (s.lane dir).thread.stopped = false

/-- The line an action sends in a direction. -/
def sentBy (dir : Direction) : Action → Option (Except WireError Frame)
  | .lane dir' (.send result) => if dir' = dir then some result else none
  | _ => none

/-- The lines sent in a direction. -/
def sent (dir : Direction) (as : List Action) : List (Except WireError Frame) := as.filterMap (sentBy dir)

variable (X : Crates)

/-- The session was relayed. -/
structure Relayed (root : Str) (as : List Action) (s : State) : Prop where
  /-- No thread has stopped on an error. -/
  unstopped : s.Unstopped
  /-- Every line sent was a frame, and was forwarded. -/
  forwarded : ∀ dir, sent dir as = (s.lane dir).forwarded.map fun item => .ok item.frame
  /-- The agent's frames have their events in the log on the disk. -/
  recorded : ∃ recs, s.disk.files (join root eventsFile) = some (logBytes recs) ∧
    (recs.filter (·.dir = .a2c)).map EventRecord.hash =
      (s.lane .a2c).forwarded.map fun item => item.frame.payloadHashStr X

/-- An action of a lane that does not stop its thread. -/
def Lane.unfailing (l : Lane) : LaneAction → Bool
  | .read =>
    match l.thread, l.queue with
    | .reading, .error _ :: _ => false
    | _, _ => true
  | .writeFails _ => false
  | _ => true

/-- An action that stops no relay thread. -/
def unfailing (s : State) : Action → Bool
  | .lane dir a => (s.lane dir).unfailing a
  | .record dir now => s.recordSucceeds X dir now
  | _ => true

variable {X}

/-! ### Threads that stop -/

/-- A thread has not stopped after an action exactly when it had not before, and the action does not fail. -/
theorem Lane.stopped_step {l l' : Lane} {after : ℕ} {a : LaneAction} (h : l.step after a = some l') :
    l'.thread.stopped = false ↔ l.thread.stopped = false ∧ l.unfailing a = true := by
  cases a with
  | send result | close | refuse | receive =>
    rw [Lane.step] at h
    split_ifs at h
    cases h
    simp [Lane.unfailing]
  | drain n =>
    cases h
    simp [Lane.unfailing]
  | read =>
    rw [Lane.step] at h
    split at h
    · next hthread hqueue =>
      cases h
      simp [Lane.unfailing, Thread.stopped, hthread, hqueue]
    · next hthread hqueue =>
      cases h
      simp [Lane.unfailing, Thread.stopped_done, hthread, hqueue]
    · next hthread hqueue =>
      split_ifs at h
      cases h
      simp [Lane.unfailing, Thread.stopped, Outcome.result, Except.isOk, Except.toBool, hthread, hqueue]
    · cases h
  | write =>
    rw [Lane.step] at h
    split at h
    · next hthread =>
      split_ifs at h
      cases h
      simp [Lane.unfailing, Thread.stopped, hthread]
    · cases h
  | writeFails n =>
    rw [Lane.step] at h
    split at h
    · split_ifs at h
      cases h
      simp [Lane.unfailing, Thread.stopped_done]
    · cases h

theorem State.unstopped_setLane {s : State} {dir : Direction} {l : Lane} :
    (s.setLane dir l).Unstopped ↔ l.thread.stopped = false ∧ ∀ dir', dir' ≠ dir → (s.lane dir').thread.stopped = false := by
  constructor
  · intro h
    refine ⟨?_, fun dir' hdir => ?_⟩
    · have hl := h dir
      rwa [setLane_self] at hl
    · have hl := h dir'
      rwa [setLane_of_ne _ hdir] at hl
  · rintro ⟨hl, hother⟩
    exact State.forall_setLane (P := fun _ l => l.thread.stopped = false) hl hother

theorem State.unstopped_iff {s : State} (dir : Direction) :
    s.Unstopped ↔ (s.lane dir).thread.stopped = false ∧ ∀ dir', dir' ≠ dir → (s.lane dir').thread.stopped = false := by
  constructor
  · intro h
    exact ⟨h dir, fun dir' _ => h dir'⟩
  · rintro ⟨hdir, hother⟩ dir'
    by_cases h : dir' = dir
    · rwa [h]
    · exact hother dir' h

/-- **No thread has stopped after a step** exactly when none had before, and the step does not fail. -/
theorem unstopped_iff_of_step {s s' : State} {a : Action} (h : step X s a = some s') :
    s'.Unstopped ↔ s.Unstopped ∧ unfailing X s a = true := by
  cases a with
  | lane dir a =>
    obtain ⟨l, hl, rfl⟩ := Option.map_eq_some_iff.mp h
    rw [State.unstopped_setLane, Lane.stopped_step hl, State.unstopped_iff dir, unfailing]
    tauto
  | record dir now =>
    rw [step, State.record] at h
    split at h
    · next item hthread =>
      split at h
      · next hslot =>
        cases h
        rw [State.unstopped_setLane, State.unstopped_iff dir, unfailing, State.recordSucceeds, hthread, hslot]
        simp [Thread.stopped]
      · next w hslot =>
        split at h
        · next hash w' d hrec =>
          cases h
          show (s.setLane dir _).Unstopped ↔ _
          rw [State.unstopped_setLane, State.unstopped_iff dir, unfailing, State.recordSucceeds, hthread, hslot]
          simp [Thread.stopped, hrec, Except.isOk, Except.toBool]
        · next e w' d hrec =>
          cases h
          show (s.setLane dir _).Unstopped ↔ _
          rw [State.unstopped_setLane, unfailing, State.recordSucceeds, hthread, hslot]
          simp [Thread.stopped_done, hrec, Except.isOk, Except.toBool]
    · cases h
  | finalize now =>
    have hlane : s'.lane = s.lane := by
      cases Effect.of_step h with
      | finalized => rfl
      | quiet hlane => exact hlane
    simp [State.Unstopped, hlane, unfailing]
  | stderr | exit | wait | waitFails | joinA2c | joinStderr | joinC2a =>
    have hlane : s'.lane = s.lane := by
      cases Effect.of_step h with
      | quiet hlane => exact hlane
    simp [State.Unstopped, hlane, unfailing]

/-! ### What was sent -/

/-- What was sent on a lane is forwarded, about to be written, or still to be read. -/
structure Lane.Delivers (lines : List (Except WireError Frame)) (l : Lane) : Prop where
  /-- In this order. -/
  flow : lines = (l.forwarded ++ l.thread.unwritten).map (fun item => .ok item.frame) ++ l.queue.map (·.map Item.frame)
  /-- A thread that has returned without an error has read it all. -/
  ended : l.thread = .done .ok → l.closed = true ∧ l.queue = []

/-- An action of a lane that leaves its thread running delivers what was sent. -/
theorem Lane.Delivers.step {lines : List (Except WireError Frame)} {l l' : Lane} {after : ℕ} {dir : Direction}
    {a : LaneAction} (h : l.step after a = some l') (hl' : l'.thread.stopped = false) (hl : l.Delivers lines) :
    l'.Delivers (lines ++ (sentBy dir (.lane dir a)).toList) := by
  obtain ⟨hflow, hended⟩ := hl
  cases a with
  | send result =>
    rw [Lane.step] at h
    split_ifs at h with hclosed
    cases h
    refine ⟨?_, fun hdone => absurd (hended hdone).1 hclosed⟩
    rw [hflow, sentBy, if_pos rfl, List.map_append (f := fun r : Except WireError Item => r.map Item.frame),
      List.append_assoc]
    cases result <;> rfl
  | close | refuse | receive =>
    rw [Lane.step] at h
    split_ifs at h
    cases h
    refine ⟨by simpa [sentBy] using hflow, fun hdone => ?_⟩
    obtain ⟨hclosed, hqueue⟩ := hended hdone
    exact ⟨by simp [hclosed], hqueue⟩
  | drain n =>
    cases h
    exact ⟨by simpa [sentBy] using hflow, hended⟩
  | read =>
    rw [Lane.step] at h
    split at h
    · next hthread hqueue =>
      cases h
      refine ⟨?_, fun hdone => by cases hdone⟩
      rw [hflow, hthread, hqueue]
      simp [Thread.unwritten, sentBy, Except.map]
    · cases h
      cases hl'
    · next hthread hqueue =>
      split_ifs at h with hclosed
      cases h
      refine ⟨?_, fun _ => ⟨hclosed, hqueue⟩⟩
      rw [hflow, hthread, hqueue]
      simp [Thread.unwritten, sentBy]
    · cases h
  | write =>
    rw [Lane.step] at h
    split at h
    · next hthread =>
      split_ifs at h
      cases h
      refine ⟨?_, fun hdone => by cases hdone⟩
      rw [hflow, hthread]
      simp [Thread.unwritten, sentBy]
    · cases h
  | writeFails n =>
    rw [Lane.step] at h
    split at h
    · split_ifs at h
      cases h
      cases hl'
    · cases h

/-- Recording does not touch what was sent. -/
theorem Lane.Delivers.recorded {lines : List (Except WireError Frame)} {l : Lane} {item : Item}
    (hthread : l.thread = .recording item) (h : l.Delivers lines) :
    ({ l with thread := .reading } : Lane).Delivers lines := by
  refine ⟨?_, nofun⟩
  rw [h.flow, hthread]
  rfl

/-- What holds as long as no thread has stopped. -/
structure Relaying (as : List Action) (s : State) : Prop where
  /-- What was sent is forwarded, about to be written, or still to be read. -/
  delivers : ∀ dir, (s.lane dir).Delivers (sent dir as)
  /-- What the agent's thread has forwarded is recorded, or about to be. -/
  recorded : (s.lane .a2c).forwarded = recordedIn .a2c s.log ++ (s.lane .a2c).thread.held
  /-- Until that thread has returned there is a writer. -/
  slot : s.slot = none → ∃ r, (s.lane .a2c).thread = .done r

theorem sent_concat (dir : Direction) (as : List Action) (a : Action) :
    sent dir (as ++ [a]) = sent dir as ++ (sentBy dir a).toList := by
  rw [sent, List.filterMap_append, ← sent]
  cases h : sentBy dir a <;> simp [h]

theorem sentBy_of_ne {dir dir' : Direction} (h : dir ≠ dir') (a : LaneAction) : sentBy dir (.lane dir' a) = none := by
  cases a with
  | send result => exact if_neg h.symm
  | close | refuse | drain | receive | read | write | writeFails => rfl

/-- As long as no thread stops, every step delivers what was sent. -/
theorem delivers_step {as : List Action} {s s' : State} {a : Action} (h : step X s a = some s') (hs' : s'.Unstopped)
    (hd : ∀ dir, (s.lane dir).Delivers (sent dir as)) (dir : Direction) :
    (s'.lane dir).Delivers (sent dir (as ++ [a])) := by
  rw [sent_concat]
  cases a with
  | lane dir' a =>
    obtain ⟨l, hl, rfl⟩ := Option.map_eq_some_iff.mp h
    by_cases hdir : dir = dir'
    · subst hdir
      have hstopped := hs' dir
      rw [State.setLane_self] at hstopped ⊢
      exact (hd dir).step hl hstopped
    · rw [State.setLane_of_ne _ hdir, sentBy_of_ne hdir, Option.toList_none, List.append_nil]
      exact hd dir
  | record dir' now =>
    have hset : ∀ {item : Item}, (s.lane dir').thread = .recording item →
        ((s.setLane dir' { s.lane dir' with thread := .reading }).lane dir).Delivers (sent dir as) := by
      intro item hthread
      exact State.forall_setLane (P := fun dir l => l.Delivers (sent dir as)) ((hd dir').recorded hthread)
        (fun dir _ => hd dir) dir
    show (s'.lane dir).Delivers (sent dir as ++ [])
    rw [List.append_nil]
    cases Effect.of_step h with
    | skipped hthread _ => exact hset hthread
    | recorded hthread _ _ => exact hset hthread
    | failed _ _ _ =>
      have hstopped := hs' dir'
      rw [State.setLane_self] at hstopped
      cases hstopped
    | quiet hlane => rw [hlane]; exact hd dir
  | finalize now =>
    show (s'.lane dir).Delivers (sent dir as ++ [])
    rw [List.append_nil]
    cases Effect.of_step h with
    | finalized => exact hd dir
    | quiet hlane => rw [hlane]; exact hd dir
  | stderr | exit | wait | waitFails | joinA2c | joinStderr | joinC2a =>
    show (s'.lane dir).Delivers (sent dir as ++ [])
    rw [List.append_nil]
    cases Effect.of_step h with
    | quiet hlane => rw [hlane]; exact hd dir

/-- **As long as no step fails**, what was sent is delivered, and what the agent sent is recorded. -/
theorem Relaying.step {as : List Action} {s s' : State} {a : Action} (h : step X s a = some s') (hs' : s'.Unstopped)
    (hawaited : Awaited s) (hr : Relaying as s) : Relaying (as ++ [a]) s' := by
  have he := Effect.of_step h
  refine ⟨delivers_step h hs' hr.delivers, ?_, ?_⟩
  · rcases he.log with hlog | ⟨e, happ⟩
    · cases he with
      | @lane dir _ l hl =>
        by_cases hdir : Direction.a2c = dir
        · subst hdir
          rw [State.setLane_self]
          exact hl.held hr.recorded
        · rw [State.setLane_of_ne _ hdir]
          exact hr.recorded
      | @skipped dir _ _ hthread hslot =>
        -- the agent's thread has returned: it is the other one
        obtain ⟨r, hdone⟩ := hr.slot hslot
        have hdir : Direction.a2c ≠ dir := by
          rintro rfl
          rw [hthread] at hdone
          cases hdone
        rw [State.setLane_of_ne _ hdir]
        exact hr.recorded
      | recorded _ _ _ => simp at hlog
      | @failed dir _ _ _ _ _ _ _ _ _ =>
        have hstopped := hs' dir
        rw [State.setLane_self] at hstopped
        cases hstopped
      | finalized _ _ _ => exact hr.recorded
      | quiet hlane _ _ _ _ _ =>
        rw [hlane, hlog]
        exact hr.recorded
    · exact happ.held hr.recorded
  · intro hslot'
    have hdone : ∃ r, (s.lane .a2c).thread = .done r := by
      cases he with
      | lane _ => exact hr.slot hslot'
      | skipped _ hslot => exact hr.slot hslot
      | recorded _ _ _ => cases hslot'
      | failed _ _ _ => cases hslot'
      | finalized hmain _ _ => exact hawaited.joined (by rw [hmain]; rfl)
      | quiet _ hslot => exact hr.slot (hslot ▸ hslot')
    obtain ⟨r, hdone⟩ := hdone
    exact ⟨r, he.done hdone⟩

/-! ### Whole runs -/

variable {cfg : ProxyConfig} {p : Process} {now : Str} {spawned : Bool} {d : Disk} {s₀ s : State} {as : List Action}

theorem State.Unstopped.unfailed {s : State} (h : s.Unstopped) : s.Unfailed := by
  intro dir
  have hdir := h dir
  cases hthread : (s.lane dir).thread with
  | done outcome =>
    rw [hthread, Thread.stopped_done] at hdir
    rw [hdir]
    rfl
  | reading | writing item | recording item => rfl

/-- **A run in which no step fails** has relayed the session when `run` returns `Ok`. -/
theorem relayed_of_unfailing (hstart : start cfg p now spawned d = .ok s₀)
    (hrun : run X (unfailing X) s₀ as = some s) {code : ℤ} (hret : s.main = .returned (.ok code)) :
    Relayed X cfg.traceDir as s := by
  have hinit : s₀.Unstopped ∧ Awaited s₀ ∧ Hashed X s₀ ∧ Relaying [] s₀ := by
    obtain ⟨w, d', -, rfl⟩ := start_ok hstart
    exact ⟨fun _ => rfl, ⟨nofun, nofun⟩, fun _ he => (by cases he), fun _ => ⟨rfl, nofun⟩, rfl, nofun⟩
  obtain ⟨hun, hawaited, hhash, h⟩ : s.Unstopped ∧ Awaited s ∧ Hashed X s ∧ Relaying as s := by
    refine Machine.run_history (P := fun as s => s.Unstopped ∧ Awaited s ∧ Hashed X s ∧ Relaying as s) ?_ hrun hinit
    rintro pre s a s' hallowed hstep ⟨hun, hawaited, hhash, h⟩
    have he := Effect.of_step hstep
    have hun' := (unstopped_iff_of_step hstep).mpr ⟨hun, hallowed⟩
    exact ⟨hun', hawaited.step he, hhash.step he, h.step hstep hun' hawaited⟩
  -- both threads have returned, and not with an error
  have hdone : ∀ dir, (s.lane dir).thread = .done .ok := by
    intro dir
    have hr : ∃ r, (s.lane dir).thread = .done r := by
      cases dir with
      | c2a => exact hawaited.returned code hret
      | a2c => exact hawaited.joined (by rw [hret]; rfl)
    obtain ⟨r, hr⟩ := hr
    have hdir := hun dir
    rw [hr, Thread.stopped_done] at hdir
    rw [hr, hdir]
  refine ⟨hun, fun dir => ?_, _, (written_of_run hstart hrun hun.unfailed).file, ?_⟩
  · rw [(h.delivers dir).flow, ((h.delivers dir).ended (hdone dir)).2, hdone dir]
    simp [Thread.unwritten]
  · have hforwarded := h.recorded
    rw [hdone .a2c, Thread.held_done, List.append_nil] at hforwarded
    rw [hforwarded, recordedIn, List.filter_map, List.map_map, List.map_map]
    refine List.map_congr_left fun e he => hhash e (List.mem_of_mem_filter he)

/-- **The proxy reports every failure**, in a run that has returned `Ok`, exactly when none of its steps has failed:
exactly then no relay thread has stopped on an error, every line sent was a frame and was forwarded, and the agent's
frames are recorded. -/
theorem relayed_iff (hstart : start cfg p now spawned d = .ok s₀)
    (hrun : run X Machine.anything s₀ as = some s) :
    (∀ code, s.main = .returned (.ok code) → Relayed X cfg.traceDir as s) ↔
      ∀ code, s.main = .returned (.ok code) → run X (unfailing X) s₀ as = some s := by
  refine forall₂_congr fun code hret => ?_
  constructor
  · intro h
    exact (Machine.run_of_last (fun _ _ _ hstep => (unstopped_iff_of_step hstep).mp) hrun h.unstopped).2
  · intro h
    exact relayed_of_unfailing hstart h hret

/-! ### The sample runs -/

/-- A run in which no step fails. -/
theorem relayed_iff_sample :
    ∃ s₀ s, sampleStart = .ok s₀ ∧ s.main = .returned (.ok 0) ∧
      run (.plain loggedDigests) Machine.anything s₀
        (sampleExchange ++ [.record .c2a 0, .record .a2c 0] ++ sampleExit ++ sampleHangup) = some s ∧
      Relayed (.plain loggedDigests) ['t']
        (sampleExchange ++ [.record .c2a 0, .record .a2c 0] ++ sampleExit ++ sampleHangup) s := by
  obtain ⟨s₀, s, hstart, hrun, hmain⟩ := exists_run (.plain loggedDigests) (unfailing (.plain loggedDigests))
    (sampleExchange ++ [.record .c2a 0, .record .a2c 0] ++ sampleExit ++ sampleHangup) State.main (.returned (.ok 0))
    (by decide +kernel)
  have hany := Machine.run_anything hrun
  exact ⟨s₀, s, hstart, hmain, hany, (relayed_iff hstart hany).mpr (fun _ _ => hrun) 0 hmain⟩

/-- The agent writes a line that is no frame, and then a response, and exits. -/
def sampleGarbled : List Action :=
  [.lane .a2c (.send (.error .json)), .lane .a2c (.send (.ok sampleResponse)), .lane .a2c .read, .lane .a2c .close,
    .stderr .close, .exit (some 0), .stderr (.read 0), .wait, .joinA2c, .joinStderr, .finalize ['1']]

/-- The a2c thread stops at the first line, the response is neither forwarded nor recorded, and `run` returns `Ok`. -/
theorem relayed_fails :
    ∃ s₀ s, sampleStart = .ok s₀ ∧ run (.plain loggedDigests) Machine.anything s₀ (sampleGarbled ++ sampleHangup) = some s ∧
      s.main = .returned (.ok 0) ∧ (s.lane .a2c).thread.stopped = true ∧ (s.lane .a2c).forwarded.map (·.frame.raw) = [] ∧
      s.disk.files (join ['t'] eventsFile) = some [] ∧
      ¬ Relayed (.plain loggedDigests) ['t'] (sampleGarbled ++ sampleHangup) s := by
  obtain ⟨s₀, s, hstart, hrun, hs⟩ := exists_run (.plain loggedDigests) Machine.anything (sampleGarbled ++ sampleHangup)
    (fun s => (s.main, (s.lane .a2c).thread.stopped, (s.lane .a2c).forwarded.map (·.frame.raw),
      s.disk.files (join ['t'] eventsFile))) (.returned (.ok 0), true, [], some []) (by decide +kernel)
  simp only [Prod.mk.injEq] at hs
  obtain ⟨hmain, hstopped, hforwarded, hfile⟩ := hs
  refine ⟨s₀, s, hstart, hrun, hmain, hstopped, hforwarded, hfile, fun h => ?_⟩
  have hun := h.unstopped .a2c
  rw [hstopped] at hun
  cases hun

end AcpCore.Proxy
