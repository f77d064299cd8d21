import AcpCore.Proxy.WellFormed
import AcpCore.Proxy.Shutdown
import AcpCore.Proxy.Delivery
import AcpCore.Replay.RoundTrip

/-!
# The proxy as a recorder

The relay threads record in whatever order they take the lock, and the main thread
finalizes when it has taken it. What they leave is what one recorder would that
makes the same calls one after another.

## The model

`Entry.call` is the call of `record` an entry of the log comes from. `Serial` says of a
state that the disk is the one those calls leave, made in the order of the log by a
writer that nobody else has.

## What is proved

* `Serial.step` — every action keeps that, whichever thread takes it;
* **`run_refines_recording`** — a run in which no `record` fails, on any disk, leaves what
  a recording of the frames forwarded leaves, in some order that keeps each direction's.
-/

namespace AcpCore.Proxy

open AcpCore.Text AcpCore.Wire AcpCore.Trace AcpCore.Replay

/-- The call that recorded a frame. -/
def Entry.call (e : Entry) : Call := ⟨e.event.dir, e.item.frame, e.event.tWallNs⟩

/-- How many steps the main thread has left, if no call fails. -/
def Main.left : Main → ℕ
  | .waiting => 5
  | .joiningA2c _ => 4
  | .joiningStderr _ => 3
  | .finalizing _ => 2
  | .joiningC2a _ => 1
  | .returned _ => 0

variable (X : Crates)

/-- The disk is as the calls logged leave it, made one after another from where the writer was created. -/
structure Serial (w₀ : TraceWriter) (d₀ : Disk) (s : State) : Prop where
  /-- The writer in its slot is theirs. -/
  writer : ∀ w, s.slot = some w → w₀.recordAll X (s.log.map Entry.call) d₀ = (.ok (), w, s.disk)
  /-- The main thread has finalized after them. -/
  finalized : s.main.finalized = true → s.slot = none ∧
    ∃ w d now, w₀.recordAll X (s.log.map Entry.call) d₀ = (.ok (), w, d) ∧ w.finalize X now d = (.ok (), s.disk)
  /-- Only the main thread takes the writer, and goes on. -/
  taken : s.slot = none → s.main.left ≤ 1

variable {X}

/-! ### One action -/

/-- One more call. -/
theorem recordAll_concat {w₀ w w' : TraceWriter} {d₀ d d' : Disk} {calls : List Call} {c : Call} {hash : Str}
    (h : w₀.recordAll X calls d₀ = (.ok (), w, d)) (hc : w.record X c.dir c.frame c.now d = (.ok hash, w', d')) :
    w₀.recordAll X (calls ++ [c]) d₀ = (.ok (), w', d') := by
  induction calls generalizing w₀ d₀ with
  | nil =>
    rw [TraceWriter.recordAll] at h
    cases h
    rw [List.nil_append, TraceWriter.recordAll, hc]
    rfl
  | cons c' calls ih =>
    rw [TraceWriter.recordAll] at h
    rw [List.cons_append, TraceWriter.recordAll]
    split at h
    · cases h
    · exact ih h

/-- The main thread stays where it is or goes on. -/
theorem left_of_step {s s' : State} {a : Action} (h : step X s a = some s') :
    s'.main = s.main ∨ s'.main.left < s.main.left := by
  cases a with
  | lane dir a =>
    obtain ⟨l, -, rfl⟩ := Option.map_eq_some_iff.mp h
    exact .inl rfl
  | record dir now => exact .inl (record_frame h).1
  | stderr a =>
    obtain ⟨e, -, rfl⟩ := Option.map_eq_some_iff.mp h
    exact .inl rfl
  | exit status =>
    rw [step] at h
    split_ifs at h
    cases h
    exact .inl rfl
  | wait | joinA2c | joinStderr | joinC2a =>
    rw [step] at h
    split at h
    · next hmain _ =>
      cases h
      right
      simp [hmain, Main.left]
    · cases h
  | waitFails =>
    rw [step] at h
    split at h
    · next hmain =>
      cases h
      right
      simp [hmain, Main.left]
    · cases h
  | finalize now =>
    rw [step, State.finalize] at h
    split at h
    · next hmain =>
      right
      split at h
      · cases h
        simp [hmain, Main.left]
      · split at h <;> cases h <;> simp [hmain, Main.left]
    · cases h

theorem Serial.congr {w₀ : TraceWriter} {d₀ : Disk} {s s' : State} (h : Serial X w₀ d₀ s) (hslot : s'.slot = s.slot)
    (hdisk : s'.disk = s.disk) (hlog : s'.log = s.log) (hmain : s'.main.finalized = s.main.finalized)
    (hleft : s'.main.left ≤ s.main.left) : Serial X w₀ d₀ s' where
  writer w hw := by
    rw [hlog, hdisk]
    exact h.writer w (hslot ▸ hw)
  finalized hfin := by
    rw [hlog, hdisk, hslot]
    exact h.finalized (hmain ▸ hfin)
  taken hnone := hleft.trans (h.taken (hslot ▸ hnone))

/-- **One action**, of whichever thread. -/
theorem Serial.step {w₀ : TraceWriter} {d₀ : Disk} {s s' : State} {a : Action} (hs : step X s a = some s')
    (hs' : s'.Unfailed) (h : Serial X w₀ d₀ s) : Serial X w₀ d₀ s' := by
  have hleft : s'.main.left ≤ s.main.left := (left_of_step hs).elim (fun h => (congrArg Main.left h).le) le_of_lt
  have he := Effect.of_step hs
  by_cases ha : ∀ now, a ≠ .finalize now
  · have hmain := finalized_of_step hs ha
    cases he with
    | lane _ => exact h.congr rfl rfl rfl hmain hleft
    | skipped _ _ => exact h.congr rfl rfl rfl hmain hleft
    | @recorded dir now item w w' d hash hthread hslot hrec =>
      refine ⟨fun w'' hw'' => ?_, fun hfin => ?_, fun hnone => (by cases hnone)⟩
      · cases hw''
        rw [List.map_append]
        exact recordAll_concat (c := ⟨dir, item.frame, now⟩) (h.writer w hslot) hrec
      · rw [hmain] at hfin
        rw [(h.finalized hfin).1] at hslot
        cases hslot
    | @failed dir _ _ _ _ _ _ _ _ _ =>
      have hdir := hs' dir
      rw [State.setLane_self] at hdir
      cases hdir
    | finalized _ _ _ => exact absurd rfl (ha _)
    | quiet _ hslot hdisk hlog _ _ => exact h.congr hslot hdisk hlog hmain hleft
  · obtain ⟨now, rfl⟩ := not_forall_not.mp ha
    rw [Proxy.step, State.finalize] at hs
    split at hs
    · next status hstatus =>
      split at hs
      · next hslot =>
        have := h.taken hslot
        rw [hstatus] at this
        cases Nat.le_of_succ_le_succ this
      · next w hslot =>
        have hw := h.writer w hslot
        split at hs
        · next d hfin =>
          cases hs
          exact ⟨fun _ hw' => (by cases hw'), fun _ => ⟨rfl, w, _, now, hw, hfin⟩, fun _ => le_rfl⟩
        · cases hs
          exact ⟨fun _ hw' => (by cases hw'), fun hfin => (by cases hfin), fun _ => Nat.zero_le 1⟩
    · cases hs

/-! ### Every run -/

/-- What a run leaves is what the calls logged leave. -/
theorem serial_of_run {cfg : ProxyConfig} {p : Process} {now : Str} {spawned : Bool} {d : Disk} {s₀ s : State}
    {as : List Action} (hstart : start cfg p now spawned d = .ok s₀)
    (hrun : run X Machine.anything s₀ as = some s) (hs : s.Unfailed) :
    ∃ w₀ d₀, TraceWriter.createWithClock cfg.traceDir (cfg.manifest p now) d = (.ok w₀, d₀) ∧
      Serial X w₀ d₀ s := by
  obtain ⟨w₀, d₀, hcreate, rfl⟩ := start_ok hstart
  refine ⟨w₀, d₀, hcreate, ?_⟩
  refine Machine.run_invariant (P := fun s => s.Unfailed → Serial X w₀ d₀ s) ?_ hrun ?_ hs
  · intro s a s' _ hstep ih hs'
    exact (ih ((Effect.of_step hstep).unfailed hs')).step hstep hs'
  · intro _
    exact ⟨fun w hw => (by cases hw; rfl), fun hfin => (by cases hfin), fun hnone => (by cases hnone)⟩

/-- The calls of a direction are of the frames recorded in it. -/
theorem frames_of_calls (dir : Direction) (log : List Entry) :
    ((log.map Entry.call).filter (·.dir = dir)).map (·.frame) = (recordedIn dir log).map Item.frame := by
  rw [List.filter_map, recordedIn, List.map_map, List.map_map]
  rfl

/-- **The proxy is a recorder.** Take any run in which no `record` has failed, on any disk. It has made some calls of
`record`, of the frames forwarded in each direction, in their order but for the last that may be still to be recorded;
the writer and the disk are as those calls leave them, made one after another, and once the main thread has
finalized the disk is that of a recording of them. -/
theorem run_refines_recording {cfg : ProxyConfig} {p : Process} {now : Str} {spawned : Bool} {d : Disk}
    {s₀ s : State} {as : List Action} (hstart : start cfg p now spawned d = .ok s₀)
    (hrun : run X Machine.anything s₀ as = some s) (hs : s.Unfailed) :
    ∃ calls : List Call,
      (∀ dir, ∃ rest, (s.lane dir).forwarded.map Item.frame = (calls.filter (·.dir = dir)).map (·.frame) ++ rest ∧
        ((s.slot = none → dir = .a2c) → rest = (s.lane dir).thread.held.map Item.frame)) ∧
      (∀ w, s.slot = some w → ∃ w₀ d₀,
        TraceWriter.createWithClock cfg.traceDir (cfg.manifest p now) d = (.ok w₀, d₀) ∧
        w₀.recordAll X calls d₀ = (.ok (), w, s.disk)) ∧
      (s.main.finalized = true → ∃ endedAt,
        recording X cfg.traceDir (cfg.manifest p now) calls endedAt d = (.ok (), s.disk)) := by
  obtain ⟨w₀, d₀, hcreate, hserial⟩ := serial_of_run hstart hrun hs
  obtain ⟨-, hlogged, -⟩ := flows_of_run hstart hrun
  refine ⟨s.log.map Entry.call, fun dir => ?_, fun w hw => ⟨w₀, d₀, hcreate, hserial.writer w hw⟩, fun hfin => ?_⟩
  · obtain ⟨rest, hrest, hheld⟩ := hlogged dir
    refine ⟨rest.map Item.frame, ?_, fun hrecord => ?_⟩
    · rw [frames_of_calls, ← List.map_append, ← hrest]
    · rw [hheld hrecord (hs dir)]
  · obtain ⟨-, w, d₁, endedAt, hall, hfinalize⟩ := hserial.finalized hfin
    refine ⟨endedAt, ?_⟩
    rw [recording]
    simp only [hcreate, hall, hfinalize]

theorem run_refines_recording_sample :
    ∃ s₀ s calls, sampleStart = .ok s₀ ∧
      run (.plain loggedDigests) Machine.anything s₀
        (sampleExchange ++ [.record .a2c 0, .record .c2a 0] ++ sampleExit) = some s ∧
      s.main.finalized = true ∧ ∃ endedAt,
        recording (.plain loggedDigests) ['t'] (sampleConfig.manifest sampleProcess ['0']) calls endedAt emptyDisk
          = (.ok (), s.disk) := by
  obtain ⟨s₀, s, hstart, hrun, hs⟩ := exists_run (.plain loggedDigests) Machine.anything
    (sampleExchange ++ [.record .a2c 0, .record .c2a 0] ++ sampleExit)
    (fun s => (s.main.finalized, (s.lane .c2a).thread.failed, (s.lane .a2c).thread.failed)) (true, false, false)
    (by decide +kernel)
  simp only [Prod.mk.injEq] at hs
  obtain ⟨hmain, hc2a, ha2c⟩ := hs
  obtain ⟨calls, -, -, hfinal⟩ := run_refines_recording hstart hrun fun dir => by cases dir <;> assumption
  exact ⟨s₀, s, calls, hstart, hrun, hmain, hfinal hmain⟩

end AcpCore.Proxy
