import AcpCore.Proxy.Serial

/-!
# How a run ends

The proxy's threads work only on what was sent, and once the agent has exited and the
client has hung up they come to an end, however they are interleaved, as long as what
they write is read; what `run` then returns is the agent's exit code.

## The model

`State.left` is how many calls the threads have left at most: three for a line that was
sent and not yet read, two for a byte of stderr, the rest of its frame's or its buffer's
for a thread that has one, and one for each end or `join` that is still to come. Nothing
is assumed of the order of the calls, and a call may fail.

## What is proved

* `left_step` — a thread's call uses up one of these, and only what the agent or the client
  writes adds any;
* `own_le_of_run` — in every run the threads make at most three calls for each line, two for
  each byte of stderr and eight more;
* **`ends_of_hangup`** — once the agent is gone and the client has hung up, the threads make
  no more calls than are left, and any they have made lead on to the return of `run`, where
  a write fails only if its receiver has closed its end, and else waits for it;
* `reported_of_run` — the main thread has the agent's exit status, and nothing else;
* **`outcome_of_run`** — `run` returns the agent's exit code, where it has an agent to spawn and
  to wait for, and the disk does not fail.
-/

namespace AcpCore.Proxy

open AcpCore.Text AcpCore.Wire AcpCore.Trace

/-- How many steps a relay thread has left for what it has read. -/
def Thread.left : Thread → ℕ
  | .reading => 1
  | .writing _ => 3
  | .recording _ => 2
  | .done _ => 0

/-- How many steps it has left for what was sent. -/
def Lane.left (l : Lane) : ℕ := 3 * l.queue.length + l.thread.left

/-- How many steps the stderr thread has left for what it has read. -/
def StderrThread.left : StderrThread → ℕ
  | .reading => 1
  | .writing _ => 2
  | .done => 0

/-- How many steps it has left at most for what was written to stderr. -/
def Stderr.left (e : Stderr) : ℕ := 2 * e.queue.length + e.thread.left

/-- How many steps the proxy's threads have left at most. -/
def State.left (s : State) : ℕ := (s.lane .c2a).left + (s.lane .a2c).left + s.main.left + s.stderr.left

/-- How many steps an action adds. -/
def gain : Action → ℕ
  | .lane _ (.send _) => 3
  | .stderr a => 2 * a.emits.length
  | _ => 0

/-- A receiver's end takes more bytes. -/
def drains : Action → Bool
  | .lane _ (.drain _) => true
  | .stderr (.drain _) => true
  | _ => false

/-- A call of one of the proxy's threads, that does not fail unless it is a write whose receiver has closed its end; or a
receiver's end takes more bytes. -/
def ends (s : State) : Action → Bool
  | .lane dir (.writeFails _) => (s.lane dir).refused
  | .stderr .readFails => false
  | .stderr (.writeFails _) => s.stderr.refused
  | .waitFails => false
  | a => own a || drains a

/-- 1 where a thread waits for its receiver's end to take more bytes. -/
def Lane.blocked (l : Lane) : ℕ :=
  match l.thread with
  | .writing item => if l.room < item.line.length then 1 else 0
  | _ => 0

/-- The same of the stderr thread. -/
def Stderr.blocked (e : Stderr) : ℕ :=
  match e.thread with
  | .writing buf => if e.room < buf.length then 1 else 0
  | _ => 0

/-- How many threads wait for their receivers. -/
def State.blocked (s : State) : ℕ := (s.lane .c2a).blocked + (s.lane .a2c).blocked + s.stderr.blocked

/-- The agent's exit status, where the main thread has it. -/
def Main.status : Main → Option ExitStatus
  | .joiningA2c status => some status
  | .joiningStderr status => some status
  | .finalizing status => some status
  | .joiningC2a status => some status
  | _ => none

/-- What the main thread has of what happened: the status with which the agent exited, and with it what `run` returns
unless the main thread could not wait for it or, on a disk that fails, not finalize. -/
structure Reported (fails : Prop) (as : List Action) (s : State) : Prop where
  /-- The agent has exited so. -/
  exited : ∀ status, s.exited = some status → .exit status ∈ as
  /-- It is the agent's. -/
  status : ∀ status, s.main.status = some status → s.exited = some status
  /-- It is returned, or the error of the step that failed. -/
  returned : ∀ result, s.main = .returned result →
    (∃ status, s.exited = some status ∧ result = .ok (status.getD 0)) ∨ (.waitFails ∈ as ∧ result = .error .io) ∨
      (fails ∧ ∃ e, result = .error (.trace e))

variable {X : Crates}

/-! ### One step -/

/-- **An action of a lane** uses up a step, or adds three. -/
theorem Lane.left_step {l l' : Lane} {after : ℕ} {a : LaneAction} (dir : Direction) (h : l.step after a = some l') :
    l'.left + (own (.lane dir a)).toNat ≤ l.left + gain (.lane dir a) := by
  cases a with
  | send result =>
    rw [Lane.step] at h
    split_ifs at h
    cases h
    simp [Lane.left, own, LaneAction.own, gain]
    omega
  | close | refuse | receive =>
    rw [Lane.step] at h
    split_ifs at h
    cases h
    rfl
  | drain n =>
    cases h
    rfl
  | read =>
    rw [Lane.step] at h
    split at h
    · next hthread hqueue =>
      cases h
      simp [Lane.left, hthread, hqueue, Thread.left, own, LaneAction.own, gain]
      omega
    · next hthread hqueue =>
      cases h
      simp [Lane.left, hthread, hqueue, Thread.left, own, LaneAction.own, gain]
    · next hthread hqueue =>
      split_ifs at h
      cases h
      simp [Lane.left, hthread, hqueue, Thread.left, own, LaneAction.own, gain]
    · cases h
  | write | writeFails =>
    rw [Lane.step] at h
    split at h
    · next hthread =>
      split_ifs at h
      cases h
      simp [Lane.left, hthread, Thread.left, own, LaneAction.own, gain]
    · cases h

/-- **An action on stderr** uses up a step, or adds two for each byte. -/
theorem Stderr.left_step {e e' : Stderr} {a : StderrAction} (h : e.step a = some e') :
    e'.left + a.own.toNat ≤ e.left + 2 * a.emits.length := by
  cases a with
  | emit bs =>
    rw [Stderr.step] at h
    split_ifs at h
    cases h
    simp [Stderr.left, StderrAction.own, StderrAction.emits]
    omega
  | close | refuse =>
    rw [Stderr.step] at h
    split_ifs at h
    cases h
    rfl
  | drain n =>
    cases h
    rfl
  | read n =>
    rw [Stderr.step] at h
    split at h
    · next hthread =>
      split_ifs at h with hn _ hle
      · cases h
        simp [Stderr.left, hthread, StderrThread.left, StderrAction.own, StderrAction.emits]
      · cases h
        simp [Stderr.left, hthread, StderrThread.left, StderrAction.own, StderrAction.emits]
        omega
    · cases h
  | readFails =>
    rw [Stderr.step] at h
    split at h
    · next hthread =>
      cases h
      simp [Stderr.left, hthread, StderrThread.left, StderrAction.own, StderrAction.emits]
    · cases h
  | write | writeFails =>
    rw [Stderr.step] at h
    split at h
    · next hthread =>
      split_ifs at h
      cases h
      simp [Stderr.left, hthread, StderrThread.left, StderrAction.own, StderrAction.emits]
    · cases h

/-- What the lanes have when one is changed. -/
theorem State.sum_setLane (f : Lane → ℕ) (s : State) (dir : Direction) (l : Lane) :
    f ((s.setLane dir l).lane .c2a) + f ((s.setLane dir l).lane .a2c) + f (s.lane dir) =
      f (s.lane .c2a) + f (s.lane .a2c) + f l := by
  have hother := s.setLane_of_ne (other_ne dir) l
  cases dir with
  | c2a =>
    rw [other] at hother
    rw [State.setLane_self, hother]
    omega
  | a2c =>
    rw [other] at hother
    rw [State.setLane_self, hother]
    omega

theorem State.left_setLane (s : State) (dir : Direction) (l : Lane) :
    (s.setLane dir l).left + (s.lane dir).left = s.left + l.left := by
  have hsum := State.sum_setLane Lane.left s dir l
  have hmain : (s.setLane dir l).main = s.main := rfl
  have hstderr : (s.setLane dir l).stderr = s.stderr := rfl
  rw [State.left, State.left, hmain, hstderr]
  omega

/-- Recording uses up a step. -/
theorem left_record {s s' : State} {dir : Direction} {now : U128} (h : s.record X dir now = some s') :
    s'.left + 1 ≤ s.left := by
  obtain ⟨item, hthread, thread, hleft, hs'⟩ : ∃ item, (s.lane dir).thread = .recording item ∧
      ∃ thread : Thread, thread.left ≤ 1 ∧ s'.left = (s.setLane dir { s.lane dir with thread }).left := by
    unfold State.record at h
    split at h
    · next item hthread =>
      refine ⟨item, hthread, ?_⟩
      split at h
      · cases h
        exact ⟨.reading, le_rfl, rfl⟩
      · split at h <;> cases h
        · exact ⟨.reading, le_rfl, rfl⟩
        · exact ⟨.done _, Nat.zero_le _, rfl⟩
    · cases h
  have hset := s.left_setLane dir { s.lane dir with thread }
  have hlane : ({ s.lane dir with thread } : Lane).left = 3 * (s.lane dir).queue.length + thread.left := rfl
  rw [Lane.left, hthread, Thread.left] at hset
  omega

/-- A step of the main thread uses up a step. -/
theorem left_of_main {s s' : State} (hlane : s'.lane = s.lane) (hstderr : s'.stderr = s.stderr)
    (hmain : s'.main.left < s.main.left) : s'.left + 1 ≤ s.left := by
  rw [State.left, State.left, hlane, hstderr]
  omega

/-- Finalizing uses up a step. -/
theorem left_finalize {s s' : State} {now : Str} (h : s.finalize X now = some s') : s'.left + 1 ≤ s.left := by
  obtain ⟨hlane, hstderr, status, hmain⟩ := finalize_frame h
  have hstep : step X s (.finalize now) = some s' := h
  have hleft : s'.main.left < s.main.left := by
    rcases left_of_step hstep with hsame | hlt
    · exfalso
      rw [hmain] at hsame
      rw [State.finalize, hmain] at h
      simp only at h
      split at h
      · cases h
        cases hsame
      · split at h <;> cases h <;> cases hsame
    · exact hlt
  exact left_of_main hlane hstderr hleft

/-- **A step of one of the threads** uses up one of those left, and only a line that is sent adds any. -/
theorem left_step {s s' : State} {a : Action} (h : step X s a = some s') :
    s'.left + (own a).toNat ≤ s.left + gain a := by
  cases a with
  | lane dir a =>
    obtain ⟨l, hl, rfl⟩ := Option.map_eq_some_iff.mp h
    have hlane := Lane.left_step dir hl
    have hset := s.left_setLane dir l
    omega
  | record dir now => exact left_record h
  | finalize now => exact left_finalize h
  | stderr a =>
    obtain ⟨e, he, rfl⟩ := Option.map_eq_some_iff.mp h
    have hstderr := Stderr.left_step he
    simp only [State.left, own, gain]
    omega
  | exit status =>
    rw [step] at h
    split_ifs at h
    cases h
    rfl
  | wait | joinA2c | joinStderr | joinC2a =>
    rw [step] at h
    split at h
    · next hmain _ =>
      cases h
      exact left_of_main rfl rfl (by rw [hmain]; exact Nat.lt_succ_self _)
    · cases h
  | waitFails =>
    rw [step] at h
    split at h
    · next hmain =>
      cases h
      exact left_of_main rfl rfl (by rw [hmain]; exact Nat.succ_pos _)
    · cases h

/-! ### How much the threads do -/

/-- Each line sent adds three steps, and each byte of stderr two. -/
theorem sum_gain (as : List Action) :
    (as.map gain).sum = 3 * ((sent .c2a as).length + (sent .a2c as).length) + 2 * (emitted as).length := by
  induction as with
  | nil => rfl
  | cons a as ih =>
    have hcons : ∀ dir, (sent dir (a :: as)).length = (sentBy dir a).toList.length + (sent dir as).length := by
      intro dir
      rw [sent, List.filterMap_cons, sent]
      cases sentBy dir a with
      | none => simp
      | some line => simp [Nat.add_comm]
    have hemitted : (emitted (a :: as)).length = (emittedBy a).length + (emitted as).length := by
      rw [emitted, List.flatMap_cons, List.length_append, emitted]
    have hgain : gain a = 3 * ((sentBy .c2a a).toList.length + (sentBy .a2c a).toList.length)
        + 2 * (emittedBy a).length := by
      cases a with
      | lane dir a =>
        cases a with
        | send result => cases dir <;> rfl
        | close | refuse | drain | receive | read | write | writeFails => rfl
      | stderr a => simp [gain, sentBy, emittedBy]
      | record | exit | wait | waitFails | joinA2c | joinStderr | finalize | joinC2a => rfl
    rw [List.map_cons, List.sum_cons, ih, hcons, hcons, hemitted, hgain]
    omega

theorem sum_own (as : List Action) : (as.map fun a => (own a).toNat).sum = as.countP own := by
  induction as with
  | nil => rfl
  | cons a as ih =>
    rw [List.map_cons, List.sum_cons, ih, List.countP_cons]
    cases own a <;> simp [Nat.add_comm]

/-- **The threads work only on what was written to them**: three calls for each line, two for each byte of stderr and eight
more. -/
theorem own_le_of_run {cfg : ProxyConfig} {p : Process} {now : Str} {spawned : Bool} {d : Disk} {s₀ s : State}
    {as : List Action} (hstart : start cfg p now spawned d = .ok s₀) (hrun : run X Machine.anything s₀ as = some s) :
    as.countP own + s.left ≤ 8 + 3 * ((sent .c2a as).length + (sent .a2c as).length) + 2 * (emitted as).length := by
  obtain ⟨w, d', -, rfl⟩ := start_ok hstart
  have h := Machine.run_potential (fun a => (own a).toNat) gain (fun _ _ _ => left_step) hrun
  rw [sum_gain, sum_own] at h
  have hinit : (State.initial w d').left = 8 := rfl
  omega

/-! ### When the peers have gone -/

/-- An end that is closed stays closed. -/
theorem Lane.closed_step {l l' : Lane} {after : ℕ} {a : LaneAction} (h : l.step after a = some l')
    (hclosed : l.closed = true) : l'.closed = true := by
  cases a with
  | send | close => simp [Lane.step, hclosed] at h
  | refuse | receive =>
    rw [Lane.step] at h
    split_ifs at h
    cases h
    exact hclosed
  | drain n =>
    cases h
    exact hclosed
  | read =>
    rw [Lane.step] at h
    split at h
    · cases h
      exact hclosed
    · cases h
      exact hclosed
    · split_ifs at h
      cases h
      exact hclosed
    · cases h
  | write | writeFails =>
    rw [Lane.step] at h
    split at h
    · split_ifs at h
      cases h
      exact hclosed
    · cases h

/-- The same of stderr. -/
theorem Stderr.closed_step {e e' : Stderr} {a : StderrAction} (h : e.step a = some e') (hclosed : e.closed = true) :
    e'.closed = true := by
  cases a with
  | emit | close => simp [Stderr.step, hclosed] at h
  | refuse =>
    rw [Stderr.step] at h
    split_ifs at h
    cases h
    exact hclosed
  | drain n =>
    cases h
    exact hclosed
  | read | write | writeFails =>
    rw [Stderr.step] at h
    split at h
    · split_ifs at h <;> cases h <;> exact hclosed
    · cases h
  | readFails =>
    rw [Stderr.step] at h
    split at h
    · cases h
      exact hclosed
    · cases h

/-- What a step leaves of what the peers have done. -/
structure Remains (s s' : State) : Prop where
  /-- The agent has exited. -/
  exited : ∀ status, s.exited = some status → s'.exited = some status
  /-- Its stderr is closed. -/
  stderr : s.stderr.closed = true → s'.stderr.closed = true
  /-- The ends of the lanes are closed. -/
  closed : ∀ dir, (s.lane dir).closed = true → (s'.lane dir).closed = true

/-- A step that leaves the peers alone, and of the lanes moves a thread at most. -/
theorem Remains.of_thread {s s' : State} {dir : Direction} {thread : Thread} (hexited : s'.exited = s.exited)
    (hstderr : s'.stderr = s.stderr)
    (hlane : s'.lane = (s.setLane dir { s.lane dir with thread }).lane) : Remains s s' where
  exited status h := hexited ▸ h
  stderr h := hstderr ▸ h
  closed := by
    rw [hlane]
    exact State.forall_setLane (P := fun dir l => (s.lane dir).closed = true → l.closed = true) id fun _ _ => id

/-- A step that leaves the peers and the lanes alone. -/
theorem Remains.of_eq {s s' : State} (hexited : s'.exited = s.exited) (hstderr : s'.stderr = s.stderr)
    (hlane : s'.lane = s.lane) : Remains s s' where
  exited status h := hexited ▸ h
  stderr h := hstderr ▸ h
  closed dir h := by rwa [hlane]

/-- **Every step** leaves what the peers have done. -/
theorem Remains.of_step {s s' : State} {a : Action} (h : step X s a = some s') : Remains s s' := by
  cases a with
  | lane dir a =>
    obtain ⟨l, hl, rfl⟩ := Option.map_eq_some_iff.mp h
    exact ⟨fun _ => id, id, State.forall_setLane (P := fun dir l => (s.lane dir).closed = true → l.closed = true)
      (Lane.closed_step hl) fun _ _ => id⟩
  | record dir now =>
    rw [step, State.record] at h
    split at h
    · split at h
      · cases h
        exact .of_thread rfl rfl rfl
      · split at h <;> cases h <;> exact .of_thread rfl rfl rfl
    · cases h
  | finalize now =>
    rw [step, State.finalize] at h
    split at h
    · split at h
      · cases h
        exact .of_eq rfl rfl rfl
      · split at h <;> cases h <;> exact .of_eq rfl rfl rfl
    · cases h
  | stderr a =>
    obtain ⟨e, he, rfl⟩ := Option.map_eq_some_iff.mp h
    exact ⟨fun _ => id, Stderr.closed_step he, fun _ => id⟩
  | exit status =>
    rw [step] at h
    split_ifs at h with hexited
    cases h
    refine ⟨fun _ h => ?_, id, fun _ => id⟩
    rw [h] at hexited
    exact absurd rfl hexited
  | wait | waitFails | joinA2c | joinStderr | joinC2a =>
    rw [step] at h
    split at h
    · cases h
      exact .of_eq rfl rfl rfl
    · cases h

/-- What the threads do adds nothing, nor does room for it. -/
theorem gain_of_own {a : Action} (h : (own a || drains a) = true) : gain a = 0 := by
  cases a with
  | lane dir a =>
    cases a with
    | send => cases h
    | close | refuse | drain | receive | read | write | writeFails => rfl
  | stderr a =>
    cases a with
    | emit => cases h
    | close | refuse | drain | read | readFails | write | writeFails => rfl
  | record | exit | wait | waitFails | joinA2c | joinStderr | finalize | joinC2a => rfl

/-- **Where nothing is sent** the threads make no more calls than are left. -/
theorem countP_own_le {allowed : State → Action → Bool} {P : State → Prop}
    (hstep : ∀ s a s', allowed s a = true → step X s a = some s' → P s → gain a = 0 ∧ P s') {s s' : State}
    {as : List Action} (h : run X allowed s as = some s') (hs : P s) : as.countP own + s'.left ≤ s.left := by
  refine (Machine.run_history_nil (fun pre s' => P s' ∧ pre.countP own + s'.left ≤ s.left) ?_ h ⟨hs, by simp⟩).2
  rintro pre s₁ a s₂ ha hs₂ ⟨hP, hle⟩
  obtain ⟨hgain, hP'⟩ := hstep s₁ a s₂ ha hs₂ hP
  have hleft := left_step hs₂
  rw [hgain] at hleft
  refine ⟨hP', ?_⟩
  rw [List.countP_append, List.countP_singleton]
  cases hown : own a <;> simp only [hown, Bool.toNat_true, Bool.toNat_false, if_true, Bool.false_eq_true, if_false]
    at hleft ⊢ <;> omega

theorem Lane.blocked_le (l : Lane) : l.blocked ≤ 1 := by
  unfold Lane.blocked
  split
  · split_ifs <;> omega
  · exact Nat.zero_le 1

theorem Stderr.blocked_le (e : Stderr) : e.blocked ≤ 1 := by
  unfold Stderr.blocked
  split
  · split_ifs <;> omega
  · exact Nat.zero_le 1

theorem State.blocked_le (s : State) : s.blocked ≤ 3 := by
  have hc2a := (s.lane .c2a).blocked_le
  have ha2c := (s.lane .a2c).blocked_le
  have hstderr := s.stderr.blocked_le
  rw [State.blocked]
  omega

/-- What the threads have left to do, and for how many of them there is to be room first. -/
def State.measure (s : State) : ℕ := 4 * s.left + s.blocked

/-- **Every step** of the main thread passes on the agent's status, or the error of the step. -/
theorem Reported.step {fails : Prop} {as : List Action} {s s' : State} {a : Action} (h : step X s a = some s')
    (hfinalize : ¬ fails → ∀ w now, s.slot = some w → (w.finalize X now s.disk).1 = .ok ()) (hs : Reported fails as s) :
    Reported fails (as ++ [a]) s' := by
  have hmem : ∀ {b : Action}, b ∈ as → b ∈ as ++ [a] := fun hb => List.mem_append_left _ hb
  -- a step that leaves the main thread where it is, and the agent's status
  have hstay : s'.exited = s.exited → s'.main = s.main → Reported fails (as ++ [a]) s' := by
    intro hexited hmain
    constructor
    · intro status hstatus
      exact hmem (hs.exited status (hexited ▸ hstatus))
    · intro status hstatus
      rw [hexited]
      exact hs.status status (hmain ▸ hstatus)
    · intro result hresult
      rw [hexited]
      exact (hs.returned result (hmain ▸ hresult)).imp_right (Or.imp_left fun hw => ⟨hmem hw.1, hw.2⟩)
  -- a step of the main thread, which has the agent's status
  have hmove : ∀ {status : ExitStatus}, s.exited = some status → s'.exited = s.exited →
      (∀ st, s'.main.status = some st → st = status) →
      (∀ result, s'.main = .returned result →
        result = .ok (status.getD 0) ∨ (fails ∧ ∃ e, result = .error (.trace e))) →
      Reported fails (as ++ [a]) s' := by
    intro status hexited hexited' hstatus hreturned
    constructor
    · intro st hst
      exact hmem (hs.exited st (hexited' ▸ hst))
    · intro st hst
      rw [hexited', hexited, hstatus st hst]
    · intro result hresult
      rcases hreturned result hresult with hok | herr
      · exact .inl ⟨status, hexited'.trans hexited, hok⟩
      · exact .inr (.inr herr)
  cases a with
  | lane dir a =>
    obtain ⟨l, -, rfl⟩ := Option.map_eq_some_iff.mp h
    exact hstay rfl rfl
  | record dir now =>
    refine hstay ?_ (record_frame h).1
    rw [Proxy.step, State.record] at h
    split at h
    · split at h
      · cases h
        rfl
      · split at h <;> cases h <;> rfl
    · cases h
  | stderr a =>
    obtain ⟨e, -, rfl⟩ := Option.map_eq_some_iff.mp h
    exact hstay rfl rfl
  | exit status =>
    rw [Proxy.step] at h
    split_ifs at h with hexited
    cases h
    rw [Bool.not_eq_true, Option.isSome_eq_false_iff, Option.isNone_iff_eq_none] at hexited
    constructor
    · intro st hst
      cases hst
      exact List.mem_append_right _ List.mem_cons_self
    · intro st hst
      have hnone := hs.status st hst
      rw [hexited] at hnone
      cases hnone
    · intro result hresult
      rcases hs.returned result hresult with ⟨st, hst, -⟩ | ⟨hw, herr⟩ | herr
      · rw [hexited] at hst
        cases hst
      · exact .inr (.inl ⟨hmem hw, herr⟩)
      · exact .inr (.inr herr)
  | wait =>
    rw [Proxy.step] at h
    split at h
    · next status hmain hexited =>
      cases h
      exact hmove hexited rfl (fun st hst => (Option.some.inj hst).symm)
        fun _ h => (by cases h)
    · cases h
  | waitFails =>
    rw [Proxy.step] at h
    split at h
    · cases h
      refine ⟨fun st hst => hmem (hs.exited st hst), fun _ h => (by cases h), fun result hresult => ?_⟩
      cases hresult
      exact .inr (.inl ⟨List.mem_append_right _ List.mem_cons_self, rfl⟩)
    · cases h
  | joinA2c =>
    rw [Proxy.step] at h
    split at h
    · next status _ hmain _ =>
      cases h
      exact hmove (hs.status status (by rw [hmain]; rfl)) rfl (fun st hst => (Option.some.inj hst).symm)
        fun _ h => (by cases h)
    · cases h
  | joinStderr =>
    rw [Proxy.step] at h
    split at h
    · next status hmain _ =>
      cases h
      exact hmove (hs.status status (by rw [hmain]; rfl)) rfl (fun st hst => (Option.some.inj hst).symm)
        fun _ h => (by cases h)
    · cases h
  | finalize now =>
    rw [Proxy.step, State.finalize] at h
    split at h
    · next status hmain =>
      have hexited := hs.status status (by rw [hmain]; rfl)
      split at h
      · cases h
        exact hmove hexited rfl (fun st hst => (Option.some.inj hst).symm)
          fun _ h => (by cases h)
      · next w hslot =>
        split at h
        · cases h
          exact hmove hexited rfl (fun st hst => (Option.some.inj hst).symm)
            fun _ h => (by cases h)
        · next e _ hfin =>
          cases h
          refine hmove hexited rfl (fun _ h => (by cases h)) fun result hresult => .inr ⟨?_, e, (Main.returned.inj hresult).symm⟩
          by_contra hfails
          have hok := hfinalize hfails w now hslot
          rw [hfin] at hok
          cases hok
    · cases h
  | joinC2a =>
    rw [Proxy.step] at h
    split at h
    · next status _ hmain _ =>
      cases h
      refine hmove (hs.status status (by rw [hmain]; rfl)) rfl (fun _ h => (by cases h)) fun result hresult => .inl ?_
      cases hresult
      rfl
    · cases h

/-- In every state the main thread has what happened. -/
theorem reported_of_run {cfg : ProxyConfig} {p : Process} {now : Str} {spawned : Bool} {d : Disk}
    {s₀ s : State} {as : List Action} (hstart : start cfg p now spawned d = .ok s₀)
    (hrun : run X Machine.anything s₀ as = some s) : Reported (d.faults ≠ .none) as s := by
  by_cases hd : d.faults = .none
  · have hfaultless := (invariants_of_run hd hstart (rfl : run X Machine.anything s₀ [] = some s₀)).1
    obtain ⟨w, d', -, rfl⟩ := start_ok hstart
    refine (Machine.run_history_nil (fun as s => Reported (d.faults ≠ .none) as s ∧
      Faultless cfg.traceDir (cfg.manifest p now) s) ?_ hrun ⟨⟨nofun, nofun, nofun⟩, hfaultless⟩).1
    rintro as s a s' - hstep ⟨hreported, hfaultless⟩
    refine ⟨hreported.step hstep fun _ w now hslot => ?_, hfaultless.step (Effect.of_step hstep)⟩
    obtain ⟨d', hfin, -⟩ := hfaultless.finalize (X := X) hslot now
    rw [hfin]
  · obtain ⟨w, d', -, rfl⟩ := start_ok hstart
    refine Machine.run_history_nil (fun as s => Reported (d.faults ≠ .none) as s) ?_ hrun ⟨nofun, nofun, nofun⟩
    intro as s a s' _ hstep hreported
    exact hreported.step hstep fun hnot => absurd hd hnot

/-- What `run` may return where this happens in it. -/
inductive Returns (X : Crates) (cfg : ProxyConfig) (p : Process) (now : Str) (spawned : Bool) (d : Disk) :
    List Action → Except ProxyError ℤ → Prop where
  /-- It gets no further than to its threads. -/
  | start {e : ProxyError} : start cfg p now spawned d = .error e → Returns X cfg p now spawned d [] (.error e)
  /-- The main thread returns. -/
  | run {s₀ s : State} {as : List Action} {result : Except ProxyError ℤ} : start cfg p now spawned d = .ok s₀ →
      run X Machine.anything s₀ as = some s → s.main = .returned result → Returns X cfg p now spawned d as result

/-- What `start` fails with. -/
theorem start_error {cfg : ProxyConfig} {p : Process} {now : Str} {spawned : Bool} {d : Disk} {e : ProxyError}
    (h : start cfg p now spawned d = .error e) :
    cfg.agentArgv = [] ∧ e = .emptyArgv ∨ spawned = false ∧ e = .io ∨ d.faults ≠ .none ∧ ∃ e', e = .trace e' := by
  rw [Proxy.start] at h
  split at h
  · next hargv =>
    cases h
    exact .inl ⟨hargv, rfl⟩
  · split at h
    · next e' d' hcreate =>
      cases h
      refine .inr (.inr ⟨fun hd => ?_, e', rfl⟩)
      obtain ⟨w, d'', hok, -⟩ := createWithClock_noFaults hd cfg.traceDir (cfg.manifest p now)
      rw [hcreate] at hok
      cases hok
    · split_ifs at h with hspawned
      cases h
      exact .inr (.inl ⟨Bool.eq_false_of_not_eq_true hspawned, rfl⟩)

/-- **`run` returns the agent's exit code**, 0 where a signal ended it, whatever the relay threads and the stderr thread
met with and however they are interleaved: only that there was no agent to spawn, or it could not be spawned or waited
for, or that the disk failed, makes it return an error. -/
theorem outcome_of_run {cfg : ProxyConfig} {p : Process} {now : Str} {spawned : Bool} {d : Disk} {as : List Action}
    {result : Except ProxyError ℤ} (h : Returns X cfg p now spawned d as result) :
    (∃ status, .exit status ∈ as ∧ result = .ok (status.getD 0)) ∨ cfg.agentArgv = [] ∧ result = .error .emptyArgv ∨
      (spawned = false ∨ .waitFails ∈ as) ∧ result = .error .io ∨
      d.faults ≠ .none ∧ ∃ e, result = .error (.trace e) := by
  cases h with
  | start hstart =>
    rcases start_error hstart with ⟨hargv, rfl⟩ | ⟨hspawned, rfl⟩ | ⟨hd, e, rfl⟩
    · exact .inr (.inl ⟨hargv, rfl⟩)
    · exact .inr (.inr (.inl ⟨.inl hspawned, rfl⟩))
    · exact .inr (.inr (.inr ⟨hd, e, rfl⟩))
  | run hstart hrun hret =>
    have hreported := reported_of_run hstart hrun
    rcases hreported.returned result hret with ⟨status, hexited, hresult⟩ | ⟨hwait, hresult⟩ | hfails
    · exact .inl ⟨status, hreported.exited status hexited, hresult⟩
    · exact .inr (.inr (.inl ⟨.inr hwait, hresult⟩))
    · exact .inr (.inr (.inr hfails))

/-! ### The sample runs -/

/-- The agent complains on stderr. -/
def sampleComplaint : List Action := sampleExchange ++ [.stderr (.emit [0x21, 0x0A]), .stderr (.read 2)]

theorem own_le_of_run_sample :
    ∃ s₀ s, sampleStart = .ok s₀ ∧ run (.plain loggedDigests) Machine.anything s₀ sampleComplaint = some s ∧
      sampleComplaint.countP own + s.left ≤ 8 + 3 * ((sent .c2a sampleComplaint).length + (sent .a2c sampleComplaint).length)
        + 2 * (emitted sampleComplaint).length := by
  obtain ⟨s₀, s, hstart, hrun, -⟩ := exists_run (.plain loggedDigests) Machine.anything sampleComplaint (fun _ => ()) ()
    (by decide +kernel)
  exact ⟨s₀, s, hstart, hrun, own_le_of_run hstart hrun⟩

theorem outcome_of_run_sample :
    Returns (.plain loggedDigests) sampleConfig sampleProcess ['0'] true emptyDisk
        (.lane .c2a .close :: sampleExit ++ [.lane .c2a .read, .joinC2a]) (.ok 0) ∧
      ((∃ status, .exit status ∈ .lane .c2a .close :: sampleExit ++ [.lane .c2a .read, .joinC2a] ∧
          Except.ok 0 = Except.ok (ε := ProxyError) (status.getD 0)) ∨
        sampleConfig.agentArgv = [] ∧ Except.ok (0 : ℤ) = .error ProxyError.emptyArgv ∨
        (true = false ∨ .waitFails ∈ .lane .c2a .close :: sampleExit ++ [.lane .c2a .read, .joinC2a]) ∧
          Except.ok (0 : ℤ) = .error ProxyError.io ∨
        emptyDisk.faults ≠ .none ∧ ∃ e, Except.ok (0 : ℤ) = .error (ProxyError.trace e)) := by
  obtain ⟨s₀, s, hstart, hrun, hmain⟩ := exists_run (.plain loggedDigests) Machine.anything
    (.lane .c2a .close :: sampleExit ++ [.lane .c2a .read, .joinC2a]) State.main (.returned (.ok 0)) (by decide +kernel)
  exact ⟨.run hstart hrun hmain, outcome_of_run (.run hstart hrun hmain)⟩

end AcpCore.Proxy
