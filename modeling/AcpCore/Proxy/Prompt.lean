import AcpCore.Proxy.Progress

/-!
# A direction catches up

A relay thread does not hold a line back: what was sent can be forwarded and recorded with
no more from its sender, and without the other thread.

## The model

`relays` are the calls of one relay thread that do not fail, and that its receiver's end
takes what it writes. A lane is `Serving` some lines as long as its thread has met with
nothing but frames, or has stopped at the first line that is none.

## What is proved

* `Serving.exists_step` — a thread that is behind can make a call, if there is room for what it
  writes, and is less behind after;
* **`caught_up_of_run`** — from any state of any run where a thread has not stopped and its
  receiver listens, calls of that thread alone lead to where all lines sent have been
  forwarded and recorded, up to the first that is no frame.
-/

namespace AcpCore.Proxy

open AcpCore.Text AcpCore.Wire AcpCore.Trace

/-- The calls of the thread of a direction that do not fail, and room for what it writes. -/
def relays (dir : Direction) (_ : State) : Action → Bool
  | .lane dir' .read => dir' = dir
  | .lane dir' .write => dir' = dir
  | .lane dir' (.drain _) => dir' = dir
  | .record dir' _ => dir' = dir
  | _ => false

/-- The lines are frames forwarded, the one about to be, and those to be read; or the thread has stopped at one that is
no frame. -/
structure Serving (lines : List (Except WireError Frame)) (l : Lane) : Prop where
  /-- The receiver listens. -/
  listens : l.refused = false
  /-- The lines. -/
  lines : ∃ rest, lines = l.taken.map (fun item => .ok item.frame) ++ rest ∧
    ((∀ r, l.thread ≠ .done r) ∧ rest = l.queue.map (·.map Item.frame) ∨
      ∃ e more, l.thread = .done (.failed (.wire e)) ∧ rest = .error e :: more)

/-- The thread has read all there is, or has returned. -/
def Lane.CaughtUp (l : Lane) : Prop := l.queue = [] ∧ l.thread = .reading ∨ ∃ r, l.thread = .done r

/-- What a thread has left to do, and whether there is to be room for it first. -/
def Lane.measure (l : Lane) : ℕ := 2 * l.left + l.blocked

variable {X : Crates}

/-! ### One call -/

/-- All but the lane and the recorder is as it was. -/
structure Aside (dir : Direction) (s s' : State) : Prop where
  /-- The other lane. -/
  lane : s'.lane (other dir) = s.lane (other dir)
  /-- The main thread. -/
  main : s'.main = s.main
  /-- Stderr. -/
  stderr : s'.stderr = s.stderr
  /-- The writer is not taken. -/
  slot : s'.slot = none → s.slot = none

theorem Aside.trans {dir : Direction} {s s' s'' : State} (h : Aside dir s s') (h' : Aside dir s' s'') : Aside dir s s'' :=
  ⟨h'.lane.trans h.lane, h'.main.trans h.main, h'.stderr.trans h.stderr, fun hs => h.slot (h'.slot hs)⟩

theorem aside_setLane (s : State) (dir : Direction) (l : Lane) : Aside dir s (s.setLane dir l) :=
  ⟨s.setLane_of_ne (other_ne dir) l, rfl, rfl, id⟩

theorem Aside.left {dir : Direction} {s s' : State} (h : Aside dir s s') :
    s'.left + (s.lane dir).left = s.left + (s'.lane dir).left := by
  have hlane := congrArg Lane.left h.lane
  rw [State.left, State.left, h.main, h.stderr]
  cases dir <;> rw [other] at hlane <;> omega

/-- A thread that is `Serving` makes a call after which it still is, and has fewer to make. -/
def Relays (X : Crates) (lines : List (Except WireError Frame)) (dir : Direction) (s : State) : Prop :=
  ∃ a s', relays dir s a = true ∧ step X s a = some s' ∧ Serving lines (s'.lane dir) ∧ Aside dir s s' ∧
    (s'.lane dir).measure < (s.lane dir).measure

theorem measure_lt_of_left {l l' : Lane} (h : l'.left < l.left) : l'.measure < l.measure := by
  have hblocked := l'.blocked_le
  rw [Lane.measure, Lane.measure]
  omega

/-- A call that is an action of the lane. -/
theorem relays_of_lane {lines : List (Except WireError Frame)} {s : State} {dir : Direction} {a : LaneAction} (l : Lane)
    (ha : a = .read ∨ a = .write) (hl : (s.lane dir).step (s.lane (other dir)).received a = some l)
    (hserving : Serving lines l) : Relays X lines dir s := by
  refine ⟨.lane dir a, s.setLane dir l, ?_, ?_, ?_, aside_setLane s dir l, ?_⟩
  · rcases ha with rfl | rfl <;> simp [relays]
  · rw [step, hl]
    rfl
  · rwa [State.setLane_self]
  · have hleft := Lane.left_step dir hl
    rw [State.setLane_self]
    apply measure_lt_of_left
    rcases ha with rfl | rfl <;> simp only [own, LaneAction.own, gain, Bool.toNat_true] at hleft <;> omega

/-- Room for a line. -/
theorem relays_of_drain {lines : List (Except WireError Frame)} {s : State} {dir : Direction} {item : Item}
    (hthread : (s.lane dir).thread = .writing item) (hroom : (s.lane dir).room < item.line.length)
    (hserving : Serving lines (s.lane dir)) : Relays X lines dir s := by
  obtain ⟨l, hl, hsame, hafter, hserving'⟩ : ∃ l, (s.lane dir).step (s.lane (other dir)).received
      (.drain item.line.length) = some l ∧ l.left = (s.lane dir).left ∧ l.blocked = 0 ∧ Serving lines l :=
    ⟨_, rfl, rfl, by simp [Lane.blocked, hthread], ⟨hserving.listens, hserving.lines⟩⟩
  refine ⟨.lane dir (.drain item.line.length), s.setLane dir l, by simp [relays], by rw [step, hl]; rfl, ?_,
    aside_setLane s dir l, ?_⟩
  · rwa [State.setLane_self]
  · have hblocked : (s.lane dir).blocked = 1 := by simp [Lane.blocked, hthread, hroom]
    rw [State.setLane_self, Lane.measure, Lane.measure, hsame, hblocked, hafter]
    exact Nat.lt_succ_self _

/-- A thread that has written a frame records it, or finds no writer. -/
theorem relays_of_recording {root : Str} {m : Manifest} {lines : List (Except WireError Frame)} {s : State}
    {dir : Direction} {item : Item} (hf : Faultless root m s) (hthread : (s.lane dir).thread = .recording item)
    (hserving : Serving lines { s.lane dir with thread := .reading }) : Relays X lines dir s := by
  have hleft : ({ s.lane dir with thread := .reading } : Lane).left < (s.lane dir).left := by
    simp only [Lane.left, hthread, Thread.left]
    omega
  have haside := aside_setLane s dir { s.lane dir with thread := .reading }
  have hself := s.setLane_self dir { s.lane dir with thread := .reading }
  cases hslot : s.slot with
  | none =>
    refine ⟨.record dir 0, _, by simp [relays], ?_, hself.symm ▸ hserving, haside,
      hself.symm ▸ measure_lt_of_left hleft⟩
    rw [step, State.record, hthread, hslot]
  | some w =>
    obtain ⟨hash, w', d, hrec, -⟩ := hf.record (X := X) hslot dir item.frame 0
    refine ⟨.record dir 0, { s.setLane dir { s.lane dir with thread := .reading } with
      slot := some w'
      disk := d
      log := s.log ++ [⟨(s.lane dir).forwarded.length - 1, item,
        TraceWriter.eventRecord X w.nextSeq dir item.frame 0⟩] }, by simp [relays], ?_, ?_, ?_, ?_⟩
    · rw [step, State.record, hthread, hslot]
      simp only [hrec]
    · exact hself.symm ▸ hserving
    · exact ⟨haside.lane, rfl, rfl, fun hnone => (by cases hnone)⟩
    · exact hself.symm ▸ measure_lt_of_left hleft

/-- **A thread that is behind** can make a call, if there is room, which does not fail, and is less behind after. -/
theorem Serving.exists_step {root : Str} {m : Manifest} {lines : List (Except WireError Frame)} {s : State}
    {dir : Direction} (hf : Faultless root m s) (h : Serving lines (s.lane dir)) :
    (s.lane dir).CaughtUp ∨ Relays X lines dir s := by
  have hserving := h
  obtain ⟨hlistens, rest, hlines, hrest⟩ := h
  rw [Lane.taken] at hlines
  cases hthread : (s.lane dir).thread with
  | reading =>
    rw [hthread] at hlines hrest
    have hqueue : rest = (s.lane dir).queue.map (·.map Item.frame) := by
      rcases hrest with ⟨-, hrest⟩ | ⟨e, more, hdone, -⟩
      · exact hrest
      · cases hdone
    rcases hq : (s.lane dir).queue with _ | ⟨result, queue⟩
    · exact .inl (.inl ⟨hq, hthread⟩)
    · right
      rw [hq] at hqueue
      cases result with
      | error e =>
        refine relays_of_lane { s.lane dir with queue, thread := .done (.failed (.wire e)) } (.inl rfl) ?_
          ⟨hlistens, rest, hlines, .inr ⟨e, _, rfl, hqueue⟩⟩
        rw [Lane.step, hthread, hq]
      | ok item =>
        refine relays_of_lane { s.lane dir with queue, thread := .writing item } (.inl rfl) ?_
          ⟨hlistens, queue.map (·.map Item.frame), ?_, .inl ⟨fun _ h => (by cases h), rfl⟩⟩
        · rw [Lane.step, hthread, hq]
        · rw [hlines, hqueue]
          simp [Lane.taken, Thread.unwritten, Except.map]
  | writing item =>
    right
    by_cases hroom : (s.lane dir).room < item.line.length
    · exact relays_of_drain hthread hroom hserving
    · rw [hthread] at hlines hrest
      refine relays_of_lane { s.lane dir with
        room := (s.lane dir).room - item.line.length
        forwarded := (s.lane dir).forwarded ++ [item]
        thread := .recording item } (.inr rfl) ?_ ⟨hlistens, rest, ?_, .inl ⟨fun _ h => (by cases h), ?_⟩⟩
      · simp [Lane.step, hthread, hlistens, hroom]
      · rw [hlines]
        simp [Lane.taken, Thread.unwritten]
      · rcases hrest with ⟨-, hrest⟩ | ⟨e, more, hdone, -⟩
        · exact hrest
        · cases hdone
  | recording item =>
    rw [hthread] at hlines hrest
    right
    refine relays_of_recording hf hthread ⟨hlistens, rest, hlines, .inl ⟨fun _ h => (by cases h), ?_⟩⟩
    rcases hrest with ⟨-, hrest⟩ | ⟨e, more, hdone, -⟩
    · exact hrest
    · cases hdone
  | done r => exact .inl (.inr ⟨r, hthread⟩)

/-! ### Every run -/

/-- A thread that has not returned is `Serving` what was sent. -/
theorem Serving.of_flows {lines : List (Except WireError Frame)} {l : Lane} (h : l.Flows lines)
    (hlistens : l.refused = false) (hthread : ∀ r, l.thread ≠ .done r) : Serving lines l := by
  obtain ⟨rest, hlines, hrest⟩ := h
  exact ⟨hlistens, rest, hlines, .inl ⟨hthread, hrest hthread⟩⟩

/-- A thread that has caught up has forwarded what was sent, up to the first line that is no frame, and has nothing
to record. -/
theorem Serving.caughtUp {lines : List (Except WireError Frame)} {l : Lane} (h : Serving lines l) (hl : l.CaughtUp) :
    (lines = l.forwarded.map (fun item => .ok item.frame) ∨
      ∃ e rest, lines = l.forwarded.map (fun item => .ok item.frame) ++ .error e :: rest) ∧
      l.thread.failed = false ∧ l.thread.held = [] := by
  obtain ⟨-, rest, hlines, ⟨hthread, hrest⟩ | ⟨e, more, hdone, hrest⟩⟩ := h
  · rcases hl with ⟨hqueue, hreading⟩ | ⟨r, hdone⟩
    · rw [Lane.taken, hreading, hrest, hqueue] at hlines
      refine ⟨.inl ?_, by rw [hreading]; rfl, by rw [hreading]; rfl⟩
      simpa [Thread.unwritten] using hlines
    · exact absurd hdone (hthread r)
  · rw [Lane.taken, hdone, hrest] at hlines
    refine ⟨.inr ⟨e, more, ?_⟩, by rw [hdone]; rfl, by rw [hdone]; rfl⟩
    simpa [Thread.unwritten] using hlines

theorem own_of_relays {dir : Direction} {s : State} {a : Action} (h : relays dir s a = true) :
    (own a || drains a) = true := by
  cases a with
  | lane dir' a => cases a <;> first | rfl | cases h
  | record => rfl
  | stderr | exit | wait | waitFails | joinA2c | joinStderr | finalize | joinC2a => cases h

/-- **Neither direction waits for the other.** From any state of any run on a disk that does not fail, however the
threads have been interleaved, a relay thread that has not returned and whose receiver listens needs no step of any
other party but that its receiver reads, and makes no more calls than it has left, to forward all lines sent so far, up
to the first that is no frame; it has recorded them then, unless the main thread has taken the writer before it. -/
theorem caught_up_of_run {cfg : ProxyConfig} {p : Process} {now : Str} {spawned : Bool} {d : Disk} (hd : d.faults = .none)
    {s₀ s : State} {as : List Action} (hstart : start cfg p now spawned d = .ok s₀)
    (hrun : run X Machine.anything s₀ as = some s) (dir : Direction) (hlistens : (s.lane dir).refused = false)
    (hthread : ∀ r, (s.lane dir).thread ≠ .done r) :
    ∃ bs s', run X (relays dir) s bs = some s' ∧ bs.countP own ≤ (s.lane dir).left ∧
      s'.lane (other dir) = s.lane (other dir) ∧ s'.main = s.main ∧
      (sent dir as = (s'.lane dir).forwarded.map (fun item => .ok item.frame) ∨
        ∃ e rest, sent dir as = (s'.lane dir).forwarded.map (fun item => .ok item.frame) ++ .error e :: rest) ∧
      ((s.slot = none → dir = .a2c) → recordedIn dir s'.log = (s'.lane dir).forwarded) := by
  obtain ⟨hfaultless, -, -⟩ := invariants_of_run hd hstart hrun
  obtain ⟨hflows, -, -⟩ := flows_of_run hstart hrun
  have hserving := Serving.of_flows (hflows dir) hlistens hthread
  have hstep : ∀ s₁, Faultless cfg.traceDir (cfg.manifest p now) s₁ ∧ Serving (sent dir as) (s₁.lane dir) ∧
        Aside dir s s₁ →
      (s₁.lane dir).CaughtUp ∨ ∃ a s₂, relays dir s₁ a = true ∧ step X s₁ a = some s₂ ∧
        (Faultless cfg.traceDir (cfg.manifest p now) s₂ ∧ Serving (sent dir as) (s₂.lane dir) ∧ Aside dir s s₂) ∧
        (s₂.lane dir).measure < (s₁.lane dir).measure := by
    rintro s₁ ⟨hf, hserving, haside⟩
    apply (hserving.exists_step (X := X) hf).imp_right
    rintro ⟨a, s₂, ha, hs₂, hserving', haside', hleft⟩
    exact ⟨a, s₂, ha, hs₂, ⟨hf.step (Effect.of_step hs₂), hserving', haside.trans haside'⟩, hleft⟩
  obtain ⟨bs, s', hbs, -, ⟨-, hserving', haside⟩, hcaught⟩ :=
    Machine.exists_run_to (fun s : State => (s.lane dir).measure) hstep ⟨hfaultless, hserving, ⟨rfl, rfl, rfl, id⟩⟩
  obtain ⟨hsent, hfailed, hheld⟩ := hserving'.caughtUp hcaught
  have hcount := countP_own_le (P := fun _ => True) (fun _ _ _ ha _ _ => ⟨gain_of_own (own_of_relays ha), trivial⟩) hbs
    trivial
  have hleft := haside.left
  refine ⟨bs, s', hbs, by omega, haside.lane, haside.main, hsent, fun hrecord => ?_⟩
  -- the calls go on from the run, so what was recorded in it is part of what was forwarded
  obtain ⟨-, hlogged, -⟩ := flows_of_run hstart (Machine.run_append hrun (Machine.run_anything hbs))
  obtain ⟨rest, hrest, hrecorded⟩ := hlogged dir
  rw [hrest, hrecorded (fun hslot => hrecord (haside.slot hslot)) hfailed, hheld, List.append_nil]

/-- The agent's thread has read its response, for which there is no room yet. -/
theorem caught_up_of_run_sample :
    ∃ s₀ s, sampleStart = .ok s₀ ∧
      run (.plain loggedDigests) Machine.anything s₀ (sampleExchange.take 7) = some s ∧ (s.lane .a2c).room = 0 ∧
      ∃ bs s', run (.plain loggedDigests) (relays .a2c) s bs = some s' ∧ bs.countP own ≤ 3 ∧
        recordedIn .a2c s'.log = (s'.lane .a2c).forwarded := by
  obtain ⟨s₀, s, hstart, hrun, hs⟩ := exists_run (.plain loggedDigests) Machine.anything (sampleExchange.take 7)
    (fun s => ((s.lane .a2c).refused, (s.lane .a2c).left, (s.lane .a2c).room, (s.lane .a2c).thread.isDone))
    (false, 3, 0, false) (by decide +kernel)
  simp only [Prod.mk.injEq] at hs
  obtain ⟨hlistens, hleft, hroom, hdone⟩ := hs
  have hthread : ∀ r, (s.lane .a2c).thread ≠ .done r := by
    intro r hr
    rw [hr] at hdone
    cases hdone
  obtain ⟨bs, s', hbs, hcount, -, -, -, hrecorded⟩ := caught_up_of_run (d := emptyDisk) rfl hstart hrun .a2c hlistens hthread
  exact ⟨s₀, s, hstart, hrun, hroom, bs, s', hbs, hleft ▸ hcount, hrecorded fun _ => rfl⟩

end AcpCore.Proxy
