import AcpCore.Trace.Store

/-!
# The relay threads

A relay thread reads a frame from one peer, writes it to the other and records it. The
stderr thread passes on what it reads, up to 4096 bytes at a time.

## The model

A `Lane` is one direction: what was sent and not yet read, what has been forwarded, how
much of it the receiver has taken, and where the thread is. A write waits until its
receiver's end has room for it; a receiver makes `room` with the buffer of its end and by
reading. A write that fails may have let some of the line through, as may the
`BufWriter` that is dropped after it, and the thread returns (`Outcome.cut`).

A frame carries how many frames of the other lane its sender had received when it sent it
(`after`), so that it is known what can have caused it; the program does not look at it.

## What is proved

* `LaneStep.of_step` — what one action of a lane can do;
* `Stderr.Flows.step` — an action of the stderr thread passes on what comes next.
-/

namespace AcpCore.Proxy

open AcpCore.Text AcpCore.Wire AcpCore.Trace

/-- `ProxyError`. -/
inductive ProxyError where
  /-- `Io`. -/
  | io
  /-- `Wire`. -/
  | wire (e : WireError)
  /-- `Trace`. -/
  | trace (e : TraceError)
  /-- `EmptyArgv`. -/
  | emptyArgv
  /-- `AgentExit`. -/
  | agentExit (code : ℤ)
  deriving DecidableEq

/-- The other direction. -/
def other : Direction → Direction
  | .c2a => .a2c
  | .a2c => .c2a

theorem other_ne (dir : Direction) : other dir ≠ dir := by cases dir <;> decide

theorem eq_other_of_ne {dir dir' : Direction} (h : dir' ≠ dir) : dir' = other dir := by
  cases dir <;> cases dir' <;> first | rfl | exact absurd rfl h

/-! ### A thread -/

/-- A frame, and how many frames its sender had received when it sent it. -/
structure Item where
  /-- The frame. -/
  frame : Frame
  /-- The number of frames received. -/
  after : ℕ

/-- What `write_frame` writes. -/
def Item.line (item : Item) : Bytes := item.frame.raw ++ [0x0A]

/-- How a relay thread has returned. -/
inductive Outcome where
  /-- With `Ok`. -/
  | ok
  /-- With the error of reading or recording a frame. -/
  | failed (e : ProxyError)
  /-- With the error of writing a frame, of whose line so many bytes have got through. -/
  | cut (item : Item) (n : ℕ)

/-- What it has returned. -/
def Outcome.result : Outcome → Except ProxyError Unit
  | .ok => .ok ()
  | .failed e => .error e
  | .cut _ _ => .error (.wire .io)

/-- Where a relay thread is. -/
inductive Thread where
  /-- It reads a frame. -/
  | reading
  /-- It has read a frame and writes it. -/
  | writing (item : Item)
  /-- It has written a frame and waits for the lock to record it. -/
  | recording (item : Item)
  /-- It has returned. -/
  | done (outcome : Outcome)

namespace Thread

/-- It has returned because `record` failed. -/
def failed : Thread → Bool
  | .done (.failed (.trace _)) => true
  | _ => false

/-- It reads a frame. -/
def isReading : Thread → Bool
  | .reading => true
  | _ => false

/-- It has returned. -/
def isDone : Thread → Bool
  | .done _ => true
  | _ => false

/-- What it has read and not written whole. -/
def unwritten : Thread → List Item
  | .writing item => [item]
  | .done (.cut item _) => [item]
  | _ => []

/-- What it has written and not recorded. -/
def held : Thread → List Item
  | .recording item => [item]
  | _ => []

/-- The part of a line that a write which failed has let through. -/
def part : Thread → Bytes
  | .done (.cut item n) => item.line.take n
  | _ => []

/-- Whitespace, as it may end a line. -/
def isBlank (b : UInt8) : Bool := b = 0x20 || b = 0x09 || b = 0x0D

/-- The frame of that part, if there is nothing left of it but blanks. -/
def whole : Thread → List Item
  | .done (.cut item n) => if (item.frame.raw.drop n).all isBlank then [item] else []
  | _ => []

@[simp] theorem held_writing (item : Item) : (Thread.writing item).held = [] := rfl

@[simp] theorem held_recording (item : Item) : (Thread.recording item).held = [item] := rfl

@[simp] theorem held_done (outcome : Outcome) : (Thread.done outcome).held = [] := rfl

theorem held_congr {t t' : Thread} (h : ∀ item, t' = .recording item ↔ t = .recording item) : t'.held = t.held := by
  cases t with
  | recording item => rw [(h item).mpr rfl]
  | reading | writing | done => cases t' with
    | recording item => cases (h item).mp rfl
    | reading | writing | done => rfl

theorem length_unwritten_le (t : Thread) : t.unwritten.length ≤ 1 := by
  cases t with
  | done outcome => cases outcome <;> simp [unwritten]
  | reading | writing | recording => simp [unwritten]

theorem whole_isPrefix_unwritten (t : Thread) : t.whole <+: t.unwritten := by
  cases t with
  | done outcome => cases outcome with
    | cut item n =>
      rw [whole]
      split_ifs
      · exact List.prefix_rfl
      · exact List.nil_prefix
    | ok | failed => exact List.prefix_rfl
  | writing item => exact List.nil_prefix
  | reading | recording => exact List.prefix_rfl

/-- What a write that failed has let through is a part of the line that comes next. -/
theorem part_isPrefix (t : Thread) : t.part <+: Lines.joinLines 0x0A (t.unwritten.map (·.frame.raw)) := by
  cases t with
  | done outcome => cases outcome with
    | cut item n =>
      rw [part, unwritten, List.map_singleton, Lines.joinLines_cons, Lines.joinLines_nil]
      exact List.take_prefix ..
    | ok | failed => exact List.nil_prefix
  | reading | writing | recording => exact List.nil_prefix

end Thread

/-! ### Lanes -/

/-- One direction. -/
structure Lane where
  /-- What `read_frame` will return for what was sent. -/
  queue : List (Except WireError Item)
  /-- The sender has closed its end. -/
  closed : Bool
  /-- The receiver has closed its end. -/
  refused : Bool
  /-- How many bytes the receiver's end takes before it has to be read from. -/
  room : ℕ
  /-- The frames written. -/
  forwarded : List Item
  /-- How many of those that have arrived were received. -/
  received : ℕ
  /-- The thread. -/
  thread : Thread

namespace Lane

/-- A lane on which nothing was sent. -/
def idle : Lane where
  queue := []
  closed := false
  refused := false
  room := 0
  forwarded := []
  received := 0
  thread := .reading

/-- The frames read: those forwarded, and the one that is not written whole. -/
def taken (l : Lane) : List Item := l.forwarded ++ l.thread.unwritten

/-- The frames that have arrived. -/
def arrived (l : Lane) : List Item := l.forwarded ++ l.thread.whole

/-- The bytes that have arrived. -/
def bytes (l : Lane) : Bytes := Lines.joinLines 0x0A (l.forwarded.map (·.frame.raw)) ++ l.thread.part

theorem arrived_isPrefix_taken (l : Lane) : l.arrived <+: l.taken :=
  List.prefix_append_right_inj _ |>.mpr l.thread.whole_isPrefix_unwritten

theorem bytes_isPrefix (l : Lane) : l.bytes <+: Lines.joinLines 0x0A (l.taken.map (·.frame.raw)) := by
  rw [bytes, taken, List.map_append, Lines.joinLines_append]
  exact List.prefix_append_right_inj _ |>.mpr l.thread.part_isPrefix

/-- A frame is on its way: sent, and not yet recorded. -/
def Carries (l : Lane) (item : Item) : Prop :=
  .ok item ∈ l.queue ∨ l.thread = .writing item ∨ l.thread = .recording item

/-- Nothing arrives while a frame is recorded. -/
theorem arrived_recorded {l : Lane} {item : Item} (hthread : l.thread = .recording item) {t : Thread}
    (ht : t = .reading ∨ ∃ e, t = .done (.failed e)) : ({ l with thread := t } : Lane).arrived = l.arrived := by
  rw [arrived, arrived, hthread]
  rcases ht with rfl | ⟨e, rfl⟩ <;> rfl

end Lane

/-- An action on a lane: the first five are the peers', the last three the thread's. -/
inductive LaneAction where
  /-- A line is sent, for which `read_frame` will return this. -/
  | send (result : Except WireError Frame)
  /-- The sender closes its end. -/
  | close
  /-- The receiver closes its end. -/
  | refuse
  /-- The receiver's end takes more bytes. -/
  | drain (n : ℕ)
  /-- The next frame that has arrived is received. -/
  | receive
  /-- `read_frame`. -/
  | read
  /-- `write_frame`. -/
  | write
  /-- `write_frame` fails, and so many bytes get through before and after. -/
  | writeFails (n : ℕ)

/-- An action on a lane, where `after` frames of the other have been received. -/
def Lane.step (l : Lane) (after : ℕ) : LaneAction → Option Lane
  | .send result =>
    if l.closed then none else some { l with queue := l.queue ++ [result.map fun frame => ⟨frame, after⟩] }
  | .close => if l.closed then none else some { l with closed := true }
  | .refuse => if l.refused then none else some { l with refused := true }
  | .drain n => some { l with room := l.room + n }
  | .receive => if l.received < l.arrived.length then some { l with received := l.received + 1 } else none
  | .read =>
    match l.thread, l.queue with
    | .reading, .ok item :: queue => some { l with queue, thread := .writing item }
    | .reading, .error e :: queue => some { l with queue, thread := .done (.failed (.wire e)) }
    | .reading, [] => if l.closed then some { l with thread := .done .ok } else none
    | _, _ => none
  | .write =>
    match l.thread with
    | .writing item =>
      -- it waits for room
      if l.refused ∨ l.room < item.line.length then none
      else some { l with
        room := l.room - item.line.length
        forwarded := l.forwarded ++ [item]
        thread := .recording item }
    | _ => none
  | .writeFails n =>
    match l.thread with
    | .writing item =>
      if n ≤ l.room ∧ n ≤ item.line.length then some { l with room := l.room - n, thread := .done (.cut item n) }
      else none
    | _ => none

/-- All that an action can do to a lane. -/
structure LaneStep (after : ℕ) (a : LaneAction) (l l' : Lane) : Prop where
  /-- A frame is forwarded by `write`, which leaves it to be recorded, and by nothing else. -/
  forwarded : (l'.forwarded = l.forwarded ∧ ∀ item, l'.thread = .recording item ↔ l.thread = .recording item) ∨
    ∃ item, a = .write ∧ l.thread = .writing item ∧ l'.forwarded = l.forwarded ++ [item] ∧ l'.thread = .recording item
  /-- What has arrived has arrived. -/
  arrived : l.arrived <+: l'.arrived
  /-- What was received stays received. -/
  received : l.received ≤ l'.received
  /-- No more is received than has arrived. -/
  received_le : l.received ≤ l.arrived.length → l'.received ≤ l'.arrived.length
  /-- What is on its way was, or is sent now. -/
  carries : ∀ item, l'.Carries item → l.Carries item ∨ item.after = after
  /-- A thread that has returned has returned. -/
  done : ∀ r, l.thread = .done r → l'.thread = .done r
  /-- Recording does not fail. -/
  failed : l.thread.failed = false → l'.thread.failed = false

/-- An action that moves neither the thread nor what is forwarded. -/
theorem LaneStep.of_peer {after : ℕ} {a : LaneAction} {l l' : Lane} (hthread : l'.thread = l.thread)
    (hforwarded : l'.forwarded = l.forwarded) (hreceived : l.received ≤ l'.received)
    (hle : l.received ≤ l.arrived.length → l'.received ≤ l.arrived.length)
    (hqueue : ∀ item, .ok item ∈ l'.queue → .ok item ∈ l.queue ∨ item.after = after) : LaneStep after a l l' := by
  have harrived : l'.arrived = l.arrived := by rw [Lane.arrived, Lane.arrived, hthread, hforwarded]
  constructor
  · exact .inl ⟨hforwarded, fun item => by rw [hthread]⟩
  · rw [harrived]
  · exact hreceived
  · exact fun h => harrived ▸ hle h
  · intro item h
    rw [Lane.Carries, hthread] at h
    rcases h with h | h
    · exact (hqueue item h).imp .inl id
    · exact .inl (.inr h)
  · exact fun r h => hthread ▸ h
  · exact fun h => hthread ▸ h

/-- An action of a thread that has nothing to record before it or after. -/
theorem LaneStep.of_thread {after : ℕ} {a : LaneAction} {l l' : Lane}
    (hbefore : l.thread = .reading ∨ ∃ item, l.thread = .writing item) (hafter : ∀ item, l'.thread ≠ .recording item)
    (hfailed : l'.thread.failed = false) (hforwarded : l'.forwarded = l.forwarded) (hreceived : l'.received = l.received)
    (hqueue : ∀ item, .ok item ∈ l'.queue → .ok item ∈ l.queue)
    (hwriting : ∀ item, l'.thread = .writing item → .ok item ∈ l.queue) : LaneStep after a l l' := by
  have harrived : l.arrived <+: l'.arrived := by
    have hnil : l.thread.whole = [] := by rcases hbefore with hthread | ⟨_, hthread⟩ <;> rw [hthread] <;> rfl
    rw [Lane.arrived, Lane.arrived, hnil, List.append_nil, hforwarded]
    exact List.prefix_append ..
  constructor
  · refine .inl ⟨hforwarded, fun item => iff_of_false (hafter item) fun h => ?_⟩
    rcases hbefore with hthread | ⟨_, hthread⟩ <;> rw [hthread] at h <;> cases h
  · exact harrived
  · exact hreceived.ge
  · exact fun h => (hreceived.trans_le h).trans harrived.length_le
  · intro item h
    rcases h with h | h | h
    · exact .inl (.inl (hqueue item h))
    · exact .inl (.inl (hwriting item h))
    · exact absurd h (hafter item)
  · intro r h
    rcases hbefore with hthread | ⟨_, hthread⟩ <;> rw [hthread] at h <;> cases h
  · exact fun _ => hfailed

/-- A thread that writes its frame. -/
theorem LaneStep.of_write {after room : ℕ} {l : Lane} {item : Item} (hthread : l.thread = .writing item) :
    LaneStep after .write l { l with room, forwarded := l.forwarded ++ [item], thread := .recording item } := by
  have harrived : l.arrived = l.forwarded := by rw [Lane.arrived, hthread]; exact List.append_nil _
  have harrived' : l.arrived
      <+: ({ l with room, forwarded := l.forwarded ++ [item], thread := .recording item } : Lane).arrived := by
    rw [harrived, Lane.arrived, List.append_assoc]
    exact List.prefix_append ..
  constructor
  · exact .inr ⟨item, rfl, hthread, rfl, rfl⟩
  · exact harrived'
  · exact le_rfl
  · exact fun hle => hle.trans harrived'.length_le
  · rintro i (hi | hi | hi)
    · exact .inl (.inl hi)
    · cases hi
    · cases hi
      exact .inl (.inr (.inl hthread))
  · intro r hr
    rw [hthread] at hr
    cases hr
  · exact fun _ => rfl

/-- **What one action of a lane can do.** -/
theorem LaneStep.of_step {after : ℕ} {a : LaneAction} {l l' : Lane} (h : l.step after a = some l') :
    LaneStep after a l l' := by
  cases a with
  | send result =>
    rw [Lane.step] at h
    split_ifs at h
    cases h
    refine .of_peer rfl rfl le_rfl id fun item hitem => ?_
    rcases List.mem_append.mp hitem with hitem | hitem
    · exact .inl hitem
    · cases result with
      | error e => cases List.mem_singleton.mp hitem
      | ok frame =>
        cases List.mem_singleton.mp hitem
        exact .inr rfl
  | close | refuse =>
    rw [Lane.step] at h
    split_ifs at h
    cases h
    exact .of_peer rfl rfl le_rfl id fun _ => .inl
  | drain n =>
    cases h
    exact .of_peer rfl rfl le_rfl id fun _ => .inl
  | receive =>
    rw [Lane.step] at h
    split_ifs at h with hlt
    cases h
    exact .of_peer rfl rfl (Nat.le_succ _) (fun _ => hlt) fun _ => .inl
  | read =>
    rw [Lane.step] at h
    split at h
    · next item queue hthread hqueue =>
      cases h
      refine .of_thread (.inl hthread) (fun _ h => by cases h) rfl rfl rfl (fun i hi => ?_) fun i hi => ?_
      · rw [hqueue]
        exact List.mem_cons_of_mem _ hi
      · cases hi
        rw [hqueue]
        exact List.mem_cons_self
    · next e queue hthread hqueue =>
      cases h
      refine .of_thread (.inl hthread) (fun _ h => by cases h) rfl rfl rfl (fun i hi => ?_) fun _ h => by cases h
      rw [hqueue]
      exact List.mem_cons_of_mem _ hi
    · next hthread hqueue =>
      split_ifs at h
      cases h
      exact .of_thread (.inl hthread) (fun _ h => by cases h) rfl rfl rfl (fun _ => id) fun _ h => by cases h
    · cases h
  | write =>
    rw [Lane.step] at h
    split at h
    · next item hthread =>
      split_ifs at h
      cases h
      exact .of_write hthread
    · cases h
  | writeFails n =>
    rw [Lane.step] at h
    split at h
    · next item hthread =>
      split_ifs at h
      cases h
      exact .of_thread (.inr ⟨item, hthread⟩) (fun _ h => by cases h) rfl rfl rfl (fun _ => id) fun _ h => by cases h
    · cases h

/-! ### The stderr thread -/

/-- Where the stderr thread is. -/
inductive StderrThread where
  /-- It reads. -/
  | reading
  /-- It writes what it has read. -/
  | writing (buf : Bytes)
  /-- It has returned. -/
  | done
  deriving DecidableEq

/-- What it has read and not written. -/
def StderrThread.unwritten : StderrThread → Bytes
  | .writing buf => buf
  | _ => []

/-- The agent's stderr, and the proxy's. -/
structure Stderr where
  /-- What the agent has written and is not yet read. -/
  queue : Bytes
  /-- The agent has closed its end. -/
  closed : Bool
  /-- The proxy's stderr is closed. -/
  refused : Bool
  /-- How many bytes the proxy's stderr takes before it has to be read from. -/
  room : ℕ
  /-- The bytes written. -/
  forwarded : Bytes
  /-- The thread. -/
  thread : StderrThread

/-- Nothing was written. -/
def Stderr.idle : Stderr where
  queue := []
  closed := false
  refused := false
  room := 0
  forwarded := []
  thread := .reading

/-- An action on stderr: the first four are the peers', the others the thread's. -/
inductive StderrAction where
  /-- The agent writes. -/
  | emit (bs : Bytes)
  /-- It closes its end. -/
  | close
  /-- The proxy's stderr is closed. -/
  | refuse
  /-- The proxy's stderr takes more bytes. -/
  | drain (n : ℕ)
  /-- `read` returns so many bytes. -/
  | read (n : ℕ)
  /-- `read` fails. -/
  | readFails
  /-- `write_all` and `flush`. -/
  | write
  /-- One of them fails, when so many bytes have got through. -/
  | writeFails (n : ℕ)

/-- The size of the stderr thread's buffer. -/
def bufSize : ℕ := 4096

/-- An action on stderr. -/
def Stderr.step (e : Stderr) : StderrAction → Option Stderr
  | .emit bs => if e.closed then none else some { e with queue := e.queue ++ bs }
  | .close => if e.closed then none else some { e with closed := true }
  | .refuse => if e.refused then none else some { e with refused := true }
  | .drain n => some { e with room := e.room + n }
  | .read n =>
    match e.thread with
    | .reading =>
      if n = 0 then if e.queue = [] ∧ e.closed then some { e with thread := .done } else none
      else if n ≤ bufSize ∧ n ≤ e.queue.length then
        some { e with queue := e.queue.drop n, thread := .writing (e.queue.take n) }
      else none
    | _ => none
  | .readFails =>
    match e.thread with
    | .reading => some { e with thread := .done }
    | _ => none
  | .write =>
    match e.thread with
    | .writing buf =>
      if e.refused ∨ e.room < buf.length then none
      else some { e with room := e.room - buf.length, forwarded := e.forwarded ++ buf, thread := .reading }
    | _ => none
  | .writeFails n =>
    match e.thread with
    | .writing buf =>
      if n ≤ e.room ∧ n ≤ buf.length then
        some { e with room := e.room - n, forwarded := e.forwarded ++ buf.take n, thread := .done }
      else none
    | _ => none

/-- A thread that has returned has returned. -/
theorem Stderr.done_of_step {e e' : Stderr} {a : StderrAction} (h : e.step a = some e') (hdone : e.thread = .done) :
    e'.thread = .done := by
  cases a with
  | emit | close | refuse =>
    rw [step] at h
    split_ifs at h
    cases h
    exact hdone
  | drain n =>
    cases h
    exact hdone
  | read | readFails | write | writeFails =>
    rw [step, hdone] at h
    cases h

/-- What an action writes to the agent's stderr. -/
def StderrAction.emits : StderrAction → Bytes
  | .emit bs => bs
  | _ => []

/-- What the agent has written begins with what was passed on; as long as the thread has not returned the rest is what it
is about to write and what is still to be read. -/
def Stderr.Flows (emitted : Bytes) (e : Stderr) : Prop :=
  ∃ rest, emitted = e.forwarded ++ rest ∧ (e.thread ≠ .done → rest = e.thread.unwritten ++ e.queue)

/-- **An action on stderr** passes on what comes next, or the thread returns. -/
theorem Stderr.Flows.step {emitted : Bytes} {e e' : Stderr} {a : StderrAction} (h : e.step a = some e')
    (he : e.Flows emitted) : e'.Flows (emitted ++ a.emits) := by
  obtain ⟨rest, rfl, hrest⟩ := he
  cases a with
  | emit bs =>
    rw [Stderr.step] at h
    split_ifs at h
    cases h
    refine ⟨rest ++ bs, List.append_assoc .., fun hdone => ?_⟩
    rw [hrest hdone, List.append_assoc]
  | close | refuse =>
    rw [Stderr.step] at h
    split_ifs at h
    cases h
    exact ⟨rest, List.append_nil _, hrest⟩
  | drain n =>
    cases h
    exact ⟨rest, List.append_nil _, hrest⟩
  | read n =>
    rw [Stderr.step] at h
    split at h
    · next hthread =>
      split_ifs at h
      · cases h
        exact ⟨rest, List.append_nil _, fun hdone => absurd rfl hdone⟩
      · cases h
        refine ⟨rest, List.append_nil _, fun _ => ?_⟩
        rw [hrest (by rw [hthread]; nofun), hthread]
        exact (List.take_append_drop n e.queue).symm
    · cases h
  | readFails =>
    rw [Stderr.step] at h
    split at h
    · cases h
      exact ⟨rest, List.append_nil _, fun hdone => absurd rfl hdone⟩
    · cases h
  | write =>
    rw [Stderr.step] at h
    split at h
    · next buf hthread =>
      split_ifs at h
      cases h
      refine ⟨e.queue, ?_, fun _ => rfl⟩
      rw [hrest (by rw [hthread]; nofun), hthread, StderrThread.unwritten]
      simp [StderrAction.emits]
    · cases h
  | writeFails n =>
    rw [Stderr.step] at h
    split at h
    · next buf hthread =>
      split_ifs at h
      cases h
      -- what is left of the buffer is lost
      refine ⟨buf.drop n ++ e.queue, ?_, fun hdone => absurd rfl hdone⟩
      rw [hrest (by rw [hthread]; nofun), hthread, StderrThread.unwritten]
      simp only [StderrAction.emits, List.append_nil, List.append_assoc, List.take_append_drop,
        ← List.append_assoc (buf.take n)]
    · cases h

end AcpCore.Proxy
