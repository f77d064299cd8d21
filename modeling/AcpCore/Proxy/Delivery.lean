import AcpCore.Proxy.Reporting

/-!
# What arrives

Relay threads stop when a line is no frame, when a write fails or when `record` does;
the other direction goes on, and so may the peers.

## The model

`Lane.Flows` says how far a thread has come with what was sent. Nothing is assumed of
the disk, and any action may fail.

## What is proved

* `Lane.Flows.step` — an action of a lane passes on the next frame sent, or stops;
* `Logged.step` — what is recorded in a direction stays an initial part of what its thread
  has forwarded, also where a thread fails to record or finds no writer;
* **`delivered_of_run`** — in every state of every run the log has an initial part of what was
  forwarded in each direction, what has arrived are the lines forwarded and maybe a part of
  the next, and these are an initial part of what was sent.
-/

namespace AcpCore.Proxy

open AcpCore.Text AcpCore.Wire AcpCore.Trace

/-- What was sent on a lane begins with what its thread has read; as long as that has not returned the rest is still to
be read. -/
def Lane.Flows (lines : List (Except WireError Frame)) (l : Lane) : Prop :=
  ∃ rest, lines = l.taken.map (fun item => .ok item.frame) ++ rest ∧
    ((∀ r, l.thread ≠ .done r) → rest = l.queue.map (·.map Item.frame))

/-- Of what a thread has forwarded, `log` begins with what it has recorded; as long as it has not failed to record,
and may `record`, the rest is what it is about to record. -/
def Lane.Logs (log : List Item) (record : Prop) (l : Lane) : Prop :=
  ∃ rest, l.forwarded = log ++ rest ∧ (record → l.thread.failed = false → rest = l.thread.held)

/-- What a thread has forwarded begins with what it has recorded, and there is no more but what it is about to record
as long as there is a writer, and in the agent's direction also when it has been taken. -/
def Logged (s : State) : Prop := ∀ dir, (s.lane dir).Logs (recordedIn dir s.log) (s.slot = none → dir = .a2c)

/-- What an action writes to the agent's stderr. -/
def emittedBy : Action → Bytes
  | .stderr a => a.emits
  | _ => []

/-- What the agent writes to its stderr. -/
def emitted (as : List Action) : Bytes := as.flatMap emittedBy

variable {X : Crates}

/-! ### What is forwarded -/

theorem Lane.Flows.taken {lines : List (Except WireError Frame)} {l : Lane} (h : l.Flows lines) :
    (l.taken.map fun item => .ok item.frame) <+: lines := by
  obtain ⟨rest, rfl, -⟩ := h
  exact List.prefix_append ..

theorem Lane.Flows.isPrefix {lines : List (Except WireError Frame)} {l : Lane} (h : l.Flows lines) :
    (l.forwarded.map fun item => .ok item.frame) <+: lines :=
  ((List.prefix_append ..).map _).trans h.taken

/-- **An action of a lane** passes on the next frame sent, or its thread stops. -/
theorem Lane.Flows.step {lines : List (Except WireError Frame)} {l l' : Lane} {after : ℕ} {dir : Direction}
    {a : LaneAction} (h : l.step after a = some l') (hl : l.Flows lines) :
    l'.Flows (lines ++ (sentBy dir (.lane dir a)).toList) := by
  obtain ⟨rest, rfl, hrest⟩ := hl
  cases a with
  | send result =>
    rw [Lane.step] at h
    split_ifs at h
    cases h
    refine ⟨rest ++ [result], by simp [Lane.taken, sentBy], fun hdone => ?_⟩
    rw [hrest hdone]
    cases result <;> simp [Except.map]
  | close | refuse | receive =>
    rw [Lane.step] at h
    split_ifs at h
    cases h
    exact ⟨rest, by simp [Lane.taken, sentBy], hrest⟩
  | drain n =>
    cases h
    exact ⟨rest, by simp [Lane.taken, sentBy], hrest⟩
  | read =>
    rw [Lane.step] at h
    split at h
    · next item queue hthread hqueue =>
      cases h
      refine ⟨queue.map (·.map Item.frame), ?_, fun _ => rfl⟩
      rw [hrest (by simp [hthread]), Lane.taken, hthread, hqueue]
      simp [Lane.taken, Thread.unwritten, sentBy, Except.map]
    · next hthread hqueue =>
      cases h
      exact ⟨rest, by simp [Lane.taken, hthread, Thread.unwritten, sentBy], fun hdone => absurd rfl (hdone _)⟩
    · next hthread hqueue =>
      split_ifs at h
      cases h
      exact ⟨rest, by simp [Lane.taken, hthread, Thread.unwritten, sentBy], fun hdone => absurd rfl (hdone _)⟩
    · cases h
  | write =>
    rw [Lane.step] at h
    split at h
    · next item hthread =>
      split_ifs at h
      cases h
      exact ⟨rest, by simp [Lane.taken, hthread, Thread.unwritten, sentBy], fun _ => hrest (by simp [hthread])⟩
    · cases h
  | writeFails n =>
    rw [Lane.step] at h
    split at h
    · next item hthread =>
      split_ifs at h
      cases h
      exact ⟨rest, by simp [Lane.taken, hthread, Thread.unwritten, sentBy], fun hdone => absurd rfl (hdone _)⟩
    · cases h

/-- A thread that is done recording has nothing to write. -/
theorem Lane.Flows.recorded {lines : List (Except WireError Frame)} {l : Lane} {item : Item} {t : Thread}
    (hthread : l.thread = .recording item) (ht : t = .reading ∨ ∃ e, t = .done (.failed e)) (h : l.Flows lines) :
    ({ l with thread := t } : Lane).Flows lines := by
  obtain ⟨rest, hlines, hrest⟩ := h
  rw [hthread] at hrest
  rw [Lane.taken, hthread] at hlines
  refine ⟨rest, ?_, fun _ => hrest fun _ h => by cases h⟩
  rcases ht with rfl | ⟨e, rfl⟩ <;> exact hlines

/-- **Every action** passes on what was sent, in order. -/
theorem flows_step {as : List Action} {s s' : State} {a : Action} (h : step X s a = some s')
    (hs : ∀ dir, (s.lane dir).Flows (sent dir as)) (dir : Direction) : (s'.lane dir).Flows (sent dir (as ++ [a])) := by
  rw [sent_concat]
  have hset : ∀ {dir' : Direction} {item : Item} {t : Thread}, (s.lane dir').thread = .recording item →
      (t = .reading ∨ ∃ e, t = .done (.failed e)) →
      ((s.setLane dir' { s.lane dir' with thread := t }).lane dir).Flows (sent dir as ++ []) := by
    intro dir' item t hthread ht
    rw [List.append_nil]
    exact State.forall_setLane (P := fun dir l => l.Flows (sent dir as)) ((hs dir').recorded hthread ht)
      (fun dir _ => hs dir) dir
  cases a with
  | lane dir' a =>
    obtain ⟨l, hl, rfl⟩ := Option.map_eq_some_iff.mp h
    by_cases hdir : dir = dir'
    · subst hdir
      rw [State.setLane_self]
      exact (hs dir).step hl
    · rw [State.setLane_of_ne _ hdir, sentBy_of_ne hdir, Option.toList_none, List.append_nil]
      exact hs dir
  | record dir' now =>
    show (s'.lane dir).Flows (sent dir as ++ [])
    cases Effect.of_step h with
    | skipped hthread _ => exact hset hthread (.inl rfl)
    | recorded hthread _ _ => exact hset hthread (.inl rfl)
    | failed hthread _ _ => exact hset hthread (.inr ⟨_, rfl⟩)
    | quiet hlane =>
      rw [hlane, List.append_nil]
      exact hs dir
  | finalize now =>
    show (s'.lane dir).Flows (sent dir as ++ [])
    rw [List.append_nil]
    cases Effect.of_step h with
    | finalized => exact hs dir
    | quiet hlane => rw [hlane]; exact hs dir
  | stderr | exit | wait | waitFails | joinA2c | joinStderr | joinC2a =>
    show (s'.lane dir).Flows (sent dir as ++ [])
    rw [List.append_nil]
    cases Effect.of_step h with
    | quiet hlane => rw [hlane]; exact hs dir

/-! ### What is recorded -/

/-- The main thread joins the agent's thread before it takes the writer. -/
theorem joined_step {s s' : State} {a : Action} (he : Effect X s a s') (hawaited : Awaited s)
    (h : s.slot = none → ∃ r, (s.lane .a2c).thread = .done r) (hslot' : s'.slot = none) :
    ∃ r, (s'.lane .a2c).thread = .done r := by
  have hdone : ∃ r, (s.lane .a2c).thread = .done r := by
    cases he with
    | lane _ => exact h hslot'
    | skipped _ hslot => exact h hslot
    | recorded _ _ _ => cases hslot'
    | failed _ _ _ => cases hslot'
    | finalized hmain _ _ => exact hawaited.joined (by rw [hmain]; rfl)
    | quiet _ hslot => exact h (hslot ▸ hslot')
  obtain ⟨r, hdone⟩ := hdone
  exact ⟨r, he.done hdone⟩

/-- An action of a lane forwards what is to be recorded next. -/
theorem Lane.Logs.step {log : List Item} {record : Prop} {l l' : Lane} {a : LaneAction} {after : ℕ}
    (h : l.Logs log record) (hl : LaneStep after a l l') : l'.Logs log record := by
  obtain ⟨rest, hrest, hheld⟩ := h
  rcases hl.forwarded with ⟨hforwarded, hrec⟩ | ⟨item, -, hthread, hforwarded, hthread'⟩
  · refine ⟨rest, hforwarded.trans hrest, fun hrecord hfailed => ?_⟩
    exact (hheld hrecord (hl.failed_of_failed hfailed)).trans (Thread.held_congr hrec).symm
  · refine ⟨rest ++ [item], by rw [hforwarded, hrest, List.append_assoc], fun hrecord _ => ?_⟩
    rw [hheld hrecord (by rw [hthread]; rfl), hthread, hthread', Thread.held_writing, Thread.held_recording,
      List.nil_append]

/-- **Every action** records the next frame of a direction, or none. -/
theorem Logged.step {s s' : State} {a : Action} (he : Effect X s a s')
    (hjoined : s.slot = none → ∃ r, (s.lane .a2c).thread = .done r) (h : Logged s) : Logged s' := by
  cases he with
  | lane hl =>
    exact State.forall_setLane (P := fun dir l => l.Logs (recordedIn dir s.log) (s.slot = none → dir = .a2c))
      ((h _).step hl) fun dir' _ => h dir'
  | @skipped dir _ _ hthread hslot =>
    refine State.forall_setLane (P := fun dir l => l.Logs (recordedIn dir s.log) (s.slot = none → dir = .a2c)) ?_
      fun dir' _ => h dir'
    obtain ⟨rest, hrest, -⟩ := h dir
    refine ⟨rest, hrest, fun hrecord _ => ?_⟩
    -- the agent's thread has returned: it is the other one
    obtain ⟨r, hdone⟩ := hjoined hslot
    rw [hrecord hslot, hdone] at hthread
    cases hthread
  | @recorded dir now item w w' d hash hthread hslot hrec =>
    have hsome : ∀ {dir' : Direction}, s.slot = none → dir' = .a2c := fun hnone => by rw [hslot] at hnone; cases hnone
    refine State.forall_setLane (P := fun dir' l => l.Logs (recordedIn dir' (s.log ++ [_])) _) ?_ fun dir' hdir => ?_
    · obtain ⟨rest, hrest, hheld⟩ := h dir
      refine ⟨[], ?_, fun _ _ => rfl⟩
      have hconcat := recordedIn_concat_self s.log ⟨(s.lane dir).forwarded.length - 1, item,
        TraceWriter.eventRecord X w.nextSeq dir item.frame now⟩
      rw [List.append_nil]
      refine Eq.trans ?_ hconcat.symm
      show (s.lane dir).forwarded = recordedIn dir s.log ++ [item]
      rw [hrest, hheld hsome (by rw [hthread]; rfl), hthread, Thread.held_recording]
    · obtain ⟨rest, hrest, hheld⟩ := h dir'
      exact ⟨rest, by rw [recordedIn_concat_of_ne (Ne.symm hdir), hrest], fun _ => hheld hsome⟩
  | @failed dir _ _ _ _ _ _ hthread hslot _ =>
    have hsome : ∀ {dir' : Direction}, s.slot = none → dir' = .a2c := fun hnone => by rw [hslot] at hnone; cases hnone
    refine State.forall_setLane (P := fun dir' l => l.Logs (recordedIn dir' s.log) _) ?_ fun dir' _ => ?_
    · obtain ⟨rest, hrest, -⟩ := h dir
      exact ⟨rest, hrest, fun _ hfailed => by cases hfailed⟩
    · obtain ⟨rest, hrest, hheld⟩ := h dir'
      exact ⟨rest, hrest, fun _ => hheld hsome⟩
  | finalized _ hslot _ =>
    intro dir
    obtain ⟨rest, hrest, hheld⟩ := h dir
    exact ⟨rest, hrest, fun _ => hheld fun hnone => by rw [hslot] at hnone; cases hnone⟩
  | quiet hlane hslot _ hlog _ _ =>
    rw [Logged, hlane, hslot, hlog]
    exact h

/-- No more is received than has arrived. -/
theorem received_le_step {s s' : State} {a : Action} (he : Effect X s a s')
    (h : ∀ dir, (s.lane dir).received ≤ (s.lane dir).arrived.length) (dir : Direction) :
    (s'.lane dir).received ≤ (s'.lane dir).arrived.length := by
  have hset : ∀ {dir' : Direction} {l : Lane}, l.received ≤ l.arrived.length →
      ((s.setLane dir' l).lane dir).received ≤ ((s.setLane dir' l).lane dir).arrived.length := fun hl =>
    State.forall_setLane (P := fun _ l => l.received ≤ l.arrived.length) hl (fun dir _ => h dir) dir
  have hrecorded : ∀ {dir' : Direction} {item : Item} {t : Thread}, (s.lane dir').thread = .recording item →
      (t = .reading ∨ ∃ e, t = .done (.failed e)) →
      ({ s.lane dir' with thread := t } : Lane).received ≤ ({ s.lane dir' with thread := t } : Lane).arrived.length := by
    intro dir' item t hthread ht
    rw [Lane.arrived_recorded hthread ht]
    exact h dir'
  cases he with
  | @lane dir' _ _ hl => exact hset (hl.received_le (h dir'))
  | skipped hthread _ => exact hset (hrecorded hthread (.inl rfl))
  | recorded hthread _ _ => exact hset (hrecorded hthread (.inl rfl))
  | failed hthread _ _ => exact hset (hrecorded hthread (.inr ⟨_, rfl⟩))
  | finalized => exact h dir
  | quiet hlane => rw [hlane]; exact h dir

/-! ### Stderr -/

/-- Finalizing and recording leave stderr alone. -/
theorem stderr_of_step {s s' : State} {a : Action} (h : step X s a = some s') :
    s'.stderr = s.stderr ∧ emittedBy a = [] ∨ ∃ b, a = .stderr b ∧ s.stderr.step b = some s'.stderr := by
  cases a with
  | lane dir a =>
    obtain ⟨l, -, rfl⟩ := Option.map_eq_some_iff.mp h
    exact .inl ⟨rfl, rfl⟩
  | record dir now =>
    rw [step, State.record] at h
    split at h
    · split at h
      · cases h
        exact .inl ⟨rfl, rfl⟩
      · split at h <;> cases h <;> exact .inl ⟨rfl, rfl⟩
    · cases h
  | stderr b =>
    obtain ⟨e, he, rfl⟩ := Option.map_eq_some_iff.mp h
    exact .inr ⟨b, rfl, he⟩
  | exit status =>
    rw [step] at h
    split_ifs at h
    cases h
    exact .inl ⟨rfl, rfl⟩
  | wait | waitFails | joinA2c | joinStderr | joinC2a =>
    rw [step] at h
    split at h
    · cases h
      exact .inl ⟨rfl, rfl⟩
    · cases h
  | finalize now =>
    rw [step, State.finalize] at h
    split at h
    · split at h
      · cases h
        exact .inl ⟨rfl, rfl⟩
      · split at h <;> cases h <;> exact .inl ⟨rfl, rfl⟩
    · cases h

/-- **Every action** passes on what the agent has written to its stderr. -/
theorem stderr_flows_step {as : List Action} {s s' : State} {a : Action} (h : step X s a = some s')
    (hs : s.stderr.Flows (emitted as)) : s'.stderr.Flows (emitted (as ++ [a])) := by
  rw [emitted, List.flatMap_append, List.flatMap_singleton, ← emitted]
  rcases stderr_of_step h with ⟨hstderr, hemitted⟩ | ⟨b, rfl, hb⟩
  · rw [hstderr, hemitted, List.append_nil]
    exact hs
  · exact hs.step hb

/-! ### Every run -/

/-- What holds in every state of every run. -/
theorem flows_of_run {cfg : ProxyConfig} {p : Process} {now : Str} {spawned : Bool} {d : Disk} {s₀ s : State}
    {as : List Action} (hstart : start cfg p now spawned d = .ok s₀) (hrun : run X Machine.anything s₀ as = some s) :
    (∀ dir, (s.lane dir).Flows (sent dir as)) ∧ Logged s ∧
      ∀ dir, (s.lane dir).received ≤ (s.lane dir).arrived.length := by
  obtain ⟨w, d', -, rfl⟩ := start_ok hstart
  have h : Awaited s ∧ (s.slot = none → ∃ r, (s.lane .a2c).thread = .done r) ∧
      (∀ dir, (s.lane dir).Flows (sent dir as)) ∧ Logged s ∧
      ∀ dir, (s.lane dir).received ≤ (s.lane dir).arrived.length := by
    refine Machine.run_history_nil (fun as s => Awaited s ∧ (s.slot = none → ∃ r, (s.lane .a2c).thread = .done r) ∧
      (∀ dir, (s.lane dir).Flows (sent dir as)) ∧ Logged s ∧
      ∀ dir, (s.lane dir).received ≤ (s.lane dir).arrived.length) ?_ hrun ?_
    · rintro as s a s' - hstep ⟨hawaited, hjoined, hflows, hlogged, hreceived⟩
      have he := Effect.of_step hstep
      exact ⟨hawaited.step he, joined_step he hawaited hjoined, flows_step hstep hflows, hlogged.step he hjoined,
        received_le_step he hreceived⟩
    · exact ⟨⟨nofun, nofun⟩, nofun, fun _ => ⟨[], rfl, fun _ => rfl⟩, fun _ => ⟨[], rfl, fun _ _ => rfl⟩, fun _ => le_rfl⟩
  exact h.2.2

theorem stderr_flows_of_run {cfg : ProxyConfig} {p : Process} {now : Str} {spawned : Bool} {d : Disk} {s₀ s : State}
    {as : List Action} (hstart : start cfg p now spawned d = .ok s₀) (hrun : run X Machine.anything s₀ as = some s) :
    s.stderr.Flows (emitted as) := by
  obtain ⟨w, d', -, rfl⟩ := start_ok hstart
  exact Machine.run_history_nil (fun as s => s.stderr.Flows (emitted as)) (fun _ _ _ _ _ => stderr_flows_step) hrun
    ⟨[], rfl, fun _ => rfl⟩

/-- **Nothing is invented, repeated, reordered or lost in the middle**, in every state of every run, whatever fails. In each
direction the log has an initial part of what was forwarded; what its thread has read, which is what it has forwarded
and at most one frame more, is an initial part of what was sent, and as long as it has not returned the rest is still
to be read. The bytes that have arrived are the lines forwarded and, where a write has failed, a part of the next
one; the receiver has received no more frames than have arrived. Stderr is passed on in the same way. -/
theorem delivered_of_run {cfg : ProxyConfig} {p : Process} {now : Str} {spawned : Bool} {d : Disk} {s₀ s : State}
    {as : List Action} (hstart : start cfg p now spawned d = .ok s₀) (hrun : run X Machine.anything s₀ as = some s) :
    (∀ dir, recordedIn dir s.log <+: (s.lane dir).forwarded ∧
      (s.lane dir).taken.length ≤ (s.lane dir).forwarded.length + 1 ∧
      ((s.lane dir).taken.map fun item => .ok item.frame) <+: sent dir as ∧ (s.lane dir).Flows (sent dir as) ∧
      (s.lane dir).bytes <+: Lines.joinLines 0x0A ((s.lane dir).taken.map (·.frame.raw)) ∧
      (s.lane dir).received ≤ (s.lane dir).arrived.length ∧ (s.lane dir).arrived <+: (s.lane dir).taken) ∧
    s.stderr.Flows (emitted as) := by
  obtain ⟨hflows, hlogged, hreceived⟩ := flows_of_run hstart hrun
  refine ⟨fun dir => ?_, stderr_flows_of_run hstart hrun⟩
  obtain ⟨rest, hrest, -⟩ := hlogged dir
  refine ⟨hrest ▸ List.prefix_append .., ?_, (hflows dir).taken, hflows dir, (s.lane dir).bytes_isPrefix, hreceived dir,
    (s.lane dir).arrived_isPrefix_taken⟩
  rw [Lane.taken, List.length_append]
  exact Nat.add_le_add_left (s.lane dir).thread.length_unwritten_le _

/-- A part of the response arrives, and its thread stops. -/
def sampleCut : List Action :=
  sampleExchange.dropLast ++ [.lane .a2c (.writeFails 7), .stderr (.emit [0x21]), .stderr (.read 1)]

theorem delivered_of_run_sample :
    ∃ s₀ s, sampleStart = .ok s₀ ∧ run (.plain loggedDigests) Machine.anything s₀ sampleCut = some s ∧
      (s.lane .a2c).bytes = sampleResponse.raw.take 7 ∧
      (s.lane .a2c).bytes <+: Lines.joinLines 0x0A ((s.lane .a2c).taken.map (·.frame.raw)) ∧
      (∀ dir, recordedIn dir s.log <+: (s.lane dir).forwarded ∧ (s.lane dir).Flows (sent dir sampleCut)) ∧
      s.stderr.Flows [0x21] := by
  obtain ⟨s₀, s, hstart, hrun, hbytes⟩ := exists_run (.plain loggedDigests) Machine.anything sampleCut
    (fun s => (s.lane .a2c).bytes) (sampleResponse.raw.take 7) (by decide +kernel)
  obtain ⟨hdir, hstderr⟩ := delivered_of_run hstart hrun
  exact ⟨s₀, s, hstart, hrun, hbytes, (hdir .a2c).2.2.2.2.1, fun dir => ⟨(hdir dir).1, (hdir dir).2.2.2.1⟩, hstderr⟩

end AcpCore.Proxy
