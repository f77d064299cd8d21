import AcpCore.Proxy.Run

/-!
# The completeness of the trace

The main thread finalizes the trace when the agent has exited, and only then joins
the c2a thread, which may have written a frame and not yet recorded it.

## What is proved

* `complete_of_lossless` — in every run in which no `record` fails, nothing is written
  when the writer is gone, and the writer is not taken from a c2a thread that has a
  frame to record: when `run` returns `Ok`, every frame forwarded has its event;
* `complete_fails` — a run that loses the frame that made the agent exit.
-/

namespace AcpCore.Proxy

open AcpCore.Text AcpCore.Wire AcpCore.Trace

variable (X : Crates)

/-- Every frame forwarded has an event in the log on the disk, with its direction and hash. -/
def Complete (root : Str) (s : State) : Prop :=
  ∃ recs, s.disk.files (join root eventsFile) = some (logBytes recs) ∧
    ∀ dir, ∀ item ∈ (s.lane dir).forwarded, ∃ r ∈ recs, r.dir = dir ∧ r.hash = item.frame.payloadHashStr X

/-- A `record` succeeds; a frame is written while there is a writer; the writer is not taken while the c2a
thread has a frame to record. -/
def lossless (s : State) : Action → Bool
  | .record dir now => s.recordSucceeds X dir now
  | .lane _ .write => s.slot.isSome
  | .finalize _ => (s.lane .c2a).thread.held.isEmpty
  | _ => true

variable {X}

/-! ### What holds in every run -/

/-- A thread that has returned has returned. -/
theorem Effect.done {s s' : State} {a : Action} (h : Effect X s a s') {dir : Direction} {r : Outcome}
    (hr : (s.lane dir).thread = .done r) : (s'.lane dir).thread = .done r := by
  have hset : ∀ {dir' : Direction} {l : Lane}, (dir = dir' → l.thread = .done r) →
      ((s.setLane dir' l).lane dir).thread = .done r := by
    intro dir' l hl
    by_cases hdir : dir = dir'
    · rw [← hdir, State.setLane_self]
      exact hl hdir
    · rwa [State.setLane_of_ne _ hdir]
  cases h with
  | lane hl => exact hset fun hdir => hl.done r (hdir ▸ hr)
  | skipped hthread _ => exact hset fun hdir => by rw [← hdir, hr] at hthread; cases hthread
  | recorded hthread _ _ => exact hset fun hdir => by rw [← hdir, hr] at hthread; cases hthread
  | failed hthread _ _ => exact hset fun hdir => by rw [← hdir, hr] at hthread; cases hthread
  | finalized _ _ _ => exact hr
  | quiet hlane _ _ _ _ _ => rwa [hlane]

/-- The main thread has waited. -/
structure Awaited (s : State) : Prop where
  /-- For the a2c thread, before it finalizes. -/
  joined : s.main.joined = true → ∃ r, (s.lane .a2c).thread = .done r
  /-- For the c2a thread, before it returns `Ok`. -/
  returned : ∀ code, s.main = .returned (.ok code) → ∃ r, (s.lane .c2a).thread = .done r

theorem Awaited.step {s s' : State} {a : Action} (he : Effect X s a s') (h : Awaited s) : Awaited s' where
  joined hj := by
    have hs : s.main.joined = true ∨ ∃ r, (s.lane .a2c).thread = .done r := by
      cases he with
      | lane _ => exact .inl hj
      | skipped _ _ => exact .inl hj
      | recorded _ _ _ => exact .inl hj
      | failed _ _ _ => exact .inl hj
      | finalized hmain _ _ => exact .inl (by rw [hmain]; rfl)
      | quiet _ _ _ _ hjoined _ => exact hjoined hj
    obtain ⟨r, hr⟩ := hs.elim h.joined id
    exact ⟨r, he.done hr⟩
  returned code hret := by
    have hs : s.main = .returned (.ok code) ∨ ∃ r, (s.lane .c2a).thread = .done r := by
      cases he with
      | lane _ => exact .inl hret
      | skipped _ _ => exact .inl hret
      | recorded _ _ _ => exact .inl hret
      | failed _ _ _ => exact .inl hret
      | finalized _ _ hmain => exact absurd hret (hmain code)
      | quiet _ _ _ _ _ hreturned => exact hreturned code hret
    obtain ⟨r, hr⟩ := hs.elim (h.returned code) id
    exact ⟨r, he.done hr⟩

/-- Every event has the hash of its frame. -/
def Hashed (X : Crates) (s : State) : Prop := ∀ e ∈ s.log, e.event.hash = e.item.frame.payloadHashStr X

theorem Hashed.step {s s' : State} {a : Action} (he : Effect X s a s') (h : Hashed X s) : Hashed X s' := by
  intro e hmem
  rcases he.mem_log hmem with hmem | happ
  · exact h e hmem
  · exact happ.hash

/-! ### Runs that lose nothing -/

/-- The frames recorded in a direction, in order. -/
def recordedIn (dir : Direction) (log : List Entry) : List Item := (log.filter (·.event.dir = dir)).map Entry.item

theorem recordedIn_concat_self (log : List Entry) (e : Entry) :
    recordedIn e.event.dir (log ++ [e]) = recordedIn e.event.dir log ++ [e.item] := by
  rw [recordedIn, List.filter_append, List.map_append, List.filter_cons_of_pos (by rw [decide_eq_true_eq])]
  rfl

theorem recordedIn_concat_of_ne {dir : Direction} {e : Entry} (h : e.event.dir ≠ dir) (log : List Entry) :
    recordedIn dir (log ++ [e]) = recordedIn dir log := by
  rw [recordedIn, List.filter_append, List.filter_cons_of_neg (by rwa [decide_eq_true_eq]), List.filter_nil,
    List.append_nil, recordedIn]

/-- What is forwarded is recorded or about to be after an action of the lane, if it was before. -/
theorem LaneStep.held {after : ℕ} {a : LaneAction} {l l' : Lane} (h : LaneStep after a l l') {items : List Item}
    (hl : l.forwarded = items ++ l.thread.held) : l'.forwarded = items ++ l'.thread.held := by
  rcases h.forwarded with ⟨hforwarded, hrec⟩ | ⟨item, -, hthread, hforwarded, hthread'⟩
  · rw [hforwarded, hl, Thread.held_congr hrec]
  · rw [hforwarded, hl, hthread, hthread', Thread.held_writing, List.append_nil, Thread.held_recording]

/-- And after a frame is recorded. -/
theorem Appends.held {s s' : State} {a : Action} {e : Entry} (happ : Appends X s a s' e) {dir : Direction}
    (h : (s.lane dir).forwarded = recordedIn dir s.log ++ (s.lane dir).thread.held) :
    (s'.lane dir).forwarded = recordedIn dir s'.log ++ (s'.lane dir).thread.held := by
  rw [happ.lane, happ.log]
  by_cases hdir : dir = e.event.dir
  · rw [hdir] at h ⊢
    rw [State.setLane_self, recordedIn_concat_self, h, happ.thread]
    exact (List.append_nil _).symm
  · rw [State.setLane_of_ne _ hdir, recordedIn_concat_of_ne (Ne.symm hdir), h]

/-- What holds where nothing has been lost. -/
structure Lossless (s : State) : Prop where
  /-- No thread has failed to record. -/
  unfailed : s.Unfailed
  /-- What was forwarded is recorded, or about to be. -/
  forwarded : ∀ dir, (s.lane dir).forwarded = recordedIn dir s.log ++ (s.lane dir).thread.held
  /-- Where a thread has a frame to record, there is a writer. -/
  slot : ∀ dir, (s.lane dir).thread.held ≠ [] → s.slot.isSome = true

theorem Lossless.lane {s : State} {dir : Direction} {a : LaneAction} {l : Lane} {after : ℕ} (h : Lossless s)
    (hallowed : lossless X s (.lane dir a) = true) (hl : LaneStep after a (s.lane dir) l) :
    Lossless (s.setLane dir l) where
  unfailed := State.forall_setLane (P := fun _ l => l.thread.failed = false) (hl.failed (h.unfailed dir))
    fun dir' _ => h.unfailed dir'
  forwarded := by
    exact State.forall_setLane (P := fun dir l => l.forwarded = recordedIn dir s.log ++ l.thread.held)
      (hl.held (h.forwarded dir)) fun dir' _ => h.forwarded dir'
  slot := by
    refine State.forall_setLane (P := fun _ l => l.thread.held ≠ [] → s.slot.isSome = true) (fun hheld => ?_)
      fun dir' _ => h.slot dir'
    rcases hl.forwarded with ⟨-, hrec⟩ | ⟨item, rfl, -, -, -⟩
    · exact h.slot dir (Thread.held_congr hrec ▸ hheld)
    · exact hallowed

theorem Lossless.recorded {s s' : State} {a : Action} {e : Entry} (h : Lossless s) (happ : Appends X s a s' e)
    (hslot : s'.slot.isSome = true) : Lossless s' where
  unfailed dir := by
    rw [happ.lane]
    exact State.forall_setLane (P := fun _ l => l.thread.failed = false) rfl (fun dir' _ => h.unfailed dir') dir
  forwarded dir := happ.held (h.forwarded dir)
  slot _ _ := hslot

theorem Lossless.step {s s' : State} {a : Action} (hallowed : lossless X s a = true) (he : Effect X s a s')
    (hawaited : Awaited s) (h : Lossless s) : Lossless s' := by
  cases he with
  | lane hl => exact h.lane hallowed hl
  | @skipped dir _ _ hthread hslot =>
    have hsome := h.slot dir (by rw [hthread]; nofun)
    rw [hslot] at hsome
    cases hsome
  | @recorded dir now _ _ _ _ _ hthread hslot _ =>
    exact h.recorded (a := .record dir now) (.recorded hthread hslot rfl rfl) rfl
  | failed hthread hslot hrec =>
    rw [lossless, recordSucceeds_of_failed hthread hslot hrec] at hallowed
    cases hallowed
  | finalized hmain _ _ =>
    refine ⟨h.unfailed, h.forwarded, fun dir hheld => absurd ?_ hheld⟩
    cases dir with
    | c2a => exact List.isEmpty_iff.mp hallowed
    | a2c =>
      obtain ⟨r, hr⟩ := hawaited.joined (by rw [hmain]; rfl)
      exact (congrArg Thread.held hr)
  | quiet hlane hslot _ hlog _ _ =>
    refine ⟨?_, ?_, ?_⟩
    · rw [State.Unfailed, hlane]
      exact h.unfailed
    · rw [hlane, hlog]
      exact h.forwarded
    · rw [hlane, hslot]
      exact h.slot

/-! ### Whole runs -/

theorem mem_recordedIn {dir : Direction} {log : List Entry} {item : Item} (h : item ∈ recordedIn dir log) :
    ∃ e ∈ log, e.event.dir = dir ∧ e.item = item := by
  obtain ⟨e, he, rfl⟩ := List.mem_map.mp h
  obtain ⟨hmem, hdir⟩ := List.mem_filter.mp he
  exact ⟨e, hmem, of_decide_eq_true hdir, rfl⟩

/-- **No frame forwarded is lost** in a run in which no `record` fails, nothing is written when the writer is
gone, and the writer is not taken while the c2a thread has a frame to record. -/
theorem complete_of_lossless {cfg : ProxyConfig} {p : Process} {now : Str} {spawned : Bool} {d : Disk}
    {s₀ s : State} {as : List Action} (hstart : start cfg p now spawned d = .ok s₀)
    (hrun : run X (lossless X) s₀ as = some s) {code : ℤ} (hret : s.main = .returned (.ok code)) :
    Complete X cfg.traceDir s := by
  have hinit : Awaited s₀ ∧ Hashed X s₀ ∧ Lossless s₀ := by
    obtain ⟨w, d', -, rfl⟩ := start_ok hstart
    exact ⟨⟨nofun, nofun⟩, fun _ he => (by cases he), fun _ => rfl, fun _ => rfl, fun _ h => absurd rfl h⟩
  obtain ⟨hawaited, hhash, h⟩ : Awaited s ∧ Hashed X s ∧ Lossless s := by
    refine Machine.run_invariant (P := fun s => Awaited s ∧ Hashed X s ∧ Lossless s) ?_ hrun hinit
    rintro s a s' hallowed hstep ⟨hawaited, hhash, h⟩
    have he := Effect.of_step hstep
    exact ⟨hawaited.step he, hhash.step he, h.step hallowed he hawaited⟩
  refine ⟨_, (written_of_run hstart hrun h.unfailed).file, fun dir item hitem => ?_⟩
  -- both threads have returned, with nothing left to record
  have hdone : ∃ r, (s.lane dir).thread = .done r := by
    cases dir with
    | c2a => exact hawaited.returned code hret
    | a2c => exact hawaited.joined (by rw [hret]; rfl)
  obtain ⟨r, hr⟩ := hdone
  rw [h.forwarded, hr, Thread.held_done, List.append_nil] at hitem
  obtain ⟨e, he, hdir, rfl⟩ := mem_recordedIn hitem
  exact ⟨e.event, List.mem_map_of_mem he, hdir, hhash e he⟩

/-! ### The sample runs -/

/-- The agent exits, and the main thread finalizes the trace. -/
def sampleExit : List Action :=
  [.lane .a2c .close, .stderr .close, .exit (some 0), .lane .a2c .read, .stderr (.read 0), .wait, .joinA2c, .joinStderr,
    .finalize ['1']]

/-- The client hangs up, and `run` returns. -/
def sampleHangup : List Action := [.lane .c2a .close, .lane .c2a .read, .joinC2a]

theorem complete_of_lossless_sample :
    ∃ s₀ s, sampleStart = .ok s₀ ∧
      run (.plain loggedDigests) (lossless (.plain loggedDigests)) s₀
        (sampleExchange ++ [.record .c2a 0, .record .a2c 0] ++ sampleExit ++ sampleHangup) = some s ∧
      s.main = .returned (.ok 0) ∧ s.log.map (fun e => (e.event.dir, e.event.seq)) = [(.c2a, 0), (.a2c, 1)] ∧
      Complete (.plain loggedDigests) ['t'] s := by
  obtain ⟨s₀, s, hstart, hrun, hs⟩ := exists_run (.plain loggedDigests) (lossless (.plain loggedDigests))
    (sampleExchange ++ [.record .c2a 0, .record .a2c 0] ++ sampleExit ++ sampleHangup)
    (fun s => (s.main, s.log.map fun e => (e.event.dir, e.event.seq))) (.returned (.ok 0), [(.c2a, 0), (.a2c, 1)])
    (by decide +kernel)
  obtain ⟨hmain, hlog⟩ := Prod.mk.inj hs
  exact ⟨s₀, s, hstart, hrun, hmain, hlog, complete_of_lossless hstart hrun hmain⟩

/-- The c2a thread may be overtaken between writing the frame that makes the agent exit and recording it. -/
theorem complete_fails :
    ∃ s₀ s, sampleStart = .ok s₀ ∧
      run (.plain loggedDigests) Machine.anything s₀
        (sampleExchange.take 5 ++ sampleExit ++ [.record .c2a 0] ++ sampleHangup) = some s ∧
      s.main = .returned (.ok 0) ∧ (s.lane .c2a).forwarded.map (·.frame.raw) = [(sampleRequest 1).raw] ∧
      s.disk.files (join ['t'] eventsFile) = some [] ∧ ¬ Complete (.plain loggedDigests) ['t'] s := by
  obtain ⟨s₀, s, hstart, hrun, hs⟩ := exists_run (.plain loggedDigests) Machine.anything
    (sampleExchange.take 5 ++ sampleExit ++ [.record .c2a 0] ++ sampleHangup)
    (fun s => (s.main, (s.lane .c2a).forwarded.map (·.frame.raw), s.disk.files (join ['t'] eventsFile)))
    (.returned (.ok 0), [(sampleRequest 1).raw], some []) (by decide +kernel)
  obtain ⟨hmain, hs⟩ := Prod.mk.inj hs
  obtain ⟨hforwarded, hfile⟩ := Prod.mk.inj hs
  refine ⟨s₀, s, hstart, hrun, hmain, hforwarded, hfile, ?_⟩
  rintro ⟨recs, hrecs, hall⟩
  have hne : (s.lane .c2a).forwarded ≠ [] := by
    intro h
    rw [h] at hforwarded
    cases hforwarded
  obtain ⟨item, hitem⟩ := List.exists_mem_of_ne_nil _ hne
  obtain ⟨r, hr, -⟩ := hall .c2a item hitem
  -- an empty log has no lines
  rw [hfile, Option.some.injEq] at hrecs
  cases recs with
  | nil => cases hr
  | cons r recs =>
    rw [logBytes, List.map_cons, Lines.joinLines_cons] at hrecs
    exact List.cons_ne_nil _ _ (List.append_eq_nil_iff.mp hrecs.symm).2

end AcpCore.Proxy
