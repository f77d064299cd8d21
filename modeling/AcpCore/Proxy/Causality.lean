import AcpCore.Proxy.Run

/-!
# The order of the trace

A thread writes a frame and then records it, so that its receiver may answer before
it is recorded: the thread of the answer may come first (`overtakes`).

## What is proved

* `causally_ordered` — in every run in which every `record` succeeds and no thread overtakes
  the other, each line of the log comes after those of the frames that caused it;
* `causally_ordered_fails` — a run in which a response is recorded before its request.
-/

namespace AcpCore.Proxy

open AcpCore.Text AcpCore.Wire AcpCore.Trace

/-- The peer that sent `g` had received `f` when it did. -/
def Causes (f g : Entry) : Prop := f.event.dir ≠ g.event.dir ∧ f.index < g.item.after

/-- What caused a frame has a smaller position. -/
def CausallyOrdered (log : List Entry) : Prop := ∀ f ∈ log, ∀ g ∈ log, Causes f g → f.event.seq < g.event.seq

instance (f g : Entry) : Decidable (Causes f g) := inferInstanceAs (Decidable (_ ∧ _))

instance (log : List Entry) : Decidable (CausallyOrdered log) :=
  inferInstanceAs (Decidable (∀ f ∈ log, ∀ g ∈ log, Causes f g → f.event.seq < g.event.seq))

/-- A thread is about to record a frame, and the other thread has written and not recorded one that the
sender of the first had received. -/
def State.overtakes (s : State) (dir : Direction) : Bool :=
  match (s.lane dir).thread, (s.lane (other dir)).thread with
  | .recording item, .recording _ => (s.lane (other dir)).forwarded.length ≤ item.after
  | _, _ => false

variable (X : Crates)

/-- Every `record` succeeds, and no thread records where it overtakes the other, nor after as many frames as there are
positions. -/
def orderly (s : State) : Action → Bool
  | .record dir now => !s.overtakes dir && s.log.length < 2 ^ 64 && s.recordSucceeds X dir now
  | _ => true

variable {X}

theorem orderly_record {s : State} {dir : Direction} {now : U128} (h : orderly X s (.record dir now) = true) :
    s.overtakes dir = false ∧ s.log.length < 2 ^ 64 ∧ s.recordSucceeds X dir now = true := by
  rw [orderly, Bool.and_eq_true, Bool.and_eq_true, Bool.not_eq_true', decide_eq_true_eq] at h
  exact ⟨h.1.1, h.1.2, h.2⟩

theorem lt_of_not_overtakes {s : State} {dir : Direction} (h : s.overtakes dir = false) {f g : Item}
    (hg : (s.lane dir).thread = .recording g) (hf : (s.lane (other dir)).thread = .recording f) :
    g.after < (s.lane (other dir)).forwarded.length := by
  simpa only [State.overtakes, hg, hf, decide_eq_false_iff_not, not_le] using h

/-! ### What any action leaves true of a lane -/

/-- What any action leaves true of a lane, where `after` frames of the other have been received. -/
structure Follows (after : ℕ) (l l' : Lane) : Prop where
  /-- What was received stays received. -/
  received : l.received ≤ l'.received
  /-- No more is received than has arrived. -/
  received_le : l.received ≤ l.arrived.length → l'.received ≤ l'.arrived.length
  /-- What is on its way was, or is sent now. -/
  carries : ∀ item, l'.Carries item → l.Carries item ∨ item.after = after
  /-- A thread that has a frame to record had it, or writes it now. -/
  recording : ∀ item, l'.thread = .recording item →
    l.thread = .recording item ∧ l'.forwarded = l.forwarded ∨ l'.forwarded.length = l.arrived.length + 1

theorem Follows.refl (after : ℕ) (l : Lane) : Follows after l l := ⟨le_rfl, id, fun _ => .inl, fun _ h => .inl ⟨h, rfl⟩⟩

theorem LaneStep.follows {after : ℕ} {a : LaneAction} {l l' : Lane} (h : LaneStep after a l l') : Follows after l l' where
  received := h.received
  received_le := h.received_le
  carries := h.carries
  recording item hthread := by
    rcases h.forwarded with ⟨hforwarded, hrec⟩ | ⟨_, -, hwriting, hforwarded, -⟩
    · exact .inl ⟨(hrec item).mp hthread, hforwarded⟩
    · right
      rw [hforwarded, Lane.arrived, hwriting, List.length_append, List.length_append]
      rfl

/-- The thread has recorded its frame, or failed to. -/
theorem Follows.recorded (after : ℕ) {l : Lane} {item : Item} (hthread : l.thread = .recording item) {t : Thread}
    (ht : t = .reading ∨ ∃ e, t = .done (.failed e)) : Follows after l { l with thread := t } := by
  refine ⟨le_rfl, fun h => ?_, fun item hc => .inl ?_, fun item h => ?_⟩
  · rw [Lane.arrived_recorded hthread ht]
    exact h
  · rcases hc with hc | hc | hc
    · exact .inl hc
    · rcases ht with rfl | ⟨_, rfl⟩ <;> cases hc
    · rcases ht with rfl | ⟨_, rfl⟩ <;> cases hc
  · rcases ht with rfl | ⟨_, rfl⟩ <;> cases h

theorem Follows.setLane {s : State} {dir : Direction} {l : Lane}
    (h : Follows (s.lane (other dir)).received (s.lane dir) l) (dir' : Direction) :
    Follows (s.lane (other dir')).received (s.lane dir') ((s.setLane dir l).lane dir') := by
  by_cases hdir : dir' = dir
  · subst hdir
    rwa [State.setLane_self]
  · rw [State.setLane_of_ne _ hdir]
    exact .refl ..

variable {X : Crates}

theorem Effect.follows {s s' : State} {a : Action} (h : Effect X s a s') (dir : Direction) :
    Follows (s.lane (other dir)).received (s.lane dir) (s'.lane dir) := by
  cases h with
  | lane hl => exact hl.follows.setLane dir
  | skipped hthread _ => exact (Follows.recorded _ hthread (.inl rfl)).setLane dir
  | recorded hthread _ _ => exact (Follows.recorded _ hthread (.inl rfl)).setLane dir
  | failed hthread _ _ => exact (Follows.recorded _ hthread (.inr ⟨_, rfl⟩)).setLane dir
  | finalized _ _ _ => exact .refl ..
  | quiet hlane _ _ _ _ _ =>
    rw [hlane]
    exact .refl ..

/-! ### What holds in every run -/

/-- Nobody has received what has not arrived. -/
structure Sent (s : State) : Prop where
  /-- A peer has received at most what has arrived. -/
  received_le : ∀ dir, (s.lane dir).received ≤ (s.lane dir).arrived.length
  /-- So had the sender of a frame on its way. -/
  carried : ∀ dir item, (s.lane dir).Carries item → item.after ≤ (s.lane (other dir)).received
  /-- So had the sender of a frame recorded. -/
  logged : ∀ g ∈ s.log, g.item.after ≤ (s.lane (other g.event.dir)).received

theorem Sent.step {s s' : State} {a : Action} (he : Effect X s a s') (h : Sent s) : Sent s' where
  received_le dir := (he.follows dir).received_le (h.received_le dir)
  carried dir item hc := by
    rcases (he.follows dir).carries item hc with hc | hafter
    · exact (h.carried dir item hc).trans (he.follows _).received
    · rw [hafter]
      exact (he.follows _).received
  logged g hg := by
    rcases he.mem_log hg with hg | happ
    · exact (h.logged g hg).trans (he.follows _).received
    · exact (h.carried _ _ (.inr (.inr happ.thread))).trans (he.follows _).received

/-- The events are numbered in order. -/
structure Numbered (s : State) : Prop where
  /-- An event recorded has a position before the next. -/
  seq : ∀ g ∈ s.log, g.event.seq.val < s.log.length
  /-- The next position is the number of events. -/
  nextSeq : ∀ w, s.slot = some w → w.nextSeq = Fin.ofNat _ s.log.length

/-- An event has the position of its place in the log, modulo the number of positions. -/
theorem Numbered.of_appends {s s' : State} {a : Action} {e : Entry} (h : Numbered s) (happ : Appends X s a s' e) :
    e.event.seq = Fin.ofNat _ s.log.length := by
  obtain ⟨w, hslot, hseq⟩ := happ.seq
  rw [hseq, h.nextSeq w hslot]

theorem Numbered.step {s s' : State} {a : Action} (he : Effect X s a s') (h : Numbered s) : Numbered s' where
  seq g hg := by
    rcases he.mem_log hg with hg | happ
    · have hlt := h.seq g hg
      rcases he.log with hlog | ⟨e, happ⟩
      · rwa [hlog]
      · rw [happ.log, List.length_append]
        exact Nat.lt_add_right _ hlt
    · rw [happ.log, List.length_append, List.length_singleton, h.of_appends happ]
      exact Nat.lt_succ_of_le (Nat.mod_le ..)
  nextSeq w hw := by
    cases he with
    | lane _ => exact h.nextSeq w hw
    | skipped _ _ => exact h.nextSeq w hw
    | recorded _ hslot hrec =>
      cases hw
      rw [nextSeq_of_record hrec, h.nextSeq _ hslot, List.length_append, List.length_singleton]
      exact Fin.ofNat_add ..
    | failed _ hslot hrec =>
      cases hw
      rw [nextSeq_of_record hrec, h.nextSeq _ hslot]
      rfl
    | finalized _ _ _ => cases hw
    | quiet _ hslot _ hlog _ _ =>
      rw [hlog]
      exact h.nextSeq w (hslot ▸ hw)

/-! ### Runs in which no thread overtakes -/

/-- What holds where no thread has overtaken the other. -/
structure Orderly (s : State) : Prop where
  /-- Nobody has received what has not arrived. -/
  sent : Sent s
  /-- No thread has failed to record. -/
  unfailed : s.Unfailed
  /-- The events are numbered in order. -/
  numbered : Numbered s
  /-- Where a thread has a frame to record, it caused none of those recorded. -/
  ahead : ∀ g ∈ s.log, ∀ item, (s.lane (other g.event.dir)).thread = .recording item →
    g.item.after < (s.lane (other g.event.dir)).forwarded.length
  /-- What caused a frame has a smaller position. -/
  causal : CausallyOrdered s.log

theorem Orderly.ahead_step {s s' : State} {a : Action} (hallowed : orderly X s a = true) (he : Effect X s a s')
    (h : Orderly s) {g : Entry} (hg : g ∈ s'.log) {item : Item}
    (hrec : (s'.lane (other g.event.dir)).thread = .recording item) :
    g.item.after < (s'.lane (other g.event.dir)).forwarded.length := by
  rcases he.mem_log hg with hg | happ
  · rcases (he.follows _).recording item hrec with ⟨hthread, hforwarded⟩ | hforwarded
    · rw [hforwarded]
      exact h.ahead g hg item hthread
    · rw [hforwarded]
      exact Nat.lt_succ_of_le ((h.sent.logged g hg).trans (h.sent.received_le _))
  · -- the frame just recorded did not overtake
    obtain ⟨now, rfl⟩ := happ.action
    rw [happ.lane, State.setLane_of_ne _ (other_ne _)] at hrec ⊢
    exact lt_of_not_overtakes (orderly_record hallowed).1 happ.thread hrec

theorem Orderly.causal_step {s s' : State} {a : Action} (hallowed : orderly X s a = true) (he : Effect X s a s')
    (h : Orderly s) : CausallyOrdered s'.log := by
  rcases he.log with hlog | ⟨e, happ⟩
  · rw [hlog]
    exact h.causal
  · obtain ⟨now, rfl⟩ := happ.action
    rw [happ.log]
    intro f hf g hg hcauses
    rcases List.mem_append.mp hf with hf | hf <;> rcases List.mem_append.mp hg with hg | hg
    · exact h.causal f hf g hg hcauses
    · -- the frame just recorded has the greatest position
      cases List.mem_singleton.mp hg
      rw [h.numbered.of_appends happ, Fin.lt_def, Fin.val_ofNat, Nat.mod_eq_of_lt (orderly_record hallowed).2.1]
      exact h.numbered.seq f hf
    · -- and caused none of those recorded
      cases List.mem_singleton.mp hf
      obtain ⟨hdir, hlt⟩ := hcauses
      have hother := eq_other_of_ne hdir
      have hahead := h.ahead g hg e.item (hother ▸ happ.thread)
      rw [happ.index, hother] at hlt
      omega
    · cases List.mem_singleton.mp hf
      cases List.mem_singleton.mp hg
      exact absurd rfl hcauses.1

theorem Orderly.step {s s' : State} {a : Action} (hallowed : orderly X s a = true) (he : Effect X s a s')
    (h : Orderly s) : Orderly s' where
  sent := h.sent.step he
  unfailed := he.unfailed_of_recordSucceeds (fun _ _ ha => (orderly_record (ha ▸ hallowed)).2.2) h.unfailed
  numbered := h.numbered.step he
  ahead _ hg _ := h.ahead_step hallowed he hg
  causal := h.causal_step hallowed he

theorem Orderly.start {cfg : ProxyConfig} {p : Process} {now : Str} {spawned : Bool} {d : Disk} {s : State}
    (h : start cfg p now spawned d = .ok s) : Orderly s := by
  obtain ⟨w, d', hcreate, rfl⟩ := start_ok h
  refine ⟨⟨fun _ => le_rfl, fun _ _ hc => ?_, fun _ hg => (by cases hg)⟩, fun _ => rfl,
    ⟨fun _ hg => (by cases hg), fun w' hw => ?_⟩, fun _ hg => (by cases hg), fun _ hf => (by cases hf)⟩
  · rcases hc with hc | hc | hc <;> cases hc
  · cases hw
    exact (recorded_of_create hcreate).nextSeq_eq

/-- **Every run in which every `record` succeeds and no thread overtakes the other is recorded in causal order**: the frames
recorded are the lines of the log on the disk, and each has a greater position than those its sender had received. -/
theorem causally_ordered {cfg : ProxyConfig} {p : Process} {now : Str} {spawned : Bool} {d : Disk} {s₀ s : State}
    {as : List Action} (hstart : start cfg p now spawned d = .ok s₀) (hrun : run X (orderly X) s₀ as = some s) :
    CausallyOrdered s.log ∧ s.disk.files (join cfg.traceDir eventsFile) = some (logBytes (s.log.map Entry.event)) := by
  have h : Orderly s := Machine.run_invariant (fun _ _ _ hallowed hstep h => h.step hallowed (.of_step hstep)) hrun
    (.start hstart)
  exact ⟨h.causal, (written_of_run hstart hrun h.unfailed).file⟩

/-! ### The sample runs -/

theorem causally_ordered_sample :
    ∃ s₀ s, sampleStart = .ok s₀ ∧
      run (.plain sampleDigests) (orderly (.plain sampleDigests)) s₀
        (sampleExchange ++ [.record .c2a 0, .record .a2c 0]) = some s ∧
      s.log.map (fun e => (e.event.dir, e.event.seq)) = [(.c2a, 0), (.a2c, 1)] ∧ CausallyOrdered s.log ∧
      s.disk.files (join ['t'] eventsFile) = some (logBytes (s.log.map Entry.event)) := by
  obtain ⟨s₀, s, hstart, hrun, hlog⟩ := exists_run (.plain sampleDigests) (orderly (.plain sampleDigests))
    (sampleExchange ++ [.record .c2a 0, .record .a2c 0]) (fun s => s.log.map fun e => (e.event.dir, e.event.seq))
    [(.c2a, 0), (.a2c, 1)] (by decide +kernel)
  obtain ⟨hcausal, hfile⟩ := causally_ordered hstart hrun
  exact ⟨s₀, s, hstart, hrun, hlog, hcausal, hfile⟩

/-- The agent may answer a request before it is recorded, and its answer may be recorded first. -/
theorem causally_ordered_fails :
    ∃ s₀ s, sampleStart = .ok s₀ ∧
      run (.plain sampleDigests) Machine.anything s₀ (sampleExchange ++ [.record .a2c 0, .record .c2a 0]) = some s ∧
      s.log.map (fun e => (e.event.dir, e.event.seq)) = [(.a2c, 0), (.c2a, 1)] ∧ ¬ CausallyOrdered s.log ∧
      s.disk.files (join ['t'] eventsFile) = some (logBytes (s.log.map Entry.event)) := by
  obtain ⟨s₀, s, hstart, hrun, hs⟩ := exists_run (.plain sampleDigests) Machine.anything
    (sampleExchange ++ [.record .a2c 0, .record .c2a 0])
    (fun s => (s.log.map fun e => (e.event.dir, e.event.seq), decide (CausallyOrdered s.log),
      (s.lane .c2a).thread.failed, (s.lane .a2c).thread.failed))
    ([(.a2c, 0), (.c2a, 1)], false, false, false) (by decide +kernel)
  obtain ⟨hlog, hs⟩ := Prod.mk.inj hs
  obtain ⟨hcausal, hfailed⟩ := Prod.mk.inj hs
  refine ⟨s₀, s, hstart, hrun, hlog, of_decide_eq_false hcausal, (written_of_run hstart hrun fun dir => ?_).file⟩
  cases dir
  · exact (Prod.mk.inj hfailed).1
  · exact (Prod.mk.inj hfailed).2

end AcpCore.Proxy
