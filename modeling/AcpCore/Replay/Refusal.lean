import AcpCore.Replay.Strict

/-!
# What a refusal says

The error a replay ends in when it does not accept a client's frame.

## The model

A frame is `Acceptable` in place of a recorded one when their hashes are the same, or,
with `remap_ids`, when they are once it has the recorded id. A replay refuses a frame
when it has accepted all those before it, and this one is not acceptable or none is
expected any more (`RefusedAt`).

## What is proved

* `matchFrame_of_not_acceptable` — what is not acceptable is a divergence, with and
  without `remap_ids`;
* `resume_refused`, `resume_not_refused` — how a replay ends that refuses a frame, and
  one that refuses none;
* **`describes_iff`** — the error names the frame refused and the point reached, unless
  the trace was exhausted and the frame has a method.
-/

namespace AcpCore.Replay

open AcpCore.Text AcpCore.Wire AcpCore.Trace

variable (X : Crates)

/-- A frame is accepted in place of a recorded one. -/
def Acceptable (remapIds : Bool) (e : EventRecord) (g : Frame) : Prop :=
  g.payloadHashStr X = e.hash ∨
    remapIds = true ∧ ∃ i j, e.id = some i ∧ g.id = some j ∧ hashWithId X g.value (recordIdToWire i) = e.hash

/-- The client's frame after the first `k` is refused. -/
structure RefusedAt (remapIds : Bool) (es : List EventRecord) (results : List (Except WireError Frame)) (k : ℕ)
    (g : Frame) : Prop where
  /-- Those before it are accepted, each in place of the next one recorded. -/
  accepted : ∀ i < k, ∃ f e, results[i]? = some (.ok f) ∧ es[i]? = some e ∧ Acceptable X remapIds e f
  /-- It is the next one. -/
  frame : results[k]? = some (.ok g)
  /-- It is not acceptable in place of the one expected, if one is. -/
  refused : ∀ e, es[k]? = some e → ¬ Acceptable X remapIds e g

/-- The error describes the frame refused after `k` others, and what was expected in its place. -/
def Describes (expected : Option EventRecord) (g : Frame) (k : ℕ) : ReplayError → Prop
  | .divergence detail =>
    ∃ e, expected = some e ∧ detail.expectedSeq = e.seq ∧ detail.expectedMethod = e.method ∧
      detail.expectedHash = e.hash ∧ detail.gotMethod = g.method ∧
      detail.gotId = g.id.map (fun id => Json.render (X.toTree id.toValue)) ∧ (detail.gotId = none ↔ g.id = none) ∧
      detail.gotHash = g.payloadHashStr X ∧ detail.gotHash ≠ e.hash ∧ detail.clientFramesConsumed = k
  | .traceExhausted method => expected = none ∧ method = g.method
  | _ => False

variable {X} {remapIds : Bool}

/-! ### Matching -/

theorem matchFrame_of_acceptable {e : EventRecord} {g : Frame} (h : Acceptable X remapIds e g) (idMap : IdMap)
    (consumed : ℕ) : ∃ idMap', matchFrame X remapIds idMap e g consumed = .ok idMap' := by
  unfold matchFrame
  by_cases hhash : g.payloadHashStr X = e.hash
  · exact ⟨idMap, if_pos hhash⟩
  · obtain ⟨hremap, i, j, hi, hj, hwith⟩ := h.resolve_left hhash
    rw [if_neg hhash, if_pos hremap]
    simp only [hi, hj, if_pos hwith]
    exact ⟨_, rfl⟩

/-- **What is not acceptable is a divergence**, whichever exit it is reported at. -/
theorem matchFrame_of_not_acceptable {e : EventRecord} {g : Frame} (h : ¬ Acceptable X remapIds e g) (idMap : IdMap)
    (consumed : ℕ) : matchFrame X remapIds idMap e g consumed = .error (divergence X e g consumed) := by
  rw [Acceptable, not_or] at h
  obtain ⟨hhash, hwith⟩ := h
  unfold matchFrame
  rw [if_neg hhash]
  split_ifs with hremap
  · split
    · next i j hi hj => exact if_neg fun heq => hwith ⟨hremap, i, j, hi, hj, heq⟩
    · rfl
  · rfl

/-! ### Writing -/

variable {trace : TraceReader} {d : Disk}

variable (remapIds) in
/-- A record whose blob loads is written as a line. -/
theorem emitLine_of_loads {rec : EventRecord} (h : ∃ b, trace.loadBlob X d rec = .ok b) (idMap : IdMap) :
    ∃ line, emitLine X trace d idMap remapIds rec = .ok line ∧ 0x0A ∉ line := by
  obtain ⟨b, hb⟩ := h
  have hn := newline_notMem_of_loadBlob X hb
  have hverbatim : ∃ line, (.ok b : Except (Abort ReplayError) Bytes) = .ok line ∧ 0x0A ∉ line := ⟨b, rfl, hn⟩
  unfold emitLine
  split_ifs
  · obtain ⟨f, hf⟩ := parse_of_loadBlob X hb
    simp only [hb, hf]
    split_ifs
    · split
      · exact hverbatim
      · split
        · exact ⟨_, rfl, Json.newline_notMem_render _⟩
        · exact hverbatim
    · exact hverbatim
  · simp only [hb]
    exact hverbatim

/-! ### Replaying up to the frame refused -/

variable {es : List EventRecord} {results : List (Except WireError Frame)} {k : ℕ} {g : Frame}

/-- The frame refused first is the first one read. -/
theorem RefusedAt.first (h : RefusedAt X remapIds es results 0 g) : ∃ rest, results = .ok g :: rest := by
  obtain _ | ⟨r, rest⟩ := results
  · cases h.frame
  · obtain rfl : r = .ok g := Option.some.inj h.frame
    exact ⟨rest, rfl⟩

/-- A frame refused later comes after one that is accepted. -/
theorem RefusedAt.later (h : RefusedAt X remapIds es results (k + 1) g) :
    ∃ f rest e es', results = .ok f :: rest ∧ es = e :: es' ∧ Acceptable X remapIds e f ∧
      RefusedAt X remapIds es' rest k g := by
  obtain ⟨f, e, hf, he, hacc⟩ := h.accepted 0 (Nat.succ_pos k)
  obtain _ | ⟨r, rest⟩ := results
  · cases hf
  obtain _ | ⟨e', es'⟩ := es
  · cases he
  cases hf
  cases he
  exact ⟨f, rest, e, es', rfl, rfl, hacc, fun i hi => h.accepted (i + 1) (Nat.succ_lt_succ hi), h.frame, h.refused⟩

/-- And the other way round. -/
theorem RefusedAt.cons {e : EventRecord} {f : Frame} (hacc : Acceptable X remapIds e f)
    (h : RefusedAt X remapIds es results k g) : RefusedAt X remapIds (e :: es) (.ok f :: results) (k + 1) g where
  accepted i hi := by
    cases i with
    | zero => exact ⟨f, e, rfl, rfl, hacc⟩
    | succ i => exact h.accepted i (Nat.lt_of_succ_lt_succ hi)
  frame := h.frame
  refused := h.refused

/-- How a replay ends that refuses a frame. -/
def refusal (X : Crates) (expected : Option EventRecord) (g : Frame) (k : ℕ) : ReplayError :=
  match expected with
  | some e => divergence X e g k
  | none => .traceExhausted none

/-- **A replay that refuses a frame**, from a cursor on. -/
theorem resume_refused (events : List EventRecord)
    (hload : ∀ rec ∈ events, rec.dir = .a2c → ∃ b, trace.loadBlob X d rec = .ok b) :
    ∀ (results : List (Except WireError Frame)) (k cursor consumed : ℕ) (idMap : IdMap) (out : Bytes) (emitted : ℕ),
      trace.events.drop cursor = events → RefusedAt X remapIds (c2aEvents events) results k g →
      (resume X trace d remapIds results cursor consumed idMap out emitted).1 =
        .error (.error (refusal X (c2aEvents events)[k]? g (consumed + k))) := by
  induction events with
  | nil =>
    intro results k cursor consumed idMap out emitted hdrop hrefused
    rw [resume_nil X hdrop]
    cases k with
    | zero =>
      obtain ⟨rest, rfl⟩ := hrefused.first
      rfl
    | succ k =>
      obtain ⟨f, rest, e, es', -, hnil, -⟩ := hrefused.later
      cases hnil
  | cons rec events ih =>
    intro results k cursor consumed idMap out emitted hdrop hrefused
    have ih := ih fun r hr => hload r (List.mem_cons_of_mem rec hr)
    cases hdir : rec.dir with
    | a2c =>
      have hc : c2aEvents (rec :: events) = c2aEvents events := List.filter_cons_of_neg (by simp [hdir])
      obtain ⟨line, hline, hn⟩ := emitLine_of_loads remapIds (hload rec List.mem_cons_self hdir) idMap
      rw [hc] at hrefused ⊢
      rw [resume_a2c X hdrop hdir hline hn]
      exact ih results k _ _ _ _ _ (drop_succ_of_drop hdrop) hrefused
    | c2a =>
      have hc : c2aEvents (rec :: events) = rec :: c2aEvents events := List.filter_cons_of_pos (by simp [hdir])
      rw [hc] at hrefused ⊢
      rw [resume_c2a X hdrop hdir]
      cases k with
      | zero =>
        -- the frame is refused here
        obtain ⟨rest, rfl⟩ := hrefused.first
        simp only [matchFrame_of_not_acceptable (hrefused.refused rec rfl)]
        rfl
      | succ k =>
        obtain ⟨f, rest, e, es', rfl, hes, hacc, hlater⟩ := hrefused.later
        cases hes
        obtain ⟨idMap', hmatch⟩ := matchFrame_of_acceptable hacc idMap consumed
        simp only [hmatch]
        rw [ih rest k _ _ _ _ _ (drop_succ_of_drop hdrop) hlater, Nat.add_assoc, Nat.add_comm 1]
        rfl

/-- **A replay that refuses no frame** from a cursor on ends with the client's stream, or at a line that is no frame. -/
theorem resume_not_refused (events : List EventRecord)
    (hload : ∀ rec ∈ events, rec.dir = .a2c → ∃ b, trace.loadBlob X d rec = .ok b) :
    ∀ (results : List (Except WireError Frame)) (cursor consumed : ℕ) (idMap : IdMap) (out : Bytes) (emitted : ℕ),
      trace.events.drop cursor = events → (∀ k g, ¬ RefusedAt X remapIds (c2aEvents events) results k g) →
      (∃ n, (resume X trace d remapIds results cursor consumed idMap out emitted).1 = .ok n) ∨
        ∃ e, (resume X trace d remapIds results cursor consumed idMap out emitted).1 = .error (.error (.wire e)) := by
  induction events with
  | nil =>
    intro results cursor consumed idMap out emitted hdrop hnot
    rw [resume_nil X hdrop]
    rcases results with _ | ⟨e | g, results⟩
    · exact .inl ⟨_, rfl⟩
    · exact .inr ⟨e, rfl⟩
    · exact absurd ⟨fun i hi => absurd hi (Nat.not_lt_zero i), rfl, fun e he => by cases he⟩ (hnot 0 g)
  | cons rec events ih =>
    intro results cursor consumed idMap out emitted hdrop hnot
    have ih := ih fun r hr => hload r (List.mem_cons_of_mem rec hr)
    cases hdir : rec.dir with
    | a2c =>
      have hc : c2aEvents (rec :: events) = c2aEvents events := List.filter_cons_of_neg (by simp [hdir])
      obtain ⟨line, hline, hn⟩ := emitLine_of_loads remapIds (hload rec List.mem_cons_self hdir) idMap
      rw [hc] at hnot
      rw [resume_a2c X hdrop hdir hline hn]
      exact ih results _ _ _ _ _ (drop_succ_of_drop hdrop) hnot
    | c2a =>
      have hc : c2aEvents (rec :: events) = rec :: c2aEvents events := List.filter_cons_of_pos (by simp [hdir])
      rw [hc] at hnot
      rw [resume_c2a X hdrop hdir]
      rcases results with _ | ⟨e | f, results⟩
      · exact .inl ⟨_, rfl⟩
      · exact .inr ⟨e, rfl⟩
      by_cases hacc : Acceptable X remapIds rec f
      · obtain ⟨idMap', hmatch⟩ := matchFrame_of_acceptable hacc idMap consumed
        simp only [hmatch]
        exact ih results _ _ _ _ _ (drop_succ_of_drop hdrop) fun k g h => hnot (k + 1) g (h.cons hacc)
      · refine absurd ⟨fun i hi => absurd hi (Nat.not_lt_zero i), rfl, fun e he => ?_⟩ (hnot 0 f)
        cases he
        exact hacc

/-! ### Whole replays -/

/-- The error describes the frame, unless no frame is expected and it has a method. -/
theorem describes_refusal_iff (h : RefusedAt X remapIds es results k g) :
    Describes X es[k]? g k (refusal X es[k]? g k) ↔ (es[k]? = none → g.method = none) := by
  cases he : es[k]? with
  | none =>
    show (none = none ∧ none = g.method) ↔ _
    simp only [true_and, true_imp_iff]
    exact eq_comm
  | some e =>
    have hne : g.payloadHashStr X ≠ e.hash := fun heq => h.refused e he (.inl heq)
    refine iff_of_true ?_ nofun
    exact ⟨e, rfl, rfl, rfl, rfl, rfl, rfl, Option.map_eq_none_iff, rfl, hne, rfl⟩

/-- **A failing replay names the frame that failed**, and the point reached, exactly when a client's frame was still
expected or the frame has no method. -/
theorem describes_iff (hload : ∀ rec ∈ trace.events, rec.dir = .a2c → ∃ b, trace.loadBlob X d rec = .ok b)
    {clientIn : Bytes}
    (h : RefusedAt X remapIds (c2aEvents trace.events) ((FrameReader.new clientIn).results X) k g) :
    (∃ err, (replayInteractiveWith X trace d clientIn remapIds).1 = .error (.error err) ∧
        Describes X (c2aEvents trace.events)[k]? g k err) ↔
      ((c2aEvents trace.events)[k]? = none → g.method = none) := by
  have hend := resume_refused trace.events hload _ k 0 0 (fun _ => none) [] 0 rfl h
  rw [Nat.zero_add, ← replayInteractiveWith_eq] at hend
  rw [← describes_refusal_iff h]
  constructor
  · rintro ⟨err, herr, hdescribes⟩
    rw [hend] at herr
    cases herr
    exact hdescribes
  · intro hdescribes
    exact ⟨_, hend, hdescribes⟩

/-! ### One frame too many -/

/-- The client's recorded request, and another frame. -/
def surplusClient (f : Frame) : Bytes := Lines.joinLines 0x0A [(sampleRequest 1).raw, f.raw]

theorem loads_sampleTrace : ∀ rec ∈ sampleTrace.events, rec.dir = .a2c →
    ∃ b, sampleTrace.loadBlob (.plain sampleDigests) sampleDisk rec = .ok b :=
  fun rec hrec hdir => ⟨_, loadBlob_sampleTrace rec hrec hdir⟩

/-- The trace has one client's frame: the second is refused. -/
theorem refusedAt_surplusClient {f : Frame} (hf : Frame.parse (.plain sampleDigests) f.raw = .ok f)
    (hcr : f.raw.getLast? ≠ some 0x0D) :
    RefusedAt (.plain sampleDigests) false (c2aEvents sampleTrace.events)
      ((FrameReader.new (surplusClient f)).results (.plain sampleDigests)) 1 f := by
  have hresults : (FrameReader.new (surplusClient f)).results (.plain sampleDigests) = [.ok (sampleRequest 1), .ok f] := by
    show (FrameReader.new (Lines.joinLines 0x0A ([sampleRequest 1, f].map Frame.raw))).results _ = _
    refine FrameReader.results_of_last (whitespace_plain _) fun g hg => ?_
    simp only [List.mem_cons, List.not_mem_nil, or_false] at hg
    rcases hg with rfl | rfl
    · exact ⟨parse_sampleRequest _ 1, by decide +kernel⟩
    · exact ⟨hf, hcr⟩
  rw [hresults]
  exact .cons (.inl rfl) ⟨fun i hi => absurd hi (Nat.not_lt_zero i), rfl, fun e he => by cases he⟩

/-- A response is one too many: it has no method that the error could leave out. -/
theorem describes_iff_sample :
    ∃ err, (replayInteractiveWith (.plain sampleDigests) sampleTrace sampleDisk (surplusClient sampleResponse) false).1
        = .error (.error err) ∧ Describes (.plain sampleDigests) (c2aEvents sampleTrace.events)[1]? sampleResponse 1 err :=
  (describes_iff loads_sampleTrace (refusedAt_surplusClient (parse_sampleResponse _) (by decide +kernel))).mpr fun _ => rfl

/-- A second request is one too many, and the error does not say its method. -/
theorem describes_fails :
    (replayInteractiveWith (.plain sampleDigests) sampleTrace sampleDisk (surplusClient (sampleRequest 1)) false).1
        = .error (.error (.traceExhausted none)) ∧
      (sampleRequest 1).method = some ['m'] ∧
      ¬ Describes (.plain sampleDigests) (c2aEvents sampleTrace.events)[1]? (sampleRequest 1) 1 (.traceExhausted none) := by
  refine ⟨?_, rfl, ?_⟩
  · exact resume_refused sampleTrace.events loads_sampleTrace _ 1 0 0 (fun _ => none) [] 0 rfl
      (refusedAt_surplusClient (parse_sampleRequest _ 1) (by decide +kernel))
  · rintro ⟨-, hmethod⟩
    cases hmethod

end AcpCore.Replay
