import AcpCore.Replay.Replay
import AcpCore.Trace.Store
import Mathlib.Order.Bounds.Basic

/-!
# Strict replay

Everything interactive replay does without id remapping, for every trace whose
agent blobs load and every client stream.

## The model

The events of a trace fall into blocks: `block events j` is what the agent wrote
after `j` of the client's frames. `matched` counts the client's frames that match
the recorded ones from the start.

## What is proved

* `resume_strict` — from any cursor on, the blocks up to the first frame that does
  not match are written, each once, and how the replay ends;
* **`replay_strict`** — the same of a whole replay, whose output is a prefix of
  what offline replay writes.
-/

namespace AcpCore.Replay

open AcpCore.Text AcpCore.Wire AcpCore.Trace

/-! ### Blocks -/

/-- The recorded client frames. -/
def c2aEvents (events : List EventRecord) : List EventRecord := events.filter (·.dir = .c2a)

/-- The recorded agent frames. -/
def a2cEvents (events : List EventRecord) : List EventRecord := events.filter (·.dir = .a2c)

/-- The agent's frames after `j` client frames and before the next one. -/
def block : List EventRecord → ℕ → List EventRecord
  | [], _ => []
  | rec :: events, 0 => if rec.dir = .c2a then [] else rec :: block events 0
  | rec :: events, j + 1 => if rec.dir = .c2a then block events j else block events (j + 1)

/-- The blocks `0` to `k`. -/
def blocks (events : List EventRecord) (k : ℕ) : List EventRecord := (List.range (k + 1)).flatMap (block events)

theorem blocks_nil (k : ℕ) : blocks [] k = [] := List.flatMap_eq_nil_iff.mpr fun _ _ => rfl

theorem blocks_succ (events : List EventRecord) (k : ℕ) :
    blocks events k = block events 0 ++ (List.range k).flatMap fun j => block events (j + 1) := by
  rw [blocks, List.range_succ_eq_map, List.flatMap_cons, List.flatMap_map]

theorem blocks_a2c {rec : EventRecord} (h : rec.dir = .a2c) (events : List EventRecord) (k : ℕ) :
    blocks (rec :: events) k = rec :: blocks events k := by
  have hne : ¬ rec.dir = .c2a := by rw [h]; decide
  rw [blocks_succ, blocks_succ, block, if_neg hne, List.cons_append]
  simp only [block, if_neg hne]

theorem blocks_c2a_zero {rec : EventRecord} (h : rec.dir = .c2a) (events : List EventRecord) :
    blocks (rec :: events) 0 = [] := by
  rw [blocks_succ, block, if_pos h]
  rfl

theorem blocks_c2a_succ {rec : EventRecord} (h : rec.dir = .c2a) (events : List EventRecord) (k : ℕ) :
    blocks (rec :: events) (k + 1) = blocks events k := by
  rw [blocks_succ, block, if_pos h, List.nil_append, blocks]
  simp only [block, if_pos h]

/-- The blocks are the beginning of the agent's frames, and with the last block all of them. -/
theorem blocks_isPrefix (events : List EventRecord) (k : ℕ) :
    blocks events k <+: a2cEvents events ∧
      (k = (c2aEvents events).length → blocks events k = a2cEvents events) := by
  induction events generalizing k with
  | nil => exact ⟨by rw [blocks_nil]; exact List.nil_prefix, fun _ => blocks_nil k⟩
  | cons rec events ih =>
    cases hdir : rec.dir with
    | a2c =>
      have hc : c2aEvents (rec :: events) = c2aEvents events := List.filter_cons_of_neg (by simp [hdir])
      have ha : a2cEvents (rec :: events) = rec :: a2cEvents events := List.filter_cons_of_pos (by simp [hdir])
      rw [blocks_a2c hdir, hc, ha]
      exact ⟨(List.prefix_cons_inj rec).mpr (ih k).1, fun h => congrArg (rec :: ·) ((ih k).2 h)⟩
    | c2a =>
      have hc : c2aEvents (rec :: events) = rec :: c2aEvents events := List.filter_cons_of_pos (by simp [hdir])
      have ha : a2cEvents (rec :: events) = a2cEvents events := List.filter_cons_of_neg (by simp [hdir])
      rw [hc, ha, List.length_cons]
      cases k with
      | zero => exact ⟨by rw [blocks_c2a_zero hdir]; exact List.nil_prefix, fun h => absurd h (Nat.succ_ne_zero _).symm⟩
      | succ k =>
        rw [blocks_c2a_succ hdir]
        exact ⟨(ih k).1, fun h => (ih k).2 (Nat.succ.inj h)⟩

/-! ### Matching -/

variable (X : Crates)

/-- How many client frames match the recorded ones from the start. -/
def matched : List EventRecord → List (Except WireError Frame) → ℕ
  | e :: es, .ok g :: results => if g.payloadHashStr X = e.hash then matched es results + 1 else 0
  | _, _ => 0

/-- The first `k` frames read match the first `k` recorded. -/
def Matches (es : List EventRecord) (results : List (Except WireError Frame)) (k : ℕ) : Prop :=
  ∀ i < k, ∃ g e, results[i]? = some (.ok g) ∧ es[i]? = some e ∧ g.payloadHashStr X = e.hash

/-- `matched` is the greatest such number. -/
theorem isGreatest_matched (es : List EventRecord) (results : List (Except WireError Frame)) :
    IsGreatest {k | Matches X es results k} (matched X es results) := by
  -- without a first match no number but zero will do
  have hzero : ∀ {es : List EventRecord} {results : List (Except WireError Frame)},
      (∀ g e, results[0]? = some (.ok g) → es[0]? = some e → g.payloadHashStr X ≠ e.hash) →
      IsGreatest {k | Matches X es results k} 0 := by
    intro es results h
    refine ⟨fun i hi => absurd hi (Nat.not_lt_zero i), fun k hk => Nat.le_of_not_lt fun hpos => ?_⟩
    obtain ⟨g, e, hg, he, heq⟩ := hk 0 hpos
    exact h g e hg he heq
  fun_induction matched X es results with
  | case1 e es g results heq ih =>
    constructor
    · intro i hi
      cases i with
      | zero => exact ⟨g, e, rfl, rfl, heq⟩
      | succ i => exact ih.1 i (Nat.lt_of_succ_lt_succ hi)
    · intro k hk
      cases k with
      | zero => exact Nat.zero_le _
      | succ k => exact Nat.succ_le_succ (ih.2 fun i hi => hk (i + 1) (Nat.succ_lt_succ hi))
  | case2 e es g results hne =>
    refine hzero fun g' e' hg he => ?_
    cases hg
    cases he
    exact hne
  | case3 es results hcases =>
    refine hzero fun g e hg he => ?_
    rcases es with _ | ⟨e', es⟩
    · cases he
    rcases results with _ | ⟨e'' | g', results⟩
    · cases hg
    · cases hg
    · exact absurd rfl (hcases e' es g' results rfl)

/-! ### From a cursor on -/

variable {X} {trace : TraceReader} {d : Disk} {raw : EventRecord → Bytes}

/-- How strict replay ends, when `k` of the remaining frames have matched. -/
def strictResult (X : Crates) (events : List EventRecord) (results : List (Except WireError Frame))
    (consumed emitted k : ℕ) : Except (Abort ReplayError) ℕ :=
  match results[k]?, (c2aEvents events)[k]? with
  | none, _ => .ok (emitted + (blocks events k).length)
  | some (.error e), _ => .error (.error (.wire e))
  | some (.ok g), some e => .error (.error (divergence X e g (consumed + k)))
  | some (.ok _), none => .error (.error (.traceExhausted none))

theorem matchFrame_strict (e : EventRecord) (g : Frame) (consumed : ℕ) (idMap : IdMap) :
    matchFrame X false idMap e g consumed
      = if g.payloadHashStr X = e.hash then .ok idMap else .error (divergence X e g consumed) := by
  rw [matchFrame]
  rfl

theorem emitLine_strict (idMap : IdMap) {rec : EventRecord} (h : trace.loadBlob X d rec = .ok (raw rec)) :
    emitLine X trace d idMap false rec = .ok (raw rec) := by
  rw [emitLine, if_neg fun h => Bool.false_ne_true h.1, h]

/-- **Strict replay from a cursor on**: the blocks up to the first frame that does not match
are written, and how it ends is for that frame to say. -/
theorem resume_strict (events : List EventRecord)
    (hload : ∀ rec ∈ events, rec.dir = .a2c → trace.loadBlob X d rec = .ok (raw rec)) :
    ∀ (results : List (Except WireError Frame)) (cursor consumed : ℕ) (idMap : IdMap) (out : Bytes) (emitted : ℕ),
      trace.events.drop cursor = events →
      resume X trace d false results cursor consumed idMap out emitted
        = (strictResult X events results consumed emitted (matched X (c2aEvents events) results),
          out ++ Lines.joinLines 0x0A ((blocks events (matched X (c2aEvents events) results)).map raw)) := by
  induction events with
  | nil =>
    intro results cursor consumed idMap out emitted hdrop
    rw [resume_nil X hdrop, blocks_nil, List.map_nil, Lines.joinLines_nil, List.append_nil]
    rcases results with _ | ⟨e | g, results⟩
    · rfl
    · rfl
    · rfl
  | cons rec events ih =>
    intro results cursor consumed idMap out emitted hdrop
    have ih := ih fun r hr => hload r (List.mem_cons_of_mem rec hr)
    cases hdir : rec.dir with
    | a2c =>
      -- one more line of the current block
      have hrec := hload rec List.mem_cons_self hdir
      have hc : c2aEvents (rec :: events) = c2aEvents events := List.filter_cons_of_neg (by simp [hdir])
      rw [resume_a2c X hdrop hdir (emitLine_strict idMap hrec) (newline_notMem_of_loadBlob X hrec),
        ih results _ _ _ _ _ (drop_succ_of_drop hdrop), strictResult, strictResult, hc, blocks_a2c hdir,
        List.map_cons, Lines.joinLines_cons, List.length_cons, Nat.add_assoc, Nat.add_comm 1]
      simp only [List.append_assoc, List.singleton_append]
    | c2a =>
      have hc : c2aEvents (rec :: events) = rec :: c2aEvents events := List.filter_cons_of_pos (by simp [hdir])
      -- a replay that stops here has written nothing more
      have hstop : matched X (c2aEvents (rec :: events)) results = 0 →
          (strictResult X (rec :: events) results consumed emitted (matched X (c2aEvents (rec :: events)) results),
            out ++ Lines.joinLines 0x0A
              ((blocks (rec :: events) (matched X (c2aEvents (rec :: events)) results)).map raw))
          = (strictResult X (rec :: events) results consumed emitted 0, out) := by
        intro h
        rw [h, blocks_c2a_zero hdir, List.map_nil, Lines.joinLines_nil, List.append_nil]
      rw [resume_c2a X hdrop hdir]
      rw [hc] at hstop ⊢
      rcases results with _ | ⟨e | g, results⟩
      · rw [hstop rfl, strictResult, blocks_c2a_zero hdir]
        rfl
      · rw [hstop rfl, strictResult]
        rfl
      · simp only [matchFrame_strict]
        by_cases hmatch : g.payloadHashStr X = rec.hash
        · rw [if_pos hmatch]
          simp only
          rw [ih results _ _ _ _ _ (drop_succ_of_drop hdrop), matched, if_pos hmatch, blocks_c2a_succ hdir,
            strictResult, strictResult, hc, List.getElem?_cons_succ, List.getElem?_cons_succ, blocks_c2a_succ hdir,
            Nat.add_assoc, Nat.add_comm 1]
        · have hzero : matched X (rec :: c2aEvents events) (.ok g :: results) = 0 := by rw [matched, if_neg hmatch]
          rw [if_neg hmatch, hstop hzero, strictResult, hc]
          rfl

/-! ### Offline -/

/-- Offline replay writes the agent's frames, all of them. -/
theorem offlineLoop_eq (events : List EventRecord)
    (hload : ∀ rec ∈ events, rec.dir = .a2c → trace.loadBlob X d rec = .ok (raw rec)) (n : ℕ) (out : Bytes) :
    offlineLoop X trace d events n out
      = (.ok (n + (a2cEvents events).length), out ++ Lines.joinLines 0x0A ((a2cEvents events).map raw)) := by
  induction events generalizing n out with
  | nil => rw [offlineLoop, a2cEvents, List.filter_nil, List.map_nil, Lines.joinLines_nil, List.append_nil]; rfl
  | cons rec events ih =>
    have ih := ih fun r hr => hload r (List.mem_cons_of_mem rec hr)
    cases hdir : rec.dir with
    | a2c =>
      have hrec := hload rec List.mem_cons_self hdir
      have ha : a2cEvents (rec :: events) = rec :: a2cEvents events := List.filter_cons_of_pos (by simp [hdir])
      rw [offlineLoop, if_neg (not_not.mpr hdir), hrec]
      simp only [writeLine_of_notMem (newline_notMem_of_loadBlob X hrec)]
      rw [ih, ha, List.map_cons, Lines.joinLines_cons, List.length_cons, Nat.add_assoc, Nat.add_comm 1]
      simp only [List.append_assoc, List.singleton_append]
    | c2a =>
      have ha : a2cEvents (rec :: events) = a2cEvents events := List.filter_cons_of_neg (by simp [hdir])
      rw [offlineLoop, if_pos (by rw [hdir]; decide), ih, ha]

theorem replayOffline_eq (hload : ∀ rec ∈ trace.events, rec.dir = .a2c → trace.loadBlob X d rec = .ok (raw rec)) :
    replayOffline X trace d
      = (.ok (a2cEvents trace.events).length, Lines.joinLines 0x0A ((a2cEvents trace.events).map raw)) := by
  rw [replayOffline, offlineLoop_eq trace.events hload, Nat.zero_add, List.nil_append]

/-- Interactive replay, by the number of frames that match. -/
theorem replayInteractive_eq (hload : ∀ rec ∈ trace.events, rec.dir = .a2c → trace.loadBlob X d rec = .ok (raw rec))
    (clientIn : Bytes) :
    replayInteractive X trace d clientIn
      = (strictResult X trace.events ((FrameReader.new clientIn).results X) 0 0
          (matched X (c2aEvents trace.events) ((FrameReader.new clientIn).results X)),
        Lines.joinLines 0x0A ((blocks trace.events
          (matched X (c2aEvents trace.events) ((FrameReader.new clientIn).results X))).map raw)) := by
  rw [replayInteractive, replayInteractiveWith_eq, resume_strict trace.events hload _ _ _ _ _ _ rfl, List.nil_append]

/-! ### The sample trace -/

/-- The trace of the sample calls. -/
def sampleTrace : TraceReader where
  root := ['t']
  manifest := .newWithClock ['1'] [] ['0']
  events := records (.plain sampleDigests) 0 sampleCalls

/-- A disk with the blob of the sample response. -/
def sampleDisk : Disk :=
  emptyDisk.set (blobPath (join ['t'] blobsDir) (formatBlake3Hex (sampleResponse.payloadHash (.plain sampleDigests)).1))
    sampleResponse.raw

theorem payloadHash_sampleResponse' :
    sampleResponse'.payloadHash (.plain sampleDigests) = sampleResponse.payloadHash (.plain sampleDigests) := by
  rw [Frame.payloadHash, Frame.payloadHash, payloadHash, payloadHash, canonicalize_sampleResponse']

theorem loadBlob_sampleDisk {r : TraceReader} (hroot : r.root = ['t']) {rec : EventRecord}
    (hrec : rec.hash = sampleResponse.payloadHashStr (.plain sampleDigests)) :
    r.loadBlob (.plain sampleDigests) sampleDisk rec = .ok sampleResponse.raw := by
  rw [Frame.payloadHashStr_eq] at hrec
  refine (loadBlob_eq_ok_iff _ rfl hrec).mpr ⟨?_, sampleResponse, parse_sampleResponse _, rfl⟩
  rw [hroot, blobStore, sampleDisk, Disk.set_files]
  exact Function.update_self ..

theorem loadBlob_sampleTrace : ∀ rec ∈ sampleTrace.events, rec.dir = .a2c →
    sampleTrace.loadBlob (.plain sampleDigests) sampleDisk rec = .ok sampleResponse.raw := by
  intro rec hrec hdir
  simp only [sampleTrace, sampleCalls, records, List.mem_cons, List.not_mem_nil, or_false] at hrec
  rcases hrec with rfl | rfl | rfl
  · cases hdir
  · exact loadBlob_sampleDisk rfl (TraceWriter.eventRecord_hash ..)
  · apply loadBlob_sampleDisk rfl
    rw [TraceWriter.eventRecord_hash, payloadHashStr_eq_iff, payloadHash_sampleResponse']

/-! ### Whole replays -/

/-- **Strict interactive replay.** Let all blobs of the agent's frames load. For every client
stream, with `k` the greatest number of frames that match from the start: the blocks `0` to
`k` are written, each once, as lines; the replay returns their number if the stream ends
there, the divergence if another frame follows and one is expected, `TraceExhausted` if
none is, and the error of a malformed line. What is written is a prefix of what offline
replay writes, and all of it when every recorded client frame has been matched. -/
theorem replay_strict (hload : ∀ rec ∈ trace.events, rec.dir = .a2c → trace.loadBlob X d rec = .ok (raw rec))
    (clientIn : Bytes) :
    ∃ k, IsGreatest {k | Matches X (c2aEvents trace.events) ((FrameReader.new clientIn).results X) k} k ∧
      (replayInteractive X trace d clientIn).2 = Lines.joinLines 0x0A ((blocks trace.events k).map raw) ∧
      (((FrameReader.new clientIn).results X)[k]? = none →
        (replayInteractive X trace d clientIn).1 = .ok (blocks trace.events k).length) ∧
      (∀ g e, ((FrameReader.new clientIn).results X)[k]? = some (.ok g) → (c2aEvents trace.events)[k]? = some e →
        ∃ detail, (replayInteractive X trace d clientIn).1 = .error (.error (.divergence detail)) ∧
          detail.expectedSeq = e.seq ∧ detail.expectedHash = e.hash ∧ detail.clientFramesConsumed = k) ∧
      (∀ g, ((FrameReader.new clientIn).results X)[k]? = some (.ok g) → (c2aEvents trace.events).length = k →
        (replayInteractive X trace d clientIn).1 = .error (.error (.traceExhausted none))) ∧
      (∀ e, ((FrameReader.new clientIn).results X)[k]? = some (.error e) →
        (replayInteractive X trace d clientIn).1 = .error (.error (.wire e))) ∧
      (replayInteractive X trace d clientIn).2 <+: (replayOffline X trace d).2 ∧
      (k = (c2aEvents trace.events).length →
        (replayInteractive X trace d clientIn).2 = (replayOffline X trace d).2) := by
  obtain ⟨hpre, hall⟩ := blocks_isPrefix trace.events
    (matched X (c2aEvents trace.events) ((FrameReader.new clientIn).results X))
  refine ⟨_, isGreatest_matched X _ _, ?_⟩
  rw [replayInteractive_eq hload, replayOffline_eq hload]
  refine ⟨rfl, fun h => ?_, fun g e hg he => ?_, fun g hg hk => ?_, fun e he => ?_, ?_, fun hk => ?_⟩
  · rw [strictResult, h, Nat.zero_add]
  · rw [strictResult, hg, he]
    exact ⟨_, rfl, rfl, rfl, Nat.zero_add _⟩
  · rw [strictResult, hg, List.getElem?_eq_none hk.le]
  · rw [strictResult, he]
  · obtain ⟨rest, hrest⟩ := hpre
    rw [← hrest, List.map_append, Lines.joinLines_append]
    exact List.prefix_append _ _
  · rw [hall hk]

theorem replay_strict_sample :
    ∃ k, IsGreatest {k | Matches (.plain sampleDigests) (c2aEvents sampleTrace.events)
        ((FrameReader.new (sampleRequest 1).raw).results (.plain sampleDigests)) k} k ∧
      (replayInteractive (.plain sampleDigests) sampleTrace sampleDisk (sampleRequest 1).raw).2
        = Lines.joinLines 0x0A ((blocks sampleTrace.events k).map fun _ => sampleResponse.raw) := by
  obtain ⟨k, hk, hout, -⟩ := replay_strict loadBlob_sampleTrace (sampleRequest 1).raw
  exact ⟨k, hk, hout⟩

end AcpCore.Replay
