import AcpCore.Trace.Decode
import AcpCore.Trace.Failures

/-!
# What a failed call leaves in the log

A call of `record` that fails may have handed its line, or a part of it, to the
log's writer, which keeps it and writes it with the next line.

## The model

`recordEach` makes the calls one after another, whether they fail or not.
`LeavesNothing` is the one way to fail that leaves nothing, and
`FailuresLeaveNothing` says that all calls that fail do so in this way.

## What is proved

* `recorded_of_failure` — a failure that leaves nothing leaves the writer and its log as they were;
* `recordEach_clean`, `recordEach_dirty` — after calls all of whose failures leave nothing the log
  has the lines of the others; after one that leaves something it is too long for good;
* **`log_faithful_iff`** — once a later call succeeds, the log has exactly the lines of the calls
  that returned `Ok` if and only if no failure has left anything;
* `log_faithful_fails` — a failure that leaves its whole line.
-/

namespace AcpCore.Trace

open AcpCore.Text AcpCore.Wire

variable (X : Crates)

/-! ### Calls that may fail -/

namespace TraceWriter

/-- The calls one after another, whether they fail or not: those that returned `Ok`, and the writer and
the disk after all of them. -/
def recordEach (w : TraceWriter) : List Call → Disk → List Call × TraceWriter × Disk
  | [], d => ([], w, d)
  | c :: calls, d =>
    match w.record X c.dir c.frame c.now d with
    | (.error _, w, d) => w.recordEach calls d
    | (.ok _, w, d) => (c :: (w.recordEach calls d).1, (w.recordEach calls d).2)

/-- A call that fails fails in its blob write, or in writing a line that is too long for the buffer, with
no byte of it written. -/
def LeavesNothing (w : TraceWriter) (c : Call) (d : Disk) : Prop :=
  ∀ d₁, w.casWrite (formatBlake3Hex (c.frame.payloadHash X).1) c.frame.raw d = (.ok (), d₁) →
    BufWriter.capacity ≤ (utf8 (eventRecord X w.nextSeq c.dir c.frame c.now).text).length ∧ d₁.tick.1 = some 0

/-- All calls that fail leave nothing. -/
def FailuresLeaveNothing (w : TraceWriter) : List Call → Disk → Prop
  | [], _ => True
  | c :: calls, d =>
    ((w.record X c.dir c.frame c.now d).1.isOk = false → w.LeavesNothing X c d) ∧
      (w.record X c.dir c.frame c.now d).2.1.FailuresLeaveNothing calls (w.record X c.dir c.frame c.now d).2.2

end TraceWriter

variable {X}

theorem Recorded.accepted {root : Str} {m : Manifest} {recs : List EventRecord} {w : TraceWriter} {d : Disk}
    (h : Recorded root m recs w d.healed) : w.events.accepted d = logBytes recs := by
  have hlog : d.files (join root eventsFile) = some (logBytes recs) := h.log
  rw [BufWriter.accepted, h.events_eq, BufWriter.new, content, hlog, List.append_nil]
  rfl

theorem length_logBytes_cons (e : EventRecord) (recs : List EventRecord) :
    (logBytes (e :: recs)).length = (TraceWriter.line e).length + (logBytes recs).length := by
  rw [logBytes, List.map_cons, Lines.joinLines_cons, TraceWriter.line, List.append_cons, List.length_append]
  rfl

/-- **Calls in whatever state**: what is accepted grows by the lines of those that returned `Ok` at least. -/
theorem recordEach_accepted {root : Str} (calls : List Call) {w : TraceWriter} (hw : Writes root w) {n : ℕ}
    (hn : w.nextSeq = Fin.ofNat _ n) {d : Disk} {kept : List Call} {w' : TraceWriter} {d' : Disk}
    (h : w.recordEach X calls d = (kept, w', d')) :
    Writes root w' ∧ w'.nextSeq = Fin.ofNat _ (n + kept.length) ∧
      (w.events.accepted d).length + (logBytes (records X n kept)).length ≤ (w'.events.accepted d').length := by
  induction calls generalizing w d n kept with
  | nil =>
    cases h
    exact ⟨hw, hn, le_rfl⟩
  | cons c calls ih =>
    unfold TraceWriter.recordEach at h
    rcases hrec : w.record X c.dir c.frame c.now d with ⟨r, w₁, d₁⟩
    have hseq := nextSeq_of_record hrec
    obtain ⟨hw₁, k, hacc, hok⟩ := record_accepted hw hrec
    have hlen := congrArg List.length hacc
    rw [List.length_append] at hlen
    rw [hrec] at h
    cases r with
    | error e =>
      obtain ⟨hw', hn', hle⟩ := ih hw₁ (hseq.trans hn) h
      exact ⟨hw', hn', by omega⟩
    | ok hash =>
      rcases hall : w₁.recordEach X calls d₁ with ⟨kept₁, w₂, d₂⟩
      simp only [hall] at h
      cases h
      have hn₁ : w₁.nextSeq = Fin.ofNat _ (n + 1) := by
        rw [hseq, hn]
        exact Fin.ofNat_add ..
      obtain ⟨hw', hn', hle⟩ := ih hw₁ hn₁ hall
      obtain ⟨rfl, -⟩ := hok rfl
      refine ⟨hw', by rw [hn', List.length_cons, Nat.add_assoc, Nat.add_comm 1], ?_⟩
      rw [List.take_length, hn] at hlen
      rw [records, length_logBytes_cons]
      omega

theorem records_append (calls calls' : List Call) (n : ℕ) :
    records X n (calls ++ calls') = records X n calls ++ records X (n + calls.length) calls' := by
  induction calls generalizing n with
  | nil => rfl
  | cons c calls ih =>
    rw [List.cons_append, records, records, ih, List.cons_append, List.length_cons, Nat.add_assoc, Nat.add_comm 1]

/-! ### Failures that leave nothing, and others -/

/-- **A failure that leaves nothing** leaves the writer and its log as they were, and any other has
handed a part of its line to the log's writer. -/
theorem recorded_of_failure {root : Str} {m : Manifest} {recs : List EventRecord} {w w' : TraceWriter} {d d' : Disk}
    (hw : Recorded root m recs w d.healed) {c : Call} {e : TraceError}
    (h : w.record X c.dir c.frame c.now d = (.error e, w', d')) :
    (w.LeavesNothing X c d → Recorded root m recs w' d'.healed) ∧
      (¬ w.LeavesNothing X c d → (logBytes recs).length < (w'.events.accepted d').length) := by
  rw [TraceWriter.record] at h
  rcases hcas : w.casWrite (formatBlake3Hex (c.frame.payloadHash X).1) c.frame.raw d with ⟨r₁, d₁⟩
  obtain ⟨hlog₁, hmanifest₁⟩ := casWrite_log hw.writes hcas
  have hw₁ : Recorded root m recs w d₁.healed :=
    ⟨hw.root_eq, hw.blobs_eq, hw.events_eq, hw.manifest_eq, hw.nextSeq_eq, rfl, hlog₁.trans hw.log,
      hmanifest₁.trans hw.manifestFile⟩
  rw [hcas] at h
  cases r₁ with
  | error e =>
    cases h
    refine ⟨fun _ => hw₁, fun hnot => absurd (fun d₂ h => ?_) hnot⟩
    rw [hcas] at h
    cases h
  | ok u =>
    rcases happ : w.append (TraceWriter.eventRecord X w.nextSeq c.dir c.frame c.now) d₁ with ⟨r₂, w₂, d₂⟩
    simp only [happ] at h
    obtain ⟨-, -, -, -, -, -, -, ⟨rfl, -⟩ | ⟨rfl, -⟩⟩ := TraceWriter.append_accepted happ <;> cases h
    refine ⟨fun hnothing => ?_, fun hsome => ?_⟩
    · obtain ⟨hcap, htick⟩ := hnothing d₁ hcas
      obtain ⟨d₃, happ', hfiles⟩ := TraceWriter.append_at_once hw.events_eq (hlog₁.trans hw.log) hcap htick
      rw [happ] at happ'
      cases happ'
      exact ⟨hw.root_eq, hw.blobs_eq, hw.events_eq, hw.manifest_eq, hw.nextSeq_eq, rfl,
        (congrFun hfiles _).trans hw₁.log, (congrFun hfiles _).trans hw₁.manifestFile⟩
    · rw [← hw₁.accepted]
      refine TraceWriter.append_part hw.events_eq happ fun hcond => hsome fun d₃ h => ?_
      rw [hcas] at h
      cases h
      exact hcond

/-- Calls all of whose failures leave nothing: the log has the lines of the others. -/
theorem recordEach_clean {root : Str} {m : Manifest} (calls : List Call) {recs : List EventRecord} {w w' : TraceWriter}
    {d d' : Disk} {kept : List Call} (hw : Recorded root m recs w d.healed)
    (h : w.recordEach X calls d = (kept, w', d')) (hclean : w.FailuresLeaveNothing X calls d) :
    Recorded root m (recs ++ records X recs.length kept) w' d'.healed := by
  induction calls generalizing recs w d kept with
  | nil =>
    cases h
    rwa [records, List.append_nil]
  | cons c calls ih =>
    obtain ⟨hfail, hclean⟩ := hclean
    unfold TraceWriter.recordEach at h
    rcases hrec : w.record X c.dir c.frame c.now d with ⟨r, w₁, d₁⟩
    rw [hrec] at h hfail hclean
    cases r with
    | error e => exact ih ((recorded_of_failure hw hrec).1 (hfail rfl)) h hclean
    | ok hash =>
      rcases hall : w₁.recordEach X calls d₁ with ⟨kept₁, w₂, d₂⟩
      simp only [hall] at h
      cases h
      have h' := ih (recorded_of_record hw hrec) hall hclean
      rw [hw.nextSeq_eq, List.append_assoc, List.length_append] at h'
      exact h'

/-- Calls of which one has failed and left something: what is accepted is too long. -/
theorem recordEach_dirty {root : Str} {m : Manifest} (calls : List Call) {recs : List EventRecord} {w w' : TraceWriter}
    {d d' : Disk} {kept : List Call} (hw : Recorded root m recs w d.healed)
    (h : w.recordEach X calls d = (kept, w', d')) (hdirty : ¬ w.FailuresLeaveNothing X calls d) :
    (logBytes recs).length + (logBytes (records X recs.length kept)).length < (w'.events.accepted d').length := by
  induction calls generalizing recs w d kept with
  | nil => exact absurd trivial hdirty
  | cons c calls ih =>
    unfold TraceWriter.FailuresLeaveNothing at hdirty
    unfold TraceWriter.recordEach at h
    rcases hrec : w.record X c.dir c.frame c.now d with ⟨r, w₁, d₁⟩
    rw [hrec] at h hdirty
    cases r with
    | error e =>
      obtain ⟨hkeep, hpart⟩ := recorded_of_failure hw hrec
      by_cases hnothing : w.LeavesNothing X c d
      · exact ih (hkeep hnothing) h fun hclean => hdirty ⟨fun _ => hnothing, hclean⟩
      · -- from here on whatever happens only adds to it
        have hseq := nextSeq_of_record hrec
        have hle := (recordEach_accepted calls (record_accepted hw.writes hrec).1 (hseq.trans hw.nextSeq_eq) h).2.2
        have := hpart hnothing
        omega
    | ok hash =>
      rcases hall : w₁.recordEach X calls d₁ with ⟨kept₁, w₂, d₂⟩
      simp only [hall] at h
      cases h
      have hlt := ih (recorded_of_record hw hrec) hall fun hclean => hdirty ⟨fun h => (by cases h), hclean⟩
      rw [hw.nextSeq_eq, logBytes_concat, List.length_append, List.length_append, List.length_append,
        List.length_singleton, List.length_singleton] at hlt
      rw [records, length_logBytes_cons, TraceWriter.line, List.length_append, List.length_singleton]
      omega

/-! ### Once a call succeeds -/

/-- After a call that succeeds the log is all that was accepted. -/
theorem record_log {root : Str} {w w' : TraceWriter} (hw : Writes root w) {c : Call} {d d' : Disk} {hash : Str}
    (h : w.record X c.dir c.frame c.now d = (.ok hash, w', d')) : content d' (join root eventsFile)
      = w.events.accepted d ++ TraceWriter.line (TraceWriter.eventRecord X w.nextSeq c.dir c.frame c.now) := by
  obtain ⟨hw', n, hacc, hok⟩ := record_accepted hw h
  obtain ⟨rfl, hempty⟩ := hok rfl
  rw [BufWriter.accepted, hempty, List.append_nil, List.take_length, hw'.path] at hacc
  exact hacc

/-- After finalizing the log is all that was accepted. -/
theorem finalize_log_accepted {root : Str} {w : TraceWriter} (hw : Writes root w) {now : Str} {d d' : Disk}
    (h : w.finalize X now d = (.ok (), d')) :
    content d' (join root eventsFile) = w.events.accepted d := by
  unfold TraceWriter.finalize at h
  rcases hflush : w.events.flush d with ⟨r, events, d₁⟩
  obtain ⟨hpath, hacc, -, ⟨rfl, hempty⟩ | rfl⟩ := BufWriter.flush_cases hflush <;> rw [hflush] at h
  · simp only [BufWriter.drop_of_flush hflush] at h
    split at h
    · cases h
    · next bytes _ =>
      have hwrite := Disk.write_files_of_ne d₁ (w.finalManifest X bytes now).toVecPretty (eventsPath_ne_manifestPath root)
      rw [hw.root_eq] at h
      split at h
      · cases h
      · next d₃ hd₃ =>
        rw [hd₃] at hwrite
        cases h
        rw [content, hwrite, ← hacc, BufWriter.accepted, hempty, List.append_nil, hpath, hw.path]
        rfl
  · cases h

/-- **What a failed call leaves in the log.** Let a writer be created and any calls be made, each of
which may fail at any system call. Once a further call succeeds, the log consists of one line for
each call that returned `Ok`, in order and with positions from 0, if and only if every call that
failed did so in its blob write, or at once in writing a line too long for the buffer. The same is
so once the trace is finalized, of the log and the manifest's count together. -/
theorem log_faithful_iff {root : Str} {m : Manifest} {d₀ : Disk} {w₀ : TraceWriter} {d₁ : Disk}
    (hcreate : TraceWriter.createWithClock root m d₀ = (.ok w₀, d₁)) {calls kept : List Call} {w : TraceWriter} {d : Disk}
    (hcalls : w₀.recordEach X calls d₁ = (kept, w, d)) :
    (∀ c hash w' d', w.record X c.dir c.frame c.now d = (.ok hash, w', d') →
      (d'.files (join root eventsFile) = some (logBytes (records X 0 (kept ++ [c]))) ↔
        w₀.FailuresLeaveNothing X calls d₁)) ∧
    ∀ now d', w.finalize X now d = (.ok (), d') →
      ((d'.files (join root eventsFile) = some (logBytes (records X 0 kept)) ∧
        ∃ m' : Manifest, d'.files (join root manifestFile) = some m'.toVecPretty ∧
          m'.eventCount = some (Fin.ofNat _ kept.length)) ↔ w₀.FailuresLeaveNothing X calls d₁) := by
  have h₀ := recorded_of_create hcreate
  obtain ⟨hw, hseq, -⟩ := recordEach_accepted calls h₀.writes h₀.nextSeq_eq hcalls
  have hclean := recordEach_clean calls h₀ hcalls
  have hdirty := recordEach_dirty calls h₀ hcalls
  rw [List.length_nil] at hseq hclean hdirty
  constructor
  · intro c hash w' d' hrec
    have hrecords : records X 0 (kept ++ [c])
        = records X 0 kept ++ [TraceWriter.eventRecord X w.nextSeq c.dir c.frame c.now] := by
      rw [records_append, hseq]
      rfl
    rw [hrecords]
    constructor
    · intro hlog
      by_contra hnot
      have hlen := congrArg List.length (record_log hw hrec)
      rw [content, hlog, Option.getD_some, logBytes_concat, List.append_assoc, ← TraceWriter.line, List.length_append,
        List.length_append] at hlen
      have := hdirty hnot
      omega
    · intro hnothing
      exact (recorded_of_record (hclean hnothing) hrec).log
  · intro now d' hfin
    constructor
    · rintro ⟨hlog, -⟩
      by_contra hnot
      have hlen := congrArg List.length (finalize_log_accepted hw hfin)
      rw [content, hlog, Option.getD_some] at hlen
      have := hdirty hnot
      omega
    · intro hnothing
      have hrecorded := hclean hnothing
      obtain ⟨d₂, hfin', -, hfiles⟩ := finalize_noFaults X hrecorded now
      rw [TraceWriter.finalize_healed hfin, Prod.mk.injEq] at hfin'
      obtain ⟨-, rfl⟩ := hfin'
      have hother := congrFun hfiles
      refine ⟨?_, _, (hother _).trans (Function.update_self ..), ?_⟩
      · exact (hother _).trans ((Function.update_of_ne (eventsPath_ne_manifestPath root) ..).trans hrecorded.log)
      · rw [finalManifest, List.nil_append, length_records]

/-- A disk without files whose ninth system call fails: the first flush of a log. -/
def flushFails : Disk := failsAt 8

set_option maxRecDepth 100000 in
/-- A call fails in its blob write: whatever call succeeds after it has the log for itself. -/
theorem log_faithful_iff_sample :
    ∃ w₀ d₁ w d, TraceWriter.createWithClock ['t'] (.newWithClock ['1'] [] ['0']) (failsAt 7) = (.ok w₀, d₁) ∧
      w₀.recordEach (.plain sampleDigests) [⟨.c2a, sampleRequest 1, 0⟩] d₁ = ([], w, d) ∧
      ∀ c hash w' d', w.record (.plain sampleDigests) c.dir c.frame c.now d = (.ok hash, w', d') →
        d'.files (join ['t'] eventsFile) = some (logBytes (records (.plain sampleDigests) 0 [c])) := by
  obtain ⟨w₀, d₁, w, d, hcreate, hcalls, hcas⟩ : ∃ w₀ d₁ w d,
      TraceWriter.createWithClock ['t'] (.newWithClock ['1'] [] ['0']) (failsAt 7) = (.ok w₀, d₁) ∧
        w₀.recordEach (.plain sampleDigests) [⟨.c2a, sampleRequest 1, 0⟩] d₁ = ([], w, d) ∧
        (w₀.casWrite (formatBlake3Hex ((sampleRequest 1).payloadHash (.plain sampleDigests)).1) (sampleRequest 1).raw
          d₁).1.isOk = false := ⟨_, _, _, _, rfl, rfl, by decide +kernel⟩
  have hclean : w₀.FailuresLeaveNothing (.plain sampleDigests) [⟨.c2a, sampleRequest 1, 0⟩] d₁ := by
    refine ⟨fun _ d₂ hok => ?_, trivial⟩
    rw [hok] at hcas
    cases hcas
  exact ⟨w₀, d₁, w, d, hcreate, hcalls, fun c hash w' d' hrec =>
    ((log_faithful_iff hcreate hcalls).1 c hash w' d' hrec).mpr hclean⟩

set_option maxRecDepth 100000 in
/-- A call fails in its flush, and the next one succeeds: the log has a line for each, both at position 0. -/
theorem log_faithful_fails :
    ∃ w₀ d₁ w d hash w' d', TraceWriter.createWithClock ['t'] (.newWithClock ['1'] [] ['0']) flushFails = (.ok w₀, d₁) ∧
      w₀.recordEach (.plain sampleDigests) [⟨.c2a, sampleRequest 1, 0⟩] d₁ = ([], w, d) ∧
      w.record (.plain sampleDigests) .a2c sampleResponse 0 d = (.ok hash, w', d') ∧
      d'.files (join ['t'] eventsFile) = some (logBytes
        [TraceWriter.eventRecord (.plain sampleDigests) 0 .c2a (sampleRequest 1) 0,
          TraceWriter.eventRecord (.plain sampleDigests) 0 .a2c sampleResponse 0]) ∧
      d'.files (join ['t'] eventsFile) ≠ some (logBytes (records (.plain sampleDigests) 0 [⟨.a2c, sampleResponse, 0⟩])) := by
  refine ⟨_, _, _, _, _, _, _, rfl, rfl, rfl, ?_, ?_⟩ <;> decide +kernel

end AcpCore.Trace
