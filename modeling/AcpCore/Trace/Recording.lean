import AcpCore.Trace.Writer

/-!
# Recordings

What a `TraceWriter` has put on the disk after any sequence of `record` calls, as
long as nothing fails.

## The model

`Recorded` is the invariant: the log holds a line for each call, nothing is
pending, the next position is the number of calls. The blobs are seen as a store
by digest (`blobStore`), of which a call is one `FirstWins.put`.

## What is proved

* `createWithClock_noFaults` — creation leaves an empty log and the blobs alone;
* `record_noFaults`, `recordAll_noFaults` — one call, and any sequence of calls;
* `recording_noFaults` — a whole recording, finalized.
-/

namespace AcpCore.Trace

open AcpCore.Text AcpCore.Wire

/-- The blobs of a trace directory, by digest. -/
def blobStore (root : Str) (d : Disk) : Digest → Option Bytes := fun h =>
  d.files (blobPath (join root blobsDir) (formatBlake3Hex h.1))

/-- The bytes of a log: each record's text and a newline. -/
def logBytes (recs : List EventRecord) : Bytes := Lines.joinLines 0x0A (recs.map fun r => utf8 r.text)

theorem logBytes_concat (recs : List EventRecord) (r : EventRecord) :
    logBytes (recs ++ [r]) = logBytes recs ++ utf8 r.text ++ [0x0A] := by
  rw [logBytes, List.map_append, Lines.joinLines_append, logBytes, List.map_singleton, Lines.joinLines_cons,
    Lines.joinLines_nil, List.append_assoc]

/-- What a call of `record` is given, the clock's reading included. -/
structure Call where
  /-- The direction. -/
  dir : Direction
  /-- The frame. -/
  frame : Frame
  /-- The clock's reading. -/
  now : U128

/-- The state of a writer and its disk after calls that appended these records. -/
structure Recorded (root : Str) (m : Manifest) (recs : List EventRecord) (w : TraceWriter) (d : Disk) : Prop where
  /-- The directory. -/
  root_eq : w.root = root
  /-- The blobs' directory. -/
  blobs_eq : w.blobs = join root blobsDir
  /-- Nothing is pending. -/
  events_eq : w.events = .new (join root eventsFile)
  /-- The manifest the recording started with. -/
  manifest_eq : w.manifest = m
  /-- The next position is the number of records. -/
  nextSeq_eq : w.nextSeq = Fin.ofNat _ recs.length
  /-- Nothing fails. -/
  noFaults : d.faults = .none
  /-- The log has a line for each record. -/
  log : d.files (join root eventsFile) = some (logBytes recs)
  /-- The manifest's file is the one written at the start. -/
  manifestFile : d.files (join root manifestFile) = some m.toVecPretty

/-- Every file but the log, the manifest and the blobs of digests is as it was. -/
def Unchanged (root : Str) (d d' : Disk) : Prop :=
  ∀ p, p ≠ join root eventsFile → p ≠ join root manifestFile →
    (∀ h : Digest, p ≠ blobPath (join root blobsDir) (formatBlake3Hex h.1)) → d'.files p = d.files p

theorem Unchanged.trans {root : Str} {d₁ d₂ d₃ : Disk} (h₁ : Unchanged root d₁ d₂) (h₂ : Unchanged root d₂ d₃) :
    Unchanged root d₁ d₃ := fun p he hm hb => (h₂ p he hm hb).trans (h₁ p he hm hb)

theorem Unchanged.events {root : Str} {d d' : Disk} {v : Option Bytes}
    (h : d'.files = Function.update d.files (join root eventsFile) v) : Unchanged root d d' := fun p he _ _ => by
  rw [h, Function.update_of_ne he]

theorem Unchanged.manifest {root : Str} {d d' : Disk} {v : Option Bytes}
    (h : d'.files = Function.update d.files (join root manifestFile) v) : Unchanged root d d' := fun p _ hm _ => by
  rw [h, Function.update_of_ne hm]

/-! ### One call -/

/-- Other files of the directory are no blobs. -/
theorem blobStore_update {root file : Str} {c : Char} (hfile : file.head? = some c) (hc : c ≠ '/') (hb : c ≠ 'b')
    {files : Str → Option Bytes} {d d' : Disk} {v : Option Bytes} (hd : d.files = files)
    (h : d'.files = Function.update files (join root file) v) : blobStore root d' = blobStore root d := by
  funext g
  rw [blobStore, blobStore, h, hd, Function.update_of_ne (blobPath_ne hfile hc hb g)]

theorem blobStore_events {root : Str} {files : Str → Option Bytes} {d d' : Disk} {v : Option Bytes} (hd : d.files = files)
    (h : d'.files = Function.update files (join root eventsFile) v) : blobStore root d' = blobStore root d :=
  blobStore_update (c := 'e') rfl (by decide) (by decide) hd h

theorem blobStore_manifest {root : Str} {files : Str → Option Bytes} {d d' : Disk} {v : Option Bytes}
    (hd : d.files = files) (h : d'.files = Function.update files (join root manifestFile) v) :
    blobStore root d' = blobStore root d :=
  blobStore_update (c := 'm') rfl (by decide) (by decide) hd h

/-- A blob put among the files is put in the store. -/
theorem blobStore_put {root : Str} {d d' : Disk} {g : Digest} {raw : Bytes}
    (h : d'.files = FirstWins.put d.files (blobPath (join root blobsDir) (formatBlake3Hex g.1)) raw) :
    blobStore root d' = FirstWins.put (blobStore root d) g raw := by
  funext g'
  rw [FirstWins.put_apply, blobStore, h, FirstWins.put_apply]
  exact congrArg _ (if_congr (blobPath_injective root).eq_iff rfl rfl)

/-- **Creating a writer** leaves an empty log, and the blobs as they are. -/
theorem createWithClock_noFaults {d : Disk} (hd : d.faults = .none) (root : Str) (m : Manifest) :
    ∃ w d', TraceWriter.createWithClock root m d = (.ok w, d') ∧ Recorded root m [] w d' ∧
      blobStore root d' = blobStore root d ∧ Unchanged root d d' := by
  obtain ⟨d₁, hw, hf₁, hfiles₁⟩ := Disk.write_noFaults hd (join root manifestFile) m.toVecPretty
  refine ⟨⟨root, join root blobsDir, .new (join root eventsFile), m, 0⟩, d₁.set (join root eventsFile) [], ?_,
    ⟨rfl, rfl, rfl, rfl, rfl, hf₁, ?_, ?_⟩, ?_, (Unchanged.manifest hfiles₁).trans (Unchanged.events (Disk.set_files ..))⟩
  · rw [TraceWriter.createWithClock]
    simp only [Disk.createDirAll_noFaults hd, hw, Disk.openTruncate_noFaults hf₁]
  · exact Function.update_self ..
  · rw [Disk.set_files, Function.update_of_ne (eventsPath_ne_manifestPath root).symm, hfiles₁, Function.update_self]
  · rw [blobStore_events rfl (Disk.set_files ..), blobStore_manifest rfl hfiles₁]

theorem casWrite_noFaults {d : Disk} (hd : d.faults = .none) (w : TraceWriter) (hash : Str) (raw : Bytes) :
    ∃ d', w.casWrite hash raw d = (.ok (), d') ∧ d'.faults = .none ∧
      d'.files = FirstWins.put d.files (blobPath w.blobs hash) raw := by
  rw [TraceWriter.casWrite]
  simp only [Disk.createDirAll_noFaults hd, Disk.createNew_noFaults hd]
  rw [FirstWins.put]
  split_ifs with hex
  · exact ⟨d, rfl, hd, rfl⟩
  · obtain ⟨d', hw, hf, hfiles⟩ := Disk.writeAll_noFaults (d := d.set (blobPath w.blobs hash) []) hd
      (p := blobPath w.blobs hash) (b := raw) (a := []) (by simp)
    refine ⟨d', by simp only [hw], hf, ?_⟩
    rw [hfiles, Disk.set_files, Function.update_idem, List.nil_append]

theorem append_noFaults {w : TraceWriter} {d : Disk} {path : Str} {a : Bytes} (hw : w.events = .new path)
    (hd : d.faults = .none) (ha : d.files path = some a) (r : EventRecord) :
    ∃ d', w.append r d = (.ok (), { w with nextSeq := w.nextSeq + 1 }, d') ∧ d'.faults = .none ∧
      d'.files = Function.update d.files path (some (a ++ utf8 r.text ++ [0x0A])) := by
  have h₀ : w.events.Holds d.files a d := ⟨hd, a, by rw [hw, BufWriter.new, ← ha, Function.update_eq_self], by
    rw [hw, BufWriter.new, List.append_nil]⟩
  obtain ⟨p₁, d₁, hw₁, h₁⟩ := BufWriter.writeAll_noFaults h₀ (utf8 r.text)
  obtain ⟨p₂, d₂, hw₂, h₂⟩ := BufWriter.writeAll_noFaults h₁ [0x0A]
  obtain ⟨d₃, hw₃, hf₃, hfiles₃⟩ := BufWriter.flush_noFaults h₂
  refine ⟨d₃, ?_, hf₃, by rw [hfiles₃, hw]; rfl⟩
  obtain ⟨root, blobs, events, manifest, nextSeq⟩ := w
  cases hw
  rw [TraceWriter.append]
  simp only [hw₁, hw₂, hw₃]

variable (X : Crates)

/-- **One call of `record`**: one more line in the log, and the first writer wins among the blobs. -/
theorem record_noFaults {root : Str} {m : Manifest} {recs : List EventRecord} {w : TraceWriter} {d : Disk}
    (h : Recorded root m recs w d) (c : Call) :
    ∃ w' d', w.record X c.dir c.frame c.now d = (.ok (c.frame.payloadHashStr X), w', d') ∧
      Recorded root m (recs ++ [TraceWriter.eventRecord X (Fin.ofNat _ recs.length) c.dir c.frame c.now]) w' d' ∧
      blobStore root d' = FirstWins.put (blobStore root d) (c.frame.payloadHash X) c.frame.raw ∧
      Unchanged root d d' := by
  obtain ⟨d₁, hcas, hf₁, hfiles₁⟩ := casWrite_noFaults h.noFaults w (formatBlake3Hex (c.frame.payloadHash X).1) c.frame.raw
  rw [h.blobs_eq] at hfiles₁
  have hother : ∀ {file : Str} {k : Char}, file.head? = some k → k ≠ '/' → k ≠ 'b' →
      d₁.files (join root file) = d.files (join root file) := by
    intro file k hk hs hb
    rw [hfiles₁, FirstWins.put_apply, if_neg (blobPath_ne hk hs hb _).symm, Option.or_none]
  have hlog₁ : d₁.files (join root eventsFile) = some (logBytes recs) := by
    rw [hother rfl (by decide) (by decide), h.log]
  obtain ⟨d₂, happ, hf₂, hfiles₂⟩ := append_noFaults h.events_eq hf₁ hlog₁
    (TraceWriter.eventRecord X w.nextSeq c.dir c.frame c.now)
  have hkeep : Unchanged root d d₁ := fun p _ _ hb => by
    rw [hfiles₁, FirstWins.put_apply, if_neg (hb _), Option.or_none]
  refine ⟨_, d₂, by rw [TraceWriter.record, Frame.payloadHashStr_eq]; simp only [hcas, happ]; rfl, ?_, ?_,
    hkeep.trans (Unchanged.events hfiles₂)⟩
  · refine ⟨h.root_eq, h.blobs_eq, h.events_eq, h.manifest_eq, ?_, hf₂, ?_, ?_⟩
    · simp only [h.nextSeq_eq, List.length_append, List.length_singleton]
      exact Fin.ofNat_add ..
    · rw [hfiles₂, Function.update_self, ← h.nextSeq_eq, logBytes_concat]
    · rw [hfiles₂, Function.update_of_ne (eventsPath_ne_manifestPath root).symm, hother rfl (by decide) (by decide),
        h.manifestFile]
  · rw [blobStore_events rfl hfiles₂, blobStore_put hfiles₁]

/-! ### Calls that succeed -/

/-- A writer that was created is at its start, whatever fails later. -/
theorem recorded_of_create {root : Str} {m : Manifest} {w : TraceWriter} {d d' : Disk}
    (h : TraceWriter.createWithClock root m d = (.ok w, d')) : Recorded root m [] w d'.healed := by
  obtain ⟨w', d'', h', hw, -, -⟩ := createWithClock_noFaults (d := d.healed) rfl root m
  rw [TraceWriter.createWithClock_healed h, Prod.mk.injEq, Except.ok.injEq] at h'
  obtain ⟨rfl, rfl⟩ := h'
  exact hw

variable {X} in
/-- **A call that succeeds** has written its line, whatever fails later. -/
theorem recorded_of_record {root : Str} {m : Manifest} {recs : List EventRecord} {w w' : TraceWriter} {d d' : Disk}
    (hw : Recorded root m recs w d.healed) {c : Call} {hash : Str}
    (h : w.record X c.dir c.frame c.now d = (.ok hash, w', d')) :
    Recorded root m (recs ++ [TraceWriter.eventRecord X w.nextSeq c.dir c.frame c.now]) w' d'.healed := by
  obtain ⟨w'', d'', h', hw', -, -⟩ := record_noFaults X hw c
  rw [TraceWriter.record_healed h, Prod.mk.injEq, Prod.mk.injEq] at h'
  obtain ⟨-, rfl, rfl⟩ := h'
  rw [hw.nextSeq_eq]
  exact hw'

variable {X} in
/-- The position moves on exactly where the call succeeds. -/
theorem nextSeq_of_record {w w' : TraceWriter} {d d' : Disk} {dir : Direction} {f : Frame} {now : U128}
    {r : Except TraceError Str} (h : w.record X dir f now d = (r, w', d')) :
    w'.nextSeq = if r.isOk then w.nextSeq + 1 else w.nextSeq := by
  rw [TraceWriter.record] at h
  split at h
  · cases h
    rfl
  · split at h
    · next e w₁ d₁ happ =>
      cases h
      rw [TraceWriter.append] at happ
      split at happ
      · cases happ; rfl
      · split at happ
        · cases happ; rfl
        · split at happ <;> cases happ; rfl
    · next w₁ d₁ happ =>
      cases h
      rw [TraceWriter.append] at happ
      split at happ
      · cases happ
      · split at happ
        · cases happ
        · split at happ <;> cases happ; rfl

/-- Finalizing leaves the log as it is, however it goes. -/
theorem finalize_log {root : Str} {m : Manifest} {recs : List EventRecord} {w : TraceWriter} {d : Disk}
    (hw : Recorded root m recs w d.healed) (now : Str) :
    (w.finalize X now d).2.files (join root eventsFile) = some (logBytes recs) := by
  have hflush : w.events.flush d = (.ok (), w.events, d) := by
    rw [hw.events_eq]
    rfl
  have hlog : d.files (join root eventsFile) = some (logBytes recs) := hw.log
  have hdrop : w.events.drop d = d := by rw [BufWriter.drop, hflush]
  rw [TraceWriter.finalize, hflush]
  simp only [hdrop]
  split
  · exact hlog
  · next bytes h₁ =>
    have hwrite := Disk.write_files_of_ne d (w.finalManifest X bytes now).toVecPretty (eventsPath_ne_manifestPath root)
    rw [hw.root_eq]
    split
    · next d₂ h₂ =>
      rw [h₂] at hwrite
      rw [hwrite, hlog]
    · next d₂ h₂ =>
      rw [h₂] at hwrite
      rw [hwrite, hlog]

/-! ### Any number of calls -/

/-- The calls one after another; the first that fails ends it. -/
def TraceWriter.recordAll (w : TraceWriter) : List Call → Disk → Except TraceError Unit × TraceWriter × Disk
  | [], d => (.ok (), w, d)
  | c :: calls, d =>
    match w.record X c.dir c.frame c.now d with
    | (.error e, w, d) => (.error e, w, d)
    | (.ok _, w, d) => w.recordAll calls d

/-- The records of calls from a position on. -/
def records : ℕ → List Call → List EventRecord
  | _, [] => []
  | n, c :: calls => TraceWriter.eventRecord X (Fin.ofNat _ n) c.dir c.frame c.now :: records (n + 1) calls

theorem length_records (calls : List Call) (n : ℕ) : (records X n calls).length = calls.length := by
  induction calls generalizing n with
  | nil => rfl
  | cons c calls ih => rw [records, List.length_cons, List.length_cons, ih]

/-- The blobs that calls put, in order. -/
def puts (calls : List Call) : List (Digest × Bytes) := calls.map fun c => (c.frame.payloadHash X, c.frame.raw)

/-- **Any sequence of calls**: a line for each in the log, and the first writer wins among the blobs. -/
theorem recordAll_noFaults {root : Str} {m : Manifest} (calls : List Call) {recs : List EventRecord} {w : TraceWriter}
    {d : Disk} (h : Recorded root m recs w d) :
    ∃ w' d', w.recordAll X calls d = (.ok (), w', d') ∧ Recorded root m (recs ++ records X recs.length calls) w' d' ∧
      blobStore root d' = FirstWins.puts (blobStore root d) (puts X calls) ∧ Unchanged root d d' := by
  induction calls generalizing recs w d with
  | nil => exact ⟨w, d, rfl, by rwa [records, List.append_nil], rfl, fun _ _ _ _ => rfl⟩
  | cons c calls ih =>
    obtain ⟨w₁, d₁, hrec, h₁, hblobs₁, hkeep₁⟩ := record_noFaults X h c
    obtain ⟨w', d', hall, h', hblobs, hkeep⟩ := ih h₁
    refine ⟨w', d', by rw [TraceWriter.recordAll, hrec]; exact hall, ?_, ?_, hkeep₁.trans hkeep⟩
    · rw [List.append_assoc, List.length_append] at h'
      exact h'
    · rw [hblobs, hblobs₁]
      rfl

/-- A whole recording: a writer is created, the calls are made, and the trace is finalized. -/
def recording (root : Str) (m : Manifest) (calls : List Call) (now : Str) (d : Disk) : Except TraceError Unit × Disk :=
  match TraceWriter.createWithClock root m d with
  | (.error e, d) => (.error e, d)
  | (.ok w, d) =>
    match w.recordAll X calls d with
    | (.error e, _, d) => (.error e, d)
    | (.ok (), w, d) => w.finalize X now d

/-- The manifest a recording ends with. -/
def finalManifest (m : Manifest) (recs : List EventRecord) (now : Str) : Manifest :=
  { m with
    endedAt := some now
    eventCount := some (Fin.ofNat _ recs.length)
    eventsHash := some (blake3Prefix ++ formatBlake3Hex (X.blake3 (logBytes recs)).1) }

theorem finalize_noFaults {root : Str} {m : Manifest} {recs : List EventRecord} {w : TraceWriter} {d : Disk}
    (h : Recorded root m recs w d) (now : Str) :
    ∃ d', w.finalize X now d = (.ok (), d') ∧ d'.faults = .none ∧
      d'.files = Function.update d.files (join root manifestFile) (some (finalManifest X m recs now).toVecPretty) := by
  have hflush : w.events.flush d = (.ok (), w.events, d) := by
    rw [h.events_eq]
    rfl
  obtain ⟨d', hw, hf, hfiles⟩ := Disk.write_noFaults h.noFaults (join root manifestFile)
    (finalManifest X m recs now).toVecPretty
  have hm : w.finalManifest X (logBytes recs) now = finalManifest X m recs now := by
    rw [TraceWriter.finalManifest, h.manifest_eq, h.nextSeq_eq]
    rfl
  refine ⟨d', ?_, hf, hfiles⟩
  rw [TraceWriter.finalize]
  simp only [hflush, BufWriter.drop, h.root_eq, Disk.read_noFaults h.noFaults h.log, hm, hw]

/-- **A recording** on a disk on which nothing fails: the log has the calls' records, the
manifest their number, and the blobs are the first ones put. -/
theorem recording_noFaults {d : Disk} (hd : d.faults = .none) (root : Str) (m : Manifest) (calls : List Call) (now : Str) :
    ∃ d', recording X root m calls now d = (.ok (), d') ∧ d'.faults = .none ∧
      d'.files (join root eventsFile) = some (logBytes (records X 0 calls)) ∧
      d'.files (join root manifestFile) = some (finalManifest X m (records X 0 calls) now).toVecPretty ∧
      blobStore root d' = FirstWins.puts (blobStore root d) (puts X calls) := by
  obtain ⟨w₀, d₀, hcreate, h₀, hblobs₀, -⟩ := createWithClock_noFaults hd root m
  obtain ⟨w₁, d₁, hall, h₁, hblobs₁, -⟩ := recordAll_noFaults X calls h₀
  obtain ⟨d', hfin, hf, hfiles⟩ := finalize_noFaults X h₁ now
  refine ⟨d', ?_, hf, ?_, ?_, ?_⟩
  · rw [recording]
    simp only [hcreate, hall, hfin]
  · rw [hfiles, Function.update_of_ne (eventsPath_ne_manifestPath root), h₁.log]
    rfl
  · rw [hfiles, Function.update_self]
    rfl
  · rw [blobStore_manifest rfl hfiles, hblobs₁, hblobs₀]

end AcpCore.Trace
