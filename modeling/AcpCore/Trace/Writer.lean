import AcpCore.Trace.Disk
import AcpCore.Trace.Manifest
import AcpCore.Library.FirstWins
import AcpCore.Library.Lines

/-!
# Writing a trace

`TraceWriter` persists each frame twice: its bytes as a blob named by its
canonical hash, unless the blob is there already, and an `EventRecord` as a line
of `events.jsonl`. Finalizing writes the counts into the manifest.

## The model

A writer and the disk are passed along; a failing call returns both as it leaves
them. The clock's readings are arguments.

## What is proved

* `record_healed`, `createWithClock_healed` — a call that succeeds does the same on a disk
  on which nothing fails.
-/

namespace AcpCore.Trace

open AcpCore.Text AcpCore.Wire

/-- `TraceError`. -/
inductive TraceError where
  /-- `Io`. -/
  | io
  /-- `Json`. -/
  | json
  /-- `Wire`. -/
  | wire (e : WireError)
  /-- `Missing`: the trace and the file it has not. -/
  | missing (root file : Str)
  /-- `HashMismatch`. -/
  | hashMismatch (expected got : Str)
  /-- `DanglingBlob`. -/
  | danglingBlob (hash : Str)
  /-- `Version`. -/
  | version (got want : U32)
  deriving DecidableEq

/-! ### Where things are -/

/-- `"manifest.json"`. -/
def manifestFile : Str := ['m', 'a', 'n', 'i', 'f', 'e', 's', 't', '.', 'j', 's', 'o', 'n']
/-- `"events.jsonl"`. -/
def eventsFile : Str := ['e', 'v', 'e', 'n', 't', 's', '.', 'j', 's', 'o', 'n', 'l']
/-- `"blobs"`. -/
def blobsDir : Str := ['b', 'l', 'o', 'b', 's']

/-- Where a blob is, by the hexadecimal digits of its hash. -/
def blobPath (blobs hash : Str) : Str := join (join blobs (hash.take 2)) (hash.drop 2)

/-- What relative paths are appended to. -/
def joinBase (p : Str) : Str := if p = [] ∨ p.getLast? = some '/' then p else p ++ ['/']

theorem join_relative {p q : Str} (hq : q.head? ≠ some '/') : join p q = joinBase p ++ q := by
  rw [join, if_neg hq, joinBase]
  split_ifs
  · rfl
  · rw [List.append_assoc, List.singleton_append]

theorem joinBase_of_last {p : Str} {c : Char} (hp : p.getLast? = some c) (hc : c ≠ '/') : joinBase p = p ++ ['/'] := by
  rw [joinBase, if_neg]
  rintro (rfl | h)
  · cases hp
  · exact hc (Option.some.inj (hp.symm.trans h))

theorem slash_notMem_hexOfByte : ∀ b : Fin 256, '/' ∉ hexOfByte (UInt8.ofFin b) := by decide +kernel

theorem slash_notMem_formatBlake3Hex (b : Bytes) : '/' ∉ formatBlake3Hex b := by
  rw [formatBlake3Hex, List.mem_flatMap]
  rintro ⟨x, -, hx⟩
  exact slash_notMem_hexOfByte x.toFin (by rwa [UInt8.ofFin_toFin])

theorem length_formatBlake3Hex (b : Bytes) : (formatBlake3Hex b).length = 2 * b.length := by
  induction b with
  | nil => rfl
  | cons x b ih =>
    rw [formatBlake3Hex, List.flatMap_cons, List.length_append, List.length_cons, ← formatBlake3Hex, ih]
    show 2 + _ = _
    omega

/-- The path of a blob, spelled out. -/
theorem join_blobs {root sub name : Str} (hsub : sub ≠ []) (hs : '/' ∉ sub) (hn : '/' ∉ name) :
    join (join (join root blobsDir) sub) name = joinBase root ++ blobsDir ++ ('/' :: sub) ++ ('/' :: name) := by
  have hhead : ∀ {s : Str}, '/' ∉ s → s.head? ≠ some '/' := fun hs hh => hs (List.mem_of_mem_head? hh)
  have hblobs : (joinBase root ++ blobsDir).getLast? = some 's' := by
    rw [List.getLast?_append]
    rfl
  obtain ⟨c, hc⟩ : ∃ c, sub.getLast? = some c := by
    rw [← Option.isSome_iff_exists, List.getLast?_isSome]
    exact hsub
  have hlast : (joinBase root ++ blobsDir ++ ['/'] ++ sub).getLast? = some c := by
    rw [List.getLast?_append, hc, Option.some_or]
  have hcs : c ≠ '/' := by
    rintro rfl
    exact hs (List.mem_of_getLast? hc)
  rw [join_relative (hhead hn), join_relative (hhead hs), join_relative (by decide : blobsDir.head? ≠ some '/'),
    joinBase_of_last hblobs (by decide), joinBase_of_last hlast hcs]
  simp only [List.append_assoc, List.cons_append, List.nil_append]

/-- A digest's digits, cut in two as they are in its path. -/
theorem hex_parts (h : Digest) : ((formatBlake3Hex h.1).take 2).length = 2 ∧ '/' ∉ (formatBlake3Hex h.1).take 2 ∧
    '/' ∉ (formatBlake3Hex h.1).drop 2 := by
  refine ⟨?_, fun hm => ?_, fun hm => ?_⟩
  · rw [List.length_take, length_formatBlake3Hex, h.2]
    rfl
  · exact slash_notMem_formatBlake3Hex h.1 (List.mem_of_mem_take hm)
  · exact slash_notMem_formatBlake3Hex h.1 (List.mem_of_mem_drop hm)

/-- The path of a digest's blob, spelled out. -/
theorem blobPath_eq (root : Str) (h : Digest) : blobPath (join root blobsDir) (formatBlake3Hex h.1)
    = joinBase root ++ blobsDir ++ ('/' :: (formatBlake3Hex h.1).take 2) ++ ('/' :: (formatBlake3Hex h.1).drop 2) := by
  obtain ⟨hlen, htake, hdrop⟩ := hex_parts h
  exact join_blobs (fun h => by rw [h] at hlen; cases hlen) htake hdrop

/-- Different digests have different paths. -/
theorem blobPath_injective (root : Str) :
    Function.Injective fun h : Digest => blobPath (join root blobsDir) (formatBlake3Hex h.1) := by
  intro g h hgh
  simp only [blobPath_eq] at hgh
  have hg : (formatBlake3Hex g.1).length = 64 := by rw [length_formatBlake3Hex, g.2]
  have hh : (formatBlake3Hex h.1).length = 64 := by rw [length_formatBlake3Hex, h.2]
  obtain ⟨htake, hdrop⟩ := List.append_inj hgh (by simp [hg, hh])
  have htake' := List.append_cancel_left htake
  rw [List.cons.injEq] at htake' hdrop
  have : formatBlake3Hex g.1 = formatBlake3Hex h.1 := by
    rw [← List.take_append_drop 2 (formatBlake3Hex g.1), htake'.2, hdrop.2, List.take_append_drop]
  exact Subtype.ext (formatBlake3Hex_injective this)

/-- What is under `blobs` is no other file of the trace. -/
theorem blobs_ne {root file s : Str} {c : Char} (hfile : file.head? = some c) (hc : c ≠ '/') (hb : c ≠ 'b') :
    joinBase root ++ (blobsDir ++ s) ≠ join root file := by
  rw [join_relative (by rw [hfile]; exact fun h => hc (Option.some.inj h))]
  intro heq
  have hhead := congrArg List.head? (List.append_cancel_left heq)
  rw [hfile] at hhead
  exact hb (Option.some.inj hhead).symm

theorem blobPath_ne {root file : Str} {c : Char} (hfile : file.head? = some c) (hc : c ≠ '/') (hb : c ≠ 'b') (h : Digest) :
    blobPath (join root blobsDir) (formatBlake3Hex h.1) ≠ join root file := by
  rw [blobPath_eq]
  simp only [List.append_assoc]
  exact blobs_ne hfile hc hb

theorem eventsPath_ne_manifestPath (root : Str) : join root eventsFile ≠ join root manifestFile := by
  rw [join_relative (by decide), join_relative (by decide)]
  intro h
  exact absurd (List.append_cancel_left h) (by decide)

/-! ### The writer -/

/-- `TraceWriter`, without its clock. -/
structure TraceWriter where
  /-- The trace directory. -/
  root : Str
  /-- Its `blobs` directory. -/
  blobs : Str
  /-- `events.jsonl`. -/
  events : BufWriter
  /-- The manifest. -/
  manifest : Manifest
  /-- The position of the next event. -/
  nextSeq : U64

namespace TraceWriter

/-- `TraceWriter::create_with_clock`. -/
def createWithClock (root : Str) (manifest : Manifest) (d : Disk) : Except TraceError TraceWriter × Disk :=
  match d.createDirAll root with
  | (.error _, d) => (.error .io, d)
  | (.ok (), d) =>
    let blobs := join root blobsDir
    match d.createDirAll blobs with
    | (.error _, d) => (.error .io, d)
    | (.ok (), d) =>
      match d.write (join root manifestFile) manifest.toVecPretty with
      | (.error _, d) => (.error .io, d)
      | (.ok (), d) =>
        match d.openTruncate (join root eventsFile) with
        | (.error _, d) => (.error .io, d)
        | (.ok (), d) =>
          (.ok { root, blobs, events := .new (join root eventsFile), manifest, nextSeq := 0 }, d)

/-- The blob write of `record`: create-new only, and nothing to do where the blob exists. -/
def casWrite (w : TraceWriter) (hash : Str) (raw : Bytes) (d : Disk) : Except TraceError Unit × Disk :=
  match d.createDirAll (join w.blobs (hash.take 2)) with
  | (.error _, d) => (.error .io, d)
  | (.ok (), d) =>
    match d.createNew (blobPath w.blobs hash) with
    | (.ok (), d) =>
      match d.writeAll (blobPath w.blobs hash) raw with
      | (.ok (), d) => (.ok (), d)
      | (.error _, d) => (.error .io, d)
    -- dedup hit
    | (.error .alreadyExists, d) => (.ok (), d)
    | (.error .other, d) => (.error .io, d)

/-- The event append of `record`. -/
def append (w : TraceWriter) (record : EventRecord) (d : Disk) : Except TraceError Unit × TraceWriter × Disk :=
  match w.events.writeAll (utf8 record.text) d with
  | (.error _, events, d) => (.error .io, { w with events }, d)
  | (.ok (), events, d) =>
    match events.writeAll [0x0A] d with
    | (.error _, events, d) => (.error .io, { w with events }, d)
    | (.ok (), events, d) =>
      match events.flush d with
      | (.error _, events, d) => (.error .io, { w with events }, d)
      | (.ok (), events, d) => (.ok (), { w with events, nextSeq := w.nextSeq + 1 }, d)

variable (X : Crates)

/-- The record of a frame at a position. -/
def eventRecord (seq : U64) (dir : Direction) (frame : Frame) (now : U128) : EventRecord where
  seq := seq
  tWallNs := now
  dir := dir
  kind := .ofKind frame.kind
  method := frame.method
  id := frame.id.map .ofId
  hash := blake3Prefix ++ formatBlake3Hex (frame.payloadHash X).1
  bytes := Fin.ofNat _ frame.raw.length

/-- The event has the frame's hash. -/
theorem eventRecord_hash (seq : U64) (dir : Direction) (frame : Frame) (now : U128) :
    (eventRecord X seq dir frame now).hash = frame.payloadHashStr X := (frame.payloadHashStr_eq X).symm

/-- `TraceWriter::record`, with the clock's reading. -/
def record (w : TraceWriter) (dir : Direction) (frame : Frame) (now : U128) (d : Disk) :
    Except TraceError Str × TraceWriter × Disk :=
  let hash := formatBlake3Hex (frame.payloadHash X).1
  match w.casWrite hash frame.raw d with
  | (.error e, d) => (.error e, w, d)
  | (.ok (), d) =>
    match w.append (eventRecord X w.nextSeq dir frame now) d with
    | (.error e, w, d) => (.error e, w, d)
    | (.ok (), w, d) => (.ok (blake3Prefix ++ hash), w, d)

/-- The manifest `finalize` writes. -/
def finalManifest (w : TraceWriter) (events : Bytes) (now : Str) : Manifest :=
  { w.manifest with
    endedAt := some now
    eventCount := some w.nextSeq
    eventsHash := some (blake3Prefix ++ formatBlake3Hex (X.blake3 events).1) }

/-- `TraceWriter::finalize`, with the clock's timestamp. -/
def finalize (w : TraceWriter) (now : Str) (d : Disk) : Except TraceError Unit × Disk :=
  match w.events.flush d with
  | (.error _, events, d) => (.error .io, events.drop d)
  | (.ok (), events, d) =>
    let d := events.drop d
    match d.read (join w.root eventsFile) with
    | .error _ => (.error .io, d)
    | .ok bytes =>
      match d.write (join w.root manifestFile) (w.finalManifest X bytes now).toVecPretty with
      | (.error _, d) => (.error .io, d)
      | (.ok (), d) => (.ok (), d)

/-! ### Calls that succeed -/

variable {w w' : TraceWriter} {d d' : Disk}

theorem casWrite_healed {hash : Str} {raw : Bytes} (h : w.casWrite hash raw d = (.ok (), d')) :
    w.casWrite hash raw d.healed = (.ok (), d'.healed) := by
  rw [casWrite] at h ⊢
  split at h
  · cases h
  · next d₁ hdir =>
    rw [Disk.createDirAll_healed hdir]
    simp only at h ⊢
    split at h
    · next d₂ hnew =>
      rw [Disk.createNew_healed hnew (by simp)]
      simp only
      split at h
      · next d₃ hw =>
        cases h
        rw [Disk.writeAll_healed hw]
      · cases h
    · next d₂ hnew =>
      cases h
      rw [Disk.createNew_healed hnew (by simp)]
    · cases h

theorem append_healed {r : EventRecord} (h : w.append r d = (.ok (), w', d')) :
    w.append r d.healed = (.ok (), w', d'.healed) := by
  rw [append] at h ⊢
  split at h
  · cases h
  · next e₁ d₁ h₁ =>
    rw [BufWriter.writeAll_healed h₁]
    simp only
    split at h
    · cases h
    · next e₂ d₂ h₂ =>
      rw [BufWriter.writeAll_healed h₂]
      simp only
      split at h
      · cases h
      · next e₃ d₃ h₃ =>
        cases h
        rw [BufWriter.flush_healed h₃]

variable {X} in
theorem record_healed {dir : Direction} {f : Frame} {now : U128} {s : Str} (h : w.record X dir f now d = (.ok s, w', d')) :
    w.record X dir f now d.healed = (.ok s, w', d'.healed) := by
  rw [record] at h ⊢
  split at h
  · cases h
  · next d₁ h₁ =>
    rw [casWrite_healed h₁]
    simp only
    split at h
    · cases h
    · next w₂ d₂ h₂ =>
      cases h
      rw [append_healed h₂]

theorem createWithClock_healed {root : Str} {m : Manifest} (h : createWithClock root m d = (.ok w, d')) :
    createWithClock root m d.healed = (.ok w, d'.healed) := by
  rw [createWithClock] at h ⊢
  split at h
  · cases h
  · next d₁ h₁ =>
    rw [Disk.createDirAll_healed h₁]
    simp only at h ⊢
    split at h
    · cases h
    · next d₂ h₂ =>
      rw [Disk.createDirAll_healed h₂]
      simp only at h ⊢
      split at h
      · cases h
      · next d₃ h₃ =>
        rw [Disk.write_healed h₃]
        simp only at h ⊢
        split at h
        · cases h
        · next d₄ h₄ =>
          cases h
          rw [Disk.openTruncate_healed h₄]

end TraceWriter

end AcpCore.Trace
