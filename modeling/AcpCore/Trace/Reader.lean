import AcpCore.Trace.Recording

/-!
# Reading a trace

`TraceReader.open` reads the manifest and the event log; `TraceReader.loadBlob`
reads the bytes of a frame and checks that they have the hash its event says.

## The model

Reading leaves the disk as it is, and a file that cannot be read is one of the disk's
faults. A string is split at a byte position; off a
character boundary that panics, which is an outcome of its own (`Abort`).

## What is proved

* `loadBlob_of_finds` — what `load_blob` does with the bytes it reads;
* `loadBlob_eq_ok_iff` — of an event whose hash is a digest's, exactly the blob
  stored under the digest is loaded, if it parses to a frame of that digest;
* `readEvents_lines` — the log's lines are read back as its records;
* `open_recorded` — a trace is opened with the manifest and the records written.
-/

namespace AcpCore.Trace

open AcpCore.Text AcpCore.Wire

/-- How a call ends that does not return `Ok`. -/
inductive Abort (ε : Type) where
  /-- It returns an error. -/
  | error (e : ε)
  /-- It panics. -/
  | panic
  deriving DecidableEq

/-- `str::split_at`: `none` off a character boundary. -/
def splitAtByte : ℕ → Str → Option (Str × Str)
  | 0, s => some ([], s)
  | _ + 1, [] => none
  | n + 1, c :: s =>
    if c.utf8Size ≤ n + 1 then (splitAtByte (n + 1 - c.utf8Size) s).map fun p => (c :: p.1, p.2) else none

/-- `TraceReader`. -/
structure TraceReader where
  /-- The trace directory. -/
  root : Str
  /-- The manifest. -/
  manifest : Manifest
  /-- The event log. -/
  events : List EventRecord

variable (X : Crates)

/-- The line loop of `open`. -/
def readEvents : List Bytes → Except TraceError (List EventRecord)
  | [] => .ok []
  | bytes :: rest =>
    match utf8Decode bytes with
    | none => .error .io
    | some line =>
      let trimmed := EventRecord.trimEnd line
      if trimmed = [] then readEvents rest
      else
        match EventRecord.fromStr X trimmed with
        | none => .error .json
        | some rec =>
          match readEvents rest with
          | .error e => .error e
          | .ok recs => .ok (rec :: recs)

/-- `TraceReader::open`. -/
def TraceReader.open (root : Str) (d : Disk) : Except TraceError TraceReader :=
  let manifestPath := join root manifestFile
  if d.isFile manifestPath = false then .error (.missing root manifestFile)
  else
    match d.read manifestPath with
    | .error _ => .error .io
    | .ok bytes =>
      match Manifest.fromSlice X bytes with
      | none => .error .json
      | some manifest =>
        if manifest.formatVersion ≠ formatVersion then .error (.version manifest.formatVersion formatVersion)
        else
          let eventsPath := join root eventsFile
          if d.isFile eventsPath = false then .error (.missing root eventsFile)
          else
            match d.read eventsPath with
            | .error _ => .error .io
            | .ok bytes =>
              match readEvents X (Lines.splitLines 0x0A bytes) with
              | .error e => .error e
              | .ok events => .ok { root, manifest, events }

/-- `TraceReader::load_blob`. -/
def TraceReader.loadBlob (r : TraceReader) (d : Disk) (rec : EventRecord) : Except (Abort TraceError) Bytes :=
  if blake3Prefix.isPrefixOf rec.hash = false then .error (.error (.danglingBlob rec.hash))
  else
    let hex := rec.hash.drop blake3Prefix.length
    if (utf8 hex).length < 2 then .error (.error (.danglingBlob rec.hash))
    else
      match splitAtByte 2 hex with
      | none => .error .panic
      | some (subdir, fileName) =>
        let path := join (join (join r.root blobsDir) subdir) fileName
        if d.isFile path = false then .error (.error (.danglingBlob rec.hash))
        else
          match d.read path with
          | .error _ => .error (.error .io)
          | .ok bytes =>
            match Frame.parse X bytes with
            | .error e => .error (.error (.wire e))
            | .ok frame =>
              let got := blake3Prefix ++ formatBlake3Hex (frame.payloadHash X).1
              if got ≠ rec.hash then .error (.error (.hashMismatch rec.hash got)) else .ok bytes

/-! ### Cutting a string -/

theorem length_utf8_eq_zero {a : Str} : (utf8 a).length = 0 ↔ a = [] := by
  rw [List.length_eq_zero_iff, ← utf8_nil, utf8_injective.eq_iff]

/-- Cutting after `n` bytes. -/
theorem splitAtByte_eq_some_iff {n : ℕ} {s a b : Str} :
    splitAtByte n s = some (a, b) ↔ s = a ++ b ∧ (utf8 a).length = n := by
  induction s generalizing n a with
  | nil =>
    cases n with
    | zero =>
      rw [splitAtByte, length_utf8_eq_zero, Option.some.injEq, Prod.mk.injEq]
      constructor
      · rintro ⟨rfl, rfl⟩
        exact ⟨rfl, rfl⟩
      · rintro ⟨h, rfl⟩
        exact ⟨rfl, h⟩
    | succ n =>
      unfold splitAtByte
      refine ⟨fun h => (by cases h), ?_⟩
      rintro ⟨hnil, hlen⟩
      rw [(List.append_eq_nil_iff.mp hnil.symm).1] at hlen
      cases hlen
  | cons c s ih =>
    cases n with
    | zero =>
      rw [splitAtByte, length_utf8_eq_zero, Option.some.injEq, Prod.mk.injEq]
      constructor
      · rintro ⟨rfl, rfl⟩
        exact ⟨rfl, rfl⟩
      · rintro ⟨h, rfl⟩
        exact ⟨rfl, h⟩
    | succ n =>
      have hpos := c.utf8Size_pos
      have hlen : ∀ a : Str, (utf8 (c :: a)).length = c.utf8Size + (utf8 a).length := fun a => by
        rw [utf8_cons, List.length_append, String.length_utf8EncodeChar]
      unfold splitAtByte
      constructor
      · intro h
        split_ifs at h with hsize
        obtain ⟨⟨a', b'⟩, hsplit, hab⟩ := Option.map_eq_some_iff.mp h
        cases hab
        obtain ⟨rfl, ha⟩ : s = a' ++ b' ∧ (utf8 a').length = n + 1 - c.utf8Size := ih.mp hsplit
        refine ⟨rfl, (hlen a').trans ?_⟩
        omega
      · rintro ⟨hs, ha⟩
        cases a with
        | nil => cases ha
        | cons c' a =>
          rw [List.cons_append, List.cons.injEq] at hs
          obtain ⟨rfl, hs⟩ := hs
          rw [hlen] at ha
          rw [if_pos (by omega), ih.mpr ⟨hs, (by omega : (utf8 a).length = n + 1 - c.utf8Size)⟩, Option.map_some]

/-! ### Loading -/

theorem utf8Size_hexOfByte : ∀ b : Fin 256, (hexOfByte (UInt8.ofFin b)).map Char.utf8Size = [1, 1] := by
  decide +kernel

/-- The digits of a hash split after the first two. -/
theorem splitAtByte_hex (h : Digest) :
    splitAtByte 2 (formatBlake3Hex h.1) = some ((formatBlake3Hex h.1).take 2, (formatBlake3Hex h.1).drop 2) := by
  obtain ⟨_ | ⟨b, bs⟩, hlen⟩ := h
  · cases hlen
  · have hb := utf8Size_hexOfByte b.toFin
    rw [UInt8.ofFin_toFin] at hb
    obtain ⟨c₁, c₂, hc⟩ : ∃ c₁ c₂, hexOfByte b = [c₁, c₂] := ⟨_, _, rfl⟩
    rw [hc, List.map_cons, List.map_cons, List.map_nil, List.cons.injEq, List.cons.injEq] at hb
    simp only [formatBlake3Hex, List.flatMap_cons, hc, List.cons_append, List.nil_append]
    rw [splitAtByte, if_pos (by omega), hb.1, splitAtByte, if_pos (by omega), hb.2.1, splitAtByte]
    rfl

theorem two_le_length_hex (h : Digest) : ¬ (utf8 (formatBlake3Hex h.1)).length < 2 := by
  have hlen : ∀ s : Str, s.length ≤ (utf8 s).length := by
    intro s
    induction s with
    | nil => exact le_rfl
    | cons c s ih =>
      rw [utf8_cons, List.length_append, List.length_cons, String.length_utf8EncodeChar]
      have := c.utf8Size_pos
      omega
  have := hlen (formatBlake3Hex h.1)
  rw [length_formatBlake3Hex, h.2] at this
  omega

/-- The bytes `load_blob` reads for an event. -/
def TraceReader.Finds (r : TraceReader) (d : Disk) (rec : EventRecord) (b : Bytes) : Prop :=
  ∃ subdir fileName, rec.hash = blake3Prefix ++ (subdir ++ fileName) ∧ (utf8 subdir).length = 2 ∧
    d.isFile (join (join (join r.root blobsDir) subdir) fileName) = true ∧
    d.read (join (join (join r.root blobsDir) subdir) fileName) = .ok b

/-- What is done with the bytes read: the event's hash is compared with that of the frame they are parsed to. -/
theorem loadBlob_of_finds {r : TraceReader} {d : Disk} {rec : EventRecord} {b : Bytes} (h : r.Finds d rec b) :
    r.loadBlob X d rec =
      match Frame.parse X b with
      | .error e => .error (.error (.wire e))
      | .ok f =>
        if rec.hash = f.payloadHashStr X then .ok b
        else .error (.error (.hashMismatch rec.hash (f.payloadHashStr X))) := by
  obtain ⟨subdir, fileName, hhash, hsubdir, hfile, hread⟩ := h
  have hpre : blake3Prefix.isPrefixOf rec.hash = true :=
    List.isPrefixOf_iff_prefix.mpr (hhash ▸ List.prefix_append _ _)
  have hdrop : rec.hash.drop blake3Prefix.length = subdir ++ fileName := by rw [hhash, List.drop_left]
  have hlen : ¬ (utf8 (subdir ++ fileName)).length < 2 := by
    rw [utf8_append, List.length_append, hsubdir]
    omega
  rw [TraceReader.loadBlob, if_neg (by simp [hpre])]
  simp only [hdrop]
  rw [if_neg hlen, splitAtByte_eq_some_iff.mpr ⟨rfl, hsubdir⟩]
  simp only [hfile, hread, ← Frame.payloadHashStr_eq]
  cases Frame.parse X b with
  | error e => simp
  | ok f =>
    by_cases heq : rec.hash = f.payloadHashStr X
    · simp [heq]
    · simp [heq, Ne.symm heq]

/-- A blob that is stored is found by its hash. -/
theorem finds_of_blobStore {r : TraceReader} {d : Disk} (hd : d.faults = .none) {rec : EventRecord} {h : Digest}
    (hrec : rec.hash = blake3Prefix ++ formatBlake3Hex h.1) {b : Bytes} (hb : blobStore r.root d h = some b) :
    r.Finds d rec b := by
  obtain ⟨hparts, hlen⟩ := splitAtByte_eq_some_iff.mp (splitAtByte_hex h)
  refine ⟨_, _, hrec.trans (congrArg _ hparts), hlen, ?_, ?_⟩
  · show (blobStore r.root d h).isSome = true
    rw [hb, Option.isSome_some]
  · exact Disk.read_noFaults hd hb

/-- Of an event whose hash is a digest's, the blob stored under the digest is loaded, if
it parses to a frame of that digest. -/
theorem loadBlob_eq_ok_iff {r : TraceReader} {d : Disk} (hd : d.faults = .none) {rec : EventRecord} {h : Digest}
    (hrec : rec.hash = blake3Prefix ++ formatBlake3Hex h.1) {b : Bytes} :
    r.loadBlob X d rec = .ok b ↔
      blobStore r.root d h = some b ∧ ∃ f, Frame.parse X b = .ok f ∧ f.payloadHash X = h := by
  cases hb : blobStore r.root d h with
  | none =>
    have hpre : blake3Prefix.isPrefixOf rec.hash = true :=
      List.isPrefixOf_iff_prefix.mpr (hrec ▸ List.prefix_append _ _)
    have hdrop : rec.hash.drop blake3Prefix.length = formatBlake3Hex h.1 := by rw [hrec, List.drop_left]
    have hfile : d.isFile (blobPath (join r.root blobsDir) (formatBlake3Hex h.1)) = false := by
      rw [Disk.isFile, ← blobStore, hb, Option.isSome_none]
    rw [TraceReader.loadBlob, if_neg (by simp [hpre])]
    simp only [hdrop]
    rw [if_neg (two_le_length_hex h), splitAtByte_hex]
    simp only
    rw [← blobPath, if_pos hfile]
    simp
  | some bytes =>
    rw [loadBlob_of_finds X (finds_of_blobStore hd hrec hb)]
    cases hf : Frame.parse X bytes with
    | error e =>
      constructor
      · intro heq
        cases heq
      · rintro ⟨heq, f, hf', -⟩
        cases heq
        rw [hf] at hf'
        cases hf'
    | ok f =>
      have hiff : rec.hash = f.payloadHashStr X ↔ f.payloadHash X = h := by
        rw [hrec, f.payloadHashStr_eq, List.append_cancel_left_eq, formatBlake3Hex_injective.eq_iff, ← Subtype.ext_iff,
          eq_comm]
      simp only
      constructor
      · intro heq
        split_ifs at heq with hhash
        cases heq
        exact ⟨rfl, f, hf, hiff.mp hhash⟩
      · rintro ⟨heq, f', hf', hh⟩
        cases heq
        rw [hf] at hf'
        cases hf'
        rw [if_pos (hiff.mpr hh)]

/-! ### Opening -/

variable {X}

/-- What is in the log before the last lines is read first. -/
theorem readEvents_lines (hX : X.ReadsText) (recs : List EventRecord) (rest : List Bytes) :
    readEvents X (((recs.map fun r => utf8 r.text).map fun l => l ++ [0x0A]) ++ rest)
      = match readEvents X rest with
        | .error e => .error e
        | .ok more => .ok (recs ++ more) := by
  induction recs with
  | nil =>
    show readEvents X rest = _
    cases readEvents X rest <;> rfl
  | cons r recs ih =>
    have hline : utf8Decode (utf8 r.text ++ [0x0A]) = some (r.text ++ ['\n']) := by
      rw [← utf8Decode_utf8, utf8_append]
      rfl
    have hne : r.text ≠ [] := by
      rw [EventRecord.text_eq]
      exact List.cons_ne_nil _ _
    rw [List.map_cons, List.map_cons, List.cons_append, readEvents, hline]
    simp only [EventRecord.trimEnd_line, if_neg hne, EventRecord.fromStr_text hX, ih]
    cases readEvents X rest <;> rfl

theorem newline_notMem_bytes (r : EventRecord) : 0x0A ∉ utf8 r.text := Json.newline_notMem_render _

theorem splitLines_logBytes_append (recs : List EventRecord) (s : Bytes) :
    Lines.splitLines 0x0A (logBytes recs ++ s)
      = ((recs.map fun r => utf8 r.text).map fun l => l ++ [0x0A]) ++ Lines.splitLines 0x0A s := by
  refine Lines.splitLines_joinLines_append 0x0A (fun l hl => ?_) s
  obtain ⟨r, -, rfl⟩ := List.mem_map.mp hl
  exact newline_notMem_bytes r

theorem readEvents_logBytes (hX : X.ReadsText) (recs : List EventRecord) :
    readEvents X (Lines.splitLines 0x0A (logBytes recs)) = .ok recs := by
  have h := splitLines_logBytes_append recs []
  rw [List.append_nil] at h
  rw [h, readEvents_lines hX]
  simp [Lines.splitLines, readEvents]

/-- Once the manifest is there and of the right version, opening is reading the log. -/
theorem open_of_manifest (hX : X.ReadsText) {root : Str} {d : Disk} (hd : d.faults = .none) {m : Manifest} {log : Bytes}
    (hm : d.files (join root manifestFile) = some m.toVecPretty) (hv : m.formatVersion = formatVersion)
    (hlog : d.files (join root eventsFile) = some log) :
    TraceReader.open X root d = match readEvents X (Lines.splitLines 0x0A log) with
      | .error e => .error e
      | .ok events => .ok { root, manifest := m, events } := by
  have hme : d.isFile (join root manifestFile) = true := by rw [Disk.isFile, hm]; rfl
  have hle : d.isFile (join root eventsFile) = true := by rw [Disk.isFile, hlog]; rfl
  rw [TraceReader.open]
  simp only [hme, hle, Bool.true_eq_false, if_false, Disk.read_noFaults hd hm, Disk.read_noFaults hd hlog,
    Manifest.fromSlice_toVecPretty hX, hv, ne_eq, not_true_eq_false]

/-- **A trace is opened with what was written**: its manifest and its records. -/
theorem open_recorded (hX : X.ReadsText) {root : Str} {d : Disk} (hd : d.faults = .none) {m : Manifest}
    {recs : List EventRecord} (hm : d.files (join root manifestFile) = some m.toVecPretty)
    (hv : m.formatVersion = formatVersion) (hlog : d.files (join root eventsFile) = some (logBytes recs)) :
    TraceReader.open X root d = .ok { root, manifest := m, events := recs } := by
  rw [open_of_manifest hX hd hm hv hlog, readEvents_logBytes hX]

/-- Any records are those of a trace that is opened. -/
theorem exists_open (hX : X.ReadsText) (root : Str) (recs : List EventRecord) :
    ∃ d r, TraceReader.open X root d = .ok r ∧ r.events = recs := by
  let m := Manifest.newWithClock ['1'] [] ['0']
  let d := (Disk.set ⟨fun _ => none, .none⟩ (join root manifestFile) m.toVecPretty).set (join root eventsFile) (logBytes recs)
  have hm : d.files (join root manifestFile) = some m.toVecPretty := by
    rw [Disk.set_files, Function.update_of_ne (eventsPath_ne_manifestPath root).symm, Disk.set_files, Function.update_self]
  have hlog : d.files (join root eventsFile) = some (logBytes recs) := by rw [Disk.set_files, Function.update_self]
  exact ⟨d, _, open_recorded hX rfl hm rfl hlog, rfl⟩

end AcpCore.Trace
