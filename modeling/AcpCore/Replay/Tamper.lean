import AcpCore.Replay.Strict
import AcpCore.Trace.Decode

/-!
# Tampering

What offline replay makes of a finalized trace whose log or blobs have been altered,
the manifest left as it is.

## The model

The altered trace is any disk with the same manifest. Its log reads as records or not
(`Logged`); each record of an agent's frame names a blob that is a frame of its hash or
not (`Loadable`). A hash cut inside a character makes loading panic (`CutInside`).

## What is proved

* `loadBlob_isOk_iff`, `loadBlob_panic_iff` — what loading does of a record with any hash;
* `replayOffline_ok`, `replayOffline_error`, `replayOffline_output` — what offline replay
  writes of any trace, and how it ends;
* `replayOffline_faithful_iff` — when it fails or writes what it writes of another trace;
* **`tampering_detected_iff`** — an alteration is detected, or changes nothing that is
  replayed, exactly when the log does not read as records, a record cannot be loaded, or
  the agent's hashes and their blobs are as they were.
-/

namespace AcpCore.Replay

open AcpCore.Text AcpCore.Wire AcpCore.Trace

variable (X : Crates)

/-- The lines of a log that are not blank are, in order, these records. -/
def Logged (log : Bytes) (recs : List EventRecord) : Prop :=
  ∃ lines : List Str, Lines.splitLines 0x0A log = lines.map utf8 ∧
    List.Forall₂ (fun line rec => EventRecord.fromStr X line = some rec)
      ((lines.map EventRecord.trimEnd).filter (· ≠ [])) recs

/-- A record's blob is there and is a frame of its hash. -/
def Loadable (root : Str) (d : Disk) (rec : EventRecord) : Prop :=
  ∃ h b, rec.hash = blake3Prefix ++ formatBlake3Hex h.1 ∧ blobStore root d h = some b ∧ FrameOf X h b

/-- A hash whose digits cannot be cut after two bytes. -/
def CutInside (hash : Str) : Prop :=
  ∃ s, hash = blake3Prefix ++ s ∧ 2 ≤ (utf8 s).length ∧ ∀ a b, s = a ++ b → (utf8 a).length ≠ 2

/-- The first record that cannot be loaded can be cut. -/
def Stops (root : Str) (d : Disk) (recs : List EventRecord) : Prop :=
  ∃ pre rec post, recs = pre ++ rec :: post ∧ (∀ e ∈ pre, Loadable X root d e) ∧ ¬ Loadable X root d rec ∧
    ¬ CutInside rec.hash

/-- The same hashes in order, each with the blob it had; no more of them than could be loaded, and no less. -/
def Unaltered (root : Str) (d d' : Disk) : List EventRecord → List EventRecord → Prop
  | [], [] => True
  | [], _ :: _ => False
  | rec :: _, [] => ¬ Loadable X root d rec
  | rec :: recs, rec' :: recs' =>
    rec'.hash = rec.hash ∧
      (∀ h : Digest, rec.hash = blake3Prefix ++ formatBlake3Hex h.1 → blobStore root d' h = blobStore root d h) ∧
      Unaltered root d d' recs recs'

variable {X}

/-! ### Reading the log -/

/-- Texts that are encoded one by one, from the first on. -/
theorem exists_map_utf8_cons {line : Str} {lines : List Bytes} {P : List Str → Prop} :
    (∃ ls : List Str, utf8 line :: lines = ls.map utf8 ∧ P ls) ↔ ∃ ls : List Str, lines = ls.map utf8 ∧ P (line :: ls) := by
  constructor
  · rintro ⟨_ | ⟨l, ls⟩, hls, hP⟩
    · cases hls
    · rw [List.map_cons, List.cons.injEq] at hls
      obtain rfl : line = l := utf8_injective hls.1
      exact ⟨ls, hls.2, hP⟩
  · rintro ⟨ls, rfl, hP⟩
    exact ⟨line :: ls, rfl, hP⟩

/-- Reading a log returns its records. -/
theorem readEvents_eq_ok_iff {lines : List Bytes} {recs : List EventRecord} :
    readEvents X lines = .ok recs ↔ ∃ ls : List Str, lines = ls.map utf8 ∧
      List.Forall₂ (fun line rec => EventRecord.fromStr X line = some rec)
        ((ls.map EventRecord.trimEnd).filter (· ≠ [])) recs := by
  induction lines generalizing recs with
  | nil =>
    constructor
    · intro h
      cases h
      exact ⟨[], rfl, .nil⟩
    · rintro ⟨ls, hls, hrecs⟩
      rw [eq_comm, List.map_eq_nil_iff] at hls
      subst hls
      cases hrecs
      rfl
  | cons bytes lines ih =>
    unfold readEvents
    cases hdecode : utf8Decode bytes with
    | none =>
      refine ⟨fun h => (by cases h), ?_⟩
      rintro ⟨ls, hls, -⟩
      obtain _ | ⟨l, ls⟩ := ls
      · cases hls
      · rw [List.map_cons, List.cons.injEq] at hls
        rw [hls.1, utf8Decode_utf8] at hdecode
        cases hdecode
    | some line =>
      have hbytes := utf8_of_utf8Decode hdecode
      rw [← hbytes, exists_map_utf8_cons]
      simp only [List.map_cons]
      by_cases hblank : EventRecord.trimEnd line = []
      · rw [if_pos hblank, ih]
        simp only [List.filter_cons_of_neg (p := fun l : Str => decide (l ≠ [])) (by simpa using hblank)]
      · rw [if_neg hblank]
        simp only [List.filter_cons_of_pos (p := fun l : Str => decide (l ≠ [])) (by simpa using hblank)]
        cases hrec : EventRecord.fromStr X (EventRecord.trimEnd line) with
        | none =>
          refine ⟨fun h => (by cases h), ?_⟩
          rintro ⟨ls, -, hrecs⟩
          cases hrecs with
          | cons h => rw [hrec] at h; cases h
        | some rec =>
          simp only
          constructor
          · intro h
            cases hrest : readEvents X lines with
            | error e => rw [hrest] at h; cases h
            | ok more =>
              rw [hrest] at h
              cases h
              obtain ⟨ls, hls, hrecs⟩ := ih.mp hrest
              exact ⟨ls, hls, .cons hrec hrecs⟩
          · rintro ⟨ls, hls, hrecs⟩
            cases hrecs with
            | cons hfirst hrecs =>
              rw [hrec] at hfirst
              cases hfirst
              rw [ih.mpr ⟨ls, hls, hrecs⟩]

theorem readEvents_splitLines {log : Bytes} {recs : List EventRecord} :
    readEvents X (Lines.splitLines 0x0A log) = .ok recs ↔ Logged X log recs := readEvents_eq_ok_iff

/-! ### Loading -/

/-- **A record can be loaded exactly when it is loadable.** -/
theorem loadBlob_isOk_iff {r : TraceReader} {d : Disk} (hd : d.faults = .none) {rec : EventRecord} :
    (∃ b, r.loadBlob X d rec = .ok b) ↔ Loadable X r.root d rec := by
  constructor
  · rintro ⟨b, h⟩
    obtain ⟨f, -, hrec⟩ := frame_of_loadBlob X h
    rw [f.payloadHashStr_eq] at hrec
    obtain ⟨hb, hframe⟩ := (loadBlob_eq_ok_iff X hd hrec).mp h
    exact ⟨f.payloadHash X, b, hrec, hb, hframe⟩
  · rintro ⟨h, b, hrec, hb, hframe⟩
    exact ⟨b, (loadBlob_eq_ok_iff X hd hrec).mpr ⟨hb, hframe⟩⟩

/-- **Loading panics exactly when the hash is cut inside a character.** -/
theorem loadBlob_panic_iff {r : TraceReader} {d : Disk} {rec : EventRecord} :
    r.loadBlob X d rec = .error .panic ↔ CutInside rec.hash := by
  unfold TraceReader.loadBlob
  by_cases hpre : blake3Prefix.isPrefixOf rec.hash = false
  · rw [if_pos hpre]
    refine ⟨fun h => (by cases h), ?_⟩
    rintro ⟨s, hs, -⟩
    rw [hs, ← Bool.not_eq_true, List.isPrefixOf_iff_prefix] at hpre
    exact absurd (List.prefix_append _ _) hpre
  obtain ⟨s, hs⟩ := List.isPrefixOf_iff_prefix.mp (Bool.eq_true_of_not_eq_false hpre)
  have hdrop : rec.hash.drop blake3Prefix.length = s := by rw [← hs, List.drop_left]
  have hcut : CutInside rec.hash ↔ 2 ≤ (utf8 s).length ∧ splitAtByte 2 s = none := by
    rw [CutInside, ← hs]
    constructor
    · rintro ⟨s', hs', hlen, hnone⟩
      obtain rfl := List.append_cancel_left hs'
      refine ⟨hlen, Option.eq_none_iff_forall_ne_some.mpr ?_⟩
      rintro ⟨a, b⟩ hab
      obtain ⟨hab, ha⟩ := splitAtByte_eq_some_iff.mp hab
      exact hnone a b hab ha
    · rintro ⟨hlen, hnone⟩
      refine ⟨s, rfl, hlen, fun a b hab ha => ?_⟩
      rw [splitAtByte_eq_some_iff.mpr ⟨hab, ha⟩] at hnone
      cases hnone
  rw [if_neg hpre, hdrop, hcut]
  simp only
  by_cases hlen : (utf8 s).length < 2
  · rw [if_pos hlen]
    exact ⟨fun h => (by cases h), fun h => absurd h.1 (Nat.not_le_of_lt hlen)⟩
  rw [if_neg hlen]
  cases hsplit : splitAtByte 2 s with
  | none => exact ⟨fun _ => ⟨Nat.le_of_not_lt hlen, rfl⟩, fun _ => rfl⟩
  | some p =>
    refine ⟨fun h => ?_, fun h => (by cases h.2)⟩
    simp only at h
    split_ifs at h
    · cases h
    split at h
    · cases h
    split at h
    · cases h
    split_ifs at h
    cases h

/-! ### Replaying -/

/-- The blobs of the records up to the first that cannot be loaded. -/
def loaded (X : Crates) (trace : TraceReader) (d : Disk) : List EventRecord → List Bytes
  | [] => []
  | rec :: recs =>
    match trace.loadBlob X d rec with
    | .error _ => []
    | .ok b => b :: loaded X trace d recs

variable {trace : TraceReader} {d : Disk}

/-- Offline replay sees the agent's frames only. -/
theorem offlineLoop_a2cEvents (events : List EventRecord) (n : ℕ) (out : Bytes) :
    offlineLoop X trace d events n out = offlineLoop X trace d (a2cEvents events) n out := by
  induction events generalizing n out with
  | nil => rfl
  | cons rec events ih =>
    cases hdir : rec.dir with
    | a2c =>
      have ha : a2cEvents (rec :: events) = rec :: a2cEvents events := List.filter_cons_of_pos (by simp [hdir])
      rw [ha, offlineLoop, offlineLoop, if_neg (not_not.mpr hdir), if_neg (not_not.mpr hdir)]
      simp only [ih]
    | c2a =>
      have ha : a2cEvents (rec :: events) = a2cEvents events := List.filter_cons_of_neg (by simp [hdir])
      rw [ha, offlineLoop, if_pos (by rw [hdir]; decide), ih]

/-- Agent's frames that can be loaded are written, and the loop goes on. -/
theorem offlineLoop_append {pre : List EventRecord} (hdir : ∀ rec ∈ pre, rec.dir = .a2c)
    (hload : ∀ rec ∈ pre, ∃ b, trace.loadBlob X d rec = .ok b) (recs : List EventRecord) (n : ℕ) (out : Bytes) :
    offlineLoop X trace d (pre ++ recs) n out
      = offlineLoop X trace d recs (n + pre.length) (out ++ Lines.joinLines 0x0A (loaded X trace d pre)) := by
  induction pre generalizing n out with
  | nil => rw [loaded, Lines.joinLines_nil, List.append_nil]; rfl
  | cons rec pre ih =>
    obtain ⟨b, hb⟩ := hload rec List.mem_cons_self
    have ih := ih (fun r hr => hdir r (List.mem_cons_of_mem rec hr)) fun r hr => hload r (List.mem_cons_of_mem rec hr)
    rw [List.cons_append, offlineLoop, if_neg (not_not.mpr (hdir rec List.mem_cons_self)), loaded, hb]
    simp only [writeLine_of_notMem (newline_notMem_of_loadBlob X hb)]
    rw [ih, List.length_cons, Lines.joinLines_cons, Nat.add_assoc, Nat.add_comm 1]
    simp only [List.append_assoc, List.singleton_append]

/-- Either all records can be loaded, or there is a first that cannot. -/
theorem loadable_or_first (trace : TraceReader) (d : Disk) (recs : List EventRecord) :
    (∀ rec ∈ recs, ∃ b, trace.loadBlob X d rec = .ok b) ∨ ∃ pre rec post a, recs = pre ++ rec :: post ∧
      (∀ e ∈ pre, ∃ b, trace.loadBlob X d e = .ok b) ∧ trace.loadBlob X d rec = .error a := by
  induction recs with
  | nil => exact .inl fun _ h => (by cases h)
  | cons rec recs ih =>
    cases hload : trace.loadBlob X d rec with
    | error a => exact .inr ⟨[], rec, recs, a, rfl, fun _ h => (by cases h), hload⟩
    | ok b =>
      rcases ih with hall | ⟨pre, rec', post, a, rfl, hpre, herror⟩
      · exact .inl (List.forall_mem_cons.mpr ⟨⟨b, hload⟩, hall⟩)
      · exact .inr ⟨rec :: pre, rec', post, a, rfl, List.forall_mem_cons.mpr ⟨⟨b, hload⟩, hpre⟩, herror⟩

theorem loaded_append {pre : List EventRecord} (hload : ∀ rec ∈ pre, ∃ b, trace.loadBlob X d rec = .ok b)
    (recs : List EventRecord) : loaded X trace d (pre ++ recs) = loaded X trace d pre ++ loaded X trace d recs := by
  induction pre with
  | nil => rfl
  | cons rec pre ih =>
    obtain ⟨b, hb⟩ := hload rec List.mem_cons_self
    rw [List.cons_append, loaded, loaded, hb]
    exact congrArg (b :: ·) (ih fun r hr => hload r (List.mem_cons_of_mem rec hr))

theorem dir_of_mem_a2cEvents {events : List EventRecord} {rec : EventRecord} (h : rec ∈ a2cEvents events) :
    rec.dir = .a2c := by simpa using (List.mem_filter.mp h).2

/-- Where all agent's frames can be loaded, offline replay writes them. -/
theorem replayOffline_ok (hload : ∀ rec ∈ a2cEvents trace.events, ∃ b, trace.loadBlob X d rec = .ok b) :
    replayOffline X trace d = (.ok (a2cEvents trace.events).length,
      Lines.joinLines 0x0A (loaded X trace d (a2cEvents trace.events))) := by
  have happend := offlineLoop_append (fun _ => dir_of_mem_a2cEvents) hload [] 0 []
  rw [List.append_nil] at happend
  rw [replayOffline, offlineLoop_a2cEvents, happend, offlineLoop, Nat.zero_add, List.nil_append]

/-- Where one cannot, offline replay writes those before it. -/
theorem replayOffline_error {pre post : List EventRecord} {rec : EventRecord} {a : Abort TraceError}
    (hevents : a2cEvents trace.events = pre ++ rec :: post) (hpre : ∀ e ∈ pre, ∃ b, trace.loadBlob X d e = .ok b)
    (hrec : trace.loadBlob X d rec = .error a) :
    replayOffline X trace d = (.error (ofTrace a), Lines.joinLines 0x0A (loaded X trace d (a2cEvents trace.events))) := by
  have hdir : ∀ e ∈ pre ++ rec :: post, e.dir = .a2c := fun e he => dir_of_mem_a2cEvents (hevents ▸ he)
  rw [replayOffline, offlineLoop_a2cEvents, hevents,
    offlineLoop_append (fun e he => hdir e (List.mem_append_left _ he)) hpre, offlineLoop,
    if_neg (not_not.mpr (hdir rec (List.mem_append_right _ List.mem_cons_self))), hrec, loaded_append hpre, loaded, hrec,
    List.append_nil, List.nil_append]

/-- What offline replay writes. -/
theorem replayOffline_output (trace : TraceReader) (d : Disk) :
    (replayOffline X trace d).2 = Lines.joinLines 0x0A (loaded X trace d (a2cEvents trace.events)) := by
  rcases loadable_or_first (X := X) trace d (a2cEvents trace.events) with hall | ⟨pre, rec, post, a, hevents, hpre, hrec⟩
  · rw [replayOffline_ok hall]
  · rw [replayOffline_error hevents hpre hrec]

theorem newline_notMem_loaded (trace : TraceReader) (d : Disk) (recs : List EventRecord) :
    ∀ b ∈ loaded X trace d recs, 0x0A ∉ b := by
  induction recs with
  | nil => exact fun _ h => (by cases h)
  | cons rec recs ih =>
    unfold loaded
    split
    · exact fun _ h => (by cases h)
    · next b hb => exact List.forall_mem_cons.mpr ⟨newline_notMem_of_loadBlob X hb, ih⟩

/-! ### Alterations -/

/-- Without a log opening is an error. -/
theorem open_no_log (hX : X.ReadsText) {root : Str} {d : Disk} (hd : d.faults = .none) {m : Manifest}
    (hm : d.files (join root manifestFile) = some m.toVecPretty) (hv : m.formatVersion = formatVersion)
    (hlog : d.files (join root eventsFile) = none) : TraceReader.open X root d = .error (.missing root eventsFile) := by
  have hme : d.isFile (join root manifestFile) = true := by rw [Disk.isFile, hm]; rfl
  have hle : d.isFile (join root eventsFile) = false := by rw [Disk.isFile, hlog]; rfl
  unfold TraceReader.open
  simp only [hme, hle, Bool.true_eq_false, if_false, Disk.read_noFaults hd hm, Manifest.fromSlice_toVecPretty hX, hv, ne_eq,
    not_true_eq_false, if_true]

theorem digest_of_hash {g h : Digest} (heq : blake3Prefix ++ formatBlake3Hex g.1 = blake3Prefix ++ formatBlake3Hex h.1) :
    g = h := Subtype.ext (formatBlake3Hex_injective (List.append_cancel_left heq))

/-- A record and the one in its place load the same if and only if its hash and its blob are as they were. -/
theorem loadBlob_eq_iff {r r' : TraceReader} (hroot : r'.root = r.root) {d d' : Disk} (hd' : d'.faults = .none)
    {rec rec' : EventRecord} {b' : Bytes} (hb' : r'.loadBlob X d' rec' = .ok b') :
    r.loadBlob X d.healed rec = .ok b' ↔ rec'.hash = rec.hash ∧
      ∀ h : Digest, rec.hash = blake3Prefix ++ formatBlake3Hex h.1 → blobStore r.root d' h = blobStore r.root d h := by
  obtain ⟨f', hf', hrec'⟩ := frame_of_loadBlob X hb'
  rw [f'.payloadHashStr_eq] at hrec'
  obtain ⟨hstore', hframe'⟩ := (loadBlob_eq_ok_iff X hd' hrec').mp hb'
  rw [hroot] at hstore'
  constructor
  · intro hb
    obtain ⟨f, hf, hrec⟩ := frame_of_loadBlob X hb
    rw [f.payloadHashStr_eq] at hrec
    rw [hf', Except.ok.injEq] at hf
    subst hf
    obtain ⟨hstore, -⟩ := (loadBlob_eq_ok_iff X (d := d.healed) rfl hrec).mp hb
    refine ⟨hrec'.trans hrec.symm, fun h hh => ?_⟩
    obtain rfl : f'.payloadHash X = h := digest_of_hash (hrec.symm.trans hh)
    rw [hstore']
    exact hstore.symm
  · rintro ⟨hhash, hblob⟩
    have hrec := hhash.symm.trans hrec'
    exact (loadBlob_eq_ok_iff X (d := d.healed) rfl hrec).mpr ⟨(hblob _ hrec).symm.trans hstore', hframe'⟩

/-- **The same is loaded exactly where nothing that is loaded is altered.** -/
theorem loaded_eq_iff {r r' : TraceReader} (hroot : r'.root = r.root) {d d' : Disk} (hd' : d'.faults = .none)
    {recs recs' : List EventRecord} (hload : ∀ rec ∈ recs', ∃ b, r'.loadBlob X d' rec = .ok b) :
    loaded X r' d' recs' = loaded X r d.healed recs ↔ Unaltered X r.root d d' recs recs' := by
  induction recs generalizing recs' with
  | nil =>
    cases recs' with
    | nil => exact ⟨fun _ => trivial, fun _ => rfl⟩
    | cons rec' recs' =>
      obtain ⟨b, hb⟩ := hload rec' List.mem_cons_self
      rw [loaded, loaded, hb]
      exact ⟨fun h => (by cases h), fun h => h.elim⟩
  | cons rec recs ih =>
    cases recs' with
    | nil =>
      have hiff : (∃ b, r.loadBlob X d.healed rec = .ok b) ↔ Loadable X r.root d rec := loadBlob_isOk_iff rfl
      rw [Unaltered, ← hiff, loaded, loaded]
      cases r.loadBlob X d.healed rec with
      | error e => exact ⟨fun _ ⟨b, h⟩ => (by cases h), fun _ => rfl⟩
      | ok b => exact ⟨fun h => (by cases h), fun h => absurd ⟨b, rfl⟩ h⟩
    | cons rec' recs' =>
      obtain ⟨b', hb'⟩ := hload rec' List.mem_cons_self
      have ih := ih fun e he => hload e (List.mem_cons_of_mem rec' he)
      have hiff : r.loadBlob X d.healed rec = .ok b' ↔ _ := loadBlob_eq_iff hroot hd' hb'
      rw [Unaltered, ← and_assoc, ← hiff, ← ih, loaded, hb', loaded]
      cases r.loadBlob X d.healed rec with
      | error e => exact ⟨fun h => (by cases h), fun h => (by cases h.1)⟩
      | ok b =>
        simp only [List.cons.injEq, Except.ok.injEq]
        exact and_congr_left' eq_comm

/-- **A replay is faithful or fails** exactly where the first record that cannot be loaded is found out, or all can
be loaded and are unaltered. -/
theorem replayOffline_faithful_iff {r r' : TraceReader} (hroot : r'.root = r.root) {d d' : Disk} (hd' : d'.faults = .none) :
    ((∃ e, (replayOffline X r' d').1 = .error (.error e)) ∨
        ∃ n, replayOffline X r' d' = (.ok n, (replayOffline X r d.healed).2)) ↔
      Stops X r.root d' (a2cEvents r'.events) ∨ (∀ e ∈ a2cEvents r'.events, Loadable X r.root d' e) ∧
        Unaltered X r.root d d' (a2cEvents r.events) (a2cEvents r'.events) := by
  have hiff : ∀ rec, (∃ b, r'.loadBlob X d' rec = .ok b) ↔ Loadable X r.root d' rec := fun rec =>
    hroot ▸ loadBlob_isOk_iff hd'
  have hcut : ∀ rec, r'.loadBlob X d' rec = .error .panic ↔ CutInside rec.hash := fun _ => loadBlob_panic_iff
  rw [replayOffline_output r d.healed]
  constructor
  · intro hresult
    rcases loadable_or_first (X := X) r' d' (a2cEvents r'.events) with hall | ⟨pre, rec, post, a, heq, hpre, herror⟩
    · rw [replayOffline_ok hall] at hresult
      rcases hresult with ⟨e, he⟩ | ⟨n, hn⟩
      · cases he
      refine .inr ⟨fun e he => (hiff e).mp (hall e he), (loaded_eq_iff hroot hd' hall).mp ?_⟩
      exact Lines.joinLines_injective 0x0A (newline_notMem_loaded r' d' _) (newline_notMem_loaded r d.healed _)
        (Prod.mk.inj hn).2
    · rw [replayOffline_error heq hpre herror] at hresult
      refine .inl ⟨pre, rec, post, heq, fun e he => (hiff e).mp (hpre e he), fun hload => ?_, fun hpanic => ?_⟩
      · obtain ⟨b, hb⟩ := (hiff rec).mpr hload
        rw [herror] at hb
        cases hb
      · rw [← hcut, herror, Except.error.injEq] at hpanic
        rw [hpanic] at hresult
        rcases hresult with ⟨e, he⟩ | ⟨n, hn⟩
        · cases he
        · cases hn
  · rintro (⟨pre, rec, post, heq, hpre, hnot, hpanic⟩ | ⟨hall, hunaltered⟩)
    · rw [← hiff] at hnot
      rw [← hcut] at hpanic
      rcases hload : r'.loadBlob X d' rec with (e | _) | b
      · rw [replayOffline_error heq (fun e he => (hiff e).mpr (hpre e he)) hload]
        exact .inl ⟨_, rfl⟩
      · exact absurd hload hpanic
      · exact absurd ⟨b, hload⟩ hnot
    · have hall' : ∀ rec ∈ a2cEvents r'.events, ∃ b, r'.loadBlob X d' rec = .ok b := fun rec hrec =>
        (hiff rec).mpr (hall rec hrec)
      exact .inr ⟨_, by rw [replayOffline_ok hall', (loaded_eq_iff hroot hd' hall').mpr hunaltered]⟩

/-- **What tampering is detected.** Take any finalized trace and any disk with the same manifest. Opening
the trace and replaying it offline there returns an error, or returns `Ok` and writes exactly what it
writes of the unaltered trace, if and only if the altered log does not read as records, or the first
agent's record that cannot be loaded is found out, or all of them can be loaded and their hashes and
blobs are those of the unaltered trace. -/
theorem tampering_detected_iff (htext : X.ReadsText) {root : Str} {m : Manifest} (hv : m.formatVersion = formatVersion)
    {calls : List Call} {now : Str} {d₀ d : Disk} (hrec : recording X root m calls now d₀ = (.ok (), d)) {d' : Disk}
    (hd' : d'.faults = .none) (hm : d'.files (join root manifestFile) = d.files (join root manifestFile)) :
    ∃ r, TraceReader.open X root d.healed = .ok r ∧
      ((∀ r', TraceReader.open X root d' = .ok r' → (∃ e, (replayOffline X r' d').1 = .error (.error e)) ∨
          ∃ n, replayOffline X r' d' = (.ok n, (replayOffline X r d.healed).2)) ↔
        ∀ log recs, d'.files (join root eventsFile) = some log → Logged X log recs →
          Stops X root d' (a2cEvents recs) ∨ (∀ e ∈ a2cEvents recs, Loadable X root d' e) ∧
            Unaltered X root d d' (a2cEvents r.events) (a2cEvents recs)) := by
  obtain ⟨d₁, hrec', -, hlog, hmanifest, -⟩ := recording_noFaults X (d := d₀.healed) rfl root m calls now
  rw [recording_healed hrec, Prod.mk.injEq] at hrec'
  obtain ⟨-, rfl⟩ := hrec'
  rw [Disk.healed_files] at hlog hmanifest
  obtain ⟨r, hopen, rfl⟩ : ∃ r, TraceReader.open X root d.healed = .ok r ∧ r.root = root :=
    ⟨_, open_recorded htext rfl hmanifest hv hlog, rfl⟩
  refine ⟨r, hopen, ?_⟩
  rcases hlog' : d'.files (join r.root eventsFile) with _ | log
  · -- there is no log
    refine ⟨fun _ log recs h => (by cases h), fun _ r' hopen' => ?_⟩
    rw [open_no_log htext hd' (hm.trans hmanifest) hv hlog'] at hopen'
    cases hopen'
  have hread := open_of_manifest htext hd' (hm.trans hmanifest) hv hlog'
  constructor
  · intro h log' recs hsome hlogged
    cases hsome
    rw [readEvents_splitLines.mpr hlogged] at hread
    obtain ⟨r', hopen', hroot, hevents⟩ : ∃ r', TraceReader.open X r.root d' = .ok r' ∧ r'.root = r.root ∧
      r'.events = recs := ⟨_, hread, rfl, rfl⟩
    rw [← hevents]
    exact (replayOffline_faithful_iff hroot hd').mp (h r' hopen')
  · intro h r' hopen'
    rw [hread] at hopen'
    cases hrecs : readEvents X (Lines.splitLines 0x0A log) with
    | error e =>
      rw [hrecs] at hopen'
      cases hopen'
    | ok recs =>
      rw [hrecs] at hopen'
      obtain ⟨hroot, hevents⟩ : r'.root = r.root ∧ r'.events = recs := by
        cases hopen'
        exact ⟨rfl, rfl⟩
      rw [replayOffline_faithful_iff hroot hd', hevents]
      exact h log recs rfl (readEvents_splitLines.mp hrecs)

/-! ### A trace that loses a line -/

/-- A finalized trace of the request and its response, and its parts. -/
theorem recording_sampleCalls : ∃ d, recording (.plain loggedDigests) ['t'] (.newWithClock ['1'] [] ['0'])
      (sampleCalls.take 2) ['1'] emptyDisk = (.ok (), d) ∧ d.faults = .none ∧
    d.files (join ['t'] manifestFile) = some (finalManifest (.plain loggedDigests) (.newWithClock ['1'] [] ['0'])
      (records (.plain loggedDigests) 0 (sampleCalls.take 2)) ['1']).toVecPretty ∧
    d.files (join ['t'] eventsFile) = some (logBytes (records (.plain loggedDigests) 0 (sampleCalls.take 2))) ∧
    blobStore ['t'] d (sampleResponse.payloadHash (.plain loggedDigests)) = some sampleResponse.raw := by
  obtain ⟨d, hrec, hf, hlog, hm, hblobs⟩ := recording_noFaults (.plain loggedDigests) (d := emptyDisk) rfl ['t']
    (.newWithClock ['1'] [] ['0']) (sampleCalls.take 2) ['1']
  refine ⟨d, hrec, hf, hm, hlog, ?_⟩
  rw [hblobs]
  decide +kernel

/-- A hash that is recorded can be cut. -/
theorem not_cutInside_payloadHashStr (f : Frame) : ¬ CutInside (f.payloadHashStr X) := by
  rintro ⟨s, hs, -, hcut⟩
  rw [f.payloadHashStr_eq] at hs
  obtain rfl := List.append_cancel_left hs
  obtain ⟨hsplit, hlen⟩ := splitAtByte_eq_some_iff.mp (splitAtByte_hex (f.payloadHash X))
  exact hcut _ _ hsplit hlen

/-- The response's blob is overwritten: replay finds it out. -/
theorem tampering_detected_iff_sample :
    ∃ d d' r r', recording (.plain loggedDigests) ['t'] (.newWithClock ['1'] [] ['0']) (sampleCalls.take 2) ['1'] emptyDisk
        = (.ok (), d) ∧ blobStore ['t'] d' (sampleResponse.payloadHash (.plain loggedDigests)) = some [0x30] ∧
      TraceReader.open (.plain loggedDigests) ['t'] d.healed = .ok r ∧
      TraceReader.open (.plain loggedDigests) ['t'] d' = .ok r' ∧
      ((∃ e, (replayOffline (.plain loggedDigests) r' d').1 = .error (.error e)) ∨
        ∃ n, replayOffline (.plain loggedDigests) r' d' = (.ok n, (replayOffline (.plain loggedDigests) r d.healed).2)) := by
  obtain ⟨d, hrec, hf, hm, hlog, -⟩ := recording_sampleCalls
  obtain ⟨d', hf', hblob, hother⟩ : ∃ d' : Disk, d'.faults = .none ∧
      blobStore ['t'] d' (sampleResponse.payloadHash (.plain loggedDigests)) = some [0x30] ∧ ∀ p,
      p ≠ blobPath (join ['t'] blobsDir) (formatBlake3Hex (sampleResponse.payloadHash (.plain loggedDigests)).1) →
        d'.files p = d.files p :=
    ⟨d.set _ _, hf, Function.update_self .., fun p hp => Function.update_of_ne hp ..⟩
  have hm' : d'.files (join ['t'] manifestFile) = d.files (join ['t'] manifestFile) :=
    hother _ (blobPath_ne (c := 'm') rfl (by decide) (by decide) _).symm
  have hlog' : d'.files (join ['t'] eventsFile) = d.files (join ['t'] eventsFile) :=
    hother _ (blobPath_ne (c := 'e') rfl (by decide) (by decide) _).symm
  obtain ⟨r, hopen, hiff⟩ := tampering_detected_iff (readsText_plain loggedDigests) rfl hrec hf' hm'
  have hopen' := open_recorded (readsText_plain loggedDigests) hf' (hm'.trans hm) rfl (hlog'.trans hlog)
  refine ⟨d, d', r, _, hrec, hblob, hopen, hopen', hiff.mpr (fun log recs hsome hlogged => .inl ?_) _ hopen'⟩
  -- the log is as it was
  rw [hlog', hlog, Option.some.injEq] at hsome
  rw [← hsome, ← readEvents_splitLines, readEvents_logBytes (readsText_plain loggedDigests), Except.ok.injEq] at hlogged
  rw [← hlogged]
  refine ⟨[], _, [], rfl, fun e he => (by cases he), ?_, ?_⟩
  · rintro ⟨g, b, hg, hb, f, hparse, -⟩
    rw [TraceWriter.eventRecord_hash, Frame.payloadHashStr_eq] at hg
    obtain rfl := digest_of_hash hg
    rw [hblob] at hb
    cases hb
    cases hparse
  · rw [TraceWriter.eventRecord_hash]
    exact not_cutInside_payloadHashStr sampleResponse

/-- The response's line is dropped from the log: the trace opens and replays, without the response. -/
theorem tampering_detected_fails :
    ∃ d d' r r', recording (.plain loggedDigests) ['t'] (.newWithClock ['1'] [] ['0']) (sampleCalls.take 2) ['1'] emptyDisk
        = (.ok (), d) ∧ d.faults = .none ∧ d'.faults = .none ∧
      (∀ p, p ≠ join ['t'] eventsFile → d'.files p = d.files p) ∧
      TraceReader.open (.plain loggedDigests) ['t'] d = .ok r ∧ TraceReader.open (.plain loggedDigests) ['t'] d' = .ok r' ∧
      replayOffline (.plain loggedDigests) r d = (.ok 1, sampleResponse.raw ++ [0x0A]) ∧
      replayOffline (.plain loggedDigests) r' d' = (.ok 0, []) := by
  obtain ⟨d, hrec, hf, hm, hlog, hblob⟩ := recording_sampleCalls
  obtain ⟨d', hf', hlog', hother⟩ : ∃ d' : Disk, d'.faults = .none ∧ d'.files (join ['t'] eventsFile)
      = some (logBytes (records (.plain loggedDigests) 0 (sampleCalls.take 1))) ∧
      ∀ p, p ≠ join ['t'] eventsFile → d'.files p = d.files p :=
    ⟨d.set _ _, hf, by rw [Disk.set_files, Function.update_self], fun p hp => Function.update_of_ne hp ..⟩
  have hX := readsText_plain loggedDigests
  have hm' := (hother _ (eventsPath_ne_manifestPath ['t']).symm).trans hm
  refine ⟨d, d', _, _, hrec, hf, hf', hother, open_recorded hX hf hm rfl hlog, open_recorded hX hf' hm' rfl hlog', ?_, rfl⟩
  have hload : ∀ rec : EventRecord, rec.hash = sampleResponse.payloadHashStr (.plain loggedDigests) →
      TraceReader.loadBlob (.plain loggedDigests) ⟨['t'], finalManifest (.plain loggedDigests)
        (.newWithClock ['1'] [] ['0']) (records (.plain loggedDigests) 0 (sampleCalls.take 2)) ['1'],
        records (.plain loggedDigests) 0 (sampleCalls.take 2)⟩ d rec = .ok sampleResponse.raw := fun rec hrec =>
    (loadBlob_eq_ok_iff _ hf (hrec.trans (Frame.payloadHashStr_eq _ _))).mpr
      ⟨hblob, sampleResponse, parse_sampleResponse _, rfl⟩
  rw [replayOffline_eq fun rec hmem hdir => hload rec ?_]
  · rfl
  · simp only [sampleCalls, List.take_succ_cons, List.take_zero, records, List.mem_cons, List.not_mem_nil, or_false] at hmem
    rcases hmem with rfl | rfl
    · cases hdir
    · exact TraceWriter.eventRecord_hash ..

end AcpCore.Replay
