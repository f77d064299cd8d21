import AcpCore.Trace.Failures
import AcpCore.Trace.Store

/-!
# Torn blobs

Whether what was recorded can be loaded, after any history of a trace directory: writers
are created one after another, finalized, dropped or lost in a crash, and every system
call of every operation may fail.

## The model

A `History` is the disk, the writer there is, and the records appended by calls that
returned `Ok`. A crash inside a call is a system call that fails, and then a crash. The
calls that tear a blob are read off the disk's faults: they create its file and cannot
write it (`TraceWriter.cut`), and what they leave is no frame of the hash (`Tears`).

## What is proved

* `casWrite_put`, `record_store` — what a call does to the blobs, however it goes;
* `Intact.step`, `Intact.run` — a blob is a frame of its hash unless a call has torn it, and
  those of the records appended are there;
* **`appended_load_iff`** — all records appended can be loaded exactly when none is of a
  payload whose blob a call has torn.
-/

namespace AcpCore.Trace

open AcpCore.Text AcpCore.Wire

/-- What happens to a trace directory. -/
inductive Operation where
  /-- A writer is created with a manifest, after the one there is, if any, is dropped. -/
  | create (m : Manifest)
  /-- A frame is recorded. -/
  | record (c : Call)
  /-- The writer finalizes the trace, with the clock's timestamp. -/
  | finalize (now : Str)
  /-- The writer is dropped. -/
  | drop
  /-- The process ends without running anything more. -/
  | crash

/-- The state of a trace directory, and what has been recorded in it. -/
structure History where
  /-- The disk. -/
  disk : Disk
  /-- The writer, if there is one. -/
  writer : Option TraceWriter
  /-- The records appended by calls that returned `Ok`. -/
  appended : List EventRecord

namespace History

/-- Dropping the writer there is. -/
def dropped (s : History) : Disk :=
  match s.writer with
  | none => s.disk
  | some w => w.events.drop s.disk

variable (X : Crates) (root : Str)

/-- One operation; without a writer there is nothing to record with or to finalize. -/
def step (s : History) : Operation → History
  | .create m =>
    match TraceWriter.createWithClock root m s.dropped with
    | (.error _, d) => { s with disk := d, writer := none }
    | (.ok w, d) => { s with disk := d, writer := some w }
  | .record c =>
    match s.writer with
    | none => s
    | some w =>
      match w.record X c.dir c.frame c.now s.disk with
      | (.error _, w', d) => { s with disk := d, writer := some w' }
      | (.ok _, w', d) =>
        ⟨d, some w', s.appended ++ [TraceWriter.eventRecord X w.nextSeq c.dir c.frame c.now]⟩
  | .finalize now =>
    match s.writer with
    | none => s
    | some w => { s with disk := (w.finalize X now s.disk).2, writer := none }
  | .drop => { s with disk := s.dropped, writer := none }
  | .crash => { s with writer := none }

/-- Operations one after another. -/
def run (ops : List Operation) (s : History) : History := ops.foldl (step X root) s

end History

variable (X : Crates)

/-- What a call leaves of the blob whose file it has created and cannot write. -/
def TraceWriter.cut (w : TraceWriter) (c : Call) (d : Disk) : Option Bytes :=
  if (d.files (blobPath w.blobs (formatBlake3Hex (c.frame.payloadHash X).1))).isSome ∨ c.frame.raw = [] then none
  else
    match d.faults.calls with
    | none :: none :: some k :: _ => some (c.frame.raw.take (min k (c.frame.raw.length - 1)))
    | _ => none

/-- A call creates a blob's file and cannot write it, and what it leaves is no frame of the hash. -/
def History.Tears (s : History) (c : Call) : Prop :=
  ∃ w b, s.writer = some w ∧ w.cut X c s.disk = some b ∧ ¬ FrameOf X (c.frame.payloadHash X) b

/-- A call among the operations tears its blob. -/
def History.TearsIn (root : Str) : List Operation → History → Call → Prop
  | [], _, _ => False
  | op :: ops, s, c => op = .record c ∧ s.Tears X c ∨ TearsIn root ops (s.step X root op) c

variable {X}

/-! ### The blobs after a call -/

theorem cut_noFaults {d : Disk} (hd : d.faults = .none) (w : TraceWriter) (c : Call) : w.cut X c d = none := by
  rw [TraceWriter.cut, hd]
  exact ite_self _

/-- A blob write that succeeds puts the blob. -/
theorem casWrite_ok {w : TraceWriter} {hash : Str} {raw : Bytes} {d d' : Disk}
    (h : w.casWrite hash raw d = (.ok (), d')) : d'.files = FirstWins.put d.files (blobPath w.blobs hash) raw := by
  obtain ⟨d'', h', -, hfiles⟩ := casWrite_noFaults (d := d.healed) rfl w hash raw
  rw [TraceWriter.casWrite_healed h, Prod.mk.injEq] at h'
  obtain ⟨-, rfl⟩ := h'
  exact hfiles

/-- **The blob write**: the first writer wins, also where it writes a part only. -/
theorem casWrite_put {w : TraceWriter} {c : Call} {d d' : Disk} {r : Except TraceError Unit}
    (h : w.casWrite (formatBlake3Hex (c.frame.payloadHash X).1) c.frame.raw d = (r, d')) :
    (w.cut X c d = none ∧ (r = .ok () ∧
        d'.files = FirstWins.put d.files (blobPath w.blobs (formatBlake3Hex (c.frame.payloadHash X).1)) c.frame.raw ∨
        (∃ e, r = .error e) ∧ d'.files = d.files)) ∨
      ∃ b, w.cut X c d = some b ∧ (∃ e, r = .error e) ∧
        d.files (blobPath w.blobs (formatBlake3Hex (c.frame.payloadHash X).1)) = none ∧
        d'.files = FirstWins.put d.files (blobPath w.blobs (formatBlake3Hex (c.frame.payloadHash X).1)) b := by
  unfold TraceWriter.cut
  by_cases hskip : (d.files (blobPath w.blobs (formatBlake3Hex (c.frame.payloadHash X).1))).isSome ∨ c.frame.raw = []
  · -- there is nothing to write
    rw [if_pos hskip]
    refine .inl ⟨rfl, ?_⟩
    cases r with
    | ok u => exact .inl ⟨rfl, casWrite_ok h⟩
    | error e =>
      rcases TraceWriter.casWrite_cases h with ⟨hfiles, -⟩ | ⟨hnone, -, n, ⟨hr, -⟩ | ⟨-, hn⟩, -⟩
      · exact .inr ⟨⟨e, rfl⟩, hfiles⟩
      · cases hr
      · rcases hskip with hsome | hraw
        · rw [hnone] at hsome
          cases hsome
        · rw [hraw] at hn
          cases hn
  · -- the directory, the file and its bytes, as far as the disk goes along
    rw [if_neg hskip]
    have hok := fun hr : r = .ok () => casWrite_ok (hr ▸ h)
    rw [TraceWriter.casWrite, Disk.createDirAll, Disk.tick] at h
    obtain ⟨hnone, hraw⟩ := not_or.mp hskip
    obtain ⟨files, ⟨faults, unreadable⟩⟩ := d
    simp only at hnone hok h ⊢
    generalize blobPath w.blobs (formatBlake3Hex (c.frame.payloadHash X).1) = p at h hnone hok ⊢
    rcases faults with _ | ⟨_ | k, _ | ⟨fault₂, faults⟩⟩ <;>
      simp only [Disk.createNew, Disk.tick, if_neg hnone, Disk.writeAll, if_neg hraw, Disk.set] at h
    · cases h
      exact .inl ⟨rfl, .inl ⟨rfl, hok rfl⟩⟩
    · cases h
      exact .inl ⟨rfl, .inl ⟨rfl, hok rfl⟩⟩
    · rcases fault₂ with _ | k
      · rcases faults with _ | ⟨_ | k, faults⟩ <;> simp only [if_neg hnone] at h <;> cases h
        · exact .inl ⟨rfl, .inl ⟨rfl, hok rfl⟩⟩
        · exact .inl ⟨rfl, .inl ⟨rfl, hok rfl⟩⟩
        · refine .inr ⟨_, rfl, ⟨_, rfl⟩, Option.not_isSome_iff_eq_none.mp hnone, ?_⟩
          rw [FirstWins.put, if_neg hnone, Function.update_idem, Function.update_self]
          rfl
      · cases h
        exact .inl ⟨rfl, .inr ⟨⟨_, rfl⟩, rfl⟩⟩
    · cases h
      exact .inl ⟨rfl, .inr ⟨⟨_, rfl⟩, rfl⟩⟩
    · cases h
      exact .inl ⟨rfl, .inr ⟨⟨_, rfl⟩, rfl⟩⟩

/-- The log and the manifest are no blobs. -/
theorem blobStore_of_files_of_ne {root : Str} {d d' : Disk}
    (h : ∀ q, q ≠ join root eventsFile → q ≠ join root manifestFile → d'.files q = d.files q) :
    blobStore root d' = blobStore root d :=
  funext fun g => h _ (blobPath_ne (c := 'e') rfl (by decide) (by decide) g)
    (blobPath_ne (c := 'm') rfl (by decide) (by decide) g)

/-- **One call** of `record`, however it goes. -/
theorem record_store {root : Str} {w w' : TraceWriter} (hw : Writes root w) {c : Call} {d d' : Disk}
    {r : Except TraceError Str} (h : w.record X c.dir c.frame c.now d = (r, w', d')) :
    (w.cut X c d = none ∧
        (blobStore root d' = FirstWins.put (blobStore root d) (c.frame.payloadHash X) c.frame.raw ∨
          (∃ e, r = .error e) ∧ blobStore root d' = blobStore root d)) ∨
      ∃ b, w.cut X c d = some b ∧ (∃ e, r = .error e) ∧ blobStore root d (c.frame.payloadHash X) = none ∧
        blobStore root d' = FirstWins.put (blobStore root d) (c.frame.payloadHash X) b := by
  rw [TraceWriter.record] at h
  rcases hcas : w.casWrite (formatBlake3Hex (c.frame.payloadHash X).1) c.frame.raw d with ⟨r₁, d₁⟩
  have hput := casWrite_put hcas
  rw [hw.blobs] at hput
  rw [hcas] at h
  cases r₁ with
  | error e =>
    cases h
    rcases hput with ⟨hcut, ⟨hr, -⟩ | ⟨-, hfiles⟩⟩ | ⟨b, hcut, -, hnone, hfiles⟩
    · cases hr
    · exact .inl ⟨hcut, .inr ⟨⟨e, rfl⟩, blobStore_of_files_of_ne fun q _ _ => congrFun hfiles q⟩⟩
    · exact .inr ⟨b, hcut, ⟨e, rfl⟩, hnone, blobStore_put hfiles⟩
  | ok u =>
    rcases hput with ⟨hcut, ⟨-, hfiles⟩ | ⟨⟨e, hr⟩, -⟩⟩ | ⟨b, -, ⟨e, hr⟩, -⟩
    · rcases happ : w.append (TraceWriter.eventRecord X w.nextSeq c.dir c.frame c.now) d₁ with ⟨r₂, w₂, d₂⟩
      obtain ⟨-, -, -, -, hother, -⟩ := TraceWriter.append_accepted happ
      have hkeep : blobStore root d₂ = blobStore root d₁ :=
        blobStore_of_files_of_ne fun q hq _ => hother q (by rwa [hw.path])
      refine .inl ⟨hcut, .inl ?_⟩
      simp only [happ] at h
      cases r₂ <;> cases h <;> exact hkeep.trans (blobStore_put hfiles)
    · cases hr
    · cases hr

/-! ### The invariant -/

/-- A blob is a frame of its hash unless it is torn, and those of the records appended are there. -/
structure Intact (X : Crates) (root : Str) (torn : Digest → Prop) (s : History) : Prop where
  /-- The writer is one of the directory. -/
  writes : ∀ w, s.writer = some w → Writes root w
  /-- What the blobs are. -/
  blobs : ∀ h b, blobStore root s.disk h = some b → (FrameOf X h b ↔ ¬ torn h)
  /-- Torn blobs are there. -/
  torn_isSome : ∀ h, torn h → (blobStore root s.disk h).isSome
  /-- The blobs of the records appended are there. -/
  appended : ∀ e ∈ s.appended, ∃ h : Digest, e.hash = blake3Prefix ++ formatBlake3Hex h.1 ∧
    (blobStore root s.disk h).isSome

/-- What leaves the blobs alone keeps the invariant. -/
theorem Intact.of_blobStore_eq {root : Str} {torn : Digest → Prop} {s s' : History} (hs : Intact X root torn s)
    (hw : ∀ w, s'.writer = some w → Writes root w) (hstore : blobStore root s'.disk = blobStore root s.disk)
    (happended : s'.appended = s.appended) : Intact X root torn s' := by
  refine ⟨hw, ?_, ?_, ?_⟩
  · rw [hstore]
    exact hs.blobs
  · rw [hstore]
    exact hs.torn_isSome
  · rw [hstore, happended]
    exact hs.appended

/-- Dropping the writer leaves the blobs alone. -/
theorem Intact.dropped {root : Str} {torn : Digest → Prop} {s : History} (hs : Intact X root torn s) :
    blobStore root s.dropped = blobStore root s.disk := by
  unfold History.dropped
  split
  · rfl
  · next w hw =>
    refine blobStore_of_files_of_ne fun q hq _ => BufWriter.drop_files_of_ne w.events s.disk ?_
    rwa [(hs.writes w hw).path]

/-- **A blob put**, torn or not, keeps the invariant. -/
theorem Intact.put {root : Str} {torn : Digest → Prop} {s s' : History} (hs : Intact X root torn s)
    (hw : ∀ w, s'.writer = some w → Writes root w) {g : Digest} {b : Bytes} {bad : Prop}
    (hbad : bad → blobStore root s.disk g = none) (hframe : blobStore root s.disk g = none → (FrameOf X g b ↔ ¬ bad))
    (hstore : blobStore root s'.disk = FirstWins.put (blobStore root s.disk) g b)
    (happended : ∀ e ∈ s'.appended, e ∈ s.appended ∨ e.hash = blake3Prefix ++ formatBlake3Hex g.1) :
    Intact X root (fun h => torn h ∨ bad ∧ g = h) s' := by
  refine ⟨hw, fun h b' hb => ?_, fun h htorn => ?_, fun e he => ?_⟩
  · rw [hstore, FirstWins.put_apply, Option.or_eq_some_iff] at hb
    rcases hb with hb | ⟨hnone, hb⟩
    · -- a blob that was there
      have hne : ¬ (bad ∧ g = h) := by
        rintro ⟨h₁, rfl⟩
        rw [hbad h₁] at hb
        cases hb
      rw [hs.blobs h b' hb, not_or]
      exact ⟨fun h => ⟨h, hne⟩, And.left⟩
    · -- the one put
      split_ifs at hb with hg
      obtain rfl := hg
      cases hb
      have hne : ¬ torn h := by
        intro htorn
        have := hs.torn_isSome h htorn
        rw [hnone] at this
        cases this
      rw [hframe hnone, not_or]
      exact ⟨fun h => ⟨hne, fun hb => h hb.1⟩, fun h hb => h.2 ⟨hb, rfl⟩⟩
  · rw [hstore, FirstWins.isSome_put]
    rcases htorn with htorn | ⟨-, hg⟩
    · exact .inl (hs.torn_isSome h htorn)
    · exact .inr hg.symm
  · rcases happended e he with he | hhash
    · obtain ⟨h, hhash, hsome⟩ := hs.appended e he
      exact ⟨h, hhash, by rw [hstore, FirstWins.isSome_put]; exact .inl hsome⟩
    · exact ⟨g, hhash, by rw [hstore, FirstWins.isSome_put]; exact .inr rfl⟩

/-- More of the torn, as long as they are the same. -/
theorem Intact.congr {root : Str} {torn torn' : Digest → Prop} {s : History} (hs : Intact X root torn s)
    (h : ∀ g, torn g ↔ torn' g) : Intact X root torn' s := by
  obtain rfl : torn = torn' := funext fun g => propext (h g)
  exact hs

/-- What a call of the writer tears. -/
theorem tears_iff {s : History} {w : TraceWriter} (hw : s.writer = some w) {c : Call} :
    s.Tears X c ↔ ∃ b, w.cut X c s.disk = some b ∧ ¬ FrameOf X (c.frame.payloadHash X) b := by
  constructor
  · rintro ⟨w', b, hw', h⟩
    rw [hw] at hw'
    cases hw'
    exact ⟨b, h⟩
  · rintro ⟨b, h⟩
    exact ⟨w, b, hw, h⟩

/-- The state after a call: a record is appended if it succeeds. -/
theorem step_record {root : Str} {s : History} {w w' : TraceWriter} {c : Call} {d' : Disk} {r : Except TraceError Str}
    (hw : s.writer = some w) (h : w.record X c.dir c.frame c.now s.disk = (r, w', d')) :
    (s.step X root (.record c)).disk = d' ∧ (s.step X root (.record c)).writer = some w' ∧
    ((∃ e, r = .error e) → (s.step X root (.record c)).appended = s.appended) ∧
    ∀ e ∈ (s.step X root (.record c)).appended, e ∈ s.appended ∨
      e.hash = blake3Prefix ++ formatBlake3Hex (c.frame.payloadHash X).1 := by
  simp only [History.step, hw, h]
  cases r with
  | error e => exact ⟨rfl, rfl, fun _ => rfl, fun e he => .inl he⟩
  | ok hash =>
    refine ⟨rfl, rfl, fun ⟨e, he⟩ => (by cases he), fun e he => ?_⟩
    rcases List.mem_append.mp he with he | he
    · exact .inl he
    · rw [List.mem_singleton.mp he]
      exact .inr rfl

/-- One call keeps the invariant, with what it tears. -/
theorem Intact.record {root : Str} {torn : Digest → Prop} {s : History} (hs : Intact X root torn s) {c : Call}
    (hc : ∃ line, Frame.parse X line = .ok c.frame) :
    Intact X root (fun h => torn h ∨ s.Tears X c ∧ c.frame.payloadHash X = h) (s.step X root (.record c)) := by
  obtain ⟨line, hline⟩ := hc
  have hframe : FrameOf X (c.frame.payloadHash X) c.frame.raw := ⟨c.frame, Frame.parse_raw X hline, rfl⟩
  -- a call that tears nothing
  have hcongr : ∀ {s'}, ¬ s.Tears X c → Intact X root torn s' →
      Intact X root (fun h => torn h ∨ s.Tears X c ∧ c.frame.payloadHash X = h) s' := fun hnot hs' =>
    hs'.congr fun g => ⟨.inl, fun h => h.resolve_right fun h => hnot h.1⟩
  rcases hwriter : s.writer with _ | w
  · -- no writer
    have hstep : s.step X root (.record c) = s := by simp only [History.step, hwriter]
    rw [hstep]
    refine hcongr ?_ hs
    rintro ⟨w, -, hw, -⟩
    rw [hwriter] at hw
    cases hw
  rcases hrec : w.record X c.dir c.frame c.now s.disk with ⟨r, w', d'⟩
  have hw := hs.writes w hwriter
  obtain ⟨hdisk, hwriter', hsame, happended⟩ := step_record hwriter hrec
  have hwrites : ∀ v, (s.step X root (.record c)).writer = some v → Writes root v := by
    intro v hv
    rw [hwriter'] at hv
    cases hv
    exact (record_accepted hw hrec).1
  rcases record_store hw hrec with ⟨hcut, hstore⟩ | ⟨b, hcut, -, hnone, hstore⟩
  · have hnot : ¬ s.Tears X c := by
      rw [tears_iff hwriter]
      rintro ⟨b, hb, -⟩
      rw [hcut] at hb
      cases hb
    rcases hstore with hstore | ⟨herror, hstore⟩
    · exact hs.put hwrites (fun h => absurd h hnot) (fun _ => ⟨fun _ => hnot, fun _ => hframe⟩) (hdisk ▸ hstore) happended
    · -- the call fails and leaves the blobs alone
      exact hcongr hnot (hs.of_blobStore_eq hwrites (hdisk ▸ hstore) (hsame herror))
  · -- the call leaves a part of its blob
    have htears : s.Tears X c ↔ ¬ FrameOf X (c.frame.payloadHash X) b := by
      rw [tears_iff hwriter, hcut]
      exact ⟨fun ⟨b', hb', h⟩ => Option.some.inj hb' ▸ h, fun h => ⟨b, rfl, h⟩⟩
    exact hs.put hwrites (fun _ => hnone) (fun _ => by rw [htears, not_not]) (hdisk ▸ hstore) happended

/-- What an operation tears. -/
def tornBy (X : Crates) (s : History) (op : Operation) (h : Digest) : Prop :=
  ∃ c, op = .record c ∧ s.Tears X c ∧ c.frame.payloadHash X = h

/-- The frames recorded come from `Frame::parse`. -/
def Operation.Parsed (X : Crates) (op : Operation) : Prop := ∀ c, op = .record c → ∃ line, Frame.parse X line = .ok c.frame

/-- **One operation** keeps the invariant, with what it tears. -/
theorem Intact.step {root : Str} {torn : Digest → Prop} {s : History} (hs : Intact X root torn s) {op : Operation}
    (hop : op.Parsed X) : Intact X root (fun h => torn h ∨ tornBy X s op h) (s.step X root op) := by
  -- all but a call of `record` leave the blobs alone
  have hother : (∀ c, op ≠ .record c) → (∀ w, (s.step X root op).writer = some w → Writes root w) →
      blobStore root (s.step X root op).disk = blobStore root s.disk → (s.step X root op).appended = s.appended →
      Intact X root (fun h => torn h ∨ tornBy X s op h) (s.step X root op) := by
    intro hnot hw hstore happended
    refine (hs.of_blobStore_eq hw hstore happended).congr fun g => ⟨.inl, fun h => h.resolve_right ?_⟩
    rintro ⟨c, hc, -⟩
    exact hnot c hc
  cases op with
  | create m =>
    have hfiles := fun q => createWithClock_files_of_ne root m s.dropped (q := q)
    refine hother (fun c h => by cases h) (fun w hw => ?_) ?_ ?_
    · rw [History.step] at hw
      rcases hcreate : TraceWriter.createWithClock root m s.dropped with ⟨_ | w', d'⟩ <;> rw [hcreate] at hw <;> cases hw
      exact (recorded_of_create hcreate).writes
    · rw [History.step]
      rcases hcreate : TraceWriter.createWithClock root m s.dropped with ⟨_ | w', d'⟩ <;> rw [hcreate] at hfiles <;>
        exact (blobStore_of_files_of_ne hfiles).trans hs.dropped
    · rw [History.step]
      rcases TraceWriter.createWithClock root m s.dropped with ⟨_ | w', d'⟩ <;> rfl
  | record c =>
    refine (hs.record (hop c rfl)).congr fun g => or_congr_right ⟨fun h => ⟨c, rfl, h⟩, ?_⟩
    rintro ⟨c', hc, h⟩
    cases hc
    exact h
  | finalize now =>
    rcases hwriter : s.writer with _ | w
    · have hstep : s.step X root (.finalize now) = s := by simp only [History.step, hwriter]
      refine hother (fun c h => by cases h) ?_ ?_ ?_ <;> rw [hstep]
      exact hs.writes
    · have hstep : s.step X root (.finalize now) = { s with disk := (w.finalize X now s.disk).2, writer := none } := by
        simp only [History.step, hwriter]
      refine hother (fun c h => by cases h) ?_ ?_ ?_ <;> rw [hstep]
      · exact fun w h => by cases h
      · exact blobStore_of_files_of_ne fun q => finalize_files_of_ne (hs.writes w hwriter) now s.disk
  | drop => exact hother (fun c h => by cases h) (fun w h => by cases h) hs.dropped rfl
  | crash => exact hother (fun c h => by cases h) (fun w h => by cases h) rfl rfl

/-- **Any operations** keep the invariant, with what they tear. -/
theorem Intact.run {root : Str} (ops : List Operation) (hops : ∀ op ∈ ops, op.Parsed X) {torn : Digest → Prop}
    {s : History} (hs : Intact X root torn s) :
    Intact X root (fun h => torn h ∨ ∃ c, s.TearsIn X root ops c ∧ c.frame.payloadHash X = h) (s.run X root ops) := by
  induction ops generalizing torn s with
  | nil => exact hs.congr fun g => ⟨.inl, fun h => h.resolve_right fun ⟨c, h, _⟩ => h⟩
  | cons op ops ih =>
    have hstep := hs.step (hops op List.mem_cons_self)
    refine (ih (fun op' h => hops op' (List.mem_cons_of_mem op h)) hstep).congr fun g => ?_
    rw [or_assoc]
    refine or_congr_right ⟨?_, ?_⟩
    · rintro (⟨c, hc, htears, hg⟩ | ⟨c, htears, hg⟩)
      · exact ⟨c, .inl ⟨hc, htears⟩, hg⟩
      · exact ⟨c, .inr htears, hg⟩
    · rintro ⟨c, ⟨hc, htears⟩ | htears, hg⟩
      · exact .inl ⟨c, hc, htears, hg⟩
      · exact .inr ⟨c, htears, hg⟩

/-! ### Loading what was recorded -/

/-- **What is recorded can be loaded, unless it was torn.** Take any directory whose blobs are frames of
the hashes their paths spell, and any operations on it, with failures and crashes anywhere. Every
record appended by a call that returned `Ok` can be loaded afterwards, as a frame of its hash, if and
only if none has the hash of a blob that one of the calls has torn. -/
theorem appended_load_iff {root : Str} {d : Disk} (hstore : Keyed X (blobStore root d)) {ops : List Operation}
    (hops : ∀ op ∈ ops, op.Parsed X) {s : History} (hs : History.run X root ops ⟨d, none, []⟩ = s) :
    (∀ e ∈ s.appended, ∀ r : TraceReader, r.root = root → ∃ b f, r.loadBlob X s.disk.healed e = .ok b ∧
        Frame.parse X b = .ok f ∧ f.payloadHashStr X = e.hash) ↔
      ∀ e ∈ s.appended, ∀ c, History.TearsIn X root ops ⟨d, none, []⟩ c → e.hash ≠ c.frame.payloadHashStr X := by
  have hstart : Intact X root (fun _ => False) ⟨d, none, []⟩ :=
    ⟨fun w h => (by cases h), fun h b hb => ⟨fun _ h => h, fun _ => hstore h b hb⟩, fun h hf => hf.elim,
      fun e he => (by cases he)⟩
  have hintact := hstart.run ops hops
  rw [hs] at hintact
  refine forall₂_congr fun e he => ?_
  obtain ⟨h, hhash, hsome⟩ := hintact.appended e he
  obtain ⟨b, hb⟩ := Option.isSome_iff_exists.mp hsome
  have htorn := hintact.blobs h b hb
  have hsame : ∀ f : Frame, e.hash = f.payloadHashStr X ↔ f.payloadHash X = h := by
    intro f
    rw [hhash, Frame.payloadHashStr_eq, List.append_cancel_left_eq, formatBlake3Hex_injective.eq_iff,
      ← Subtype.ext_iff]
    exact eq_comm
  constructor
  · intro hload c htears heq
    obtain ⟨b', f, hb', hf, -⟩ := hload ⟨root, Manifest.newWithClock [] [] [], []⟩ rfl
    obtain ⟨hstored, hframe⟩ := (loadBlob_eq_ok_iff X rfl hhash).mp hb'
    exact (hintact.blobs h b' hstored).mp hframe (.inr ⟨c, htears, (hsame c.frame).mp heq⟩)
  · rintro hnot r rfl
    obtain ⟨f, hf, hfh⟩ := htorn.mpr fun h => by
      obtain h | ⟨c, htears, hc⟩ := h
      · exact h
      · exact hnot c htears ((hsame c.frame).mpr hc)
    exact ⟨b, f, (loadBlob_eq_ok_iff X rfl hhash).mpr ⟨hb, f, hf, hfh⟩, hf, ((hsame f).mpr hfh).symm⟩

/-- A disk without files whose eighth system call fails: the first write of a blob. -/
def blobFails : Disk := failsAt 7

/-- A frame is recorded, and once more. -/
def recordedTwice : List Operation :=
  [.create (.newWithClock ['1'] [] ['0']), .record ⟨.c2a, sampleRequest 1, 0⟩, .record ⟨.c2a, sampleRequest 1, 0⟩]

theorem parsed_recordedTwice (table : List (Bytes × Digest)) : ∀ op ∈ recordedTwice, op.Parsed (.plain table) := by
  intro op hop c hc
  simp only [recordedTwice, List.mem_cons, List.not_mem_nil, or_false] at hop
  rcases hop with rfl | rfl | rfl <;> cases hc <;> exact ⟨_, parse_sampleRequest table 1⟩

set_option maxRecDepth 100000 in
theorem appended_load_iff_sample :
    (History.run (.plain sampleDigests) ['t'] recordedTwice ⟨emptyDisk, none, []⟩).appended.length = 2 ∧
    ∀ e ∈ (History.run (.plain sampleDigests) ['t'] recordedTwice ⟨emptyDisk, none, []⟩).appended,
      ∀ r : TraceReader, r.root = ['t'] → ∃ b f,
        r.loadBlob (.plain sampleDigests)
            (History.run (.plain sampleDigests) ['t'] recordedTwice ⟨emptyDisk, none, []⟩).disk.healed e = .ok b ∧
          Frame.parse (.plain sampleDigests) b = .ok f ∧ f.payloadHashStr (.plain sampleDigests) = e.hash := by
  refine ⟨by decide +kernel, ?_⟩
  refine (appended_load_iff (fun h b hb => by cases hb) (parsed_recordedTwice sampleDigests) rfl).mpr fun e he c htears => ?_
  rcases htears with ⟨h, -⟩ | ⟨-, w, b, hw, hcut, -⟩ | ⟨-, w, b, hw, hcut, -⟩ | h
  · cases h
  · cases hw
    rw [cut_noFaults rfl] at hcut
    cases hcut
  · cases hw
    rw [cut_noFaults rfl] at hcut
    cases hcut
  · cases h

set_option maxRecDepth 100000 in
/-- A blob write fails at once, and the same frame is recorded again: it is taken to be there. -/
theorem appended_load_fails :
    ∃ e ∈ (History.run (.plain sampleDigests) ['t'] recordedTwice ⟨blobFails, none, []⟩).appended,
      TraceReader.loadBlob (.plain sampleDigests) ⟨['t'], .newWithClock ['1'] [] ['0'], []⟩
        (History.run (.plain sampleDigests) ['t'] recordedTwice ⟨blobFails, none, []⟩).disk.healed e
          = .error (.error (.wire .json)) := by
  refine ⟨_, List.mem_singleton_self _, ?_⟩
  decide +kernel

end AcpCore.Trace
