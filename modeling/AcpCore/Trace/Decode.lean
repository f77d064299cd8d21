import AcpCore.Trace.Store

/-!
# Decoding a recording

What `TraceReader.open` gives back of a recording that succeeded: the calls, in
order, with everything they were given but the frame's bytes.

## The model

The disk may fail in any way as long as every call returns `Ok`; a call that does
so has done what it does where nothing fails (`recording_healed`). Reading is on a
disk that does not fail. A `u64` is a number modulo `2 ^ 64`.

## What is proved

* `recording_healed` — a recording that succeeds is one without failures;
* **`recording_decodes`** — opened, it has one event for each call, which says what
  the call was given, and the manifest has their number.
-/

namespace AcpCore.Trace

open AcpCore.Text AcpCore.Wire

/-! ### Recordings that succeed -/

/-- A writer that was flushed has nothing to write when it is dropped. -/
theorem BufWriter.drop_of_flush {w w' : BufWriter} {d d' e : Disk} (h : w.flush d = (.ok (), w', d')) : w'.drop e = e := by
  unfold BufWriter.flush at h
  split at h <;> cases h
  rfl

variable {X : Crates}

theorem TraceWriter.finalize_healed {w : TraceWriter} {now : Str} {d d' : Disk}
    (h : w.finalize X now d = (.ok (), d')) : w.finalize X now d.healed = (.ok (), d'.healed) := by
  rw [TraceWriter.finalize] at h ⊢
  split at h
  · cases h
  · next events d₁ hflush =>
    rw [BufWriter.flush_healed hflush]
    simp only [BufWriter.drop_of_flush hflush] at h ⊢
    split at h
    · cases h
    · next bytes hread =>
      rw [Disk.read_healed hread]
      simp only
      split at h
      · cases h
      · next d₃ hwrite =>
        cases h
        rw [Disk.write_healed hwrite]

theorem TraceWriter.recordAll_healed {calls : List Call} {w w' : TraceWriter} {d d' : Disk}
    (h : w.recordAll X calls d = (.ok (), w', d')) : w.recordAll X calls d.healed = (.ok (), w', d'.healed) := by
  induction calls generalizing w d with
  | nil =>
    cases h
    rfl
  | cons c calls ih =>
    rw [TraceWriter.recordAll] at h ⊢
    split at h
    · cases h
    · next hash w₁ d₁ hrec =>
      rw [TraceWriter.record_healed hrec]
      exact ih h

/-- **A recording that succeeds is one on a disk on which nothing fails.** -/
theorem recording_healed {root : Str} {m : Manifest} {calls : List Call} {now : Str} {d d' : Disk}
    (h : recording X root m calls now d = (.ok (), d')) : recording X root m calls now d.healed = (.ok (), d'.healed) := by
  rw [recording] at h ⊢
  split at h
  · cases h
  · next w d₁ hcreate =>
    rw [TraceWriter.createWithClock_healed hcreate]
    simp only
    split at h
    · cases h
    · next w₁ d₂ hall =>
      rw [TraceWriter.recordAll_healed hall]
      exact TraceWriter.finalize_healed h

/-! ### Its events -/

/-- An event says what a call was given. -/
structure EventRecord.Describes (X : Crates) (e : EventRecord) (c : Call) : Prop where
  /-- The clock's reading. -/
  tWallNs : e.tWallNs = c.now
  /-- The direction. -/
  dir : e.dir = c.dir
  /-- The kind. -/
  kind : e.kind = .ofKind c.frame.kind
  /-- The method. -/
  method : e.method = c.frame.method
  /-- No id is no id. -/
  noId : e.id = none ↔ c.frame.id = none
  /-- A null id is a null id. -/
  nullId : e.id = some .null ↔ c.frame.id = some .null
  /-- A string is the same string. -/
  strId : ∀ s, e.id = some (.str s) ↔ c.frame.id = some (.str s)
  /-- A number is the same number. -/
  numId : ∀ n, e.id = some (.num n) ↔ c.frame.id = some (.num n)
  /-- The payload's hash. -/
  hash : e.hash = c.frame.payloadHashStr X
  /-- The length of the frame's bytes, as a `u64`. -/
  bytes : e.bytes.val = c.frame.raw.length % 2 ^ 64

theorem describes_eventRecord (seq : U64) (c : Call) :
    (TraceWriter.eventRecord X seq c.dir c.frame c.now).Describes X c := by
  have hid : ∀ i : Id, c.frame.id.map RecordId.ofId = some (.ofId i) ↔ c.frame.id = some i := by
    intro i
    cases c.frame.id with
    | none => simp
    | some j => cases i <;> cases j <;> simp [RecordId.ofId]
  refine ⟨rfl, rfl, rfl, rfl, ?_, hid .null, fun s => hid (.str s), fun n => hid (.num n),
    TraceWriter.eventRecord_hash .., rfl⟩
  rw [TraceWriter.eventRecord, Option.map_eq_none_iff]

/-- **The event log decodes to what was recorded.** Of a recording all of whose calls succeeded,
whatever frames, clock readings and files there were, opening returns `Ok` with as many
events as calls, the `i`-th with `seq` `i` and what the `i`-th call was given; the
manifest's count is their number. -/
theorem recording_decodes (hX : X.ReadsText) {root : Str} {m : Manifest} (hv : m.formatVersion = formatVersion)
    {calls : List Call} {now : Str} {d d' : Disk} (h : recording X root m calls now d = (.ok (), d')) :
    ∃ r, TraceReader.open X root d'.healed = .ok r ∧ r.events.length = calls.length ∧
      (∃ n, r.manifest.eventCount = some n ∧ n.val = calls.length % 2 ^ 64) ∧
      ∀ i c, calls[i]? = some c → ∃ e, r.events[i]? = some e ∧ e.seq.val = i % 2 ^ 64 ∧ e.Describes X c := by
  obtain ⟨d₁, hrec, -, hlog, hmanifest, -⟩ := recording_noFaults X (d := d.healed) rfl root m calls now
  rw [recording_healed h, Prod.mk.injEq] at hrec
  obtain ⟨-, rfl⟩ := hrec
  refine ⟨_, open_recorded hX rfl hmanifest hv hlog, length_records X calls 0, ⟨_, rfl, ?_⟩, fun i c hc => ?_⟩
  · rw [length_records]
    rfl
  · refine ⟨_, by rw [getElem?_records, hc, Option.map_some], ?_, describes_eventRecord _ c⟩
    rw [Nat.zero_add]
    rfl

theorem recording_decodes_sample :
    ∃ d' r, recording (.plain loggedDigests) ['t'] (.newWithClock ['1'] [] ['0']) sampleCalls ['1'] emptyDisk
        = (.ok (), d') ∧
      TraceReader.open (.plain loggedDigests) ['t'] d'.healed = .ok r ∧ r.events.length = 3 ∧
      ∀ i c, sampleCalls[i]? = some c → ∃ e, r.events[i]? = some e ∧ e.seq.val = i % 2 ^ 64 ∧
        e.Describes (.plain loggedDigests) c := by
  obtain ⟨d', hrec, -⟩ := recording_noFaults (.plain loggedDigests) (d := emptyDisk) rfl ['t'] (.newWithClock ['1'] [] ['0'])
    sampleCalls ['1']
  obtain ⟨r, hopen, hlen, -, hevents⟩ := recording_decodes (readsText_plain loggedDigests) rfl hrec
  exact ⟨d', r, hrec, hopen, hlen, hevents⟩

end AcpCore.Trace
