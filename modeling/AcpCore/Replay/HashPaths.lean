import AcpCore.Replay.Remap

/-!
# One hash for a frame

The hash of a frame is computed where it is parsed, where it is recorded, where its blob
is loaded, and where the replay puts another id in.

## The model

Each crate has its own encoder: `Wire.hexWithPrefix`, `formatBlake3Hex` and the replay's
`hexWithPrefix`. The hash `load_blob` derives from the bytes it reads is in its error
where it is not the event's.

## What is proved

* `hash_of_record`, `loadBlob_of_frame`, `hashWithId_self` — the recorder, the reader and
  the replay have the hash of the frame;
* `hashWithId_eq_iff` — with one id in both, two frames have one hash exactly when they
  are the same without their ids;
* **`hash_paths_agree`** — all of it, for all frames.
-/

namespace AcpCore.Replay

open AcpCore.Text AcpCore.Wire AcpCore.Trace

/-! ### Values without their ids -/

/-- A value without its top-level id. -/
def withoutId : Value → Value
  | .object map => .object (map.filter fun m => m.1 ≠ idKey)
  | v => v

/-- The same JSON value but for the top-level id. -/
def SameButId (v w : Value) : Prop := Same (withoutId v) (withoutId w)

/-- Objects with ids are the same with one id in both exactly when they are the same without. -/
theorem same_withId_iff {v w : Value} {kind kind' : Kind} {method method' : Option Str} {i k : Id} (hv : v.Unique)
    (hw : w.Unique) (hev : envelope v = .ok (kind, method, some i)) (hew : envelope w = .ok (kind', method', some k))
    (j : Id) : Same (withId v j) (withId w j) ↔ SameButId v w := by
  obtain ⟨ms, rfl, -⟩ := exists_object hev
  obtain ⟨ns, rfl, -⟩ := exists_object hew
  exact Same.insert_iff hv.1 hw.1 idKey j.toValue

variable {X : Crates}

/-! ### The recorder and the reader -/

/-- **What `record` returns** is the frame's hash. -/
theorem hash_of_record {w w' : TraceWriter} {dir : Direction} {f : Frame} {now : U128} {d d' : Disk} {s : Str}
    (h : w.record X dir f now d = (.ok s, w', d')) : s = f.payloadHashStr X := by
  rw [TraceWriter.record] at h
  split at h
  · cases h
  · split at h
    · cases h
    · cases h
      exact (f.payloadHashStr_eq X).symm

/-- **What `load_blob` compares** with the event's hash is the hash of the frame. -/
theorem loadBlob_of_frame {f : Frame} {line : Bytes} (hf : Frame.parse X line = .ok f) {r : TraceReader} {d : Disk}
    {rec : EventRecord} (h : r.Finds d rec f.raw) : r.loadBlob X d rec =
      if rec.hash = f.payloadHashStr X then .ok f.raw
      else .error (.error (.hashMismatch rec.hash (f.payloadHashStr X))) := by
  rw [loadBlob_of_finds X h, Frame.parse_raw X hf]

/-! ### The replay -/

/-- **With its own id** a frame has its hash. -/
theorem hashWithId_self {f : Frame} {line : Bytes} (hf : Frame.parse X line = .ok f) {i : Id} (hi : f.id = some i) :
    hashWithId X f.value i = f.payloadHashStr X := by
  obtain ⟨-, -, hef, -⟩ := (Frame.parse_eq_ok_iff X).mp hf
  rw [hi] at hef
  rw [hashWithId_of_id hef, withId_self hef]
  rfl

/-- **With one id in both** two frames have one hash exactly when they are the same but for their ids. -/
theorem hashWithId_eq_iff (hnum : Function.Injective X.printNumber) {f g : Frame} {line line' : Bytes}
    (hf : Frame.parse X line = .ok f) (hg : Frame.parse X line' = .ok g) {i k : Id} (hi : f.id = some i)
    (hk : g.id = some k) (j : Id)
    (hcoll : Set.InjOn X.blake3 {canonicalize X (withId f.value j), canonicalize X (withId g.value j)}) :
    hashWithId X f.value j = hashWithId X g.value j ↔ SameButId f.value g.value := by
  obtain ⟨-, -, hef, -⟩ := (Frame.parse_eq_ok_iff X).mp hf
  obtain ⟨-, -, heg, -⟩ := (Frame.parse_eq_ok_iff X).mp hg
  rw [hi] at hef
  rw [hk] at heg
  rw [hashWithId_of_id hef, hashWithId_of_id heg, hexWithPrefix_injective.eq_iff, ← Subtype.ext_iff,
    payloadHash_eq_iff X hnum hcoll (withId_unique f.value_unique j) (.inl rfl) (.inr rfl)]
  exact same_withId_iff f.value_unique g.value_unique hef heg j

/-- **All hashes of a frame are one.** The recorder returns the hash the frame has, the reader compares it with the
event's, and the replay has it with the frame's own id; with one id in both, two frames have one hash if and only if
they are the same but for their top-level ids. -/
theorem hash_paths_agree (hnum : Function.Injective X.printNumber) {f : Frame} {line : Bytes}
    (hf : Frame.parse X line = .ok f) :
    (∀ (w w' : TraceWriter) (dir : Direction) (now : U128) (d d' : Disk) (s : Str),
      w.record X dir f now d = (.ok s, w', d') → s = f.payloadHashStr X) ∧
    (∀ (r : TraceReader) (d : Disk) (rec : EventRecord), r.Finds d rec f.raw → r.loadBlob X d rec =
      if rec.hash = f.payloadHashStr X then .ok f.raw
      else .error (.error (.hashMismatch rec.hash (f.payloadHashStr X)))) ∧
    (∀ i, f.id = some i → hashWithId X f.value i = f.payloadHashStr X) ∧
    ∀ (g : Frame) (line' : Bytes), Frame.parse X line' = .ok g → ∀ i k, f.id = some i → g.id = some k →
      ∀ j, Set.InjOn X.blake3 {canonicalize X (withId f.value j), canonicalize X (withId g.value j)} →
        (hashWithId X f.value j = hashWithId X g.value j ↔ SameButId f.value g.value) := by
  refine ⟨fun w w' dir now d d' s h => hash_of_record h,
    fun r d rec hfinds => loadBlob_of_frame hf hfinds, fun i hi => hashWithId_self hf hi, ?_⟩
  intro g line' hg i k hi hk j hcoll
  exact hashWithId_eq_iff hnum hf hg hi hk j hcoll

theorem hash_paths_agree_sample :
    ∃ (w w' : TraceWriter) (d d' : Disk) (s : Str),
      w.record (.plain sampleDigests) .c2a (sampleRequest 1) 0 d = (.ok s, w', d') ∧
      s = (sampleRequest 1).payloadHashStr (.plain sampleDigests) ∧
      sampleTrace.loadBlob (.plain sampleDigests) d'
        (TraceWriter.eventRecord (.plain sampleDigests) 0 .c2a (sampleRequest 1) 0) = .ok (sampleRequest 1).raw ∧
      hashWithId (.plain sampleDigests) (sampleRequest 1).value (sampleId 1)
        = (sampleRequest 1).payloadHashStr (.plain sampleDigests) ∧
      (hashWithId (.plain sampleDigests) (sampleRequest 1).value (sampleId 1)
        = hashWithId (.plain sampleDigests) (sampleRequest 7).value (sampleId 1) ↔
          SameButId (sampleRequest 1).value (sampleRequest 7).value) := by
  obtain ⟨hrecord, hload, hself, hother⟩ :=
    hash_paths_agree (printNumber_plain_injective sampleDigests) (parse_sampleRequest _ 1)
  obtain ⟨w, d, -, hw, hnone, -⟩ := createWithClock_noFaults (d := emptyDisk) rfl ['t'] (.newWithClock ['1'] [] ['0'])
  obtain ⟨w', d', hrec, hw', hblobs, -⟩ := record_noFaults (.plain sampleDigests) hw ⟨.c2a, sampleRequest 1, 0⟩
  have hblob : blobStore ['t'] d' ((sampleRequest 1).payloadHash (.plain sampleDigests)) = some (sampleRequest 1).raw := by
    rw [hblobs, FirstWins.put_apply, hnone, if_pos rfl]
    rfl
  have hforms : Set.InjOn (Crates.plain sampleDigests).blake3
      {canonicalize (.plain sampleDigests) (withId (sampleRequest 1).value (sampleId 1)),
        canonicalize (.plain sampleDigests) (withId (sampleRequest 7).value (sampleId 1))} := by
    apply injOn_sampleForms.mono
    rintro _ (rfl | rfl)
    · exact .inl rfl
    · exact .inl rfl
  refine ⟨w, w', d, d', _, hrec, hrecord _ _ _ _ _ _ _ hrec, ?_, hself _ rfl,
    hother _ _ (parse_sampleRequest _ 7) _ _ rfl rfl _ hforms⟩
  rw [hload _ _ _ (finds_of_blobStore hw'.noFaults rfl hblob), if_pos (TraceWriter.eventRecord_hash ..)]

end AcpCore.Replay
