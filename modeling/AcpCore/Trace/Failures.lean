import AcpCore.Trace.Recording

/-!
# Calls that fail

What the calls of a writer leave on the disk when any of their system calls fails.

## The model

`content` is a file's bytes, and `accepted` what a `BufWriter` is responsible for:
its file's bytes and, after them, what is pending.

## What is proved

* `casWrite_cases` — a blob that exists stays as it is, one that does not is
  created with its bytes or a proper part of them;
* `flush_cases`, `writeAll_accepted` — a `BufWriter` accepts all the bytes it is
  given where the call succeeds, and a beginning of them where it fails;
* `append_accepted`, `append_at_once`, `append_part` — the same of an event's line, and
  the one way for an append to fail that leaves nothing of it;
* `record_accepted` — both, of a whole call of `record`;
* `createWithClock_files_of_ne`, `finalize_files_of_ne` — no call touches other files.
-/

namespace AcpCore.Trace

open AcpCore.Text AcpCore.Wire

/-- The bytes of a file, none where there is no file. -/
def content (d : Disk) (p : Str) : Bytes := (d.files p).getD []

namespace Disk

theorem tick_files (d : Disk) : d.tick.2.files = d.files := by
  unfold tick
  cases d.faults.calls <;> rfl

theorem createDirAll_files (d : Disk) (p : Str) : (d.createDirAll p).2.files = d.files := by
  rw [← tick_files d, createDirAll]
  cases d.tick with
  | mk fault d₁ => cases fault <;> rfl

/-- A file is created, or it exists, or the call fails. -/
theorem createNew_cases {d d' : Disk} {p : Str} {r : Except IoError Unit} (h : d.createNew p = (r, d')) :
    (r = .ok () ∧ d.files p = none ∧ d'.files = Function.update d.files p (some [])) ∨
      (r = .error .alreadyExists ∧ (d.files p).isSome ∧ d'.files = d.files) ∨ (r = .error .other ∧ d'.files = d.files) := by
  have hfiles := tick_files d
  unfold createNew at h
  rcases htick : d.tick with ⟨_ | k, d₁⟩
  · rw [htick] at h hfiles
    simp only at h
    split_ifs at h with hex <;> cases h
    · exact .inr (.inl ⟨rfl, hfiles ▸ hex, hfiles⟩)
    · refine .inl ⟨rfl, ?_, by rw [set_files, hfiles]⟩
      rw [← hfiles]
      simpa using hex
  · rw [htick] at h hfiles
    cases h
    exact .inr (.inr ⟨rfl, hfiles⟩)

theorem openTruncate_files_of_ne (d : Disk) {p q : Str} (h : q ≠ p) : (d.openTruncate p).2.files q = d.files q := by
  have hfiles := tick_files d
  unfold openTruncate
  rcases htick : d.tick with ⟨_ | k, d₁⟩ <;> rw [htick] at hfiles
  · exact (Function.update_of_ne h ..).trans (congrFun hfiles q)
  · exact congrFun hfiles q

/-- A write appends all its bytes, or fails after a proper part of them. -/
theorem writeAll_cases {d d' : Disk} {p : Str} {b : Bytes} {r : Except ℕ Unit} (h : d.writeAll p b = (r, d')) :
    ∃ n, (r = .ok () ∧ n = b.length ∨ r = .error n ∧ n < b.length) ∧ content d' p = content d p ++ b.take n := by
  unfold writeAll at h
  by_cases hb : b = []
  · rw [if_pos hb] at h
    cases h
    exact ⟨0, .inl ⟨rfl, by rw [hb]; rfl⟩, by rw [List.take_zero, List.append_nil]⟩
  rw [if_neg hb] at h
  have hpos : 0 < b.length := List.length_pos_iff.mpr hb
  have hfiles := tick_files d
  rcases htick : d.tick with ⟨_ | k, d₁⟩ <;> rw [htick] at h hfiles <;> cases h
  · refine ⟨b.length, .inl ⟨rfl, rfl⟩, ?_⟩
    rw [List.take_length, content, set_files, Function.update_self, hfiles]
    rfl
  · refine ⟨min k (b.length - 1), .inr ⟨rfl, by omega⟩, ?_⟩
    rw [content, set_files, Function.update_self, hfiles]
    rfl

/-- A write that fails at once leaves the files as they were. -/
theorem writeAll_at_once {d : Disk} {p : Str} {a b : Bytes} (hp : d.files p = some a) (hb : b ≠ [])
    (htick : d.tick.1 = some 0) : (d.writeAll p b).1 = .error 0 ∧ (d.writeAll p b).2.files = d.files := by
  obtain ⟨d₁, hd⟩ : ∃ d₁, d.tick = (some 0, d₁) := ⟨d.tick.2, Prod.ext htick rfl⟩
  have hfiles : d₁.files = d.files := by rw [← tick_files d, hd]
  rw [writeAll, if_neg hb, hd]
  refine ⟨by simp only [Nat.zero_min], ?_⟩
  simp only [Nat.zero_min, List.take_zero, List.append_nil, set_files, hfiles, hp, Option.getD_some]
  rw [← hp, Function.update_eq_self]

/-- A write of several bytes fails at once only where the disk's next call does. -/
theorem tick_of_writeAll_error {d : Disk} {p : Str} {b : Bytes} (hb : 2 ≤ b.length)
    (h : (d.writeAll p b).1 = .error 0) : d.tick.1 = some 0 := by
  have hne : b ≠ [] := by
    rintro rfl
    cases hb
  rw [writeAll, if_neg hne] at h
  rcases hd : d.tick with ⟨_ | k, d₁⟩ <;> rw [hd] at h
  · cases h
  · simp only [Except.error.injEq] at h
    simp only [Option.some.injEq]
    omega

theorem isSome_writeAll {d : Disk} {p : Str} (b : Bytes) (h : (d.files p).isSome) :
    ((d.writeAll p b).2.files p).isSome := by
  unfold writeAll
  split_ifs
  · exact h
  · rcases d.tick with ⟨_ | k, d₁⟩ <;> simp only [set_files, Function.update_self, Option.isSome_some]

theorem writeAll_files_of_ne (d : Disk) {p q : Str} (b : Bytes) (h : q ≠ p) : (d.writeAll p b).2.files q = d.files q := by
  have hfiles := tick_files d
  unfold writeAll
  by_cases hb : b = []
  · rw [if_pos hb]
  rw [if_neg hb]
  rcases htick : d.tick with ⟨_ | k, d₁⟩ <;> rw [htick] at hfiles <;>
    exact (Function.update_of_ne h ..).trans (congrFun hfiles q)

end Disk

/-! ### Buffered writing -/

namespace BufWriter

/-- What a writer has accepted: what is in its file, and what is pending. -/
def accepted (w : BufWriter) (d : Disk) : Bytes := content d w.path ++ w.pending

variable {w w' : BufWriter} {d d' : Disk}

/-- Flushing moves what is pending into the file, some of it where it fails. -/
theorem flush_cases {r : Except IoError Unit} (h : w.flush d = (r, w', d')) :
    w'.path = w.path ∧ w'.accepted d' = w.accepted d ∧ (∀ q, q ≠ w.path → d'.files q = d.files q) ∧
      (r = .ok () ∧ w'.pending = [] ∨ r = .error .other) := by
  have hfiles : ∀ q, q ≠ w.path → (d.writeAll w.path w.pending).2.files q = d.files q := fun q hq =>
    Disk.writeAll_files_of_ne d w.pending hq
  unfold flush at h
  rcases hw : d.writeAll w.path w.pending with ⟨r₁, d₁⟩
  obtain ⟨n, hn, hcontent⟩ := Disk.writeAll_cases hw
  rw [hw] at h hfiles
  rcases hn with ⟨rfl, rfl⟩ | ⟨rfl, -⟩ <;> cases h
  · refine ⟨rfl, ?_, hfiles, .inl ⟨rfl, rfl⟩⟩
    rw [accepted, accepted, hcontent, List.take_length, List.append_nil]
  · refine ⟨rfl, ?_, hfiles, .inr rfl⟩
    rw [accepted, accepted, hcontent, List.append_assoc, List.take_append_drop]

/-- What `writeAll` does. The buffer is flushed or need not be; unless that fails, the bytes go into
the buffer, or past it when nothing is pending. -/
theorem writeAll_steps {b : Bytes} {r : Except IoError Unit} (h : w.writeAll b d = (r, w', d')) :
    ∃ r₁ v d₁, (b ≠ [] ∧ w.flush d = (r₁, v, d₁) ∨ r₁ = .ok () ∧ v = w ∧ d₁ = d) ∧
      (r₁ = .error .other ∧ r = .error .other ∧ w' = v ∧ d' = d₁ ∨
        r₁ = .ok () ∧ r = .ok () ∧ w' = { v with pending := v.pending ++ b } ∧ d' = d₁ ∨
        r₁ = .ok () ∧ v.pending = [] ∧ w' = v ∧ ∃ r₂, d₁.writeAll v.path b = (r₂, d') ∧
          (r₂ = .ok () ∧ r = .ok () ∨ (∃ n, r₂ = .error n) ∧ r = .error .other)) := by
  have hne : capacity - w.pending.length < b.length → b ≠ [] := by
    rintro hlt rfl
    cases hlt
  unfold writeAll at h
  split_ifs at h with hfit hflush hcap hcap
  · cases h
    exact ⟨_, w, d, .inr ⟨rfl, rfl, rfl⟩, .inr (.inl ⟨rfl, rfl, rfl, rfl⟩)⟩
  · rcases hf : w.flush d with ⟨r₁, v, d₁⟩
    rw [hf] at h
    rcases (flush_cases hf).2.2.2 with ⟨rfl, hempty⟩ | rfl
    · refine ⟨_, v, d₁, .inl ⟨hne hflush, rfl⟩, .inr (.inr ?_)⟩
      rcases hw : d₁.writeAll v.path b with ⟨k | u, d₂⟩ <;> simp only [hw] at h <;> cases h
      · exact ⟨rfl, hempty, rfl, _, rfl, .inr ⟨⟨k, rfl⟩, rfl⟩⟩
      · exact ⟨rfl, hempty, rfl, _, rfl, .inl ⟨rfl, rfl⟩⟩
    · cases h
      exact ⟨_, _, _, .inl ⟨hne hflush, rfl⟩, .inl ⟨rfl, rfl, rfl, rfl⟩⟩
  · rcases hf : w.flush d with ⟨r₁, v, d₁⟩
    rw [hf] at h
    rcases (flush_cases hf).2.2.2 with ⟨rfl, -⟩ | rfl <;> cases h
    · exact ⟨_, v, _, .inl ⟨hne hflush, rfl⟩, .inr (.inl ⟨rfl, rfl, rfl, rfl⟩)⟩
    · exact ⟨_, _, _, .inl ⟨hne hflush, rfl⟩, .inl ⟨rfl, rfl, rfl, rfl⟩⟩
  · have hempty : w.pending = [] := List.length_eq_zero_iff.mp (by
      have : 0 < capacity := by decide
      omega)
    refine ⟨_, w, d, .inr ⟨rfl, rfl, rfl⟩, .inr (.inr ?_)⟩
    rcases hw : d.writeAll w.path b with ⟨k | u, d₂⟩ <;> simp only [hw] at h <;> cases h
    · exact ⟨rfl, hempty, rfl, _, rfl, .inr ⟨⟨k, rfl⟩, rfl⟩⟩
    · exact ⟨rfl, hempty, rfl, _, rfl, .inl ⟨rfl, rfl⟩⟩
  · cases h
    exact ⟨_, w, d, .inr ⟨rfl, rfl, rfl⟩, .inr (.inl ⟨rfl, rfl, rfl, rfl⟩)⟩

/-- **A writer accepts what it is given**, a proper beginning of it where the call fails, and touches
no other file. -/
theorem writeAll_accepted {b : Bytes} {r : Except IoError Unit} (h : w.writeAll b d = (r, w', d')) :
    w'.path = w.path ∧ (∀ q, q ≠ w.path → d'.files q = d.files q) ∧
      ∃ n, (r = .ok () ∧ n = b.length ∨ r = .error .other ∧ n < b.length) ∧
        w'.accepted d' = w.accepted d ++ b.take n := by
  obtain ⟨r₁, v, d₁, hfirst, hthen⟩ := writeAll_steps h
  obtain ⟨hpath, hacc, hfiles⟩ : v.path = w.path ∧ v.accepted d₁ = w.accepted d ∧
      ∀ q, q ≠ w.path → d₁.files q = d.files q := by
    rcases hfirst with ⟨-, hf⟩ | ⟨-, rfl, rfl⟩
    · obtain ⟨hpath, hacc, hfiles, -⟩ := flush_cases hf
      exact ⟨hpath, hacc, hfiles⟩
    · exact ⟨rfl, rfl, fun _ _ => rfl⟩
  rcases hthen with ⟨rfl, rfl, rfl, rfl⟩ | ⟨rfl, rfl, rfl, rfl⟩ | ⟨rfl, hempty, rfl, r₂, hw, hr⟩
  · -- the buffer could not be flushed
    have hb : b ≠ [] := by
      rcases hfirst with ⟨hb, -⟩ | ⟨hr, -⟩
      · exact hb
      · cases hr
    exact ⟨hpath, hfiles, 0, .inr ⟨rfl, List.length_pos_iff.mpr hb⟩, by rw [hacc, List.take_zero, List.append_nil]⟩
  · -- the bytes are in the buffer
    refine ⟨hpath, hfiles, b.length, .inl ⟨rfl, rfl⟩, ?_⟩
    rw [List.take_length, ← hacc, accepted, accepted, List.append_assoc]
  · -- the bytes go past it
    obtain ⟨n, hn, hcontent⟩ := Disk.writeAll_cases hw
    have hother : ∀ q, q ≠ w.path → d'.files q = d.files q := by
      intro q hq
      have := Disk.writeAll_files_of_ne d₁ b (hpath ▸ hq)
      rw [hw] at this
      exact this.trans (hfiles q hq)
    refine ⟨hpath, hother, n, ?_, ?_⟩
    · rcases hn with ⟨rfl, hn⟩ | ⟨rfl, hn⟩ <;> rcases hr with ⟨hr, rfl⟩ | ⟨⟨k, hr⟩, rfl⟩ <;> cases hr
      · exact .inl ⟨rfl, hn⟩
      · exact .inr ⟨rfl, hn⟩
    · rw [← hacc, accepted, accepted, hempty, List.append_nil, List.append_nil, hcontent]

/-! ### With nothing pending -/

theorem writeAll_new_of_lt {path : Str} {b : Bytes} (hb : b.length < capacity) (d : Disk) :
    (new path).writeAll b d = (.ok (), ⟨path, b⟩, d) := by
  rw [writeAll, if_pos (by simpa [new] using hb)]
  rfl

/-- Bytes too many for the buffer go past it. -/
theorem writeAll_new_of_ge {path : Str} {b : Bytes} (hb : capacity ≤ b.length) (d : Disk) :
    (new path).writeAll b d = ((d.writeAll path b).1.mapError fun _ => .other, new path, (d.writeAll path b).2) := by
  have hflush : (if capacity - (new path).pending.length < b.length then (new path).flush d
      else (.ok (), new path, d)) = (.ok (), new path, d) := by
    split_ifs <;> rfl
  have hfit : ¬ b.length < capacity - (new path).pending.length := by
    simp only [new, List.length_nil]
    omega
  have hpath : (new path).path = path := rfl
  rw [writeAll, if_neg hfit, hflush]
  simp only [if_pos hb, hpath]
  rcases d.writeAll path b with ⟨k | u, d₁⟩ <;> rfl

end BufWriter

/-! ### The calls of a trace writer -/

namespace TraceWriter

variable {w w' : TraceWriter} {d d' : Disk}

/-- **The blob write.** Either no file changes, and where that is a success the blob was there; or the
blob was not there, and is now with its bytes, or after a failure with a proper part of them. -/
theorem casWrite_cases {hash : Str} {raw : Bytes} {r : Except TraceError Unit} (h : w.casWrite hash raw d = (r, d')) :
    (d'.files = d.files ∧ (r = .ok () → (d.files (blobPath w.blobs hash)).isSome)) ∨
      (d.files (blobPath w.blobs hash) = none ∧ (∀ q, q ≠ blobPath w.blobs hash → d'.files q = d.files q) ∧
        ∃ n, (r = .ok () ∧ n = raw.length ∨ (∃ e, r = .error e) ∧ n < raw.length) ∧
          d'.files (blobPath w.blobs hash) = some (raw.take n)) := by
  have hdir := Disk.createDirAll_files d (join w.blobs (hash.take 2))
  unfold casWrite at h
  rcases hd₁ : d.createDirAll (join w.blobs (hash.take 2)) with ⟨_ | _, d₁⟩ <;> rw [hd₁] at h hdir <;>
    simp only at h hdir
  · cases h
    exact .inl ⟨hdir, fun h => by cases h⟩
  rcases hd₂ : d₁.createNew (blobPath w.blobs hash) with ⟨r₂, d₂⟩
  rw [hd₂] at h
  rcases Disk.createNew_cases hd₂ with ⟨rfl, hnone, hfiles⟩ | ⟨rfl, hsome, hfiles⟩ | ⟨rfl, hfiles⟩
  · -- the file is created and then written
    rcases hd₃ : d₂.writeAll (blobPath w.blobs hash) raw with ⟨r₃, d₃⟩
    have hother : ∀ q, q ≠ blobPath w.blobs hash → d₃.files q = d.files q := by
      intro q hq
      have := Disk.writeAll_files_of_ne d₂ raw hq
      rw [hd₃] at this
      rw [this, hfiles, Function.update_of_ne hq, hdir]
    obtain ⟨n, hn, hcontent⟩ := Disk.writeAll_cases hd₃
    have hpart : d₃.files (blobPath w.blobs hash) = some (raw.take n) := by
      have hsome := Disk.isSome_writeAll raw (d := d₂) (p := blobPath w.blobs hash) (by rw [hfiles, Function.update_self]; rfl)
      rw [hd₃] at hsome
      obtain ⟨b, hb⟩ := Option.isSome_iff_exists.mp hsome
      rw [content, content, hb, hfiles, Function.update_self] at hcontent
      exact hb.trans (congrArg some hcontent)
    simp only [hd₃] at h
    rcases hn with ⟨rfl, hn⟩ | ⟨rfl, hn⟩ <;> cases h
    · exact .inr ⟨hdir ▸ hnone, hother, n, .inl ⟨rfl, hn⟩, hpart⟩
    · exact .inr ⟨hdir ▸ hnone, hother, n, .inr ⟨⟨_, rfl⟩, hn⟩, hpart⟩
  · -- dedup hit
    cases h
    exact .inl ⟨hfiles.trans hdir, fun _ => hdir ▸ hsome⟩
  · cases h
    exact .inl ⟨hfiles.trans hdir, fun h => by cases h⟩

theorem casWrite_files_of_ne {hash : Str} {raw : Bytes} {r : Except TraceError Unit} (h : w.casWrite hash raw d = (r, d'))
    {q : Str} (hq : q ≠ blobPath w.blobs hash) : d'.files q = d.files q := by
  rcases casWrite_cases h with ⟨hfiles, -⟩ | ⟨-, hother, -⟩
  · rw [hfiles]
  · exact hother q hq

/-- The line of an event. -/
def line (e : EventRecord) : Bytes := utf8 e.text ++ [0x0A]

/-- **The event append.** The log's writer accepts the event's line, or after a failure a beginning of
it; where the call succeeds nothing is pending and the position moves on. It accepts less than the
event's text only where writing the text failed. -/
theorem append_accepted {e : EventRecord} {r : Except TraceError Unit} (h : w.append e d = (r, w', d')) :
    w'.root = w.root ∧ w'.blobs = w.blobs ∧ w'.manifest = w.manifest ∧ w'.events.path = w.events.path ∧
      (∀ q, q ≠ w.events.path → d'.files q = d.files q) ∧
      ∃ n, w'.events.accepted d' = w.events.accepted d ++ (line e).take n ∧
        (r = .ok () ∧ n = (line e).length ∧ w'.events.pending = [] ∧ w'.nextSeq = w.nextSeq + 1 ∨
          r = .error .io ∧ w'.nextSeq = w.nextSeq ∧ (n < (utf8 e.text).length →
            w.events.writeAll (utf8 e.text) d = (.error .other, w'.events, d'))) := by
  unfold append at h
  rcases h₁ : w.events.writeAll (utf8 e.text) d with ⟨r₁, v₁, d₁⟩
  obtain ⟨hpath₁, hfiles₁, n₁, hn₁, hacc₁⟩ := BufWriter.writeAll_accepted h₁
  have hlen : (line e).length = (utf8 e.text).length + 1 := List.length_append
  rw [h₁] at h
  rcases hn₁ with ⟨rfl, rfl⟩ | ⟨rfl, hn₁⟩
  · rcases h₂ : v₁.writeAll [0x0A] d₁ with ⟨r₂, v₂, d₂⟩
    obtain ⟨hpath₂, hfiles₂, n₂, hn₂, hacc₂⟩ := BufWriter.writeAll_accepted h₂
    rw [hpath₁] at hpath₂ hfiles₂
    simp only [h₂] at h
    have hacc : v₂.accepted d₂ = w.events.accepted d ++ (line e).take ((utf8 e.text).length + n₂) := by
      rw [hacc₂, hacc₁, List.append_assoc, List.take_length, line, List.take_length_add_append]
    rcases hn₂ with ⟨rfl, rfl⟩ | ⟨rfl, hn₂⟩
    · rcases h₃ : v₂.flush d₂ with ⟨r₃, v₃, d₃⟩
      obtain ⟨hpath₃, hacc₃, hfiles₃, hr₃⟩ := BufWriter.flush_cases h₃
      rw [hpath₂] at hpath₃ hfiles₃
      have hfiles : ∀ q, q ≠ w.events.path → d₃.files q = d.files q := fun q hq =>
        (hfiles₃ q hq).trans ((hfiles₂ q hq).trans (hfiles₁ q hq))
      simp only [h₃] at h
      rcases hr₃ with ⟨rfl, hempty⟩ | rfl <;> cases h
      · exact ⟨rfl, rfl, rfl, hpath₃, hfiles, _, hacc₃.trans hacc, .inl ⟨rfl, hlen.symm, hempty, rfl⟩⟩
      · exact ⟨rfl, rfl, rfl, hpath₃, hfiles, _, hacc₃.trans hacc, .inr ⟨rfl, rfl, fun hlt => by omega⟩⟩
    · cases h
      exact ⟨rfl, rfl, rfl, hpath₂, fun q hq => (hfiles₂ q hq).trans (hfiles₁ q hq), _, hacc,
        .inr ⟨rfl, rfl, fun hlt => by omega⟩⟩
  · cases h
    refine ⟨rfl, rfl, rfl, hpath₁, hfiles₁, n₁, ?_, .inr ⟨rfl, rfl, fun _ => rfl⟩⟩
    rw [hacc₁, line, List.take_append_of_le_length hn₁.le]

theorem utf8_text_ne_nil (e : EventRecord) : utf8 e.text ≠ [] := by
  intro hnil
  have htext : e.text = [] := utf8_injective hnil
  rw [EventRecord.text_eq] at htext
  cases htext

/-- With nothing pending, an append whose text is too long for the buffer and cannot be written at all
changes nothing. -/
theorem append_at_once {e : EventRecord} {path : Str} {a : Bytes} (hw : w.events = .new path)
    (hlog : d.files path = some a) (hcap : BufWriter.capacity ≤ (utf8 e.text).length) (htick : d.tick.1 = some 0) :
    ∃ d', w.append e d = (.error .io, w, d') ∧ d'.files = d.files := by
  obtain ⟨herror, hfiles⟩ := Disk.writeAll_at_once hlog (utf8_text_ne_nil e) htick
  have hfirst : w.events.writeAll (utf8 e.text) d = (.error .other, .new path, (d.writeAll path (utf8 e.text)).2) := by
    rw [hw, BufWriter.writeAll_new_of_ge hcap, herror]
    rfl
  refine ⟨_, ?_, hfiles⟩
  rw [append, hfirst, ← hw]

/-- With nothing pending, any other append that fails has accepted a part of the line. -/
theorem append_part {e : EventRecord} {path : Str} (hw : w.events = .new path) (h : w.append e d = (.error .io, w', d'))
    (hnot : ¬ (BufWriter.capacity ≤ (utf8 e.text).length ∧ d.tick.1 = some 0)) :
    (w.events.accepted d).length < (w'.events.accepted d').length := by
  obtain ⟨-, -, -, -, -, n, hn, ⟨hr, -⟩ | ⟨-, -, hfirst⟩⟩ := append_accepted h
  · cases hr
  have hpos : 0 < (utf8 e.text).length := List.length_pos_iff.mpr (utf8_text_ne_nil e)
  have hline : (line e).length = (utf8 e.text).length + 1 := List.length_append
  -- if nothing of the line was accepted, writing its text failed at once
  have hzero : n ≠ 0 := by
    rintro rfl
    have hfailed := hfirst hpos
    rw [hw] at hfailed
    by_cases hlt : (utf8 e.text).length < BufWriter.capacity
    · rw [BufWriter.writeAll_new_of_lt hlt] at hfailed
      cases hfailed
    have hcap := Nat.le_of_not_lt hlt
    refine hnot ⟨hcap, Disk.tick_of_writeAll_error (p := path) (le_trans (by decide) hcap) ?_⟩
    rw [BufWriter.writeAll_new_of_ge hcap] at hfailed
    rcases hd : d.writeAll path (utf8 e.text) with ⟨r₁, d₁⟩
    obtain ⟨k, hk, hcontent⟩ := Disk.writeAll_cases hd
    rw [hd, Prod.mk.injEq, Prod.mk.injEq] at hfailed
    obtain ⟨hfailed, hevents, rfl⟩ := hfailed
    rcases hk with ⟨rfl, -⟩ | ⟨rfl, hk⟩
    · cases hfailed
    rw [List.take_zero, List.append_nil, hw, ← hevents] at hn
    have hsame : content d₁ path = content d path := List.append_cancel_right hn
    have hlen := congrArg List.length (hcontent.symm.trans hsame)
    rw [List.length_append, List.length_take] at hlen
    have : k = 0 := by omega
    rw [this]
  rw [hn, List.length_append, List.length_take]
  omega

end TraceWriter

variable {X : Crates}

/-- A writer of a trace, in whatever state. -/
structure Writes (root : Str) (w : TraceWriter) : Prop where
  /-- The directory. -/
  root_eq : w.root = root
  /-- The blobs' directory. -/
  blobs : w.blobs = join root blobsDir
  /-- The log. -/
  path : w.events.path = join root eventsFile

theorem Recorded.writes {root : Str} {m : Manifest} {recs : List EventRecord} {w : TraceWriter} {d : Disk}
    (h : Recorded root m recs w d) : Writes root w := ⟨h.root_eq, h.blobs_eq, by rw [h.events_eq]; rfl⟩

/-- The blob write leaves the log alone. -/
theorem casWrite_log {root : Str} {w : TraceWriter} (hw : Writes root w) {h : Digest} {raw : Bytes} {d d' : Disk}
    {r : Except TraceError Unit} (hcas : w.casWrite (formatBlake3Hex h.1) raw d = (r, d')) :
    d'.files (join root eventsFile) = d.files (join root eventsFile) ∧
      d'.files (join root manifestFile) = d.files (join root manifestFile) := by
  refine ⟨TraceWriter.casWrite_files_of_ne hcas ?_, TraceWriter.casWrite_files_of_ne hcas ?_⟩ <;> rw [hw.blobs]
  · exact (blobPath_ne (c := 'e') rfl (by decide) (by decide) h).symm
  · exact (blobPath_ne (c := 'm') rfl (by decide) (by decide) h).symm

/-- **One call, in whatever state**: the log's writer accepts its line, or where it fails a beginning of it. -/
theorem record_accepted {root : Str} {w w' : TraceWriter} (hw : Writes root w) {c : Call} {d d' : Disk}
    {r : Except TraceError Str} (h : w.record X c.dir c.frame c.now d = (r, w', d')) :
    Writes root w' ∧ ∃ n, w'.events.accepted d' = w.events.accepted d ++
        (TraceWriter.line (TraceWriter.eventRecord X w.nextSeq c.dir c.frame c.now)).take n ∧
      (r.isOk = true → n = (TraceWriter.line (TraceWriter.eventRecord X w.nextSeq c.dir c.frame c.now)).length ∧
        w'.events.pending = []) := by
  rw [TraceWriter.record] at h
  rcases hcas : w.casWrite (formatBlake3Hex (c.frame.payloadHash X).1) c.frame.raw d with ⟨r₁, d₁⟩
  have hacc₁ : w.events.accepted d₁ = w.events.accepted d := by
    rw [BufWriter.accepted, BufWriter.accepted, content, content, hw.path, (casWrite_log hw hcas).1]
  rw [hcas] at h
  cases r₁ with
  | error e =>
    cases h
    exact ⟨hw, 0, by rw [hacc₁, List.take_zero, List.append_nil], fun h => by cases h⟩
  | ok u =>
    rcases happ : w.append (TraceWriter.eventRecord X w.nextSeq c.dir c.frame c.now) d₁ with ⟨r₂, w₂, d₂⟩
    obtain ⟨hroot, hblobs, -, hpath, -, n, hacc, hr⟩ := TraceWriter.append_accepted happ
    rw [hacc₁] at hacc
    simp only [happ] at h
    rcases hr with ⟨rfl, hn, hempty, -⟩ | ⟨rfl, -⟩ <;> cases h
    · exact ⟨⟨hroot.trans hw.root_eq, hblobs.trans hw.blobs, hpath.trans hw.path⟩, n, hacc, fun _ => ⟨hn, hempty⟩⟩
    · exact ⟨⟨hroot.trans hw.root_eq, hblobs.trans hw.blobs, hpath.trans hw.path⟩, n, hacc, fun h => by cases h⟩

/-! ### Other files -/

theorem BufWriter.drop_files_of_ne (w : BufWriter) (d : Disk) {q : Str} (h : q ≠ w.path) : (w.drop d).files q = d.files q := by
  rcases hf : w.flush d with ⟨r, v, d₁⟩
  rw [BufWriter.drop, hf]
  exact (BufWriter.flush_cases hf).2.2.1 q h

theorem createWithClock_files_of_ne (root : Str) (m : Manifest) (d : Disk) {q : Str} (hlog : q ≠ join root eventsFile)
    (hmanifest : q ≠ join root manifestFile) : (TraceWriter.createWithClock root m d).2.files q = d.files q := by
  have hdir := Disk.createDirAll_files d root
  unfold TraceWriter.createWithClock
  rcases h₁ : d.createDirAll root with ⟨_ | _, d₁⟩ <;> rw [h₁] at hdir
  · exact congrFun hdir q
  have hdir₁ := Disk.createDirAll_files d₁ (join root blobsDir)
  rcases h₂ : d₁.createDirAll (join root blobsDir) with ⟨_ | _, d₂⟩ <;> rw [h₂] at hdir₁ <;> simp only [h₂]
  · exact (congrFun hdir₁ q).trans (congrFun hdir q)
  have hwrite := Disk.write_files_of_ne d₂ m.toVecPretty hmanifest
  rcases h₃ : d₂.write (join root manifestFile) m.toVecPretty with ⟨_ | _, d₃⟩ <;> rw [h₃] at hwrite <;> simp only
  · exact hwrite.trans ((congrFun hdir₁ q).trans (congrFun hdir q))
  have hopen := Disk.openTruncate_files_of_ne d₃ hlog
  rcases h₄ : d₃.openTruncate (join root eventsFile) with ⟨_ | _, d₄⟩ <;> rw [h₄] at hopen <;>
    exact hopen.trans (hwrite.trans ((congrFun hdir₁ q).trans (congrFun hdir q)))

theorem finalize_files_of_ne {root : Str} {w : TraceWriter} (hw : Writes root w) (now : Str) (d : Disk) {q : Str}
    (hlog : q ≠ join root eventsFile) (hmanifest : q ≠ join root manifestFile) :
    (w.finalize X now d).2.files q = d.files q := by
  rcases hf : w.events.flush d with ⟨r, v, d₁⟩
  obtain ⟨hpath, -, hflush, -⟩ := BufWriter.flush_cases hf
  have hdrop := BufWriter.drop_files_of_ne v d₁ (q := q) (by rwa [hpath, hw.path])
  have hboth := hdrop.trans (hflush q (by rwa [hw.path]))
  rw [TraceWriter.finalize, hf]
  cases r with
  | error e => exact hboth
  | ok u =>
    rcases hr : (v.drop d₁).read (join w.root eventsFile) with _ | bytes <;> simp only [hr]
    · exact hboth
    have hwrite := Disk.write_files_of_ne (v.drop d₁) (w.finalManifest X bytes now).toVecPretty (hw.root_eq ▸ hmanifest)
    rcases h₃ : (v.drop d₁).write (join w.root manifestFile) (w.finalManifest X bytes now).toVecPretty with ⟨_ | _, d₃⟩ <;>
      rw [h₃] at hwrite <;> exact hwrite.trans hboth

/-- A disk without files whose call of this number fails, counted from zero. -/
def failsAt (n : ℕ) : Disk := ⟨fun _ => none, ⟨List.replicate n none ++ [some 0], fun _ => false⟩⟩

end AcpCore.Trace
