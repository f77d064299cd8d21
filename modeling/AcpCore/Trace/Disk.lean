import AcpCore.Library.Text
import Mathlib.Data.List.Basic
import Mathlib.Data.Nat.Notation
import Mathlib.Logic.Function.Basic

/-!
# Files

The file system as the trace uses it.

## The model

A `Disk` gives each path the bytes of its file, if there is one; directories are
there when they are needed. Its `faults` say of each coming system call that creates or
writes a file whether it fails, and which files cannot be read. A failing write leaves a
proper part of its bytes in the file; how many is for the fault to say. A path is its
text, and two texts are two files.

`BufWriter` is the standard library's, with its capacity: what it has accepted and
not yet written is pending, also after a failure.

## What is proved

* what each call does on a disk without faults, and that a call that succeeds does
  the same on one (`healed`);
* `BufWriter.writeAll_noFaults`, `BufWriter.flush_noFaults` — what is in the file
  and what is pending, taken together, grow by what is written.
-/

namespace AcpCore.Trace

open AcpCore.Text

/-- `Path::join`. -/
def join (p q : Str) : Str :=
  if q.head? = some '/' then q
  else if p = [] ∨ p.getLast? = some '/' then p ++ q
  else p ++ '/' :: q

/-- An `io::Error`, by the one kind the source looks at. -/
inductive IoError where
  /-- `ErrorKind::AlreadyExists`. -/
  | alreadyExists
  /-- Any other kind. -/
  | other
  deriving DecidableEq

/-- What fails. -/
structure Faults where
  /-- For each coming system call that creates or writes: nothing, or that it fails, a write after so many bytes. -/
  calls : List (Option ℕ)
  /-- The files that cannot be read. -/
  unreadable : Str → Bool

/-- Nothing fails. -/
def Faults.none : Faults := ⟨[], fun _ => false⟩

/-- The files, and what fails. -/
structure Disk where
  /-- The bytes of the file at each path. -/
  files : Str → Option Bytes
  /-- What fails. -/
  faults : Faults

namespace Disk

/-- Whether the next system call that creates or writes fails. -/
def tick (d : Disk) : Option ℕ × Disk :=
  match d.faults.calls with
  | [] => (none, d)
  | f :: fs => (f, { d with faults := { d.faults with calls := fs } })

/-- A disk with other content at a path. -/
def set (d : Disk) (p : Str) (b : Bytes) : Disk := { d with files := Function.update d.files p (some b) }

@[simp] theorem set_files (d : Disk) (p : Str) (b : Bytes) :
    (d.set p b).files = Function.update d.files p (some b) := rfl

@[simp] theorem set_faults (d : Disk) (p : Str) (b : Bytes) : (d.set p b).faults = d.faults := rfl

/-- `fs::create_dir_all`. -/
def createDirAll (d : Disk) (_p : Str) : Except IoError Unit × Disk :=
  match d.tick with
  | (some _, d) => (.error .other, d)
  | (none, d) => (.ok (), d)

/-- `OpenOptions::new().create_new(true).write(true).open`. -/
def createNew (d : Disk) (p : Str) : Except IoError Unit × Disk :=
  match d.tick with
  | (some _, d) => (.error .other, d)
  | (none, d) => if (d.files p).isSome then (.error .alreadyExists, d) else (.ok (), d.set p [])

/-- `OpenOptions::new().create(true).truncate(true).write(true).open`. -/
def openTruncate (d : Disk) (p : Str) : Except IoError Unit × Disk :=
  match d.tick with
  | (some _, d) => (.error .other, d)
  | (none, d) => (.ok (), d.set p [])

/-- `File::write_all` at the end of a file; where it fails, how many bytes it has written. -/
def writeAll (d : Disk) (p : Str) (b : Bytes) : Except ℕ Unit × Disk :=
  if b = [] then (.ok (), d)
  else
    match d.tick with
    | (some k, d) =>
      let n := min k (b.length - 1)
      (.error n, d.set p ((d.files p).getD [] ++ b.take n))
    | (none, d) => (.ok (), d.set p ((d.files p).getD [] ++ b))

/-- `fs::write`. -/
def write (d : Disk) (p : Str) (b : Bytes) : Except IoError Unit × Disk :=
  match d.openTruncate p with
  | (.error e, d) => (.error e, d)
  | (.ok (), d) =>
    match d.writeAll p b with
    | (.error _, d) => (.error .other, d)
    | (.ok (), d) => (.ok (), d)

/-- `fs::read`. -/
def read (d : Disk) (p : Str) : Except IoError Bytes :=
  if d.faults.unreadable p then .error .other
  else
    match d.files p with
    | none => .error .other
    | some b => .ok b

/-- `Path::exists`. -/
def isFile (d : Disk) (p : Str) : Bool := (d.files p).isSome

/-! ### Without faults -/

variable {d : Disk} (hd : d.faults = .none)

include hd

theorem tick_noFaults : d.tick = (none, d) := by
  rw [tick, hd]
  rfl

theorem createDirAll_noFaults (p : Str) : d.createDirAll p = (.ok (), d) := by
  rw [createDirAll, tick_noFaults hd]

theorem createNew_noFaults (p : Str) :
    d.createNew p = if (d.files p).isSome then (.error .alreadyExists, d) else (.ok (), d.set p []) := by
  rw [createNew, tick_noFaults hd]

theorem openTruncate_noFaults (p : Str) : d.openTruncate p = (.ok (), d.set p []) := by
  rw [openTruncate, tick_noFaults hd]

theorem writeAll_noFaults {p : Str} {b a : Bytes} (hp : d.files p = some a) :
    ∃ d', d.writeAll p b = (.ok (), d') ∧ d'.faults = .none ∧ d'.files = Function.update d.files p (some (a ++ b)) := by
  by_cases hb : b = []
  · refine ⟨d, by rw [writeAll, if_pos hb], hd, ?_⟩
    rw [hb, List.append_nil, ← hp, Function.update_eq_self]
  · refine ⟨d.set p (a ++ b), ?_, hd, rfl⟩
    rw [writeAll, if_neg hb, tick_noFaults hd]
    simp only [hp, Option.getD_some]

theorem write_noFaults (p : Str) (b : Bytes) :
    ∃ d', d.write p b = (.ok (), d') ∧ d'.faults = .none ∧ d'.files = Function.update d.files p (some b) := by
  obtain ⟨d', hw, hf, hfiles⟩ := writeAll_noFaults (d := d.set p []) hd (p := p) (b := b) (a := []) (by simp)
  refine ⟨d', by rw [write, openTruncate_noFaults hd]; simp only [hw], hf, ?_⟩
  rw [hfiles, set_files, Function.update_idem, List.nil_append]

theorem read_noFaults {p : Str} {b : Bytes} (hp : d.files p = some b) : d.read p = .ok b := by
  rw [read, hd, hp]
  rfl

omit hd

/-! ### Calls that succeed -/

/-- The same files, on a disk on which nothing more fails. -/
def healed (d : Disk) : Disk := { d with faults := .none }

@[simp] theorem healed_files (d : Disk) : d.healed.files = d.files := rfl

theorem createDirAll_healed {d d' : Disk} {p : Str} (h : d.createDirAll p = (.ok (), d')) :
    d.healed.createDirAll p = (.ok (), d'.healed) := by
  obtain ⟨files, ⟨_ | ⟨_ | k, fs⟩, unreadable⟩⟩ := d <;> cases h <;> rfl

theorem openTruncate_healed {d d' : Disk} {p : Str} (h : d.openTruncate p = (.ok (), d')) :
    d.healed.openTruncate p = (.ok (), d'.healed) := by
  obtain ⟨files, ⟨_ | ⟨_ | k, fs⟩, unreadable⟩⟩ := d <;> cases h <;> rfl

theorem createNew_healed {d d' : Disk} {p : Str} {r : Except IoError Unit} (h : d.createNew p = (r, d'))
    (hr : r ≠ .error .other) : d.healed.createNew p = (r, d'.healed) := by
  rw [createNew_noFaults rfl, healed_files]
  obtain ⟨files, ⟨_ | ⟨_ | k, fs⟩, unreadable⟩⟩ := d
  · simp only [createNew, tick] at h
    split_ifs at h ⊢ <;> cases h <;> rfl
  · simp only [createNew, tick] at h
    split_ifs at h ⊢ <;> cases h <;> rfl
  · cases h
    exact absurd rfl hr

theorem writeAll_healed {d d' : Disk} {p : Str} {b : Bytes} (h : d.writeAll p b = (.ok (), d')) :
    d.healed.writeAll p b = (.ok (), d'.healed) := by
  rw [writeAll] at h ⊢
  split_ifs at h ⊢
  · cases h
    rfl
  · obtain ⟨files, ⟨_ | ⟨_ | k, fs⟩, unreadable⟩⟩ := d <;> cases h <;> rfl

theorem write_healed {d d' : Disk} {p : Str} {b : Bytes} (h : d.write p b = (.ok (), d')) :
    d.healed.write p b = (.ok (), d'.healed) := by
  rw [write] at h ⊢
  split at h
  · cases h
  · next d₁ hopen =>
    split at h
    · cases h
    · next d₂ hw =>
      cases h
      rw [openTruncate_healed hopen]
      simp only [writeAll_healed hw]

/-- Writing a file leaves the others alone, however it goes. -/
theorem write_files_of_ne (d : Disk) {p q : Str} (b : Bytes) (h : q ≠ p) : (d.write p b).2.files q = d.files q := by
  obtain ⟨files, ⟨calls, unreadable⟩⟩ := d
  rw [write, openTruncate]
  rcases calls with _ | ⟨_ | k, fs⟩
  · simp only [tick]
    by_cases hb : b = []
    · simp [writeAll, hb, Function.update_of_ne h]
    · simp [writeAll, hb, tick, Function.update_of_ne h]
  · simp only [tick]
    by_cases hb : b = []
    · simp [writeAll, hb, Function.update_of_ne h]
    · rcases fs with _ | ⟨_ | k, fs⟩ <;> simp [writeAll, hb, tick, Function.update_of_ne h]
  · rfl

theorem read_healed {d : Disk} {p : Str} {b : Bytes} (h : d.read p = .ok b) : d.healed.read p = .ok b := by
  rw [read] at h
  split_ifs at h
  split at h
  · cases h
  · next hp =>
    cases h
    exact read_noFaults rfl hp

end Disk

/-! ### Buffered writing -/

/-- A `BufWriter<File>`. -/
structure BufWriter where
  /-- The path the file was opened at. -/
  path : Str
  /-- What is accepted and not written. -/
  pending : Bytes

namespace BufWriter

/-- `BufWriter`'s default capacity. -/
def capacity : ℕ := 8192

/-- `BufWriter::new`. -/
def new (path : Str) : BufWriter := ⟨path, []⟩

/-- `flush`: what could not be written stays pending. -/
def flush (w : BufWriter) (d : Disk) : Except IoError Unit × BufWriter × Disk :=
  match d.writeAll w.path w.pending with
  | (.error n, d) => (.error .other, { w with pending := w.pending.drop n }, d)
  | (.ok (), d) => (.ok (), { w with pending := [] }, d)

/-- `write_all`: into the buffer if it fits, else past it. -/
def writeAll (w : BufWriter) (b : Bytes) (d : Disk) : Except IoError Unit × BufWriter × Disk :=
  if b.length < capacity - w.pending.length then (.ok (), { w with pending := w.pending ++ b }, d)
  else
    match (if capacity - w.pending.length < b.length then w.flush d else (.ok (), w, d)) with
    | (.error e, w, d) => (.error e, w, d)
    | (.ok (), w, d) =>
      if capacity ≤ b.length then
        match d.writeAll w.path b with
        | (.error _, d) => (.error .other, w, d)
        | (.ok (), d) => (.ok (), w, d)
      else (.ok (), { w with pending := w.pending ++ b }, d)

/-- Dropping a writer flushes it and ignores how that went. -/
def drop (w : BufWriter) (d : Disk) : Disk := (w.flush d).2.2

/-- The file and what is pending, and nothing else on the disk: what a writer is responsible for. -/
structure Holds (w : BufWriter) (files : Str → Option Bytes) (b : Bytes) (d : Disk) : Prop where
  /-- Nothing fails. -/
  noFaults : d.faults = .none
  /-- The file holds the beginning, the buffer the rest. -/
  content : ∃ a, d.files = Function.update files w.path (some a) ∧ a ++ w.pending = b

variable {w : BufWriter} {files : Str → Option Bytes} {a : Bytes} {d : Disk}

theorem flush_noFaults (h : w.Holds files a d) :
    ∃ d', w.flush d = (.ok (), { w with pending := [] }, d') ∧ d'.faults = .none ∧
      d'.files = Function.update files w.path (some a) := by
  obtain ⟨hf, c, hfiles, rfl⟩ := h
  have hc : d.files w.path = some c := by rw [hfiles, Function.update_self]
  obtain ⟨d', hw, hf', hfiles'⟩ := Disk.writeAll_noFaults hf (b := w.pending) hc
  refine ⟨d', by rw [flush, hw], hf', ?_⟩
  rw [hfiles', hfiles, Function.update_idem]

theorem writeAll_noFaults (h : w.Holds files a d) (b : Bytes) :
    ∃ p d', w.writeAll b d = (.ok (), { w with pending := p }, d') ∧
      ({ w with pending := p } : BufWriter).Holds files (a ++ b) d' := by
  have hbuffer : ∀ {v : BufWriter} {d : Disk}, v.path = w.path → v.Holds files a d →
      ({ w with pending := v.pending ++ b } : BufWriter).Holds files (a ++ b) d := by
    rintro ⟨p, q⟩ d rfl ⟨hf, c, hfiles, rfl⟩
    exact ⟨hf, c, hfiles, (List.append_assoc c q b).symm⟩
  rw [writeAll]
  by_cases hfit : b.length < capacity - w.pending.length
  · exact ⟨w.pending ++ b, d, if_pos hfit, hbuffer rfl h⟩
  rw [if_neg hfit]
  -- the buffer is flushed unless the bytes just fill it; then they go to the buffer or past it
  obtain ⟨v, d₁, hv, hpath, hv₁⟩ : ∃ v d₁, (if capacity - w.pending.length < b.length then w.flush d else (.ok (), w, d))
      = (.ok (), v, d₁) ∧ v.path = w.path ∧ (v.Holds files a d₁ ∧ (capacity ≤ b.length → v.pending = [])) := by
    split_ifs with hflush
    · obtain ⟨d₁, hd₁, hf₁, hfiles₁⟩ := flush_noFaults h
      exact ⟨_, d₁, hd₁, rfl, ⟨hf₁, a, hfiles₁, List.append_nil a⟩, fun _ => rfl⟩
    · refine ⟨w, d, rfl, rfl, h, fun hcap => List.length_eq_zero_iff.mp ?_⟩
      have : 0 < capacity := by decide
      omega
  simp only [hv]
  obtain ⟨⟨hf, c, hfiles, hc⟩, hempty⟩ := hv₁
  by_cases hcap : capacity ≤ b.length
  · obtain rfl : c = a := by rw [hempty hcap, List.append_nil] at hc; exact hc
    have hcv : d₁.files v.path = some c := by rw [hfiles, Function.update_self]
    obtain ⟨d', hw, hf', hfiles'⟩ := Disk.writeAll_noFaults hf (b := b) hcv
    refine ⟨[], d', ?_, hf', c ++ b, ?_, List.append_nil _⟩
    · rw [if_pos hcap, hw]
      obtain ⟨vp, vq⟩ := v
      cases hpath
      cases hempty hcap
      rfl
    · rw [hfiles', hfiles, Function.update_idem, hpath]
  · refine ⟨v.pending ++ b, d₁, ?_, hbuffer hpath ⟨hf, c, hfiles, hc⟩⟩
    rw [if_neg hcap, ← hpath]

/-! ### Calls that succeed -/

variable {w' : BufWriter} {d' : Disk}

theorem flush_healed (h : w.flush d = (.ok (), w', d')) : w.flush d.healed = (.ok (), w', d'.healed) := by
  rw [flush] at h ⊢
  split at h
  · cases h
  · next d₁ hw =>
    cases h
    rw [Disk.writeAll_healed hw]

theorem writeAll_healed {b : Bytes} (h : w.writeAll b d = (.ok (), w', d')) :
    w.writeAll b d.healed = (.ok (), w', d'.healed) := by
  rw [writeAll] at h ⊢
  split_ifs at h ⊢ with hfit hflush hcap hcap
  · cases h
    rfl
  · split at h
    · cases h
    · next w₁ d₁ hw =>
      rw [flush_healed hw]
      simp only at h ⊢
      split at h
      · cases h
      · next d₂ hd =>
        cases h
        rw [Disk.writeAll_healed hd]
  · split at h
    · cases h
    · next w₁ d₁ hw =>
      cases h
      rw [flush_healed hw]
  · simp only at h ⊢
    split at h
    · cases h
    · next d₂ hd =>
      cases h
      rw [Disk.writeAll_healed hd]
  · cases h
    rfl

end BufWriter

end AcpCore.Trace
