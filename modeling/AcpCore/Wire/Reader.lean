import AcpCore.Wire.Frame
import AcpCore.Library.Lines

/-!
# Newline-delimited frames

Reading frames from a byte stream and writing them to one.

## The model

A stream is the list of its bytes; how a `BufRead` cuts it into chunks does not
show. `FrameReader.readFrame` skips empty lines by calling itself, as the source
does, on a stack with room for those calls (`Wire.Splitter` counts them), and
`FrameReader.results` is what calling it again and again returns, errors
included, until it returns `None`: the source's loops take these results one
after another and stop at the first error.

## What is proved

* `FrameReader.results_eq` — a reader returns what `Frame.parse` says of each
  nonempty line, in order;
* `FrameReader.results_joinLines` — the lines of frames, each with its newline,
  are read back as frames of the same values.
-/

namespace AcpCore.Wire

open AcpCore.Text

/-- `FrameReader`. -/
structure FrameReader where
  /-- What is left of the stream. -/
  inner : Bytes
  /-- The line read last. -/
  buf : Bytes

/-- `FrameReader::new`. -/
def FrameReader.new (inner : Bytes) : FrameReader := ⟨inner, []⟩

/-- A line without one trailing newline and one carriage return before it. -/
def stripNewline (buf : Bytes) : Bytes :=
  if buf.getLast? = some 0x0A then
    if buf.dropLast.getLast? = some 0x0D then buf.dropLast.dropLast else buf.dropLast
  else buf

variable (X : Crates)

/-- `FrameReader::read_frame`. -/
def FrameReader.readFrame : FrameReader → Except WireError (Option Frame) × FrameReader
  | ⟨[], _⟩ => (.ok none, ⟨[], []⟩)
  | ⟨c :: s, _⟩ =>
    let buf := (Lines.readUntil 0x0A (c :: s)).1
    let inner := (Lines.readUntil 0x0A (c :: s)).2
    -- an empty line is skipped
    if stripNewline buf = [] then FrameReader.readFrame ⟨inner, buf⟩
    else
      match Frame.parse X (stripNewline buf) with
      | .error e => (.error e, ⟨inner, buf⟩)
      | .ok frame => (.ok (some frame), ⟨inner, buf⟩)
termination_by r => r.inner.length
decreasing_by exact Lines.readUntil_length_lt 0x0A

theorem FrameReader.readFrame_nil (b : Bytes) : FrameReader.readFrame X ⟨[], b⟩ = (.ok none, ⟨[], []⟩) := by
  rw [readFrame]

/-- A call that does not return `None` has taken something from the stream. -/
theorem FrameReader.readFrame_length (r : FrameReader) :
    (r.readFrame X).1 = .ok none ∨ (r.readFrame X).2.inner.length < r.inner.length := by
  induction h : r.inner.length using Nat.strong_induction_on generalizing r with
  | _ n ih =>
    subst h
    obtain ⟨_ | ⟨c, s⟩, b⟩ := r
    · exact .inl (congrArg Prod.fst (readFrame_nil X b))
    · have hlt : (Lines.readUntil 0x0A (c :: s)).2.length < (c :: s).length := Lines.readUntil_length_lt 0x0A
      rw [readFrame]
      split_ifs
      · exact (ih _ hlt ⟨_, _⟩ rfl).imp id fun h => h.trans hlt
      · split
        · exact .inr hlt
        · exact .inr hlt

/-- What `read_frame` returns, called until it returns `None`. -/
def FrameReader.results (r : FrameReader) : List (Except WireError Frame) :=
  match _h : r.readFrame X with
  | (.ok none, _) => []
  | (.ok (some frame), r') => .ok frame :: FrameReader.results r'
  | (.error e, r') => .error e :: FrameReader.results r'
termination_by r.inner.length
decreasing_by
  all_goals
    rcases FrameReader.readFrame_length X r with h | h <;> rw [_h] at h
    · cases h
    · exact h

/-! ### The results, line by line -/

/-- What a line gives: nothing if it is empty, else what `Frame::parse` says of it. -/
def lineResult (line : Bytes) : Option (Except WireError Frame) :=
  if stripNewline line = [] then none else some (Frame.parse X (stripNewline line))

/-- A reader returns what each nonempty line of the stream gives, in order. -/
theorem FrameReader.results_eq (r : FrameReader) :
    r.results X = (Lines.splitLines 0x0A r.inner).filterMap (lineResult X) := by
  induction h : r.inner.length using Nat.strong_induction_on generalizing r with
  | _ n ih =>
    subst h
    obtain ⟨_ | ⟨c, s⟩, b⟩ := r
    · rw [results]
      split
      · rfl
      · next h => rw [readFrame_nil] at h; cases h
      · next h => rw [readFrame_nil] at h; cases h
    · have hlt : (Lines.readUntil 0x0A (c :: s)).2.length < (c :: s).length := Lines.readUntil_length_lt 0x0A
      have hrest := ih _ hlt ⟨(Lines.readUntil 0x0A (c :: s)).2, (Lines.readUntil 0x0A (c :: s)).1⟩ rfl
      have hread := readFrame.eq_2 X c s b
      rw [Lines.splitLines_eq, List.filterMap_cons, ← hrest, lineResult]
      by_cases hempty : stripNewline (Lines.readUntil 0x0A (c :: s)).1 = []
      · -- the empty line is skipped: the call is the call on the rest
        simp only [if_pos hempty] at hread ⊢
        rw [results, results, hread]
      · simp only [if_neg hempty] at hread ⊢
        rw [results, hread]
        cases Frame.parse X (stripNewline (Lines.readUntil 0x0A (c :: s)).1) <;> rfl

/-- The frames returned are those of their own bytes. -/
theorem FrameReader.parse_of_mem_results {r : FrameReader} {f : Frame} (h : .ok f ∈ r.results X) :
    Frame.parse X f.raw = .ok f := by
  rw [results_eq, List.mem_filterMap] at h
  obtain ⟨line, -, hline⟩ := h
  rw [lineResult] at hline
  split_ifs at hline
  exact Frame.parse_raw X (Option.some.inj hline)

/-! ### Writing -/

/-- `write_line`: the result, and what is on the stream after. -/
def writeLine (out line : Bytes) : Except WireError Unit × Bytes :=
  if 0x0A ∈ line then (.error .embeddedNewline, out) else (.ok (), out ++ (line ++ [0x0A]))

/-- `write_frame`. -/
def writeFrame (out : Bytes) (frame : Frame) : Except WireError Unit × Bytes := writeLine out frame.raw

theorem writeLine_of_notMem {line : Bytes} (h : 0x0A ∉ line) (out : Bytes) :
    writeLine out line = (.ok (), out ++ (line ++ [0x0A])) := if_neg h

/-! ### Reading back -/

/-- `serde_json` takes a trailing carriage return for whitespace, and no text for no value. -/
structure Crates.Whitespace : Prop where
  /-- A value is read whether or not a carriage return follows it. -/
  trailing_cr : ∀ b, X.fromSlice (b ++ [0x0D]) = X.fromSlice b
  /-- Nothing is no value. -/
  empty : X.fromSlice [] = none

variable {X}

/-- The line of a frame and its newline give the frame, if no carriage return ends the line. -/
theorem lineResult_of_last (hX : X.Whitespace) {line : Bytes} {f : Frame} (hf : Frame.parse X line = .ok f)
    (hcr : f.raw.getLast? ≠ some 0x0D) : lineResult X (f.raw ++ [0x0A]) = some (.ok f) := by
  obtain ⟨-, hv, -, -⟩ := (Frame.parse_eq_ok_iff X).mp (Frame.parse_raw X hf)
  have hstrip : stripNewline (f.raw ++ [0x0A]) = f.raw := by
    rw [stripNewline, if_pos List.getLast?_concat, List.dropLast_concat, if_neg hcr]
  have hne : f.raw ≠ [] := by
    intro h
    rw [h, hX.empty] at hv
    cases hv
  rw [lineResult, hstrip, if_neg hne, Frame.parse_raw X hf]

/-- A frame's line and its newline are read as a frame of the same value; it is the same
frame but for a carriage return at the end of the line. -/
theorem lineResult_raw (hX : X.Whitespace) {line : Bytes} {f : Frame} (hf : Frame.parse X line = .ok f) :
    ∃ raw, lineResult X (f.raw ++ [0x0A]) = some (.ok { f with raw }) := by
  obtain ⟨hn, hv, he, hr⟩ := (Frame.parse_eq_ok_iff X).mp (Frame.parse_raw X hf)
  by_cases hcr : f.raw.getLast? = some 0x0D
  · obtain ⟨l, hl⟩ := List.getLast?_eq_some_iff.mp hcr
    have hstrip : stripNewline (f.raw ++ [0x0A]) = l := by
      rw [stripNewline, if_pos List.getLast?_concat, List.dropLast_concat, if_pos hcr, hl, List.dropLast_concat]
    rw [hl] at hv hn
    have hlv : X.fromSlice l = some f.value := (hX.trailing_cr l).symm.trans hv
    have hne : l ≠ [] := by
      rintro rfl
      rw [hX.empty] at hlv
      cases hlv
    have hnl : 0x0A ∉ l := fun h => hn (List.mem_append_left _ h)
    refine ⟨l, ?_⟩
    rw [lineResult, hstrip, if_neg hne]
    exact congrArg some ((Frame.parse_eq_ok_iff X).mpr ⟨hnl, hlv, he, rfl⟩)
  · exact ⟨f.raw, lineResult_of_last hX hf hcr⟩

/-- The lines of frames are their bytes, each with its newline. -/
theorem splitLines_raw {fs : List Frame} (hfs : ∀ f ∈ fs, ∃ line, Frame.parse X line = .ok f) :
    Lines.splitLines 0x0A (Lines.joinLines 0x0A (fs.map Frame.raw)) = (fs.map Frame.raw).map fun l => l ++ [0x0A] := by
  refine Lines.splitLines_joinLines 0x0A fun l hl => ?_
  obtain ⟨f, hf, rfl⟩ := List.mem_map.mp hl
  obtain ⟨line, h⟩ := hfs f hf
  exact Frame.newline_notMem_raw X h

/-- Lines of frames that end in no carriage return are read back as they are. -/
theorem FrameReader.results_of_last (hX : X.Whitespace) {fs : List Frame}
    (hfs : ∀ f ∈ fs, Frame.parse X f.raw = .ok f ∧ f.raw.getLast? ≠ some 0x0D) :
    (FrameReader.new (Lines.joinLines 0x0A (fs.map Frame.raw))).results X = fs.map .ok := by
  rw [results_eq, FrameReader.new, splitLines_raw fun f hf => ⟨_, (hfs f hf).1⟩, List.map_map, List.filterMap_map,
    ← List.filterMap_eq_map]
  refine List.filterMap_congr fun f hf => ?_
  exact lineResult_of_last hX (hfs f hf).1 (hfs f hf).2

/-- Lines of frames are read back as frames of the same values. -/
theorem FrameReader.results_joinLines (hX : X.Whitespace) {fs : List Frame}
    (hfs : ∀ f ∈ fs, ∃ line, Frame.parse X line = .ok f) :
    ∃ gs : List Frame, (FrameReader.new (Lines.joinLines 0x0A (fs.map Frame.raw))).results X = gs.map .ok ∧
      List.Forall₂ (fun g f => ∃ raw, g = { f with raw }) gs fs := by
  rw [results_eq, FrameReader.new, splitLines_raw hfs, List.map_map]
  induction fs with
  | nil => exact ⟨[], rfl, .nil⟩
  | cons f fs ih =>
    obtain ⟨line, h⟩ := hfs f List.mem_cons_self
    obtain ⟨raw, hline⟩ := lineResult_raw hX h
    obtain ⟨gs, hgs, hall⟩ := ih fun g hg => hfs g (List.mem_cons_of_mem f hg)
    refine ⟨{ f with raw } :: gs, ?_, .cons ⟨raw, rfl⟩ hall⟩
    rw [List.map_cons, List.filterMap_cons, Function.comp_apply, hline]
    exact congrArg _ hgs

end AcpCore.Wire
