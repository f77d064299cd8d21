import AcpCore.Wire.Instance

/-!
# Framing

What becomes of frames that are written and read again, and of a stream that is
relayed twice.

## The model

`writeFrames` writes frames one after another. `relay` is the loop of a relay
thread: it writes each frame it reads, and stops at the first error; the frames it
forwards are those it records (`relayed`).

## What is proved

* `roundTrips_iff`, `idempotent_iff` — frames are read back as they were, and a
  relayed stream is relayed as it is, exactly when no frame's line ends in a
  carriage return: one is stripped, and more may come before it;
* `noTrailingCr_of_noSpareCr` — none does where no line of the stream has two before
  its newline, or one at its end and no newline;
* **`framing_iff`** — these together, and that no line forwarded ends in a
  carriage return and a newline.
-/

namespace AcpCore.Wire

open AcpCore.Text

/-! ### Writing frames and relaying -/

/-- `write_frame`, for each frame in order. -/
def writeFrames (out : Bytes) : List Frame → Except WireError Unit × Bytes
  | [] => (.ok (), out)
  | frame :: frames =>
    match writeFrame out frame with
    | (.error e, out) => (.error e, out)
    | (.ok (), out) => writeFrames out frames

/-- The frames read before the first error. -/
def relayed : List (Except WireError Frame) → List Frame
  | .ok frame :: results => frame :: relayed results
  | _ => []

variable (X : Crates)

/-- The frames a relay thread reads from a stream and forwards. -/
def relayedFrames (s : Bytes) : List Frame := relayed ((FrameReader.new s).results X)

/-- What a relay thread writes. -/
def relay (s : Bytes) : Bytes := (writeFrames [] (relayedFrames X s)).2

/-- A frame `read_frame` can return. -/
def Returned (f : Frame) : Prop := ∃ s, .ok f ∈ (FrameReader.new s).results X

/-- Two frames have the same bytes, kind, method, id and payload hash. -/
structure SameFrame (f g : Frame) : Prop where
  /-- The bytes. -/
  raw : f.raw = g.raw
  /-- The kind. -/
  kind : f.kind = g.kind
  /-- The method. -/
  method : f.method = g.method
  /-- The id. -/
  id : f.id = g.id
  /-- The payload hash. -/
  hash : f.payloadHash X = g.payloadHash X

/-- Frames that are written are read back as the same frames, and then the end. -/
def RoundTrips (fs : List Frame) : Prop :=
  ∃ out gs, writeFrames [] fs = (.ok (), out) ∧ (FrameReader.new out).results X = gs.map .ok ∧
    List.Forall₂ (SameFrame X) gs fs

/-- A second relay writes and records what the first one does. -/
def Idempotent (s : Bytes) : Prop :=
  relay X (relay X s) = relay X s ∧ List.Forall₂ (SameFrame X) (relayedFrames X (relay X s)) (relayedFrames X s)

/-- No frame's line ends in a carriage return. -/
def NoTrailingCr (fs : List Frame) : Prop := ∀ f ∈ fs, f.raw.getLast? ≠ some 0x0D

variable {X}

theorem SameFrame.refl (f : Frame) : SameFrame X f f := ⟨rfl, rfl, rfl, rfl, rfl⟩

/-! ### What is written -/

/-- A frame that is returned is the frame of its own line, which is not empty. -/
theorem Returned.parse {f : Frame} (h : Returned X f) : Frame.parse X f.raw = .ok f ∧ f.raw ≠ [] := by
  obtain ⟨s, hs⟩ := h
  rw [FrameReader.results_eq, List.mem_filterMap] at hs
  obtain ⟨line, -, hline⟩ := hs
  unfold lineResult at hline
  split_ifs at hline with hne
  have hparse := Option.some.inj hline
  refine ⟨Frame.parse_raw X hparse, ?_⟩
  rw [((Frame.parse_eq_ok_iff X).mp hparse).2.2.2]
  exact hne

/-- Frames are written one line after another. -/
theorem writeFrames_eq {fs : List Frame} (hfs : ∀ f ∈ fs, Returned X f) (out : Bytes) :
    writeFrames out fs = (.ok (), out ++ Lines.joinLines 0x0A (fs.map Frame.raw)) := by
  induction fs generalizing out with
  | nil => simp [writeFrames]
  | cons f fs ih =>
    have hn := Frame.newline_notMem_raw X (hfs f List.mem_cons_self).parse.1
    rw [writeFrames, writeFrame, writeLine_of_notMem hn, List.map_cons, Lines.joinLines_cons]
    simp only
    rw [ih fun g hg => hfs g (List.mem_cons_of_mem f hg)]
    simp

theorem mem_of_mem_relayed {results : List (Except WireError Frame)} {f : Frame} (h : f ∈ relayed results) :
    .ok f ∈ results := by
  induction results with
  | nil => cases h
  | cons r results ih =>
    cases r with
    | error e => cases h
    | ok g =>
      rcases List.mem_cons.mp h with rfl | h
      · exact List.mem_cons_self
      · exact List.mem_cons_of_mem _ (ih h)

theorem returned_of_relayed {s : Bytes} {f : Frame} (h : f ∈ relayedFrames X s) : Returned X f :=
  ⟨s, mem_of_mem_relayed h⟩

theorem relayed_map_ok (fs : List Frame) : relayed (fs.map .ok) = fs := by
  induction fs with
  | nil => rfl
  | cons f fs ih => rw [List.map_cons, relayed, ih]

theorem relay_eq (s : Bytes) : relay X s = Lines.joinLines 0x0A ((relayedFrames X s).map Frame.raw) := by
  rw [relay, writeFrames_eq fun f hf => returned_of_relayed hf]
  rfl

/-! ### What is read again -/

/-- What the lines of frames give when they are read. -/
def reread (X : Crates) (fs : List Frame) : List (Except WireError Frame) :=
  fs.filterMap fun f => lineResult X (f.raw ++ [0x0A])

theorem reread_cons_none {f : Frame} (h : lineResult X (f.raw ++ [0x0A]) = none) (fs : List Frame) :
    reread X (f :: fs) = reread X fs := by
  rw [reread, List.filterMap_cons, h]
  rfl

theorem reread_cons_some {f : Frame} {r : Except WireError Frame} (h : lineResult X (f.raw ++ [0x0A]) = some r)
    (fs : List Frame) : reread X (f :: fs) = r :: reread X fs := by
  rw [reread, List.filterMap_cons, h]
  rfl

theorem results_joinLines_eq {fs : List Frame} (hfs : ∀ f ∈ fs, Returned X f) :
    (FrameReader.new (Lines.joinLines 0x0A (fs.map Frame.raw))).results X = reread X fs := by
  rw [FrameReader.results_eq, FrameReader.new, splitLines_raw fun f hf => ⟨_, (hfs f hf).parse.1⟩, List.map_map,
    List.filterMap_map]
  rfl

/-- Without a carriage return at its end the line gives the frame. -/
theorem lineResult_returned {f : Frame} (hf : Returned X f) (hcr : f.raw.getLast? ≠ some 0x0D) :
    lineResult X (f.raw ++ [0x0A]) = some (.ok f) := by
  obtain ⟨hparse, hne⟩ := hf.parse
  have hstrip : stripNewline (f.raw ++ [0x0A]) = f.raw := by
    rw [stripNewline, if_pos List.getLast?_concat, List.dropLast_concat, if_neg hcr]
  rw [lineResult, hstrip, if_neg hne, hparse]

/-- With one, the line gives no frame of its bytes. -/
theorem raw_ne_of_lineResult {f g : Frame} (hcr : f.raw.getLast? = some 0x0D)
    (h : lineResult X (f.raw ++ [0x0A]) = some (.ok g)) : g.raw ≠ f.raw := by
  obtain ⟨l, hl⟩ := List.getLast?_eq_some_iff.mp hcr
  have hstrip : stripNewline (f.raw ++ [0x0A]) = l := by
    rw [stripNewline, if_pos List.getLast?_concat, List.dropLast_concat, if_pos hcr, hl, List.dropLast_concat]
  rw [lineResult, hstrip] at h
  split_ifs at h
  rw [((Frame.parse_eq_ok_iff X).mp (Option.some.inj h)).2.2.2, hl]
  simp

theorem reread_of_noTrailingCr {fs : List Frame} (hfs : ∀ f ∈ fs, Returned X f) (hcr : NoTrailingCr fs) :
    reread X fs = fs.map .ok := by
  rw [reread, ← List.filterMap_eq_map]
  exact List.filterMap_congr fun f hf => lineResult_returned (hfs f hf) (hcr f hf)

/-- No more is read than was written. -/
theorem length_relayed_reread_le (fs : List Frame) : (relayed (reread X fs)).length ≤ fs.length := by
  have hle : ∀ results : List (Except WireError Frame), (relayed results).length ≤ results.length := by
    intro results
    induction results with
    | nil => exact le_rfl
    | cons r results ih =>
      cases r with
      | error e => exact Nat.zero_le _
      | ok f => exact Nat.succ_le_succ ih
  have hread : (reread X fs).length ≤ fs.length := by
    rw [reread]
    apply List.length_filterMap_le
  exact (hle _).trans hread

/-- **What is read again has the bytes that were written only if no line ends in a carriage return.** -/
theorem noTrailingCr_of_reread {fs : List Frame} (hfs : ∀ f ∈ fs, Returned X f)
    (h : (relayed (reread X fs)).map Frame.raw = fs.map Frame.raw) : NoTrailingCr fs := by
  induction fs with
  | nil =>
    intro f hf
    cases hf
  | cons f fs ih =>
    have hf := hfs f List.mem_cons_self
    have hfs' : ∀ g ∈ fs, Returned X g := fun g hg => hfs g (List.mem_cons_of_mem f hg)
    by_cases hcr : f.raw.getLast? = some 0x0D
    · -- the line is skipped, or an error, or a frame of other bytes
      exfalso
      cases hline : lineResult X (f.raw ++ [0x0A]) with
      | none =>
        rw [reread_cons_none hline] at h
        have hlen := congrArg List.length h
        have hle := length_relayed_reread_le (X := X) fs
        rw [List.length_map, List.length_map, List.length_cons] at hlen
        omega
      | some r =>
        rw [reread_cons_some hline] at h
        cases r with
        | error e => cases h
        | ok g => exact raw_ne_of_lineResult hcr hline (List.cons.inj h).1
    · have hline := lineResult_returned hf hcr
      rw [reread_cons_some hline] at h
      have htail := ih hfs' (List.cons.inj h).2
      rintro g hg
      rcases List.mem_cons.mp hg with rfl | hg
      · exact hcr
      · exact htail g hg

theorem map_raw_of_sameFrame {gs fs : List Frame} (h : List.Forall₂ (SameFrame X) gs fs) :
    gs.map Frame.raw = fs.map Frame.raw := by
  induction h with
  | nil => rfl
  | cons h _ ih => rw [List.map_cons, List.map_cons, h.raw, ih]

/-- Frames are read back as they were exactly when no line ends in a carriage return. -/
theorem roundTrips_iff {fs : List Frame} (hfs : ∀ f ∈ fs, Returned X f) : RoundTrips X fs ↔ NoTrailingCr fs := by
  constructor
  · rintro ⟨out, gs, hout, hgs, hsame⟩
    rw [writeFrames_eq hfs] at hout
    cases hout
    rw [List.nil_append, results_joinLines_eq hfs] at hgs
    apply noTrailingCr_of_reread hfs
    rw [hgs, relayed_map_ok, map_raw_of_sameFrame hsame]
  · intro hcr
    refine ⟨_, fs, writeFrames_eq hfs [], ?_, List.forall₂_same.mpr fun f _ => .refl f⟩
    rw [List.nil_append, results_joinLines_eq hfs, reread_of_noTrailingCr hfs hcr]

/-- A relayed stream is relayed as it is exactly when no line forwarded ends in a carriage return. -/
theorem idempotent_iff (s : Bytes) : Idempotent X s ↔ NoTrailingCr (relayedFrames X s) := by
  have hfs : ∀ f ∈ relayedFrames X s, Returned X f := fun f hf => returned_of_relayed hf
  have hagain : relayedFrames X (relay X s) = relayed (reread X (relayedFrames X s)) := by
    rw [relayedFrames, relay_eq, results_joinLines_eq hfs]
  unfold Idempotent
  rw [hagain]
  constructor
  · rintro ⟨-, hsame⟩
    exact noTrailingCr_of_reread hfs (map_raw_of_sameFrame hsame)
  · intro hcr
    rw [reread_of_noTrailingCr hfs hcr, relayed_map_ok] at hagain ⊢
    refine ⟨?_, List.forall₂_same.mpr fun f _ => .refl f⟩
    rw [relay_eq (relay X s), hagain, ← relay_eq]

/-- A line forwarded ends in a carriage return and a newline where a frame's line ends in a carriage return. -/
theorem noCrLf_iff (s : Bytes) :
    (∀ l ∈ Lines.splitLines 0x0A (relay X s), ¬ [0x0D, 0x0A] <:+ l) ↔ NoTrailingCr (relayedFrames X s) := by
  rw [relay_eq, splitLines_raw fun f hf => ⟨_, (returned_of_relayed hf).parse.1⟩]
  simp only [List.map_map, List.forall_mem_map, NoTrailingCr, Function.comp_apply]
  refine forall₂_congr fun f _ => not_congr ?_
  rw [List.getLast?_eq_some_iff]
  constructor
  · rintro ⟨l, hl⟩
    refine ⟨l, (List.append_left_inj [0x0A]).mp ?_⟩
    rw [← hl, List.append_assoc]
    rfl
  · rintro ⟨l, hl⟩
    exact ⟨l, by rw [hl, List.append_assoc]; rfl⟩

/-- No line of a stream has two carriage returns before its newline, or one at its end and no newline. -/
def NoSpareCr (s : Bytes) : Prop := ∀ l ∈ Lines.splitLines 0x0A s, ¬ [0x0D, 0x0D, 0x0A] <:+ l ∧ ¬ [0x0D] <:+ l

/-- A line that still ends in a carriage return when its terminator is gone had one to spare. -/
theorem spareCr_of_stripNewline {l : Bytes} (h : (stripNewline l).getLast? = some 0x0D) :
    [0x0D, 0x0D, 0x0A] <:+ l ∨ [0x0D] <:+ l := by
  rw [stripNewline] at h
  split_ifs at h with hn hr
  · -- a carriage return and a newline were stripped
    obtain ⟨l, rfl⟩ := List.getLast?_eq_some_iff.mp hn
    rw [List.dropLast_concat] at hr h
    obtain ⟨l, rfl⟩ := List.getLast?_eq_some_iff.mp hr
    rw [List.dropLast_concat] at h
    obtain ⟨l, rfl⟩ := List.getLast?_eq_some_iff.mp h
    exact .inl ⟨l, by simp⟩
  · exact absurd h hr
  · obtain ⟨l, rfl⟩ := List.getLast?_eq_some_iff.mp h
    exact .inr ⟨l, rfl⟩

theorem noTrailingCr_of_noSpareCr {s : Bytes} (h : NoSpareCr s) : NoTrailingCr (relayedFrames X s) := by
  intro f hf hcr
  have hread := mem_of_mem_relayed hf
  rw [FrameReader.results_eq] at hread
  obtain ⟨l, hl, hline⟩ := List.mem_filterMap.mp hread
  rw [lineResult] at hline
  split_ifs at hline
  rw [((Frame.parse_eq_ok_iff X).mp (Option.some.inj hline)).2.2.2] at hcr
  rcases spareCr_of_stripNewline hcr with hspare | hspare
  · exact (h l hl).1 hspare
  · exact (h l hl).2 hspare

/-- **Framing.** Frames that can be read are read back as they were, once written, exactly when no line of
theirs ends in a carriage return. Exactly when none that a stream's relay forwards does, a second relay
forwards and records the same, and no line that is forwarded ends in a carriage return and a newline; none
does where no line of the stream has a carriage return to spare. -/
theorem framing_iff {fs : List Frame} (hfs : ∀ f ∈ fs, Returned X f) (s : Bytes) :
    (RoundTrips X fs ↔ NoTrailingCr fs) ∧ (Idempotent X s ↔ NoTrailingCr (relayedFrames X s)) ∧
      ((∀ l ∈ Lines.splitLines 0x0A (relay X s), ¬ [0x0D, 0x0A] <:+ l) ↔ NoTrailingCr (relayedFrames X s)) ∧
      (NoSpareCr s → NoTrailingCr (relayedFrames X s)) :=
  ⟨roundTrips_iff hfs, idempotent_iff s, noCrLf_iff s, noTrailingCr_of_noSpareCr⟩

/-! ### Two carriage returns -/

/-- The sample request, with a carriage return at the end of its line. -/
def sampleRequestCr : Frame := { sampleRequest 1 with raw := (sampleRequest 1).raw ++ [0x0D] }

/-- Its line, with a second one and a newline. -/
def sampleCrCrLf : Bytes := sampleRequestCr.raw ++ [0x0D, 0x0A]

theorem parse_sampleRequestCr : Frame.parse (.plain []) sampleRequestCr.raw = .ok sampleRequestCr := by
  obtain ⟨hn, hv, he, -⟩ := (Frame.parse_eq_ok_iff _).mp (parse_sampleRequest [] 1)
  refine (Frame.parse_eq_ok_iff _).mpr ⟨?_, ((whitespace_plain []).trailing_cr _).trans hv, he, rfl⟩
  show 0x0A ∉ (sampleRequest 1).raw ++ [0x0D]
  simp [hn]

/-- A reader strips one carriage return. -/
theorem results_sampleCrCrLf : (FrameReader.new sampleCrCrLf).results (.plain []) = [.ok sampleRequestCr] := by
  have hn := Frame.newline_notMem_raw _ parse_sampleRequestCr
  have hsplit : Lines.splitLines 0x0A sampleCrCrLf = [sampleCrCrLf] := by
    have h := Lines.splitLines_line 0x0A (l := sampleRequestCr.raw ++ [0x0D]) (by simp [hn]) []
    rw [List.append_assoc] at h
    exact h
  have hstrip : stripNewline sampleCrCrLf = sampleRequestCr.raw := by decide +kernel
  rw [FrameReader.results_eq, FrameReader.new, hsplit, List.filterMap_cons, lineResult, hstrip, parse_sampleRequestCr]
  rfl

theorem returned_sampleRequestCr : Returned (.plain []) sampleRequestCr :=
  ⟨sampleCrCrLf, by rw [results_sampleCrCrLf]; exact List.mem_cons_self⟩

theorem framing_iff_sample :
    (RoundTrips (.plain []) [sampleRequestCr] ↔ NoTrailingCr [sampleRequestCr]) ∧
      (Idempotent (.plain []) sampleCrCrLf ↔ NoTrailingCr (relayedFrames (.plain []) sampleCrCrLf)) ∧
      ((∀ l ∈ Lines.splitLines 0x0A (relay (.plain []) sampleCrCrLf), ¬ [0x0D, 0x0A] <:+ l) ↔
        NoTrailingCr (relayedFrames (.plain []) sampleCrCrLf)) ∧
      (NoSpareCr sampleCrCrLf → NoTrailingCr (relayedFrames (.plain []) sampleCrCrLf)) :=
  framing_iff (fun _ hf => List.mem_singleton.mp hf ▸ returned_sampleRequestCr) sampleCrCrLf

/-- A line that ends in two carriage returns and a newline is forwarded with one of them, and read again without. -/
theorem framing_fails :
    (FrameReader.new sampleCrCrLf).results (.plain []) = [.ok sampleRequestCr] ∧
      ¬ RoundTrips (.plain []) [sampleRequestCr] ∧ ¬ Idempotent (.plain []) sampleCrCrLf ∧
      ¬ ∀ l ∈ Lines.splitLines 0x0A (relay (.plain []) sampleCrCrLf), ¬ [0x0D, 0x0A] <:+ l := by
  have hcr : ¬ NoTrailingCr [sampleRequestCr] := fun h => h _ List.mem_cons_self List.getLast?_concat
  have hrelayed : relayedFrames (.plain []) sampleCrCrLf = [sampleRequestCr] := by
    rw [relayedFrames, results_sampleCrCrLf]
    rfl
  refine ⟨results_sampleCrCrLf, ?_, ?_, ?_⟩
  · rwa [roundTrips_iff fun _ hf => List.mem_singleton.mp hf ▸ returned_sampleRequestCr]
  · rwa [idempotent_iff, hrelayed]
  · rwa [noCrLf_iff, hrelayed]

end AcpCore.Wire
