import AcpCore.Library.Source
import AcpCore.Wire.Instance

/-!
# The reader and its lines

`FrameReader` over a buffered source, against the lines of the stream.

## The model

`referenceLines` splits a stream at its newlines: the pieces before a newline lose
one carriage return at their end, the last piece stays as it is, and empty ones are
dropped. `BufFrameReader` is `FrameReader` over a `BufRead` that fills its buffer as
it likes. `read_frame` skips an empty line by calling itself, so that a call takes
one more frame of the thread's stack for each: `stack` is how many calls, one inside
another, the stack has room for, and a call that needs more does not return.

## What is proved

* `filterMap_lineResult` — the results of all lines are those of the reference lines;
* `BufFrameReader.readFrame_eq` — one call returns what the reader of the whole
  stream returns, and leaves the same, unless it meets too many empty lines;
* **`reader_refines_iff`** — call by call, the reader returns what `Frame::parse` says
  of the reference lines in order, and then the end, for ever, exactly when the
  stream has never so many empty lines after one another;
* `reader_refines_fails` — ten thousand are too many for a stack of ten thousand.
-/

namespace AcpCore.Wire

open AcpCore.Text

/-! ### The reference -/

/-- A line without one carriage return at its end. -/
def dropCr (l : Bytes) : Bytes := if l.getLast? = some 0x0D then l.dropLast else l

/-- The lines of a stream that are not empty. -/
def referenceLines (s : Bytes) : List Bytes :=
  let pieces := s.splitOn 0x0A
  (pieces.dropLast.map dropCr ++ pieces.getLast?.toList).filter (· ≠ [])

variable (X : Crates)

/-- A terminated line is read as the line without a carriage return, and the last one as it is. -/
theorem filterMap_lineResult (s : Bytes) :
    (Lines.splitLines 0x0A s).filterMap (lineResult X) = (referenceLines s).map (Frame.parse X) := by
  obtain ⟨ps, p, hs, hp, hlines⟩ := Lines.splitLines_eq_splitOn 0x0A s
  have hresult : ∀ l line : Bytes, stripNewline line = l →
      lineResult X line = (Option.guard (fun l : Bytes => l ≠ []) l).map (Frame.parse X) := by
    rintro _ line rfl
    by_cases hnil : stripNewline line = [] <;> simp [lineResult, Option.guard, hnil]
  have hreference : referenceLines s = (ps.map dropCr ++ [p]).filterMap (Option.guard (fun l : Bytes => l ≠ [])) := by
    simp only [referenceLines, hs, List.dropLast_concat, List.getLast?_concat, List.filterMap_eq_filter,
      Option.toList_some]
  have hterminated : ps.filterMap (lineResult X ∘ (· ++ [0x0A])) =
      ps.filterMap (fun l => (Option.guard (fun l : Bytes => l ≠ []) (dropCr l)).map (Frame.parse X)) := by
    refine List.filterMap_congr fun l _ => hresult _ _ ?_
    rw [stripNewline, if_pos List.getLast?_concat, List.dropLast_concat, dropCr]
  have hlast : stripNewline p = p := if_neg fun h => hp (List.mem_of_getLast? h)
  rw [hlines, hreference, List.map_filterMap, List.filterMap_append, List.filterMap_append, List.filterMap_map,
    List.filterMap_map, hterminated]
  by_cases hnil : p = []
  · simp [hnil, Option.guard]
  · simp [hnil, hresult p p hlast]

/-! ### The reader over a buffered source -/

/-- `FrameReader`, over a `BufRead`. -/
structure BufFrameReader where
  /-- The source. -/
  inner : Lines.Source UInt8
  /-- The line read last. -/
  buf : Bytes

/-- `FrameReader::new`. -/
def BufFrameReader.new (inner : Lines.Source UInt8) : BufFrameReader := ⟨inner, []⟩

/-- `FrameReader::read_frame`, where the stack has room for so many calls of it, one inside another; `none` where it
takes more. -/
def BufFrameReader.readFrame : ℕ → BufFrameReader → Option (Except WireError (Option Frame) × BufFrameReader)
  | 0, _ => none
  | stack + 1, r =>
    let n := r.inner.readUntil 0x0A
    if n.1 = [] then some (.ok none, ⟨n.2, []⟩)
    -- an empty line is skipped
    else if stripNewline n.1 = [] then BufFrameReader.readFrame stack ⟨n.2, n.1⟩
    else
      match Frame.parse X (stripNewline n.1) with
      | .error e => some (.error e, ⟨n.2, n.1⟩)
      | .ok frame => some (.ok (some frame), ⟨n.2, n.1⟩)

/-- What the call after `n` calls returns, their errors ignored. -/
def BufFrameReader.call (stack : ℕ) (r : BufFrameReader) : ℕ → Option (Except WireError (Option Frame))
  | 0 => (r.readFrame X stack).map Prod.fst
  | n + 1 => (r.readFrame X stack).bind fun p => BufFrameReader.call stack p.2 n

/-! ### Empty lines -/

/-- A line that is empty: a newline, or a carriage return and a newline. -/
def Blank (l : Bytes) : Prop := l = [0x0A] ∨ l = [0x0D, 0x0A]

/-- Of the lines of a stream, fewer than `stack` that follow one another are empty. -/
def ShortRuns (stack : ℕ) (s : Bytes) : Prop :=
  ∀ run, run <:+: Lines.splitLines 0x0A s → (∀ l ∈ run, Blank l) → run.length < stack

theorem stripNewline_eq_nil_iff {l : Bytes} (hne : l ≠ []) : stripNewline l = [] ↔ Blank l := by
  constructor
  · intro h
    rw [stripNewline] at h
    split_ifs at h with hn hr
    · obtain ⟨p, rfl⟩ := List.getLast?_eq_some_iff.mp hn
      rw [List.dropLast_concat] at h hr
      obtain ⟨q, rfl⟩ := List.getLast?_eq_some_iff.mp hr
      rw [List.dropLast_concat] at h
      exact .inr (by rw [h]; rfl)
    · obtain ⟨p, rfl⟩ := List.getLast?_eq_some_iff.mp hn
      rw [List.dropLast_concat] at h
      exact .inl (by rw [h]; rfl)
    · exact absurd h hne
  · rintro (rfl | rfl) <;> rfl

/-- The empty lines a stream begins with. -/
def leadingBlanks (s : Bytes) : List Bytes := (Lines.splitLines 0x0A s).takeWhile fun l => stripNewline l = []

theorem leadingBlanks_cons (c : UInt8) (s : Bytes) :
    leadingBlanks (c :: s) = if stripNewline (Lines.readUntil 0x0A (c :: s)).1 = []
      then (Lines.readUntil 0x0A (c :: s)).1 :: leadingBlanks (Lines.readUntil 0x0A (c :: s)).2 else [] := by
  rw [leadingBlanks, Lines.splitLines_eq, List.takeWhile_cons, leadingBlanks]
  simp only [decide_eq_true_eq]

/-- A call takes the empty lines and one more, and leaves the others; or the lines were all empty. -/
theorem FrameReader.lines_of_readFrame (r : FrameReader) :
    (Lines.splitLines 0x0A r.inner = leadingBlanks r.inner ∧ (r.readFrame X).2.inner = []) ∨
      ∃ l, stripNewline l ≠ [] ∧
        Lines.splitLines 0x0A r.inner = leadingBlanks r.inner ++ l :: Lines.splitLines 0x0A (r.readFrame X).2.inner := by
  induction h : r.inner.length using Nat.strong_induction_on generalizing r with
  | _ n ih =>
    subst h
    obtain ⟨_ | ⟨c, s⟩, b⟩ := r
    · exact .inl ⟨rfl, by rw [readFrame_nil]⟩
    · have hlt : (Lines.readUntil 0x0A (c :: s)).2.length < (c :: s).length := Lines.readUntil_length_lt 0x0A
      rw [readFrame]
      simp only
      rw [leadingBlanks_cons, Lines.splitLines_eq]
      by_cases hempty : stripNewline (Lines.readUntil 0x0A (c :: s)).1 = []
      · rw [if_pos hempty, if_pos hempty]
        rcases ih _ hlt ⟨_, _⟩ rfl with ⟨hall, hend⟩ | ⟨l, hl, hlines⟩
        · exact .inl ⟨congrArg _ hall, hend⟩
        · exact .inr ⟨l, hl, congrArg (List.cons _) hlines⟩
      · rw [if_neg hempty, if_neg hempty]
        refine .inr ⟨_, hempty, ?_⟩
        cases Frame.parse X (stripNewline (Lines.readUntil 0x0A (c :: s)).1) <;> rfl

/-- The lines of a stream that a reader has called on are its lines but for the first ones. -/
theorem ShortRuns.of_readFrame {stack : ℕ} {r : FrameReader} (h : ShortRuns stack r.inner) :
    ShortRuns stack (r.readFrame X).2.inner := by
  intro run hrun hblank
  refine h run ?_ hblank
  rcases r.lines_of_readFrame X with ⟨-, hend⟩ | ⟨l, -, hlines⟩
  · rw [hend] at hrun
    rw [List.infix_nil.mp hrun]
    exact List.nil_infix
  · rw [hlines]
    exact List.infix_append_of_infix_right (List.infix_cons hrun)

/-- The lines a stream begins with are a run of empty ones. -/
theorem ShortRuns.length_leadingBlanks {stack : ℕ} {s : Bytes} (h : ShortRuns stack s) :
    (leadingBlanks s).length < stack := by
  refine h _ (List.takeWhile_prefix _).isInfix fun l hl => ?_
  refine (stripNewline_eq_nil_iff ?_).mp (by simpa using List.mem_takeWhile_imp hl)
  exact Lines.ne_nil_of_mem_splitLines 0x0A ((List.takeWhile_prefix _).subset hl)

/-- A run of empty lines is among those before the line that is read, or among those after it. -/
theorem ShortRuns.of_rest {stack : ℕ} {r : FrameReader} (hlt : (leadingBlanks r.inner).length < stack)
    (h : ShortRuns stack (r.readFrame X).2.inner) : ShortRuns stack r.inner := by
  intro run hrun hblank
  have hbefore : run <:+: leadingBlanks r.inner → run.length < stack := fun h => h.length_le.trans_lt hlt
  rcases r.lines_of_readFrame X with ⟨hall, -⟩ | ⟨l, hl, hlines⟩
  · exact hbefore (hall ▸ hrun)
  · rw [hlines, List.infix_append_iff_ne_nil] at hrun
    have hread : l ∉ run := fun hmem => by
      rcases hblank l hmem with rfl | rfl <;> exact hl rfl
    rcases hrun with hrun | hrun | ⟨front, back, -, hne, rfl, -, hback⟩
    · exact hbefore hrun
    · rcases List.infix_cons_iff.mp hrun with hrun | hrun
      · cases run with
        | nil => exact Nat.zero_lt_of_lt hlt
        | cons x run =>
          rw [(List.cons_prefix_cons.mp hrun).1] at hread
          exact absurd List.mem_cons_self hread
      · exact h run hrun hblank
    · obtain ⟨x, back, rfl⟩ := List.exists_cons_of_ne_nil hne
      rw [(List.cons_prefix_cons.mp hback).1] at hread
      exact absurd (List.mem_append_right front List.mem_cons_self) hread

/-! ### The calls -/

/-- **One call** returns what the reader of the whole stream returns, and leaves the same, unless the stack is too small
for the empty lines it meets. -/
theorem BufFrameReader.readFrame_eq (stack : ℕ) (r : BufFrameReader) (b : Bytes) :
    (stack ≤ (leadingBlanks r.inner.rest).length ∧ r.readFrame X stack = none) ∨
      (leadingBlanks r.inner.rest).length < stack ∧
        ∃ r', r.readFrame X stack = some ((FrameReader.readFrame X ⟨r.inner.rest, b⟩).1, r') ∧
          r'.inner.rest = (FrameReader.readFrame X ⟨r.inner.rest, b⟩).2.inner := by
  induction stack generalizing r b with
  | zero => exact .inl ⟨Nat.zero_le _, rfl⟩
  | succ stack ih =>
    obtain ⟨hline, hrest⟩ := r.inner.readUntil_eq 0x0A
    rw [BufFrameReader.readFrame]
    simp only [hline]
    cases hs : r.inner.rest with
    | nil =>
      rw [hs] at hrest
      rw [FrameReader.readFrame_nil]
      exact .inr ⟨Nat.succ_pos _, _, rfl, hrest⟩
    | cons c s =>
      rw [hs] at hrest
      have hne : (Lines.readUntil 0x0A (c :: s)).1 ≠ [] := Lines.readUntil_ne_nil 0x0A
      rw [if_neg hne, FrameReader.readFrame, leadingBlanks_cons]
      by_cases hempty : stripNewline (Lines.readUntil 0x0A (c :: s)).1 = []
      · -- both skip the line
        have hcall := ih ⟨(r.inner.readUntil 0x0A).2, (Lines.readUntil 0x0A (c :: s)).1⟩
          (Lines.readUntil 0x0A (c :: s)).1
        simp only [hrest] at hcall
        rw [if_pos hempty, if_pos hempty, if_pos hempty, List.length_cons, Nat.succ_le_succ_iff, Nat.succ_lt_succ_iff]
        exact hcall
      · rw [if_neg hempty, if_neg hempty, if_neg hempty]
        refine .inr ⟨Nat.succ_pos _, ?_⟩
        cases Frame.parse X (stripNewline (Lines.readUntil 0x0A (c :: s)).1) with
        | error e => exact ⟨_, rfl, hrest⟩
        | ok frame => exact ⟨_, rfl, hrest⟩

/-- At the end of the stream nothing is left. -/
theorem FrameReader.inner_of_readFrame_none {r : FrameReader} (h : (r.readFrame X).1 = .ok none) :
    (r.readFrame X).2.inner = [] := by
  induction hn : r.inner.length using Nat.strong_induction_on generalizing r with
  | _ n ih =>
    subst hn
    obtain ⟨_ | ⟨c, s⟩, b⟩ := r
    · rw [readFrame_nil]
    · rw [readFrame] at h ⊢
      split_ifs at h ⊢ with hempty
      · exact ih _ (Lines.readUntil_length_lt 0x0A) h rfl
      · revert h
        cases Frame.parse X (stripNewline (Lines.readUntil 0x0A (c :: s)).1) with
        | error e => intro h; cases h
        | ok frame => intro h; cases h

/-- A call gives what the reader of the whole stream has at its place, and else the end. -/
theorem BufFrameReader.call_eq {stack : ℕ} {r : BufFrameReader} (hr : ShortRuns stack r.inner.rest) (n : ℕ) (b : Bytes) :
    r.call X stack n = some ((((⟨r.inner.rest, b⟩ : FrameReader).results X)[n]?).elim (.ok none) (·.map some)) := by
  induction n generalizing r b with
  | zero =>
    rcases r.readFrame_eq X stack b with ⟨hle, -⟩ | ⟨-, r', hread, -⟩
    · exact absurd hr.length_leadingBlanks (Nat.not_lt.mpr hle)
    · rw [call, hread, FrameReader.results]
      split
      · next h => rw [h]; rfl
      · next h => rw [h]; rfl
      · next h => rw [h]; rfl
  | succ n ih =>
    rcases r.readFrame_eq X stack b with ⟨hle, -⟩ | ⟨-, r', hread, hrest⟩
    · exact absurd hr.length_leadingBlanks (Nat.not_lt.mpr hle)
    · have hr' : ShortRuns stack r'.inner.rest := hrest ▸ ShortRuns.of_readFrame X (r := ⟨r.inner.rest, b⟩) hr
      rw [call, hread, Option.bind_some, ih hr' (FrameReader.readFrame X ⟨r.inner.rest, b⟩).2.buf, hrest,
        FrameReader.results.eq_1 X ⟨r.inner.rest, b⟩]
      split
      · next _ h =>
        -- the end was reached
        have hend := FrameReader.inner_of_readFrame_none X (r := ⟨r.inner.rest, b⟩) (congrArg Prod.fst h)
        rw [hend, FrameReader.results_eq]
        rfl
      · next h => rw [h]; rfl
      · next h => rw [h]; rfl

/-- Where every call returns, no run of empty lines is too long. -/
theorem BufFrameReader.shortRuns_of_calls {stack : ℕ} {r : BufFrameReader} (h : ∀ n, (r.call X stack n).isSome) :
    ShortRuns stack r.inner.rest := by
  induction hn : r.inner.rest.length using Nat.strong_induction_on generalizing r with
  | _ n ih =>
    subst hn
    rcases r.readFrame_eq X stack [] with ⟨-, hread⟩ | ⟨hlt, r', hread, hrest⟩
    · have := h 0
      rw [call, hread] at this
      cases this
    · refine ShortRuns.of_rest X (r := ⟨r.inner.rest, []⟩) hlt ?_
      rcases FrameReader.readFrame_length X ⟨r.inner.rest, []⟩ with hend | hless
      · rw [FrameReader.inner_of_readFrame_none X hend]
        intro run hrun _
        rw [List.infix_nil.mp hrun]
        exact Nat.zero_lt_of_lt hlt
      · rw [← hrest] at hless ⊢
        refine ih _ hless (fun n => ?_) rfl
        have := h (n + 1)
        rwa [call, hread, Option.bind_some] at this

/-- What the calls of `read_frame` are to return: what `Frame::parse` says of each line in order, and then the end. -/
def Refines (stack : ℕ) (src : Lines.Source UInt8) : Prop :=
  ∀ n, (BufFrameReader.new src).call X stack n =
    some (match (referenceLines src.rest)[n]? with
      | none => .ok none
      | some l => (Frame.parse X l).map some)

/-- **The reader agrees with the reference lines**, for every stream and however it comes in chunks, exactly when the
stack has room for one call more than the stream has empty lines after one another. -/
theorem reader_refines_iff (stack : ℕ) (src : Lines.Source UInt8) : Refines X stack src ↔ ShortRuns stack src.rest := by
  constructor
  · intro h
    exact BufFrameReader.shortRuns_of_calls X (r := .new src) fun n => by rw [h n]; rfl
  · intro h n
    have hresults : (⟨src.rest, []⟩ : FrameReader).results X = (referenceLines src.rest).map (Frame.parse X) := by
      rw [FrameReader.results_eq, filterMap_lineResult]
    rw [BufFrameReader.call_eq X (r := .new src) h n [], BufFrameReader.new, hresults, List.getElem?_map]
    cases (referenceLines src.rest)[n]? with
    | none => rfl
    | some l => rfl

/-! ### Too many empty lines -/

/-- Empty lines, and a request. -/
def sampleBlanks (n : ℕ) : Lines.Source UInt8 :=
  ⟨List.replicate n 0x0A ++ ((sampleRequest 1).raw ++ [0x0A]), fun _ => 4095, 0⟩

theorem splitLines_sampleBlanks (n : ℕ) :
    Lines.splitLines 0x0A (sampleBlanks n).rest = List.replicate n [0x0A] ++ [(sampleRequest 1).raw ++ [0x0A]] := by
  have hn := Frame.newline_notMem_raw _ (parse_sampleRequest [] 1)
  induction n with
  | zero => exact Lines.splitLines_line 0x0A hn []
  | succ n ih => exact (Lines.splitLines_line 0x0A List.not_mem_nil _).trans (congrArg (List.cons _) ih)

/-- A stream may begin with a newline more. -/
theorem referenceLines_newline (s : Bytes) : referenceLines (0x0A :: s) = referenceLines s := by
  obtain ⟨ps, p, hs, -, -⟩ := Lines.splitLines_eq_splitOn 0x0A s
  rw [referenceLines, referenceLines, List.splitOn_cons_eq_if_modifyHead, if_pos (beq_self_eq_true _), hs,
    ← List.cons_append, List.dropLast_concat, List.dropLast_concat, List.getLast?_concat, List.getLast?_concat]
  simp [dropCr]

theorem referenceLines_sampleBlanks (n : ℕ) : referenceLines (sampleBlanks n).rest = [(sampleRequest 1).raw] := by
  induction n with
  | zero => decide +kernel
  | succ n ih => exact (referenceLines_newline _).trans ih

theorem leadingBlanks_sampleBlanks (n : ℕ) : leadingBlanks (sampleBlanks n).rest = List.replicate n [0x0A] := by
  have hread : ¬ stripNewline ((sampleRequest 1).raw ++ [0x0A]) = [] := by decide +kernel
  rw [leadingBlanks, splitLines_sampleBlanks, List.takeWhile_append_of_pos, List.takeWhile_cons_of_neg, List.append_nil]
  · simpa using hread
  · intro l hl
    rw [List.eq_of_mem_replicate hl]
    rfl

/-- Where the stack has room for no more calls than there are empty lines, the first call does not return. -/
theorem call_sampleBlanks {stack n : ℕ} (h : stack ≤ n) :
    (BufFrameReader.new (sampleBlanks n)).call (.plain []) stack 0 = none := by
  rcases (BufFrameReader.new (sampleBlanks n)).readFrame_eq (.plain []) stack [] with ⟨-, hread⟩ | ⟨hlt, -⟩
  · rw [BufFrameReader.call, hread]
    rfl
  · rw [BufFrameReader.new, leadingBlanks_sampleBlanks, List.length_replicate] at hlt
    omega

/-- The request after ten thousand empty lines is not read where the stack has room for ten thousand calls. -/
theorem reader_refines_fails :
    referenceLines (sampleBlanks 10000).rest = [(sampleRequest 1).raw] ∧
      (BufFrameReader.new (sampleBlanks 10000)).call (.plain []) 10000 0 = none ∧
      ¬ Refines (.plain []) 10000 (sampleBlanks 10000) := by
  have hcall := call_sampleBlanks (le_refl 10000)
  refine ⟨referenceLines_sampleBlanks 10000, hcall, fun h => ?_⟩
  have h := h 0
  rw [hcall] at h
  exact absurd h (Option.some_ne_none _).symm

end AcpCore.Wire
