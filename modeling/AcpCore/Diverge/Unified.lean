import AcpCore.Diverge.Report
import AcpCore.Wire.Instance

/-!
# The text diff

`render_unified` writes a line for each op, with the op's method and the beginning of
its hash as they were recorded.

## The model

The output is `none` where a hash is cut inside a character: slicing it panics. A
report is `Legible` when its text is three lines and one for each op, which begins
with the mark of the op's kind.

## What is proved

* `line_eq_some_iff`, `newline_mem_line_iff`, `head?_line` — when an op has a line, when
  that is more than one, and what it begins with;
* `renderLoop_eq_some_iff` — the text is the ops' lines;
* **`legible_iff`** — a report is legible exactly when no method and no part of a hash
  that is shown has a line break, and no hash is cut inside a character;
* `oneLine_of_steps` — where no step of two traces breaks this, no op does;
* `legible_fails` — a method that forges a line, and a hash that makes rendering panic.
-/

namespace AcpCore.Diverge

open AcpCore.Text AcpCore.Wire AcpCore.Trace

/-! ### Formatting -/

/-- `{:>n}`. -/
def padLeft (n : ℕ) (s : Str) : Str := List.replicate (n - s.length) ' ' ++ s

/-- `{:<n}`. -/
def padRight (n : ℕ) (s : Str) : Str := s ++ List.replicate (n - s.length) ' '

/-- `{}` of a number. -/
def display (n : ℕ) : Str := Nat.toDigits 10 n

/-- `{:?}` of an `Option<usize>`. -/
def debug : Option ℕ → Str
  | none => ['N', 'o', 'n', 'e']
  | some n => ['S', 'o', 'm', 'e', '('] ++ display n ++ [')']

/-! ### Rendering -/

/-- A hash without `"blake3:"` before it. -/
def stripHash (h : Str) : Str := if blake3Prefix.isPrefixOf h then h.drop blake3Prefix.length else h

/-- `short_hash`; `none` where slicing panics. -/
def shortHash (h : Str) : Option Str :=
  let stripped := stripHash h
  let n := min (utf8 stripped).length 12
  (splitAtByte n stripped).map fun p => blake3Prefix ++ p.1 ++ ['…']

/-- The line of an op, with its mark and its two columns. -/
def opText (mark : Char) (a b : Str) (dir : Direction) (method : Option Str) (short : Str) : Str :=
  [mark, ' ', '['] ++ a ++ ['|'] ++ b ++ [']', ' '] ++ dir.asStr ++ [' '] ++ padRight 40 (method.getD []) ++
    [' '] ++ short

/-- The column of a step. -/
def column (seq : U64) : Str := padLeft 5 (display seq)

/-- The column of no step. -/
def noColumn : Str := [' ', ' ', ' ', ' ', ' ']

/-- What is written for an op. -/
def DiffOp.line : DiffOp → Option Str
  | .common aSeq bSeq dir hash method => (shortHash hash).map (opText ' ' (column aSeq) (column bSeq) dir method)
  | .onlyA aSeq dir hash method => (shortHash hash).map (opText '-' (column aSeq) noColumn dir method)
  | .onlyB bSeq dir hash method => (shortHash hash).map (opText '+' noColumn (column bSeq) dir method)

/-- The loop over the ops. -/
def renderLoop : List DiffOp → Str → Option Str
  | [], out => some out
  | op :: ops, out =>
    match op.line with
    | none => none
    | some line => renderLoop ops (out ++ (line ++ ['\n']))

/-- The line of the stats. -/
def statsLine (stats : DiffStats) : Str :=
  ['#', ' ', 'c', 'o', 'm', 'm', 'o', 'n', '='] ++ display stats.common ++
    [' ', 'o', 'n', 'l', 'y', '_', 'a', '='] ++ display stats.onlyA ++
    [' ', 'o', 'n', 'l', 'y', '_', 'b', '='] ++ display stats.onlyB ++
    [' ', 'f', 'i', 'r', 's', 't', '_', 'd', 'i', 'v', '='] ++ debug stats.firstDivergence

/-- `render_unified`. -/
def renderUnified (report : DiffReport) : Option Str :=
  renderLoop report.ops (['-', '-', '-', ' '] ++ report.labelA ++ '\n' :: (['+', '+', '+', ' '] ++ report.labelB ++
    '\n' :: (statsLine report.stats ++ ['\n'])))

/-! ### Reading a report -/

/-- The mark of an op's kind. -/
def DiffOp.mark : DiffOp → Char
  | .common .. => ' '
  | .onlyA .. => '-'
  | .onlyB .. => '+'

/-- The hash of an op. -/
def DiffOp.hash : DiffOp → Str
  | .common _ _ _ hash _ => hash
  | .onlyA _ _ hash _ => hash
  | .onlyB _ _ hash _ => hash

/-- The method of an op. -/
def DiffOp.method : DiffOp → Option Str
  | .common _ _ _ _ method => method
  | .onlyA _ _ _ method => method
  | .onlyB _ _ _ method => method

/-- The text has three lines and one for each op, which begins with the op's mark. -/
def Legible (report : DiffReport) : Prop :=
  ∃ (out : Str) (lines : List Str), renderUnified report = some out ∧
    Lines.splitLines '\n' out = lines.map (fun l => l ++ ['\n']) ∧ lines.length = 3 + report.ops.length ∧
    (lines.drop 3).map List.head? = report.ops.map fun op => some op.mark

/-- The beginning of a hash that is shown: its first twelve bytes, or all of it. -/
def Shown (hash part : Str) : Prop :=
  ∃ rest, stripHash hash = part ++ rest ∧ (utf8 part).length = min (utf8 (stripHash hash)).length 12

/-- An op whose method has no line break, and whose hash can be cut and has none in the part that is shown. -/
structure DiffOp.OneLine (op : DiffOp) : Prop where
  /-- The method. -/
  method : ∀ m, op.method = some m → '\n' ∉ m
  /-- The hash. -/
  hash : ∃ part, Shown op.hash part ∧ '\n' ∉ part

/-! ### The line of an op -/

theorem shortHash_eq_some_iff {h short : Str} :
    shortHash h = some short ↔ ∃ part, Shown h part ∧ short = blake3Prefix ++ part ++ ['…'] := by
  unfold shortHash
  rw [Option.map_eq_some_iff]
  constructor
  · rintro ⟨⟨part, rest⟩, hsplit, rfl⟩
    obtain ⟨hpart, hlen⟩ := splitAtByte_eq_some_iff.mp hsplit
    exact ⟨part, ⟨rest, hpart, hlen⟩, rfl⟩
  · rintro ⟨part, ⟨rest, hpart, hlen⟩, rfl⟩
    exact ⟨(part, rest), splitAtByte_eq_some_iff.mpr ⟨hpart, hlen⟩, rfl⟩

/-- An op has a line when its hash can be cut. -/
theorem line_eq_some_iff {op : DiffOp} : (∃ l, op.line = some l) ↔ ∃ part, Shown op.hash part := by
  have hshort : (∃ short, shortHash op.hash = some short) ↔ ∃ part, Shown op.hash part := by
    simp only [shortHash_eq_some_iff]
    constructor
    · rintro ⟨_, part, hpart, -⟩
      exact ⟨part, hpart⟩
    · rintro ⟨part, hpart⟩
      exact ⟨_, part, hpart, rfl⟩
  rw [← hshort]
  cases op <;> simp [DiffOp.line, DiffOp.hash]

theorem newline_notMem_display (n : ℕ) : '\n' ∉ display n := by
  intro h
  have := Json.isDigit_of_mem_decimal h
  cases this

theorem newline_notMem_column (seq : U64) : '\n' ∉ column seq := by
  unfold column padLeft
  rw [List.mem_append, List.mem_replicate]
  rintro (⟨-, h⟩ | h)
  · cases h
  · exact newline_notMem_display _ h

/-- A line has a line break in the method or in the part of the hash that is shown, and nowhere else. -/
theorem newline_mem_opText_iff {mark : Char} {a b : Str} {dir : Direction} {method : Option Str} {short : Str}
    (hmark : mark ≠ '\n') (ha : '\n' ∉ a) (hb : '\n' ∉ b) :
    '\n' ∈ opText mark a b dir method short ↔ '\n' ∈ method.getD [] ∨ '\n' ∈ short := by
  have hdir : '\n' ∉ dir.asStr := by cases dir <;> decide
  simp [opText, padRight, ha, hb, hdir, hmark.symm, List.mem_replicate]

/-- The part of a hash that is shown is determined by the hash. -/
theorem Shown.unique {hash part part' : Str} (h : Shown hash part) (h' : Shown hash part') : part = part' := by
  obtain ⟨rest, hpart, hlen⟩ := h
  obtain ⟨rest', hpart', hlen'⟩ := h'
  have hsplit := splitAtByte_eq_some_iff.mpr ⟨hpart, hlen⟩
  rw [splitAtByte_eq_some_iff.mpr ⟨hpart', hlen'⟩] at hsplit
  cases hsplit
  rfl

/-- **An op's line is one** exactly when its method and the part of its hash that is shown have no line break. -/
theorem newline_mem_line_iff {op : DiffOp} {l : Str} (h : op.line = some l) : '\n' ∉ l ↔ op.OneLine := by
  have hnoColumn : '\n' ∉ noColumn := by decide
  obtain ⟨short, hshort, hmem⟩ : ∃ short, shortHash op.hash = some short ∧
      ('\n' ∈ l ↔ '\n' ∈ op.method.getD [] ∨ '\n' ∈ short) := by
    cases op <;> obtain ⟨short, hshort, rfl⟩ := Option.map_eq_some_iff.mp h <;> refine ⟨short, hshort, ?_⟩
    · exact newline_mem_opText_iff (by decide) (newline_notMem_column _) (newline_notMem_column _)
    · exact newline_mem_opText_iff (by decide) (newline_notMem_column _) hnoColumn
    · exact newline_mem_opText_iff (by decide) hnoColumn (newline_notMem_column _)
  obtain ⟨part, hpart, rfl⟩ := shortHash_eq_some_iff.mp hshort
  have hshown : '\n' ∈ blake3Prefix ++ part ++ ['…'] ↔ '\n' ∈ part := by
    have hmark : '\n' ∉ blake3Prefix := by decide
    simp [hmark]
  rw [hmem, hshown, not_or]
  constructor
  · rintro ⟨hmethod, hhash⟩
    refine ⟨fun m hm => ?_, part, hpart, hhash⟩
    rwa [hm] at hmethod
  · rintro ⟨hmethod, part', hpart', hhash⟩
    rw [hpart.unique hpart']
    refine ⟨?_, hhash⟩
    cases hm : op.method with
    | none => exact List.not_mem_nil
    | some m => exact hmethod m hm

theorem head?_line {op : DiffOp} {l : Str} (h : op.line = some l) : l.head? = some op.mark := by
  cases op <;> obtain ⟨short, -, rfl⟩ := Option.map_eq_some_iff.mp h <;> rfl

/-! ### The lines of a report -/

/-- What is written is the ops' lines. -/
theorem renderLoop_eq_some_iff {ops : List DiffOp} {out out' : Str} :
    renderLoop ops out = some out' ↔
      ∃ ls, List.Forall₂ (fun op l => DiffOp.line op = some l) ops ls ∧ out' = out ++ Lines.joinLines '\n' ls := by
  induction ops generalizing out with
  | nil =>
    constructor
    · intro h
      cases h
      exact ⟨[], .nil, (List.append_nil _).symm⟩
    · rintro ⟨ls, hls, rfl⟩
      cases hls
      simp [renderLoop]
  | cons op ops ih =>
    unfold renderLoop
    cases hline : op.line with
    | none =>
      refine ⟨fun h => (by cases h), ?_⟩
      rintro ⟨ls, hls, -⟩
      cases hls with
      | cons h _ => rw [hline] at h; cases h
    | some line =>
      simp only
      rw [ih]
      constructor
      · rintro ⟨ls, hls, rfl⟩
        refine ⟨line :: ls, .cons hline hls, ?_⟩
        rw [Lines.joinLines_cons]
        simp
      · rintro ⟨ls, hls, rfl⟩
        cases hls with
        | cons h hls =>
          rw [hline] at h
          cases h
          refine ⟨_, hls, ?_⟩
          rw [Lines.joinLines_cons]
          simp

/-- The lines before the ops'. -/
def headerLines (report : DiffReport) : List Str :=
  [['-', '-', '-', ' '] ++ report.labelA, ['+', '+', '+', ' '] ++ report.labelB, statsLine report.stats]

/-- The text is these lines and the ops'. -/
theorem renderUnified_eq_some_iff {report : DiffReport} {out : Str} :
    renderUnified report = some out ↔ ∃ ls, List.Forall₂ (fun op l => DiffOp.line op = some l) report.ops ls ∧
      out = Lines.joinLines '\n' (headerLines report ++ ls) := by
  have hheader : ∀ ls, Lines.joinLines '\n' (headerLines report ++ ls) =
      (['-', '-', '-', ' '] ++ report.labelA ++ '\n' :: (['+', '+', '+', ' '] ++ report.labelB ++
        '\n' :: (statsLine report.stats ++ ['\n']))) ++ Lines.joinLines '\n' ls := by
    intro ls
    simp [headerLines, Lines.joinLines_cons]
  unfold renderUnified
  rw [renderLoop_eq_some_iff]
  simp only [hheader]

theorem newline_notMem_headerLines {report : DiffReport} (ha : '\n' ∉ report.labelA) (hb : '\n' ∉ report.labelB) :
    ∀ l ∈ headerLines report, '\n' ∉ l := by
  have hdebug : '\n' ∉ debug report.stats.firstDivergence := by
    cases report.stats.firstDivergence with
    | none => decide
    | some n => simp [debug, newline_notMem_display]
  have hstats : '\n' ∉ statsLine report.stats := by simp [statsLine, newline_notMem_display, hdebug]
  simp [headerLines, ha, hb, hstats]

theorem exists_lines {ops : List DiffOp} (h : ∀ op ∈ ops, ∃ l, op.line = some l) :
    ∃ ls, List.Forall₂ (fun op l => DiffOp.line op = some l) ops ls := by
  induction ops with
  | nil => exact ⟨[], .nil⟩
  | cons op ops ih =>
    obtain ⟨l, hl⟩ := h op List.mem_cons_self
    obtain ⟨ls, hls⟩ := ih fun op' hop => h op' (List.mem_cons_of_mem op hop)
    exact ⟨l :: ls, .cons hl hls⟩

theorem map_head?_lines {ops : List DiffOp} {ls : List Str}
    (h : List.Forall₂ (fun op l => DiffOp.line op = some l) ops ls) :
    ls.map List.head? = ops.map fun op => some op.mark := by
  induction h with
  | nil => rfl
  | cons hl _ ih => rw [List.map_cons, List.map_cons, head?_line hl, ih]

/-- **The text diff is legible**, three lines and one for each op, with the kind of the op before it, exactly when
every op's method has no line break and its hash can be cut after twelve bytes and has none before. -/
theorem legible_iff {report : DiffReport} (ha : '\n' ∉ report.labelA) (hb : '\n' ∉ report.labelB) :
    Legible report ↔ ∀ op ∈ report.ops, op.OneLine := by
  have hheader := newline_notMem_headerLines ha hb
  constructor
  · rintro ⟨out, lines, hout, hlines, hlen, -⟩ op hop
    obtain ⟨ls, hls, rfl⟩ := renderUnified_eq_some_iff.mp hout
    -- as many lines as were written: there is no line break in any
    have hcount : (Lines.splitLines '\n' (Lines.joinLines '\n' (headerLines report ++ ls))).length =
        (headerLines report ++ ls).length := by
      rw [hlines, List.length_map, hlen, List.length_append, ← hls.length_eq]
      rfl
    have hnone := (Lines.length_splitLines_joinLines_eq_iff '\n' _).mp hcount
    obtain ⟨i, hi, rfl⟩ := List.getElem_of_mem hop
    have hi' : i < ls.length := hls.length_eq ▸ hi
    have hline := hls.get hi hi'
    exact (newline_mem_line_iff hline).mp (hnone _ (List.mem_append_right _ (List.getElem_mem hi')))
  · intro h
    obtain ⟨ls, hls⟩ := exists_lines fun op hop => line_eq_some_iff.mpr ((h op hop).hash.imp fun _ => And.left)
    have hone : ∀ l ∈ headerLines report ++ ls, '\n' ∉ l := by
      intro l hl
      rcases List.mem_append.mp hl with hl | hl
      · exact hheader l hl
      · obtain ⟨i, hi, rfl⟩ := List.getElem_of_mem hl
        have hi' : i < report.ops.length := hls.length_eq.symm ▸ hi
        exact (newline_mem_line_iff (hls.get hi' hi)).mpr (h _ (List.getElem_mem hi'))
    refine ⟨_, headerLines report ++ ls, renderUnified_eq_some_iff.mpr ⟨ls, hls, rfl⟩,
      Lines.splitLines_joinLines '\n' hone, ?_, ?_⟩
    · rw [List.length_append, ← hls.length_eq]
      rfl
    · exact map_head?_lines hls

/-! ### Steps with one line each -/

/-- A step whose op is one line. -/
def Step.OneLine (s : Step) : Prop := (onlyAOp s).OneLine

/-- An op has the method and the hash of a step. -/
theorem exists_step_of_mem {a b : List Step} {op : DiffOp} (h : op ∈ (diffSteps a b).1) :
    ∃ s ∈ a ++ b, op.method = s.method ∧ op.hash = s.hash := by
  obtain ⟨es, hes, hops⟩ := lcsDiff_eq a b
  have hmem : op ∈ es.map toOp := hops ▸ h
  have hturns := hes.turns.1
  clear hes hops h
  induction hturns with
  | nil => cases hmem
  | @keep es a b s t _ _ ih =>
    rcases List.mem_cons.mp hmem with rfl | hmem
    · exact ⟨s, List.mem_append_left _ List.mem_cons_self, rfl, rfl⟩
    · obtain ⟨s', hs', heq⟩ := ih hmem
      refine ⟨s', ?_, heq⟩
      rw [List.mem_append] at hs' ⊢
      exact hs'.imp (List.mem_cons_of_mem s) (List.mem_cons_of_mem t)
  | @delete es a b s _ ih =>
    rcases List.mem_cons.mp hmem with rfl | hmem
    · exact ⟨s, List.mem_append_left _ List.mem_cons_self, rfl, rfl⟩
    · obtain ⟨s', hs', heq⟩ := ih hmem
      exact ⟨s', List.mem_cons_of_mem s hs', heq⟩
  | @insert es a b t _ ih =>
    rcases List.mem_cons.mp hmem with rfl | hmem
    · exact ⟨t, List.mem_append_right _ List.mem_cons_self, rfl, rfl⟩
    · obtain ⟨s', hs', heq⟩ := ih hmem
      refine ⟨s', ?_, heq⟩
      rw [List.mem_append] at hs' ⊢
      exact hs'.imp_right (List.mem_cons_of_mem t)

/-- Two traces whose steps are one line each have ops that are. -/
theorem oneLine_of_steps {a b : List Step} (h : ∀ s ∈ a ++ b, s.OneLine) : ∀ op ∈ (diffSteps a b).1, op.OneLine := by
  intro op hop
  obtain ⟨s, hs, hmethod, hhash⟩ := exists_step_of_mem hop
  obtain ⟨hm, hh⟩ := h s hs
  constructor
  · rw [hmethod]
    exact hm
  · rw [hhash]
    exact hh

theorem legible_iff_sample : Legible ⟨['a'], ['b'], (diffSteps [sampleStep 'x' 0] [sampleStep 'y' 0]).1,
    (diffSteps [sampleStep 'x' 0] [sampleStep 'y' 0]).2⟩ := by
  refine (legible_iff (by decide) (by decide)).mpr (oneLine_of_steps fun s hs => ?_)
  simp only [List.cons_append, List.nil_append, List.mem_cons, List.not_mem_nil, or_false] at hs
  rcases hs with rfl | rfl
  · exact ⟨fun m hm => (by cases hm), ['x'], ⟨[], by decide, by decide⟩, by decide⟩
  · exact ⟨fun m hm => (by cases hm), ['y'], ⟨[], by decide, by decide⟩, by decide⟩

/-! ### A forged line -/

/-- A step compared with itself is kept. -/
theorem diffSteps_self (s : Step) : diffSteps [s] [s] = ([commonOp s s], ⟨1, 0, 0, none⟩) := by
  have hkeep : opsFrom (a := [s]) (b := [s]) (table [s] [s]) 1 1 le_rfl le_rfl [] = [commonOp s s] := by
    rw [opsFrom_of_eq le_rfl le_rfl ⟨rfl, rfl⟩, opsFrom_of_zero _ _ (.inl rfl)]
    rfl
  have hops : lcsDiff [s] [s] = [commonOp s s] := congrArg List.reverse hkeep
  unfold diffSteps
  rw [hops]
  rfl

/-- The report of a trace of one notification that is compared with itself. -/
def selfReport (method hash : Str) : DiffReport :=
  ⟨['a'], ['b'], [.common 0 0 .a2c hash (some method)], ⟨1, 0, 0, none⟩⟩

/-- Any method and any hash are those of such a trace. -/
theorem exists_selfReport (method hash : Str) :
    ∃ d r, TraceReader.open (.plain []) ['t'] d = .ok r ∧ diffTwo r ['a'] r ['b'] = selfReport method hash := by
  obtain ⟨d, r, hopen, hevents⟩ :=
    exists_open (readsText_plain []) ['t'] [⟨0, 0, .a2c, .notification, some method, none, hash, 0⟩]
  refine ⟨d, r, hopen, ?_⟩
  have hsteps : steps r = [⟨.a2c, hash, some method, 0⟩] := by
    rw [steps, hevents]
    rfl
  rw [diffTwo, hsteps, diffSteps_self]
  rfl

/-- A method that goes on in a line of its own, as an op of the second trace. -/
def forgingMethod : Str := ['m', '\n', '+', ' ', '[', ' ', ' ', ' ', ' ', ' ', '|', ' ', ' ', ' ', ' ', '9', ']']

/-- A hash with a character that is its twelfth byte and its thirteenth. -/
def severedHash : Str := blake3Prefix ++ List.replicate 11 'a' ++ ['é']

/-- What is written for the forging method. -/
def forgedText : Str :=
  Lines.joinLines '\n' [['-', '-', '-', ' ', 'a'], ['+', '+', '+', ' ', 'b'], statsLine ⟨1, 0, 0, none⟩,
    opText ' ' (column 0) (column 0) .a2c (some forgingMethod) (blake3Prefix ++ ['a', '…'])]

/-- Traces compared with themselves: a `Common` op is followed by a line that says `+`, and rendering panics. -/
theorem legible_fails :
    (∃ d r, TraceReader.open (.plain []) ['t'] d = .ok r ∧
      diffTwo r ['a'] r ['b'] = selfReport forgingMethod (blake3Prefix ++ ['a']) ∧
      renderUnified (diffTwo r ['a'] r ['b']) = some forgedText ∧
      (Lines.splitLines '\n' forgedText).map List.head? = [some '-', some '+', some '#', some ' ', some '+'] ∧
      ¬ Legible (diffTwo r ['a'] r ['b'])) ∧
    ∃ d r, TraceReader.open (.plain []) ['t'] d = .ok r ∧ diffTwo r ['a'] r ['b'] = selfReport ['m'] severedHash ∧
      renderUnified (diffTwo r ['a'] r ['b']) = none ∧ ¬ Legible (diffTwo r ['a'] r ['b']) := by
  constructor
  · obtain ⟨d, r, hopen, hreport⟩ := exists_selfReport forgingMethod (blake3Prefix ++ ['a'])
    have hout : renderUnified (selfReport forgingMethod (blake3Prefix ++ ['a'])) = some forgedText := by decide +kernel
    have hlines : (Lines.splitLines '\n' forgedText).map List.head? =
        [some '-', some '+', some '#', some ' ', some '+'] := by decide +kernel
    rw [← hreport] at hout
    refine ⟨d, r, hopen, hreport, hout, hlines, ?_⟩
    rintro ⟨out, lines, hout', hsplit, hlen, -⟩
    rw [hout] at hout'
    cases hout'
    -- five lines for one op
    have hfive := congrArg List.length hlines
    rw [hsplit, List.length_map, List.length_map, hlen, hreport] at hfive
    cases hfive
  · obtain ⟨d, r, hopen, hreport⟩ := exists_selfReport ['m'] severedHash
    have hout : renderUnified (selfReport ['m'] severedHash) = none := by decide +kernel
    rw [← hreport] at hout
    refine ⟨d, r, hopen, hreport, hout, ?_⟩
    rintro ⟨out, lines, hout', -⟩
    rw [hout] at hout'
    cases hout'

end AcpCore.Diverge
