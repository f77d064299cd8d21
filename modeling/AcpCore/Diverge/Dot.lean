import AcpCore.Diverge.Unified
import AcpCore.Library.Dot

/-!
# The diagram

`render_dot` writes a node for each op, and an edge from each op to the next.

## The model

A double quote in a method is written with a backslash before it (`escapeQuotes`); the
labels of the two traces are written as they are. A report is `Drawn` when its text is
read back as the graph that was meant: one label, the ops' nodes in order with the labels
that were put between double quotes, and the edges.

## What is proved

* `closed_graphLabel_iff`, `closed_label_iff` — which labels are ended where the renderer
  ends them;
* `spells_dotLoop` — the nodes and edges are read as the statements that were meant;
* **`drawn_iff`** — a report is drawn exactly when every double quote in a trace's label
  comes after an odd number of backslashes, every one in a method after an even number,
  and every method ends with an even number;
* `drawn_fails` — a label that forges a node, and methods that end their string early or
  not at all.
-/

namespace AcpCore.Diverge

open AcpCore.Text AcpCore.Wire AcpCore.Trace

/-! ### Rendering -/

/-- `replace('"', "\\\"")`. -/
def escapeQuotes (s : Str) : Str := s.flatMap fun c => if c = '"' then ['\\', '"'] else [c]

/-- The label of the graph, between its double quotes. -/
def graphLabel (report : DiffReport) : Str :=
  report.labelA ++ [' ', 'v', 's', ' '] ++ report.labelB ++ ['\\', 'n', 'c', 'o', 'm', 'm', 'o', 'n', '='] ++
    display report.stats.common ++ [' ', 'o', 'n', 'l', 'y', '_', 'a', '='] ++ display report.stats.onlyA ++
    [' ', 'o', 'n', 'l', 'y', '_', 'b', '='] ++ display report.stats.onlyB

/-- The label of an op's node, between its double quotes. -/
def DiffOp.label : DiffOp → Str
  | .common _ _ dir _ method => dir.asStr ++ [' '] ++ escapeQuotes (method.getD [])
  | .onlyA _ dir _ method =>
    ['o', 'n', 'l', 'y', '-', 'A', ':', ' '] ++ dir.asStr ++ [' '] ++ escapeQuotes (method.getD [])
  | .onlyB _ dir _ method =>
    ['o', 'n', 'l', 'y', '-', 'B', ':', ' '] ++ dir.asStr ++ [' '] ++ escapeQuotes (method.getD [])

/-- The colour of an op's node. -/
def DiffOp.color : DiffOp → Str
  | .common .. => ['#', 'd', '6', 'f', '5', 'd', '6']
  | .onlyA .. => ['#', 'f', 'b', 'd', '5', 'd', '5']
  | .onlyB .. => ['#', 'f', 'd', 'e', '3', 'a', '7']

/-- The name of a node. -/
def nodeName (i : ℕ) : Str := 'n' :: display i

/-- The line of an op's node. -/
def nodeLine (i : ℕ) (op : DiffOp) : Str :=
  [' ', ' '] ++ nodeName i ++ [' ', '[', 'l', 'a', 'b', 'e', 'l', '=', '"'] ++ op.label ++
    ['"', ',', ' ', 's', 't', 'y', 'l', 'e', '=', 'f', 'i', 'l', 'l', 'e', 'd', ',', ' '] ++
    ['f', 'i', 'l', 'l', 'c', 'o', 'l', 'o', 'r', '=', '"'] ++ op.color ++ ['"', ']', ';', '\n']

/-- The line of the edge to the next node. -/
def edgeLine (i : ℕ) : Str :=
  [' ', ' '] ++ nodeName i ++ [' ', '-', '>', ' '] ++ nodeName (i + 1) ++ [';', '\n']

/-- The loop over the ops. -/
def dotLoop (n : ℕ) : ℕ → List DiffOp → Str → Str
  | _, [], out => out
  | i, op :: ops, out =>
    let out := out ++ nodeLine i op
    dotLoop n (i + 1) ops (if i + 1 < n then out ++ edgeLine i else out)

/-- The line that opens the graph. -/
def digraphLine : Str :=
  ['d', 'i', 'g', 'r', 'a', 'p', 'h', ' ', 'd', 'i', 'v', 'e', 'r', 'g', 'e', 'n', 'c', 'e', ' ', '{', '\n']

/-- The line of the graph's direction. -/
def rankdirLine : Str :=
  [' ', ' ', 'r', 'a', 'n', 'k', 'd', 'i', 'r', '=', 'L', 'R', ';', '\n']

/-- The line of what nodes have. -/
def defaultsLine : Str :=
  [' ', ' ', 'n', 'o', 'd', 'e', ' ', '[', 's', 'h', 'a', 'p', 'e', '=', 'b', 'o', 'x', ',', ' '] ++
    ['f', 'o', 'n', 't', 'n', 'a', 'm', 'e', '=', '"', 'm', 'o', 'n', 'o', 's', 'p', 'a', 'c', 'e', '"'] ++
    [']', ';', '\n']

/-- The line of where the graph's label is. -/
def labellocLine : Str :=
  [' ', ' ', 'l', 'a', 'b', 'e', 'l', 'l', 'o', 'c', '=', '"', 't', '"', ';', '\n']

/-- The line of the graph's label. -/
def labelLine (report : DiffReport) : Str :=
  [' ', ' ', 'l', 'a', 'b', 'e', 'l', '=', '"'] ++ graphLabel report ++ ['"', ';', '\n']

/-- `render_dot`. -/
def renderDot (report : DiffReport) : Str :=
  dotLoop report.ops.length 0 report.ops
    (digraphLine ++ rankdirLine ++ defaultsLine ++ labellocLine ++ labelLine report) ++ ['}', '\n']

/-! ### Reading the diagram -/

/-- The text is read as a graph with one label, a node for each op and an edge between ops that are next to each
other, each label the text the renderer put between double quotes. -/
def Drawn (report : DiffReport) : Prop :=
  ∃ ss, Dot.read (renderDot report) = some ss ∧
    ss.filterMap Dot.Stmt.graphLabel = [.quoted (graphLabel report)] ∧
    ss.filterMap Dot.Stmt.nodeLabel = report.ops.mapIdx (fun i op => (.word (nodeName i), some (.quoted op.label))) ∧
    ss.filterMap Dot.Stmt.ends =
      (List.range (report.ops.length - 1)).map fun i => (.word (nodeName i), .word (nodeName (i + 1)))

/-- Every double quote comes after an odd number of backslashes. -/
def Paired (s : Str) : Prop := ∀ p r, s = p ++ '"' :: r → Odd (Dot.trailing p)

/-- Every double quote comes after an even number of backslashes, and so does the end. -/
def Escapable (m : Str) : Prop := (∀ p r, m = p ++ '"' :: r → Even (Dot.trailing p)) ∧ Even (Dot.trailing m)

/-! ### The labels -/

theorem plain_display (n : ℕ) : ∀ c ∈ display n, c ≠ '"' ∧ c ≠ '\\' := by
  intro c hc
  have hdigit := Json.isDigit_of_mem_decimal hc
  constructor
  · rintro rfl
    cases hdigit
  · rintro rfl
    cases hdigit

/-- **The graph's label** is ended where the renderer ends it exactly when every double quote in the traces' labels is
paired. A backslash at the end of a label takes the next character of the text between. -/
theorem closed_graphLabel_iff {report : DiffReport} :
    Dot.Closed (graphLabel report) ↔ Paired report.labelA ∧ Paired report.labelB := by
  have hcounts : Dot.inside false (display report.stats.common ++ ([' ', 'o', 'n', 'l', 'y', '_', 'a', '='] ++
      (display report.stats.onlyA ++ ([' ', 'o', 'n', 'l', 'y', '_', 'b', '='] ++ display report.stats.onlyB)))) =
        some false := by
    have hnil : Dot.inside false (display report.stats.onlyB) = some false := by
      rw [← List.append_nil (display _), Dot.inside_plain (plain_display _)]
      rfl
    rw [Dot.inside_plain (plain_display _), Dot.inside_plain (by simp), Dot.inside_plain (plain_display _),
      Dot.inside_plain (by simp), hnil]
  have hbreak : ∀ esc t, Dot.inside esc (['\\', 'n', 'c', 'o', 'm', 'm', 'o', 'n', '='] ++ t) = Dot.inside false t := by
    rintro (_ | _) t <;> rfl
  have hversus : ∀ esc t, Dot.inside esc ([' ', 'v', 's', ' '] ++ t) = Dot.inside false t := by
    rintro (_ | _) t <;> rfl
  unfold Dot.Closed graphLabel Paired
  simp only [List.append_assoc]
  rw [Dot.inside_append, ← Dot.exists_inside_iff, ← Dot.exists_inside_iff, Option.bind_eq_some_iff]
  constructor
  · rintro ⟨esc, hA, hrest⟩
    rw [hversus, Dot.inside_append, Option.bind_eq_some_iff] at hrest
    obtain ⟨esc', hB, -⟩ := hrest
    exact ⟨⟨esc, hA⟩, esc', hB⟩
  · rintro ⟨⟨esc, hA⟩, esc', hB⟩
    refine ⟨esc, hA, ?_⟩
    rw [hversus, Dot.inside_append, hB, Option.bind_some, hbreak, hcounts]

theorem escapeQuotes_concat (m : Str) (c : Char) :
    escapeQuotes (m ++ [c]) = escapeQuotes m ++ if c = '"' then ['\\', '"'] else [c] := by
  simp [escapeQuotes]

/-- A method with its double quotes escaped is ended where the renderer ends it. -/
theorem closed_escapeQuotes_iff {m : Str} : Dot.Closed (escapeQuotes m) ↔ Escapable m := by
  have hconcat : ∀ m c, Dot.inside false (escapeQuotes (m ++ [c])) = (Dot.inside false (escapeQuotes m)).bind fun esc =>
      if c = '"' then (if esc = false then some false else none) else some (decide (c = '\\') && !esc) := by
    intro m c
    rw [escapeQuotes_concat, Dot.inside_append]
    by_cases hc : c = '"'
    · simp only [if_pos hc]
      congr 1
      funext esc
      cases esc <;> rfl
    · simp only [if_neg hc, Dot.inside_singleton]
  unfold Dot.Closed Escapable
  rw [Dot.scan_eq_some_iff (f := fun m => Dot.inside false (escapeQuotes m)) false rfl hconcat]
  simp only [Bool.false_eq_true, iff_false, false_iff, Nat.not_odd_iff_even]

/-- **An op's label** is ended where the renderer ends it exactly when the method can be escaped so. -/
theorem closed_label_iff {op : DiffOp} : Dot.Closed op.label ↔ ∀ m, op.method = some m → Escapable m := by
  obtain ⟨before, hplain, hlabel⟩ : ∃ before, (∀ c ∈ before, c ≠ '"' ∧ c ≠ '\\') ∧
      op.label = before ++ escapeQuotes (op.method.getD []) := by
    cases op with
    | common aSeq bSeq dir hash method => exact ⟨dir.asStr ++ [' '], by cases dir <;> simp [Direction.asStr], rfl⟩
    | onlyA aSeq dir hash method => exact ⟨_ ++ dir.asStr ++ [' '], by cases dir <;> simp [Direction.asStr], rfl⟩
    | onlyB bSeq dir hash method => exact ⟨_ ++ dir.asStr ++ [' '], by cases dir <;> simp [Direction.asStr], rfl⟩
  unfold Dot.Closed
  rw [hlabel, Dot.inside_plain hplain]
  show Dot.Closed _ ↔ _
  rw [closed_escapeQuotes_iff]
  cases op.method with
  | none =>
    refine ⟨fun _ m hm => (by cases hm), fun _ => closed_escapeQuotes_iff.mp rfl⟩
  | some m => simp

/-! ### The statements that are meant -/

/-- `divergence`. -/
def divergenceWord : Str := ['d', 'i', 'v', 'e', 'r', 'g', 'e', 'n', 'c', 'e']
/-- `rankdir`. -/
def rankdirWord : Str := ['r', 'a', 'n', 'k', 'd', 'i', 'r']
/-- `shape`. -/
def shapeWord : Str := ['s', 'h', 'a', 'p', 'e']
/-- `box`. -/
def boxWord : Str := ['b', 'o', 'x']
/-- `fontname`. -/
def fontnameWord : Str := ['f', 'o', 'n', 't', 'n', 'a', 'm', 'e']
/-- `monospace`. -/
def monospaceWord : Str := ['m', 'o', 'n', 'o', 's', 'p', 'a', 'c', 'e']
/-- `labelloc`. -/
def labellocWord : Str := ['l', 'a', 'b', 'e', 'l', 'l', 'o', 'c']
/-- `style`. -/
def styleWord : Str := ['s', 't', 'y', 'l', 'e']
/-- `filled`. -/
def filledWord : Str := ['f', 'i', 'l', 'l', 'e', 'd']
/-- `fillcolor`. -/
def fillcolorWord : Str := ['f', 'i', 'l', 'l', 'c', 'o', 'l', 'o', 'r']

/-- The graph's direction. -/
def rankdirStmt : Dot.Stmt := .assign (.word rankdirWord) (.word ['L', 'R'])

/-- What nodes have. -/
def defaultsStmt : Dot.Stmt :=
  .defaults (.word Dot.nodeWord) [(.word shapeWord, .word boxWord), (.word fontnameWord, .quoted monospaceWord)]

/-- Where the graph's label is. -/
def labellocStmt : Dot.Stmt := .assign (.word labellocWord) (.quoted ['t'])

/-- The graph's label. -/
def labelStmt (report : DiffReport) : Dot.Stmt := .assign (.word Dot.labelWord) (.quoted (graphLabel report))

/-- An op's node. -/
def nodeStmt (i : ℕ) (op : DiffOp) : Dot.Stmt :=
  .node (.word (nodeName i)) [(.word Dot.labelWord, .quoted op.label),
    (.word styleWord, .word filledWord), (.word fillcolorWord, .quoted op.color)]

/-- The edge to the next node. -/
def edgeStmt (i : ℕ) : Dot.Stmt := .edge (.word (nodeName i)) (.word (nodeName (i + 1)))

/-- The nodes and the edges of the ops from the `i`-th on. -/
def loopStmts (n : ℕ) : ℕ → List DiffOp → List Dot.Stmt
  | _, [] => []
  | i, op :: ops => nodeStmt i op :: ((if i + 1 < n then [edgeStmt i] else []) ++ loopStmts n (i + 1) ops)

theorem graphLabel_loopStmts (n i : ℕ) (ops : List DiffOp) :
    (loopStmts n i ops).filterMap Dot.Stmt.graphLabel = [] := by
  induction ops generalizing i with
  | nil => rfl
  | cons op ops ih =>
    rw [loopStmts, List.filterMap_cons_none rfl, List.filterMap_append, ih]
    split_ifs <;> rfl

theorem nodeLabel_loopStmts (n i : ℕ) (ops : List DiffOp) : (loopStmts n i ops).filterMap Dot.Stmt.nodeLabel =
    ops.mapIdx fun j op => (.word (nodeName (i + j)), some (.quoted op.label)) := by
  induction ops generalizing i with
  | nil => rfl
  | cons op ops ih =>
    have hedge : (if i + 1 < n then [edgeStmt i] else []).filterMap Dot.Stmt.nodeLabel = [] := by
      split_ifs <;> rfl
    rw [loopStmts, List.filterMap_cons, List.filterMap_append, hedge, ih, List.mapIdx_cons]
    simp only [Nat.add_assoc, Nat.add_comm 1]
    rfl

theorem ends_loopStmts {n i : ℕ} {ops : List DiffOp} (h : i + ops.length = n) :
    (loopStmts n i ops).filterMap Dot.Stmt.ends =
      (List.range' i (n - 1 - i)).map fun j => (.word (nodeName j), .word (nodeName (j + 1))) := by
  induction ops generalizing i with
  | nil =>
    have hlast : n - 1 - i = 0 := by simp at h; omega
    rw [hlast]
    rfl
  | cons op ops ih =>
    rw [List.length_cons] at h
    rw [loopStmts, List.filterMap_cons_none rfl, List.filterMap_append, ih (by omega)]
    split_ifs with hi
    · have hsucc : n - 1 - i = n - 1 - (i + 1) + 1 := by omega
      rw [hsucc, List.range'_succ]
      rfl
    · have hlast : n - 1 - i = 0 ∧ n - 1 - (i + 1) = 0 := by omega
      rw [hlast.1, hlast.2]
      rfl

/-! ### The text of a statement -/

theorem isWord_display (i : ℕ) : ∀ c ∈ display i, Dot.isWord c = true := by
  intro c hc
  have hdigit := Json.isDigit_of_mem_decimal hc
  simp [Dot.isWord, Char.isAlphanum, hdigit]

/-- A node's name is none of the words that say what defaults are for: its second character is a digit. -/
theorem isKind_nodeName (i : ℕ) : (Dot.Token.word (nodeName i)).isKind = false := by
  have hlower : ∀ c : Char, c.isDigit = true → c.toLower = c := by
    intro c hc
    simp only [Char.isDigit, Bool.and_eq_true, decide_eq_true_eq] at hc
    unfold Char.toLower
    rw [dif_neg]
    rintro ⟨hupper, -⟩
    exact absurd (UInt32.le_trans hupper hc.2) (by decide)
  have ho : 'o' ∉ (display i).map Char.toLower := by
    intro h
    obtain ⟨c, hc, hco⟩ := List.mem_map.mp h
    have hdigit := Json.isDigit_of_mem_decimal hc
    rw [hlower c hdigit] at hco
    subst hco
    cases hdigit
  have hne : 'n' :: (display i).map Char.toLower ≠ Dot.nodeWord := by
    intro h
    apply ho
    rw [(List.cons.inj h).2]
    simp
  have hlowered : (nodeName i).map Char.toLower = 'n' :: (display i).map Char.toLower := rfl
  simp [Dot.Token.isKind, hlowered, hne, Dot.graphWord, Dot.edgeWord]

theorem lexes_nodeName (i : ℕ) {d : Char} {ts : List Dot.Token} (hd : Dot.Mode.start d = (.out, ts)) :
    Dot.Lexes (nodeName i ++ [d]) (.word (nodeName i) :: ts) :=
  Dot.lexes_word rfl (isWord_display i) hd

theorem closed_color (op : DiffOp) : Dot.Closed op.color := by cases op <;> rfl

theorem spells_nodeLine (i : ℕ) {op : DiffOp} (h : Dot.Closed op.label) :
    Dot.Spells (nodeLine i op) [nodeStmt i op] := by
  have hindent : Dot.Lexes [' ', ' '] [] := rfl
  have hlabel : Dot.Lexes ['[', 'l', 'a', 'b', 'e', 'l', '='] [.openBracket, .word Dot.labelWord, .equals] := rfl
  have hstyle : Dot.Lexes
      ([',', ' ', 's', 't', 'y', 'l', 'e', '=', 'f', 'i', 'l', 'l', 'e', 'd', ',', ' '] ++
        ['f', 'i', 'l', 'l', 'c', 'o', 'l', 'o', 'r', '='])
      [.comma, .word styleWord, .equals, .word filledWord, .comma, .word fillcolorWord, .equals] := rfl
  have hend : Dot.Lexes [']', ';', '\n'] [.closeBracket, .semicolon] := rfl
  have hlex := hindent.append ((lexes_nodeName i (d := ' ') rfl).append (hlabel.append ((Dot.lexes_quoted h).append
    (hstyle.append ((Dot.lexes_quoted (closed_color op)).append hend)))))
  have hread : Dot.ReadAs (.word (nodeName i) :: .openBracket :: (Dot.attrTokens [(.word Dot.labelWord, .quoted op.label),
      (.word styleWord, .word filledWord), (.word fillcolorWord, .quoted op.color)] ++ [.semicolon])) [_] :=
    .attrs rfl (by simp [Dot.Token.isId])
  rw [isKind_nodeName] at hread
  refine ⟨_, ?_, hread⟩
  unfold nodeLine
  simpa [Dot.attrTokens] using hlex

theorem spells_edgeLine (i : ℕ) : Dot.Spells (edgeLine i) [edgeStmt i] := by
  have hindent : Dot.Lexes [' ', ' '] [] := rfl
  have harrow : Dot.Lexes ['-', '>', ' '] [.minus, .greater] := rfl
  have hnext : Dot.Lexes (nodeName (i + 1) ++ [';']) [.word (nodeName (i + 1)), .semicolon] := lexes_nodeName (i + 1) rfl
  have hend : Dot.Lexes ['\n'] [] := rfl
  have hlex := hindent.append ((lexes_nodeName i (d := ' ') rfl).append (harrow.append (hnext.append hend)))
  refine ⟨_, ?_, Dot.ReadAs.edge rfl rfl⟩
  unfold edgeLine
  simpa using hlex

theorem spells_labelLine {report : DiffReport} (h : Dot.Closed (graphLabel report)) :
    Dot.Spells (labelLine report) [labelStmt report] := by
  have hlabel : Dot.Lexes [' ', ' ', 'l', 'a', 'b', 'e', 'l', '='] [.word Dot.labelWord, .equals] := rfl
  have hend : Dot.Lexes [';', '\n'] [.semicolon] := rfl
  have hlex := hlabel.append ((Dot.lexes_quoted h).append hend)
  refine ⟨_, ?_, Dot.ReadAs.assign rfl rfl⟩
  unfold labelLine
  simpa using hlex

theorem spells_rankdirLine : Dot.Spells rankdirLine [rankdirStmt] := ⟨_, rfl, .assign rfl rfl⟩

theorem spells_defaultsLine : Dot.Spells defaultsLine [defaultsStmt] := by
  have hread : Dot.ReadAs (.word Dot.nodeWord :: .openBracket :: (Dot.attrTokens [(.word shapeWord, .word boxWord),
      (.word fontnameWord, .quoted monospaceWord)] ++ [.semicolon])) [_] := .attrs rfl (by simp [Dot.Token.isId])
  exact ⟨_, rfl, hread⟩

theorem spells_labellocLine : Dot.Spells labellocLine [labellocStmt] := ⟨_, rfl, .assign rfl rfl⟩

/-! ### The text of a report -/

/-- **The loop** writes what is read as the ops' nodes and the edges between them. -/
theorem spells_dotLoop {n i : ℕ} {ops : List DiffOp} (h : ∀ op ∈ ops, Dot.Closed op.label) (out : Str) :
    ∃ text, dotLoop n i ops out = out ++ text ∧ Dot.Spells text (loopStmts n i ops) := by
  induction ops generalizing i out with
  | nil => exact ⟨[], (List.append_nil out).symm, .nil⟩
  | cons op ops ih =>
    have hnode := spells_nodeLine i (h op List.mem_cons_self)
    have hops := fun op' hop => h op' (List.mem_cons_of_mem op hop)
    rw [dotLoop, loopStmts]
    by_cases hi : i + 1 < n
    · obtain ⟨text, htext, hspells⟩ := ih (i := i + 1) hops (out ++ nodeLine i op ++ edgeLine i)
      simp only [if_pos hi]
      refine ⟨nodeLine i op ++ (edgeLine i ++ text), ?_, hnode.append ((spells_edgeLine i).append hspells)⟩
      rw [htext]
      simp only [List.append_assoc]
    · obtain ⟨text, htext, hspells⟩ := ih (i := i + 1) hops (out ++ nodeLine i op)
      simp only [if_neg hi]
      refine ⟨nodeLine i op ++ text, ?_, hnode.append hspells⟩
      rw [htext, List.append_assoc]

/-- A report whose labels are closed is read as the statements that were meant. -/
theorem read_renderDot {report : DiffReport} (hlabel : Dot.Closed (graphLabel report))
    (hops : ∀ op ∈ report.ops, Dot.Closed op.label) : Dot.read (renderDot report) =
      some ([rankdirStmt, defaultsStmt, labellocStmt, labelStmt report] ++ loopStmts report.ops.length 0 report.ops) := by
  have hhead : Dot.Lexes digraphLine [.word Dot.digraphWord, .word divergenceWord, .openBrace] := rfl
  obtain ⟨text, htext, hspells⟩ := spells_dotLoop (n := report.ops.length) (i := 0) hops
    (digraphLine ++ rankdirLine ++ defaultsLine ++ labellocLine ++ labelLine report)
  have hread := Dot.Spells.read hhead rfl (spells_rankdirLine.append (spells_defaultsLine.append
    (spells_labellocLine.append ((spells_labelLine hlabel).append hspells))))
  unfold renderDot
  rw [htext]
  simpa using hread

/-- **The diagram is drawn** exactly when every double quote in the traces' labels is paired, and every method can be
escaped. -/
theorem drawn_iff {report : DiffReport} : Drawn report ↔
    Paired report.labelA ∧ Paired report.labelB ∧ ∀ op ∈ report.ops, ∀ m, op.method = some m → Escapable m := by
  simp only [← closed_label_iff]
  rw [← and_assoc, ← closed_graphLabel_iff]
  constructor
  · rintro ⟨ss, hread, hgraph, hnodes, -⟩
    constructor
    · have hmem : .quoted (graphLabel report) ∈ ss.filterMap Dot.Stmt.graphLabel := by simp [hgraph]
      obtain ⟨st, hst, hlabel⟩ := List.mem_filterMap.mp hmem
      exact Dot.closed_of_read hread hst (Dot.Stmt.mem_tokens_of_graphLabel hlabel)
    · intro op hop
      obtain ⟨i, hi, rfl⟩ := List.getElem_of_mem hop
      have hmem : (.word (nodeName i), some (.quoted report.ops[i].label)) ∈ ss.filterMap Dot.Stmt.nodeLabel := by
        rw [hnodes]
        exact List.mem_mapIdx.mpr ⟨i, hi, rfl⟩
      obtain ⟨st, hst, hlabel⟩ := List.mem_filterMap.mp hmem
      exact Dot.closed_of_read hread hst (Dot.Stmt.mem_tokens_of_nodeLabel hlabel)
  · rintro ⟨hlabel, hops⟩
    refine ⟨_, read_renderDot hlabel hops, ?_, ?_, ?_⟩
    · rw [List.filterMap_append, graphLabel_loopStmts]
      rfl
    · rw [List.filterMap_append, nodeLabel_loopStmts]
      simp only [Nat.zero_add]
      rfl
    · rw [List.filterMap_append, ends_loopStmts (Nat.zero_add _), Nat.sub_zero, ← List.range_eq_range']
      rfl

/-! ### A forged node -/

/-- The report of a trace of no messages that is compared with itself. -/
def emptyReport (labelA : Str) : DiffReport := ⟨labelA, ['b'], [], ⟨0, 0, 0, none⟩⟩

/-- No steps compared with none. -/
theorem diffSteps_nil : diffSteps [] [] = ([], ⟨0, 0, 0, none⟩) := by
  have hnone : opsFrom (a := []) (b := []) (table [] []) 0 0 le_rfl le_rfl [] = [] := by
    rw [opsFrom_of_zero _ _ (.inl rfl)]
    rfl
  have hops : lcsDiff [] [] = [] := congrArg List.reverse hnone
  unfold diffSteps
  rw [hops]
  rfl

/-- Any label is that of such a trace. -/
theorem exists_emptyReport (labelA : Str) :
    ∃ d r, TraceReader.open (.plain []) ['t'] d = .ok r ∧ diffTwo r labelA r ['b'] = emptyReport labelA := by
  obtain ⟨d, r, hopen, hevents⟩ := exists_open (readsText_plain []) ['t'] []
  refine ⟨d, r, hopen, ?_⟩
  have hsteps : steps r = [] := by
    rw [steps, hevents]
    rfl
  rw [diffTwo, hsteps, diffSteps_nil]
  rfl

/-- A label that goes on with a node and another label. -/
def forgingLabel : Str :=
  ['a', '"', ';', ' ', 'n', '9', ' ', '[', 'l', 'a', 'b', 'e', 'l', '=', '"', 'x', '"', ']', ';', ' '] ++
    ['l', 'a', 'b', 'e', 'l', '=', '"']

/-- A label with a node after it, and methods that end their string early or not at all. -/
theorem drawn_fails :
    (∃ d r, TraceReader.open (.plain []) ['t'] d = .ok r ∧
      diffTwo r forgingLabel r ['b'] = emptyReport forgingLabel ∧
      ((Dot.read (renderDot (diffTwo r forgingLabel r ['b']))).map fun ss =>
        ((ss.filterMap Dot.Stmt.graphLabel).length, ss.filterMap Dot.Stmt.nodeLabel)) =
          some (2, [(.word ['n', '9'], some (.quoted ['x']))]) ∧
      ¬ Drawn (diffTwo r forgingLabel r ['b'])) ∧
    ∀ method, method = ['\\'] ∨ method = ['\\', '"'] →
      ∃ d r, TraceReader.open (.plain []) ['t'] d = .ok r ∧
        diffTwo r ['a'] r ['b'] = selfReport method (blake3Prefix ++ ['a']) ∧
        Dot.read (renderDot (diffTwo r ['a'] r ['b'])) = none ∧ ¬ Drawn (diffTwo r ['a'] r ['b']) := by
  constructor
  · obtain ⟨d, r, hopen, hreport⟩ := exists_emptyReport forgingLabel
    have hread : ((Dot.read (renderDot (emptyReport forgingLabel))).map fun ss =>
        ((ss.filterMap Dot.Stmt.graphLabel).length, ss.filterMap Dot.Stmt.nodeLabel)) =
          some (2, [(.word ['n', '9'], some (.quoted ['x']))]) := by decide +kernel
    rw [← hreport] at hread
    refine ⟨d, r, hopen, hreport, hread, ?_⟩
    rintro ⟨ss, hss, hgraph, -⟩
    rw [hss, Option.map_some, hgraph] at hread
    -- one label where there are two
    cases hread
  · intro method hmethod
    obtain ⟨d, r, hopen, hreport⟩ := exists_selfReport method (blake3Prefix ++ ['a'])
    have hread : Dot.read (renderDot (selfReport method (blake3Prefix ++ ['a']))) = none := by
      rcases hmethod with rfl | rfl
      · decide +kernel
      · decide +kernel
    rw [← hreport] at hread
    refine ⟨d, r, hopen, hreport, hread, ?_⟩
    rintro ⟨ss, hss, -⟩
    rw [hread] at hss
    cases hss

end AcpCore.Diverge
