import AcpCore.Library.Text
import Mathlib.Algebra.Ring.Parity
import Mathlib.Data.List.Induction

/-!
# DOT

Reading a directed graph in DOT.

## The model

In a quoted string a backslash pairs with the character after it, and a double quote that
is not paired ends the string (`inside`). The lexer is a machine that reads one character
at a time; its tokens are words, quoted strings and signs. Of the grammar there are
assignments, nodes and defaults with attributes, and edges. Comments, HTML strings,
ports, subgraphs and numerals with a point are left out.

## What is proved

* `scan_eq_some_iff`, `inside_eq_some_iff` — a text leaves a quoted string open exactly
  when every double quote in it comes after an odd number of backslashes;
* `Spells` — texts that are read as statements, one after the other;
* `Spells.read` — the text of a graph is read as its statements;
* **`closed_of_read`** — no string that is read has a double quote that is not paired,
  or a backslash at its end that is not.
-/

namespace AcpCore.Dot

open AcpCore.Text

/-! ### Quoted strings -/

/-- Whether a backslash waits for its character after some text in a quoted string; `none` where a double quote
has ended the string. -/
def inside : Bool → Str → Option Bool
  | esc, [] => some esc
  | true, _ :: s => inside false s
  | false, c :: s => if c = '"' then none else inside (c = '\\') s

/-- The text of a quoted string: it does not end it, and a double quote after it does. -/
def Closed (t : Str) : Prop := inside false t = some false

/-- How many backslashes a text ends with. -/
def trailing (s : Str) : ℕ := (s.reverse.takeWhile (· = '\\')).length

theorem inside_append (esc : Bool) (s t : Str) : inside esc (s ++ t) = (inside esc s).bind fun esc' => inside esc' t := by
  induction s generalizing esc with
  | nil => rfl
  | cons c s ih =>
    cases esc with
    | true => exact ih false
    | false =>
      rw [List.cons_append, inside, inside]
      split_ifs
      · rfl
      · exact ih _

theorem trailing_concat (s : Str) (c : Char) : trailing (s ++ [c]) = if c = '\\' then trailing s + 1 else 0 := by
  unfold trailing
  rw [List.reverse_append, List.reverse_singleton, List.singleton_append, List.takeWhile_cons]
  by_cases hc : c = '\\'
  · simp [hc]
  · simp [hc]

/-- What is before the double quotes of a text that is one character longer. -/
theorem forall_quote_concat {P : Str → Prop} {t : Str} {c : Char} :
    (∀ p s, t ++ [c] = p ++ '"' :: s → P p) ↔ (∀ p s, t = p ++ '"' :: s → P p) ∧ (c = '"' → P t) := by
  constructor
  · intro h
    refine ⟨fun p s ht => h p (s ++ [c]) ?_, fun hc => h t [] ?_⟩
    · rw [ht, List.append_assoc, List.cons_append]
    · rw [hc]
  · rintro ⟨hbefore, hlast⟩ p s ht
    rcases List.eq_nil_or_concat s with rfl | ⟨s, d, rfl⟩
    · obtain ⟨rfl, hc⟩ := List.append_inj' ht rfl
      cases hc
      exact hlast rfl
    · rw [List.concat_eq_append, ← List.cons_append, ← List.append_assoc] at ht
      exact hbefore p s (List.append_inj' ht rfl).1

/-- A scan in which a backslash waits for the next character, and a double quote is let through only when one waits
(`paired`), or only when none does. -/
theorem scan_eq_some_iff {f : Str → Option Bool} (paired : Bool) (hnil : f [] = some false)
    (hconcat : ∀ t c, f (t ++ [c]) = (f t).bind fun esc =>
      if c = '"' then (if esc = paired then some false else none) else some (decide (c = '\\') && !esc))
    {t : Str} {esc : Bool} : f t = some esc ↔
      (∀ p s, t = p ++ '"' :: s → (Odd (trailing p) ↔ paired = true)) ∧ (esc = true ↔ Odd (trailing t)) := by
  induction t using List.reverseRecOn generalizing esc with
  | nil =>
    have hnone : ∀ p s, ([] : Str) = p ++ '"' :: s → (Odd (trailing p) ↔ paired = true) := fun p s h => by simp at h
    rw [hnil]
    cases esc with
    | true => simp [trailing]
    | false => simp [trailing]
  | append_singleton t c ih =>
    rw [forall_quote_concat, trailing_concat, hconcat, Option.bind_eq_some_iff]
    -- what waits after `t` is whether it ends with an odd number of backslashes
    constructor
    · rintro ⟨waiting, ht, hc⟩
      obtain ⟨hquotes, hodd⟩ := ih.mp ht
      rw [and_assoc]
      refine ⟨hquotes, ?_⟩
      by_cases hquote : c = '"'
      · subst hquote
        simp only [if_true] at hc
        split_ifs at hc with hpaired
        cases hc
        rw [← hodd, hpaired]
        simp
      · rw [if_neg hquote, Option.some.injEq] at hc
        subst hc
        refine ⟨fun h => absurd h hquote, ?_⟩
        by_cases hslash : c = '\\'
        · simp [hslash, Nat.odd_add_one, ← hodd]
        · simp [hslash]
    · rintro ⟨⟨hquotes, hquote⟩, hesc⟩
      refine ⟨decide (Odd (trailing t)), ih.mpr ⟨hquotes, by simp⟩, ?_⟩
      by_cases hc : c = '"'
      · subst hc
        have hpaired : decide (Odd (trailing t)) = paired := by
          rw [Bool.eq_iff_iff, decide_eq_true_eq]
          exact hquote rfl
        simp at hesc
        simp [hpaired, hesc]
      · rw [if_neg hc, Option.some.injEq, Bool.eq_iff_iff, hesc]
        by_cases hslash : c = '\\'
        · simp [hslash, Nat.odd_add_one]
        · simp [hslash]

theorem inside_singleton (esc : Bool) (c : Char) : inside esc [c] =
    if c = '"' then (if esc = true then some false else none) else some (decide (c = '\\') && !esc) := by
  cases esc with
  | true => simp [inside]
  | false => simp [inside]

/-- **A text leaves a quoted string open** exactly when every double quote in it comes after an odd number of
backslashes. A backslash is left waiting when the text ends with an odd number of them. -/
theorem inside_eq_some_iff {t : Str} {esc : Bool} : inside false t = some esc ↔
    (∀ p s, t = p ++ '"' :: s → Odd (trailing p)) ∧ (esc = true ↔ Odd (trailing t)) := by
  have hconcat : ∀ t c, inside false (t ++ [c]) = (inside false t).bind fun esc =>
      if c = '"' then (if esc = true then some false else none) else some (decide (c = '\\') && !esc) := by
    intro t c
    rw [inside_append]
    simp only [inside_singleton]
  rw [scan_eq_some_iff true rfl hconcat]
  simp only [iff_true]

/-- A text leaves a quoted string open, in one state or the other. -/
theorem exists_inside_iff {t : Str} :
    (∃ esc, inside false t = some esc) ↔ ∀ p s, t = p ++ '"' :: s → Odd (trailing p) := by
  constructor
  · rintro ⟨esc, h⟩
    exact (inside_eq_some_iff.mp h).1
  · intro h
    exact ⟨decide (Odd (trailing t)), inside_eq_some_iff.mpr ⟨h, by simp⟩⟩

/-- A text without double quotes and backslashes changes nothing. -/
theorem inside_plain {s t : Str} (hs : ∀ c ∈ s, c ≠ '"' ∧ c ≠ '\\') :
    inside false (s ++ t) = inside false t := by
  induction s with
  | nil => rfl
  | cons c s ih =>
    obtain ⟨hquote, hslash⟩ := hs c List.mem_cons_self
    rw [List.cons_append, inside, if_neg hquote, decide_eq_false hslash]
    exact ih fun d hd => hs d (List.mem_cons_of_mem c hd)

/-! ### Tokens -/

/-- A token. -/
inductive Token where
  /-- A word. -/
  | word (w : Str)
  /-- A quoted string. -/
  | quoted (t : Str)
  /-- `=`. -/
  | equals
  /-- `,`. -/
  | comma
  /-- `;`. -/
  | semicolon
  /-- `[`. -/
  | openBracket
  /-- `]`. -/
  | closeBracket
  /-- `{`. -/
  | openBrace
  /-- `}`. -/
  | closeBrace
  /-- `-`. -/
  | minus
  /-- `>`. -/
  | greater
  /-- Any other sign. -/
  | other (c : Char)
  deriving DecidableEq

/-- The token of a sign. -/
def Token.ofChar (c : Char) : Token :=
  if c = '=' then .equals
  else if c = ',' then .comma
  else if c = ';' then .semicolon
  else if c = '[' then .openBracket
  else if c = ']' then .closeBracket
  else if c = '{' then .openBrace
  else if c = '}' then .closeBrace
  else if c = '-' then .minus
  else if c = '>' then .greater
  else .other c

theorem Token.ofChar_ne_quoted (c : Char) (t : Str) : Token.ofChar c ≠ .quoted t := by
  simp [ofChar, apply_ite (· = Token.quoted t)]

/-- A character of a word. -/
def isWord (c : Char) : Bool := c.isAlphanum || c = '_' || 0x80 ≤ c.toNat

/-- Where the lexer is. -/
inductive Mode where
  /-- Between tokens. -/
  | out
  /-- In a word. -/
  | word (w : Str)
  /-- In a quoted string, after a backslash or not. -/
  | quoted (esc : Bool) (t : Str)

/-- A character between tokens. -/
def Mode.start (c : Char) : Mode × List Token :=
  if c = '"' then (.quoted false [], [])
  else if isWord c then (.word [c], [])
  else if c.isWhitespace then (.out, [])
  else (.out, [.ofChar c])

/-- One character. -/
def Mode.step : Mode → Char → Mode × List Token
  | .out, c => start c
  | .word w, c => if isWord c then (.word (w ++ [c]), []) else ((start c).1, .word w :: (start c).2)
  | .quoted true t, c => (.quoted false (t ++ [c]), [])
  | .quoted false t, c => if c = '"' then (.out, [.quoted t]) else (.quoted (c = '\\') (t ++ [c]), [])

/-- The lexer: where it is after a text, and the tokens that ended in it. -/
def Mode.run : Mode → Str → Mode × List Token
  | m, [] => (m, [])
  | m, c :: s => ((run (m.step c).1 s).1, (m.step c).2 ++ (run (m.step c).1 s).2)

/-- The tokens of a text; `none` where a quoted string is not ended. -/
def lex (s : Str) : Option (List Token) :=
  match Mode.run .out s with
  | (.out, ts) => some ts
  | (.word w, ts) => some (ts ++ [.word w])
  | (.quoted _ _, _) => none

theorem Mode.run_append (m : Mode) (s t : Str) :
    m.run (s ++ t) = (((m.run s).1.run t).1, (m.run s).2 ++ ((m.run s).1.run t).2) := by
  induction s generalizing m with
  | nil => rfl
  | cons c s ih =>
    rw [List.cons_append, run, ih, run, List.append_assoc]

/-- A text that ends between tokens, and its tokens. -/
def Lexes (s : Str) (ts : List Token) : Prop := Mode.run .out s = (.out, ts)

theorem Lexes.append {s t : Str} {ts us : List Token} (hs : Lexes s ts) (ht : Lexes t us) :
    Lexes (s ++ t) (ts ++ us) := by
  unfold Lexes at *
  rw [Mode.run_append, hs, ht]

theorem run_word (w s : Str) (hs : ∀ c ∈ s, isWord c = true) : Mode.run (.word w) s = (.word (w ++ s), []) := by
  induction s generalizing w with
  | nil => rw [Mode.run, List.append_nil]
  | cons c s ih =>
    have hc := hs c List.mem_cons_self
    simp only [Mode.run, Mode.step, hc, if_true]
    rw [ih (w ++ [c]) fun d hd => hs d (List.mem_cons_of_mem c hd)]
    simp

/-- A word, and the sign or the space after it. -/
theorem lexes_word {c d : Char} {s : Str} {ts : List Token} (hc : isWord c = true) (hs : ∀ c ∈ s, isWord c = true)
    (hd : Mode.start d = (.out, ts)) : Lexes (c :: (s ++ [d])) (.word (c :: s) :: ts) := by
  have hquote : c ≠ '"' := by
    rintro rfl
    cases hc
  have hd' : isWord d = false := by
    by_contra hword
    rw [Bool.not_eq_false] at hword
    have hne : d ≠ '"' := by
      rintro rfl
      cases hword
    simp [Mode.start, hne, hword] at hd
  have hstart : Mode.step .out c = (.word [c], []) := by simp [Mode.step, Mode.start, hquote, hc]
  unfold Lexes
  rw [Mode.run, hstart, Mode.run_append, run_word [c] s hs]
  simp [Mode.run, Mode.step, hd', hd]

theorem run_quoted {esc esc' : Bool} {t : Str} (h : inside esc t = some esc') (u : Str) :
    Mode.run (.quoted esc u) t = (.quoted esc' (u ++ t), []) := by
  induction t generalizing esc u with
  | nil =>
    cases h
    rw [Mode.run, List.append_nil]
  | cons c t ih =>
    cases esc with
    | true => simp [Mode.run, Mode.step, ih h]
    | false =>
      rw [inside] at h
      split_ifs at h with hquote
      simp [Mode.run, Mode.step, hquote, ih h]

/-- **A closed text in double quotes is one string.** -/
theorem lexes_quoted {t : Str} (h : Closed t) : Lexes ('"' :: (t ++ ['"'])) [.quoted t] := by
  have hrun := run_quoted h []
  unfold Lexes
  show Mode.run (.quoted false []) (t ++ ['"']) = _
  rw [Mode.run_append, hrun]
  rfl

/-- Where the lexer is in a quoted string, the text so far has not ended it. -/
def Mode.Open : Mode → Prop
  | .quoted esc t => inside false t = some esc
  | _ => True

theorem open_step {m : Mode} (hm : m.Open) (c : Char) :
    (m.step c).1.Open ∧ ∀ t, .quoted t ∈ (m.step c).2 → Closed t := by
  have hstart : (Mode.start c).1.Open ∧ ∀ t, .quoted t ∉ (Mode.start c).2 := by
    unfold Mode.start
    split_ifs
    · exact ⟨rfl, fun t => List.not_mem_nil⟩
    · exact ⟨trivial, fun t => List.not_mem_nil⟩
    · exact ⟨trivial, fun t => List.not_mem_nil⟩
    · exact ⟨trivial, fun t ht => Token.ofChar_ne_quoted c t (List.mem_singleton.mp ht).symm⟩
  cases m with
  | out => exact ⟨hstart.1, fun t ht => absurd ht (hstart.2 t)⟩
  | word w =>
    rw [Mode.step]
    split_ifs
    · exact ⟨trivial, fun t ht => (by cases ht)⟩
    · refine ⟨hstart.1, fun t ht => ?_⟩
      rcases List.mem_cons.mp ht with ht | ht
      · cases ht
      · exact absurd ht (hstart.2 t)
  | quoted esc u =>
    have hu : inside false u = some esc := hm
    have hnext : inside false (u ++ [c]) = inside esc [c] := by rw [inside_append, hu, Option.bind_some]
    cases esc with
    | true => exact ⟨hnext, fun t ht => (by cases ht)⟩
    | false =>
      rw [Mode.step]
      split_ifs with hc
      · refine ⟨trivial, fun t ht => ?_⟩
        cases List.mem_singleton.mp ht
        exact hu
      · refine ⟨?_, fun t ht => (by cases ht)⟩
        show inside false (u ++ [c]) = _
        rw [hnext, inside, if_neg hc, inside]

/-- **A string that is lexed is closed.** -/
theorem closed_of_run {m : Mode} (hm : m.Open) (s : Str) :
    (m.run s).1.Open ∧ ∀ t, .quoted t ∈ (m.run s).2 → Closed t := by
  induction s generalizing m with
  | nil => exact ⟨hm, fun t ht => (by cases ht)⟩
  | cons c s ih =>
    obtain ⟨hopen, hclosed⟩ := open_step hm c
    obtain ⟨hopen', hclosed'⟩ := ih hopen
    refine ⟨hopen', fun t ht => ?_⟩
    rcases List.mem_append.mp ht with ht | ht
    · exact hclosed t ht
    · exact hclosed' t ht

theorem closed_of_lex {s : Str} {ts : List Token} (h : lex s = some ts) {t : Str} (ht : .quoted t ∈ ts) : Closed t := by
  obtain ⟨-, hclosed⟩ := closed_of_run (m := .out) trivial s
  unfold lex at h
  split at h
  · next us hrun =>
    cases h
    rw [hrun] at hclosed
    exact hclosed t ht
  · next w us hrun =>
    cases h
    rw [hrun] at hclosed
    rcases List.mem_append.mp ht with ht | ht
    · exact hclosed t ht
    · cases List.mem_singleton.mp ht
  · cases h

/-! ### Statements -/

/-- A word or a quoted string. -/
def Token.isId : Token → Bool
  | .word _ => true
  | .quoted _ => true
  | _ => false

/-- A statement. -/
inductive Stmt where
  /-- `key = value`. -/
  | assign (key value : Token)
  /-- Attributes of all graphs, nodes or edges. -/
  | defaults (kind : Token) (attrs : List (Token × Token))
  /-- A node with its attributes. -/
  | node (name : Token) (attrs : List (Token × Token))
  /-- An edge. -/
  | edge (source target : Token)
  deriving DecidableEq

/-- `graph`. -/
def graphWord : Str := ['g', 'r', 'a', 'p', 'h']
/-- `node`. -/
def nodeWord : Str := ['n', 'o', 'd', 'e']
/-- `edge`. -/
def edgeWord : Str := ['e', 'd', 'g', 'e']
/-- `digraph`. -/
def digraphWord : Str := ['d', 'i', 'g', 'r', 'a', 'p', 'h']
/-- `label`. -/
def labelWord : Str := ['l', 'a', 'b', 'e', 'l']

/-- What defaults are for, in upper or lower case. -/
def Token.isKind : Token → Bool
  | .word w => w.map Char.toLower = graphWord || w.map Char.toLower = nodeWord || w.map Char.toLower = edgeWord
  | _ => false

/-- A token that need not be there. -/
def skip (t : Token) : List Token → List Token
  | [] => []
  | u :: ts => if u = t then ts else u :: ts

/-- Attributes, up to the bracket that closes them. -/
def readAttrs : ℕ → List Token → Option (List (Token × Token) × List Token)
  | 0, _ => none
  | n + 1, ts =>
    match ts with
    | .closeBracket :: ts => some ([], ts)
    | key :: .equals :: value :: ts =>
      if key.isId && value.isId then (readAttrs n (skip .comma ts)).map fun r => ((key, value) :: r.1, r.2) else none
    | _ => none

/-- One statement. -/
def readStmt : List Token → Option (Stmt × List Token)
  | key :: .equals :: value :: ts => if key.isId && value.isId then some (.assign key value, ts) else none
  | name :: .openBracket :: ts =>
    if name.isId then
      (readAttrs ts.length ts).map fun r => (if name.isKind then .defaults name r.1 else .node name r.1, r.2)
    else none
  | source :: .minus :: .greater :: target :: ts =>
    if source.isId && target.isId then some (.edge source target, ts) else none
  | _ => none

/-- Statements, up to the brace that ends the graph and the text. -/
def readStmts : ℕ → List Token → Option (List Stmt)
  | 0, _ => none
  | n + 1, ts =>
    if ts = [.closeBrace] then some []
    else
      match readStmt ts with
      | none => none
      | some (s, ts) => (readStmts n (skip .semicolon ts)).map (s :: ·)

/-- The statements of a directed graph. -/
def read (s : Str) : Option (List Stmt) :=
  match lex s with
  | some (digraph :: name :: .openBrace :: ts) =>
    if digraph = .word digraphWord && name.isId then readStmts (ts.length + 1) ts else none
  | _ => none

/-- The label a statement gives the graph. -/
def Stmt.graphLabel : Stmt → Option Token
  | .assign key value => if key = .word labelWord then some value else none
  | .defaults kind attrs => if kind = .word graphWord then attrs.lookup (.word labelWord) else none
  | _ => none

/-- The node of a statement, and its label. -/
def Stmt.nodeLabel : Stmt → Option (Token × Option Token)
  | .node name attrs => some (name, attrs.lookup (.word labelWord))
  | _ => none

/-- The ends of an edge. -/
def Stmt.ends : Stmt → Option (Token × Token)
  | .edge source target => some (source, target)
  | _ => none

/-- The tokens a statement has. -/
def Stmt.tokens : Stmt → List Token
  | .assign key value => [key, value]
  | .defaults kind attrs => kind :: attrs.flatMap fun a => [a.1, a.2]
  | .node name attrs => name :: attrs.flatMap fun a => [a.1, a.2]
  | .edge source target => [source, target]

theorem Stmt.mem_tokens_of_graphLabel {s : Stmt} {t : Token} (h : s.graphLabel = some t) : t ∈ s.tokens := by
  cases s with
  | assign key value =>
    rw [graphLabel] at h
    split_ifs at h
    cases h
    simp [tokens]
  | defaults kind attrs =>
    rw [graphLabel] at h
    split_ifs at h
    obtain ⟨before, after, rfl, -⟩ := List.lookup_eq_some_iff.mp h
    simp [tokens]
  | node name attrs => cases h
  | edge source target => cases h

theorem Stmt.mem_tokens_of_nodeLabel {s : Stmt} {name t : Token} (h : s.nodeLabel = some (name, some t)) :
    t ∈ s.tokens := by
  cases s with
  | node name' attrs =>
    rw [nodeLabel, Option.some.injEq, Prod.mk.injEq] at h
    obtain ⟨before, after, rfl, -⟩ := List.lookup_eq_some_iff.mp h.2
    simp [tokens]
  | assign key value => cases h
  | defaults kind attrs => cases h
  | edge source target => cases h

/-! ### What is read is in the text -/

theorem skip_subset (t : Token) (ts : List Token) : skip t ts ⊆ ts := by
  cases ts with
  | nil => exact List.Subset.refl _
  | cons u ts =>
    rw [skip]
    split_ifs
    · exact List.subset_cons_self u ts
    · exact List.Subset.refl _

theorem readAttrs_subset {n : ℕ} {ts rest : List Token} {attrs : List (Token × Token)}
    (h : readAttrs n ts = some (attrs, rest)) : (attrs.flatMap fun a => [a.1, a.2]) ⊆ ts ∧ rest ⊆ ts := by
  induction n generalizing ts attrs with
  | zero => cases h
  | succ n ih =>
    unfold readAttrs at h
    split at h
    · cases h
      exact ⟨List.nil_subset _, List.subset_cons_self _ _⟩
    · next key value us _ =>
      split_ifs at h
      obtain ⟨⟨attrs', rest'⟩, hattrs, hcons⟩ := Option.map_eq_some_iff.mp h
      cases hcons
      obtain ⟨hin, hrest⟩ := ih hattrs
      have hus : skip .comma us ⊆ key :: .equals :: value :: us := fun t ht =>
        List.mem_cons_of_mem _ (List.mem_cons_of_mem _ (List.mem_cons_of_mem _ (skip_subset _ _ ht)))
      refine ⟨?_, fun t ht => hus (hrest ht)⟩
      simp only [List.flatMap_cons, List.cons_append, List.nil_append, List.cons_subset]
      exact ⟨by simp, by simp, fun t ht => hus (hin ht)⟩
    · cases h

theorem readStmt_subset {ts rest : List Token} {s : Stmt} (h : readStmt ts = some (s, rest)) :
    s.tokens ⊆ ts ∧ rest ⊆ ts := by
  unfold readStmt at h
  split at h
  · next key value us =>
    split_ifs at h
    cases h
    refine ⟨?_, fun t ht => by simp [ht]⟩
    simp [Stmt.tokens]
  · next name us =>
    by_cases hname : name.isId = true
    · rw [if_pos hname] at h
      obtain ⟨⟨attrs, rest'⟩, hattrs, hs⟩ := Option.map_eq_some_iff.mp h
      cases hs
      obtain ⟨hin, hrest⟩ := readAttrs_subset hattrs
      refine ⟨?_, fun t ht => by simp [hrest ht]⟩
      have htokens : (name :: attrs.flatMap fun a => [a.1, a.2]) ⊆ name :: .openBracket :: us := by
        rw [List.cons_subset]
        exact ⟨List.mem_cons_self, fun t ht => by simp [hin ht]⟩
      simp only
      split_ifs
      · exact htokens
      · exact htokens
    · rw [if_neg hname] at h
      cases h
  · next source target us =>
    split_ifs at h
    cases h
    refine ⟨?_, fun t ht => by simp [ht]⟩
    simp [Stmt.tokens]
  · cases h

theorem readStmts_subset {n : ℕ} {ts : List Token} {ss : List Stmt} (h : readStmts n ts = some ss) :
    ∀ s ∈ ss, s.tokens ⊆ ts := by
  induction n generalizing ts ss with
  | zero => cases h
  | succ n ih =>
    unfold readStmts at h
    split_ifs at h
    · cases h
      exact fun s hs => by cases hs
    · split at h
      · cases h
      · next s rest hs =>
        obtain ⟨ss', hss, hcons⟩ := Option.map_eq_some_iff.mp h
        cases hcons
        obtain ⟨htokens, hrest⟩ := readStmt_subset hs
        intro s' hs'
        rcases List.mem_cons.mp hs' with rfl | hs'
        · exact htokens
        · exact fun t ht => hrest (skip_subset _ _ (ih hss s' hs' ht))

/-- **A string in a statement that is read is closed.** -/
theorem closed_of_read {s : Str} {ss : List Stmt} (h : read s = some ss) {st : Stmt} (hst : st ∈ ss) {t : Str}
    (ht : .quoted t ∈ st.tokens) : Closed t := by
  unfold read at h
  split at h
  · next digraph name ts hlex =>
    split_ifs at h
    apply closed_of_lex hlex
    have hin := readStmts_subset h st hst ht
    simp [hin]
  · cases h

/-! ### Texts of statements -/

/-- Tokens that are read as statements, whatever comes after them. -/
structure ReadAs (ts : List Token) (ss : List Stmt) : Prop where
  /-- They are read first. -/
  reads : ∀ us n, readStmts (n + ss.length) (ts ++ us) = (readStmts n us).map (ss ++ ·)
  /-- A statement has a token at least. -/
  length_le : ss.length ≤ ts.length

theorem ReadAs.nil : ReadAs [] [] where
  reads us n := by simp
  length_le := le_rfl

theorem ReadAs.append {ts us : List Token} {ss rs : List Stmt} (hs : ReadAs ts ss) (hr : ReadAs us rs) :
    ReadAs (ts ++ us) (ss ++ rs) where
  reads vs n := by
    rw [List.length_append, Nat.add_comm ss.length, ← Nat.add_assoc, List.append_assoc, hs.reads, hr.reads,
      Option.map_map]
    simp only [Function.comp_def, List.append_assoc]
  length_le := by
    have := hs.length_le
    have := hr.length_le
    simp only [List.length_append]
    omega

/-- A statement with a semicolon after it. -/
theorem ReadAs.single {ts : List Token} {s : Stmt} (hne : ∀ us, ts ++ .semicolon :: us ≠ [.closeBrace])
    (hs : ∀ us, readStmt (ts ++ .semicolon :: us) = some (s, .semicolon :: us)) : ReadAs (ts ++ [.semicolon]) [s] where
  reads us n := by
    rw [List.append_assoc, List.singleton_append, List.length_singleton, readStmts, if_neg (hne us), hs]
    simp [skip]
  length_le := by simp

theorem ReadAs.assign {key value : Token} (hkey : key.isId = true) (hvalue : value.isId = true) :
    ReadAs [key, .equals, value, .semicolon] [.assign key value] := by
  show ReadAs ([key, .equals, value] ++ [.semicolon]) _
  apply ReadAs.single
  · intro us
    simp
  · intro us
    simp [readStmt, hkey, hvalue]

theorem ReadAs.edge {source target : Token} (hsource : source.isId = true) (htarget : target.isId = true) :
    ReadAs [source, .minus, .greater, target, .semicolon] [.edge source target] := by
  show ReadAs ([source, .minus, .greater, target] ++ [.semicolon]) _
  apply ReadAs.single
  · intro us
    simp
  · intro us
    simp [readStmt, hsource, htarget]

/-- Attributes with commas between them, and the bracket that closes them. -/
def attrTokens : List (Token × Token) → List Token
  | [] => [.closeBracket]
  | [a] => [a.1, .equals, a.2, .closeBracket]
  | a :: b :: attrs => a.1 :: .equals :: a.2 :: .comma :: attrTokens (b :: attrs)

theorem readAttrs_cons {key value : Token} (hkey : key.isId = true) (hvalue : value.isId = true) (n : ℕ)
    (ts : List Token) : readAttrs (n + 1) (key :: .equals :: value :: ts) =
      (readAttrs n (skip .comma ts)).map fun r => ((key, value) :: r.1, r.2) := by
  have hboth : (key.isId && value.isId) = true := by rw [hkey, hvalue]; rfl
  cases key with
  | word | quoted => exact if_pos hboth
  | _ => cases hkey

theorem readAttrs_attrTokens {n : ℕ} {attrs : List (Token × Token)} (hn : attrs.length < n)
    (hattrs : ∀ a ∈ attrs, a.1.isId = true ∧ a.2.isId = true) (us : List Token) :
    readAttrs n (attrTokens attrs ++ us) = some (attrs, us) := by
  induction attrs using attrTokens.induct generalizing n with
  | case1 =>
    obtain ⟨n, rfl⟩ : ∃ m, n = m + 1 := ⟨n - 1, by simp at hn; omega⟩
    rfl
  | case2 a =>
    obtain ⟨n, rfl⟩ : ∃ m, n = m + 1 + 1 := ⟨n - 2, by simp at hn; omega⟩
    obtain ⟨hkey, hvalue⟩ := hattrs a List.mem_cons_self
    simp only [attrTokens, List.cons_append, List.nil_append]
    rw [readAttrs_cons hkey hvalue]
    rfl
  | case3 a b attrs ih =>
    obtain ⟨n, rfl⟩ : ∃ m, n = m + 1 := ⟨n - 1, by simp at hn; omega⟩
    obtain ⟨hkey, hvalue⟩ := hattrs a List.mem_cons_self
    simp only [attrTokens, List.cons_append]
    rw [readAttrs_cons hkey hvalue, skip, if_pos rfl,
      ih (Nat.lt_of_succ_lt_succ hn) fun c hc => hattrs c (List.mem_cons_of_mem a hc)]
    rfl

theorem length_le_attrTokens (attrs : List (Token × Token)) : attrs.length < (attrTokens attrs).length := by
  induction attrs using attrTokens.induct with
  | case1 => decide
  | case2 a => simp [attrTokens]
  | case3 a b attrs ih =>
    simp only [attrTokens, List.length_cons] at ih ⊢
    omega

/-- What is read of a name with attributes. -/
theorem readStmt_attrs {name : Token} (hname : name.isId = true) {attrs : List (Token × Token)}
    (hattrs : ∀ a ∈ attrs, a.1.isId = true ∧ a.2.isId = true) (us : List Token) :
    readStmt (name :: .openBracket :: (attrTokens attrs ++ us)) =
      some (if name.isKind then .defaults name attrs else .node name attrs, us) := by
  have hlen : attrs.length < (attrTokens attrs ++ us).length := by
    have := length_le_attrTokens attrs
    rw [List.length_append]
    omega
  rw [readStmt, if_pos hname, readAttrs_attrTokens hlen hattrs, Option.map_some]

theorem ReadAs.attrs {name : Token} (hname : name.isId = true) {attrs : List (Token × Token)}
    (hattrs : ∀ a ∈ attrs, a.1.isId = true ∧ a.2.isId = true) :
    ReadAs (name :: .openBracket :: (attrTokens attrs ++ [.semicolon]))
      [if name.isKind then .defaults name attrs else .node name attrs] := by
  show ReadAs (name :: .openBracket :: attrTokens attrs ++ [.semicolon]) _
  apply ReadAs.single
  · intro us
    simp
  · intro us
    exact readStmt_attrs hname hattrs _

/-- A text that is read as statements. -/
def Spells (s : Str) (ss : List Stmt) : Prop := ∃ ts, Lexes s ts ∧ ReadAs ts ss

theorem Spells.nil : Spells [] [] := ⟨[], rfl, .nil⟩

theorem Spells.append {s t : Str} {ss rs : List Stmt} (hs : Spells s ss) (ht : Spells t rs) :
    Spells (s ++ t) (ss ++ rs) := by
  obtain ⟨ts, hlex, hread⟩ := hs
  obtain ⟨us, hlex', hread'⟩ := ht
  exact ⟨ts ++ us, hlex.append hlex', hread.append hread'⟩

/-- **The text of a graph is read as its statements.** -/
theorem Spells.read {head s : Str} {name : Token} {ss : List Stmt}
    (hhead : Lexes head [.word digraphWord, name, .openBrace]) (hname : name.isId = true) (hs : Spells s ss) :
    Dot.read (head ++ s ++ ['}', '\n']) = some ss := by
  obtain ⟨ts, hlex, hread⟩ := hs
  have hend : Lexes ['}', '\n'] [.closeBrace] := rfl
  have htext : lex (head ++ s ++ ['}', '\n']) =
      some (.word digraphWord :: name :: .openBrace :: (ts ++ [.closeBrace])) := by
    unfold lex
    rw [(hhead.append hlex).append hend]
    simp
  have hstmts : readStmts ((ts ++ [Token.closeBrace]).length + 1) (ts ++ [.closeBrace]) = some ss := by
    have hle := hread.length_le
    have hfuel : (ts ++ [Token.closeBrace]).length + 1 = ts.length - ss.length + 1 + 1 + ss.length := by
      rw [List.length_append, List.length_singleton]
      omega
    rw [hfuel, hread.reads, readStmts, if_pos rfl]
    simp
  unfold Dot.read
  rw [htext]
  simp only [hname, hstmts, decide_true, Bool.and_self, if_true]

end AcpCore.Dot
