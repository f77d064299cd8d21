import AcpCore.Library.Json

/-!
# Indented JSON text

The text of a tree laid out over several lines (`renderPretty`): two blanks for
each level, one item or member a line, nothing between the brackets of an empty
array or object. `compact` takes the whitespace outside strings away.

* `compact_renderPretty` — without its layout the text is the compact text, so the
  two say the same;
* `compact_render` — the compact text has no layout.
-/

namespace AcpCore.Json

open AcpCore.Text

/-! ### Layout -/

/-- A new line at a level of indentation. -/
def lineBreak (n : ℕ) : Str := '\n' :: List.replicate (2 * n) ' '

/-- Pieces between brackets, each on a line of its own. -/
def block (n : ℕ) (left right : Char) (ps : List Str) : Str :=
  left :: (sepBy ',' (ps.map fun p => lineBreak (n + 1) ++ p) ++ ((if ps = [] then [] else lineBreak n) ++ [right]))

mutual

/-- The indented text of a tree, which starts at level `n`. -/
def renderPretty (n : ℕ) : Tree → Str
  | .arr ts => block n '[' ']' (prettyItems (n + 1) ts)
  | .obj ms => block n '{' '}' (prettyMembers (n + 1) ms)
  | .null => render .null
  | .bool b => render (.bool b)
  | .num l => render (.num l)
  | .str s => render (.str s)

/-- The texts of the items. -/
def prettyItems (n : ℕ) : List Tree → List Str
  | [] => []
  | t :: ts => renderPretty n t :: prettyItems n ts

/-- The texts of the members. -/
def prettyMembers (n : ℕ) : List (Str × Tree) → List Str
  | [] => []
  | (k, t) :: ms => (renderStr k ++ ':' :: ' ' :: renderPretty n t) :: prettyMembers n ms

end

theorem prettyItems_eq_map (n : ℕ) (ts : List Tree) : prettyItems n ts = ts.map (renderPretty n) := by
  induction ts with
  | nil => rfl
  | cons t ts ih => rw [prettyItems, ih]; rfl

theorem prettyMembers_eq_map (n : ℕ) (ms : List (Str × Tree)) :
    prettyMembers n ms = ms.map fun m => renderStr m.1 ++ ':' :: ' ' :: renderPretty n m.2 := by
  induction ms with
  | nil => rfl
  | cons m ms ih => rw [prettyMembers, ih]; rfl

/-! ### Taking the layout away -/

/-- A text without the whitespace outside strings; the flag says whether it starts inside one. -/
def compact : Bool → Str → Str
  | _, [] => []
  | false, c :: s => if isWs c then compact false s else c :: compact (c == '"') s
  | true, [c] => [c]
  | true, c :: d :: s => if c = '\\' then c :: d :: compact true s else c :: compact (c != '"') (d :: s)

theorem compact_ws {c : Char} (hc : isWs c = true) (s : Str) : compact false (c :: s) = compact false s := by
  rw [compact, if_pos hc]

theorem compact_mark {c : Char} (hc : isWs c = false) (hq : c ≠ '"') (s : Str) :
    compact false (c :: s) = c :: compact false s := by
  rw [compact, if_neg (by simp [hc]), beq_false_of_ne hq]

theorem compact_inside {c : Char} (hb : c ≠ '\\') (hq : c ≠ '"') (s : Str) :
    compact true (c :: s) = c :: compact true s := by
  cases s with
  | nil => rfl
  | cons d s => rw [compact, if_neg hb, bne_iff_ne.mpr hq]

theorem compact_escape_head (d : Char) (s : Str) : compact true ('\\' :: d :: s) = '\\' :: d :: compact true s := by
  rw [compact, if_pos rfl]

theorem compact_quote (s : Str) : compact true ('"' :: s) = '"' :: compact false s := by
  cases s with
  | nil => rfl
  | cons d s => rfl

theorem hexDigit_plain : ∀ n < 16, hexDigit n ≠ '\\' ∧ hexDigit n ≠ '"' := by decide +kernel

theorem compact_escape (c : Char) (s : Str) : compact true (escape c ++ s) = escape c ++ compact true s := by
  rcases escape_cases c with ⟨e, hescape, -⟩ | ⟨hcontrol, hescape⟩ | ⟨hescape, hquote, hslash, -⟩
  · rw [hescape]
    exact compact_escape_head e s
  · rw [hescape]
    obtain ⟨hb, hq⟩ := hexDigit_plain (c.toNat / 16) (by omega)
    obtain ⟨hb', hq'⟩ := hexDigit_plain (c.toNat % 16) (by omega)
    simp only [List.cons_append, List.nil_append]
    rw [compact_escape_head, compact_inside (by decide) (by decide), compact_inside (by decide) (by decide),
      compact_inside hb hq, compact_inside hb' hq']
  · rw [hescape]
    exact compact_inside hslash hquote s

theorem compact_renderStr (s r : Str) : compact false (renderStr s ++ r) = renderStr s ++ compact false r := by
  have hs : ∀ s : Str, compact true (s.flatMap escape ++ '"' :: r) = s.flatMap escape ++ '"' :: compact false r := by
    intro s
    induction s with
    | nil => exact compact_quote r
    | cons c s ih => rw [List.flatMap_cons, List.append_assoc, compact_escape, ih, List.append_assoc]
  rw [renderStr, List.cons_append, compact, if_neg (by decide), List.append_assoc]
  exact congrArg ('"' :: ·) (by simpa using hs s)

theorem compact_lineBreak (n : ℕ) (s : Str) : compact false (lineBreak n ++ s) = compact false s := by
  have hr : ∀ m, compact false (List.replicate m ' ' ++ s) = compact false s := by
    intro m
    induction m with
    | zero => rfl
    | succ m ih => rw [List.replicate_succ, List.cons_append, compact_ws (by decide), ih]
  rw [lineBreak, List.cons_append, compact_ws (by decide), hr]

theorem compact_marks {p : Str} (hp : ∀ c ∈ p, isWs c = false ∧ c ≠ '"') (s : Str) :
    compact false (p ++ s) = p ++ compact false s := by
  induction p with
  | nil => rfl
  | cons c p ih =>
    obtain ⟨hw, hq⟩ := hp c List.mem_cons_self
    rw [List.cons_append, compact_mark hw hq, ih fun d hd => hp d (List.mem_cons_of_mem c hd), List.cons_append]

theorem plain_isNumChar {c : Char} (hc : isNumChar c = true) : isWs c = false ∧ c ≠ '"' := by
  have hne : ∀ d : Char, isNumChar d = false → c ≠ d := by
    rintro d hd rfl
    rw [hd] at hc
    cases hc
  refine ⟨?_, hne _ (by decide)⟩
  simp [isWs, hne ' ' (by decide), hne '\t' (by decide), hne '\n' (by decide), hne '\r' (by decide)]

/-- A block without its layout is the pieces without theirs, separated by commas. -/
theorem compact_block {α : Type} (n : ℕ) {left right : Char} (hl : isWs left = false ∧ left ≠ '"')
    (hr : isWs right = false ∧ right ≠ '"') (f g : α → Str) (xs : List α)
    (hfg : ∀ x ∈ xs, ∀ s, compact false (f x ++ s) = g x ++ compact false s) (s : Str) :
    compact false (block n left right (xs.map f) ++ s)
      = left :: (sepBy ',' (xs.map g) ++ right :: compact false s) := by
  have hpieces : ∀ r, compact false (sepBy ',' ((xs.map f).map fun p => lineBreak (n + 1) ++ p) ++ r)
      = sepBy ',' (xs.map g) ++ compact false r := by
    intro r
    induction xs with
    | nil => rfl
    | cons x xs ih =>
      have hx := hfg x List.mem_cons_self
      cases xs with
      | nil =>
        simp only [List.map_cons, List.map_nil, sepBy_singleton, List.append_assoc]
        rw [compact_lineBreak, hx]
      | cons y ys =>
        have ih := ih fun z hz => hfg z (List.mem_cons_of_mem x hz)
        simp only [List.map_cons, sepBy_cons_cons, List.append_assoc, List.cons_append] at ih ⊢
        rw [compact_lineBreak, hx, compact_mark (by decide) (by decide), ih]
  have htail : compact false ((if xs.map f = [] then [] else lineBreak n) ++ ([right] ++ s))
      = right :: compact false s := by
    have hright : compact false ([right] ++ s) = right :: compact false s := compact_mark hr.1 hr.2 s
    split_ifs
    · exact hright
    · rw [compact_lineBreak, hright]
  rw [block, List.cons_append, compact_mark hl.1 hl.2, List.append_assoc, hpieces, List.append_assoc, htail]

/-- **Without its layout the indented text is the compact text.** -/
theorem compact_renderPretty (t : Tree) : ∀ n s, compact false (renderPretty n t ++ s) = render t ++ compact false s := by
  induction t using Tree.ind with
  | null =>
    intro n s
    exact compact_marks (p := ['n', 'u', 'l', 'l']) (by simp [isWs]) s
  | bool b =>
    intro n s
    cases b
    · exact compact_marks (p := ['f', 'a', 'l', 's', 'e']) (by simp [isWs]) s
    · exact compact_marks (p := ['t', 'r', 'u', 'e']) (by simp [isWs]) s
  | num l =>
    intro n s
    exact compact_marks (fun c hc => plain_isNumChar (l.all_isNumChar c hc)) s
  | str x =>
    intro n s
    exact compact_renderStr x s
  | arr ts ih =>
    intro n s
    rw [renderPretty, prettyItems_eq_map, compact_block n (by decide) (by decide) _ render ts fun t ht s => ih t ht _ s]
    rw [render, renderItems_eq_map, List.cons_append, List.append_assoc]
    rfl
  | obj ms ih =>
    intro n s
    have hm : ∀ m ∈ ms, ∀ s, compact false ((renderStr m.1 ++ ':' :: ' ' :: renderPretty (n + 1) m.2) ++ s)
        = (renderStr m.1 ++ ':' :: render m.2) ++ compact false s := by
      intro m hm s
      simp only [List.append_assoc, List.cons_append]
      rw [compact_renderStr, compact_mark (by decide) (by decide), compact_ws (by decide), ih m hm]
    rw [renderPretty, prettyMembers_eq_map,
      compact_block n (by decide) (by decide) _ (fun m => renderStr m.1 ++ ':' :: render m.2) ms hm]
    rw [render, renderMembers_eq_map, List.cons_append, List.append_assoc]
    rfl

/-! ### Compact text has no layout -/

/-- Pieces without layout, separated by commas, have none. -/
theorem compact_sepBy {ps : List Str} (hp : ∀ p ∈ ps, ∀ s, compact false (p ++ s) = p ++ compact false s) (s : Str) :
    compact false (sepBy ',' ps ++ s) = sepBy ',' ps ++ compact false s := by
  induction ps with
  | nil => rfl
  | cons p ps ih =>
    have hhead := hp p List.mem_cons_self
    cases ps with
    | nil => exact hhead s
    | cons q qs =>
      have ih := ih fun r hr => hp r (List.mem_cons_of_mem p hr)
      rw [sepBy_cons_cons, List.append_assoc, hhead, List.cons_append, compact_mark (by decide) (by decide), ih,
        List.append_assoc, List.cons_append]

/-- The compact text has no whitespace outside strings. -/
theorem compact_render (t : Tree) : ∀ s, compact false (render t ++ s) = render t ++ compact false s := by
  induction t using Tree.ind with
  | null =>
    intro s
    exact compact_marks (p := ['n', 'u', 'l', 'l']) (by simp [isWs]) s
  | bool b =>
    intro s
    cases b
    · exact compact_marks (p := ['f', 'a', 'l', 's', 'e']) (by simp [isWs]) s
    · exact compact_marks (p := ['t', 'r', 'u', 'e']) (by simp [isWs]) s
  | num l =>
    intro s
    exact compact_marks (fun c hc => plain_isNumChar (l.all_isNumChar c hc)) s
  | str x =>
    intro s
    exact compact_renderStr x s
  | arr ts ih =>
    intro s
    have hpieces : ∀ p ∈ ts.map render, ∀ s, compact false (p ++ s) = p ++ compact false s := by
      intro p hp
      obtain ⟨t, ht, rfl⟩ := List.mem_map.mp hp
      exact ih t ht
    rw [render, renderItems_eq_map, List.cons_append, List.append_assoc, compact_mark (by decide) (by decide),
      compact_sepBy hpieces, List.singleton_append, compact_mark (by decide) (by decide), List.cons_append,
      List.append_assoc, List.singleton_append]
  | obj ms ih =>
    intro s
    have hpieces : ∀ p ∈ ms.map fun m => renderStr m.1 ++ ':' :: render m.2, ∀ s,
        compact false (p ++ s) = p ++ compact false s := by
      intro p hp s
      obtain ⟨m, hm, rfl⟩ := List.mem_map.mp hp
      rw [List.append_assoc, compact_renderStr, List.cons_append, compact_mark (by decide) (by decide), ih m hm,
        List.append_assoc, List.cons_append]
    rw [render, renderMembers_eq_map, List.cons_append, List.append_assoc, compact_mark (by decide) (by decide),
      compact_sepBy hpieces, List.singleton_append, compact_mark (by decide) (by decide), List.cons_append,
      List.append_assoc, List.singleton_append]

end AcpCore.Json
