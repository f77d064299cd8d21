import AcpCore.Wire.Inverse

/-!
# The spelling of numbers

What the canonical form makes of a number written in another way.

## The model

Two lines differ in the spelling of a number if the tree of one is the tree of the
other with some of the literals `l` written `l'` (`Respelled`). `double` gives the
double a literal denotes, if there is one; zero and negative zero are the same
(`SameDouble`). `serde_json` keeps an integer literal that fits 64 bits as an integer
and reads every other as a double (`Crates.ReadsLiterals`), which need not be the one
it denotes: unless it is built to round correctly, it reads `1e30` and `1.0e30` as two.

Of members of one name the last counts, so what the others say does not show
(`effective`).

## What is proved

* `canonTree_of_read` — the canonical form depends on the effective tree and on the
  numbers its literals are taken for;
* `effective_eq_of_settle` — trees of one canonical form in which two literals are
  taken for different numbers are the same but for members that do not count;
* **`spelling_iff`** — the spelling of a number changes neither the canonical form
  nor the hash exactly when both literals are one integer of 64 bits, or neither is
  an integer of 64 bits and they are read as one double, or the numbers do not count.
-/

namespace AcpCore.Wire

open AcpCore.Text AcpCore.Json

/-! ### Trees that differ in literals -/

mutual

/-- A tree, and the tree with some of the literals `l` written `l'`. -/
inductive Respelled (l l' : Literal) : Tree → Tree → Prop
  /-- `null`. -/
  | null : Respelled l l' .null .null
  /-- The same boolean. -/
  | bool (b : Bool) : Respelled l l' (.bool b) (.bool b)
  /-- The same literal. -/
  | num (m : Literal) : Respelled l l' (.num m) (.num m)
  /-- Another spelling. -/
  | literal : Respelled l l' (.num l) (.num l')
  /-- The same string. -/
  | str (s : Str) : Respelled l l' (.str s) (.str s)
  /-- Item by item. -/
  | arr {ts us : List Tree} : RespelledItems l l' ts us → Respelled l l' (.arr ts) (.arr us)
  /-- Member by member. -/
  | obj {ms ns : List (Str × Tree)} : RespelledMembers l l' ms ns → Respelled l l' (.obj ms) (.obj ns)

/-- Items, and the items with some of the literals `l` written `l'`. -/
inductive RespelledItems (l l' : Literal) : List Tree → List Tree → Prop
  /-- No items. -/
  | nil : RespelledItems l l' [] []
  /-- One more item. -/
  | cons {t u : Tree} {ts us : List Tree} : Respelled l l' t u → RespelledItems l l' ts us →
    RespelledItems l l' (t :: ts) (u :: us)

/-- Members, and the members with some of the literals `l` written `l'`. -/
inductive RespelledMembers (l l' : Literal) : List (Str × Tree) → List (Str × Tree) → Prop
  /-- No members. -/
  | nil : RespelledMembers l l' [] []
  /-- One more member. -/
  | cons {k : Str} {t u : Tree} {ms ns : List (Str × Tree)} : Respelled l l' t u → RespelledMembers l l' ms ns →
    RespelledMembers l l' ((k, t) :: ms) ((k, u) :: ns)

end

variable {l l' : Literal}

theorem RespelledMembers.map_fst : ∀ {ms ns : List (Str × Tree)}, RespelledMembers l l' ms ns →
    ms.map Prod.fst = ns.map Prod.fst
  | _, _, .nil => rfl
  | _, _, .cons _ h => by rw [List.map_cons, List.map_cons, h.map_fst]

mutual

/-- Spelled the other way round. -/
theorem Respelled.symm : ∀ {t u : Tree}, Respelled l l' t u → Respelled l' l u t
  | _, _, .null => .null
  | _, _, .bool b => .bool b
  | _, _, .num m => .num m
  | _, _, .literal => .literal
  | _, _, .str s => .str s
  | _, _, .arr h => .arr h.symm
  | _, _, .obj h => .obj h.symm

theorem RespelledItems.symm : ∀ {ts us : List Tree}, RespelledItems l l' ts us → RespelledItems l' l us ts
  | _, _, .nil => .nil
  | _, _, .cons h hs => .cons h.symm hs.symm

theorem RespelledMembers.symm : ∀ {ms ns : List (Str × Tree)}, RespelledMembers l l' ms ns → RespelledMembers l' l ns ms
  | _, _, .nil => .nil
  | _, _, .cons h hs => .cons h.symm hs.symm

end

section Read

variable {num : Literal → Option Number}

mutual

/-- Literals taken for the same number make no difference. -/
theorem Respelled.read (hnum : num l = num l') : ∀ {t u : Tree}, Respelled l l' t u →
    Value.read num t = Value.read num u
  | _, _, .null | _, _, .bool _ | _, _, .num _ | _, _, .str _ => rfl
  | _, _, .literal => congrArg (Option.map Value.number) hnum
  | _, _, .arr h => congrArg (Option.map Value.array) (h.read hnum)
  | _, _, .obj h => congrArg (Option.map Value.object) (h.read hnum [])

theorem RespelledItems.read (hnum : num l = num l') : ∀ {ts us : List Tree}, RespelledItems l l' ts us →
    readItems num ts = readItems num us
  | _, _, .nil => rfl
  | _, _, .cons h hs => by rw [readItems, readItems, h.read hnum, hs.read hnum]

theorem RespelledMembers.read (hnum : num l = num l') : ∀ {ms ns : List (Str × Tree)}, RespelledMembers l l' ms ns →
    ∀ acc, readMembers num acc ms = readMembers num acc ns
  | _, _, .nil, _ => rfl
  | _, _, .cons h hs, acc => by
    rw [readMembers, readMembers, h.read hnum]
    exact congrArg _ (funext fun v => hs.read hnum _)

end

mutual

/-- A literal that is taken for no number does not occur in what is read. -/
theorem Respelled.eq_of_unread (hnum : num l = none) : ∀ {t u : Tree} {v : Value}, Respelled l l' t u →
    Value.read num t = some v → t = u
  | _, _, _, .null, _ | _, _, _, .bool _, _ | _, _, _, .num _, _ | _, _, _, .str _, _ => rfl
  | _, _, _, .literal, h => by
    rw [Value.read, hnum] at h
    cases h
  | _, _, _, .arr hs, h => by
    obtain ⟨vs, hvs, -⟩ := Option.map_eq_some_iff.mp h
    exact congrArg Tree.arr (hs.eq_of_unread hnum hvs)
  | _, _, _, .obj hs, h => by
    obtain ⟨ns, hns, -⟩ := Option.map_eq_some_iff.mp h
    exact congrArg Tree.obj (hs.eq_of_unread hnum hns)

theorem RespelledItems.eq_of_unread (hnum : num l = none) : ∀ {ts us : List Tree} {vs : List Value},
    RespelledItems l l' ts us → readItems num ts = some vs → ts = us
  | _, _, _, .nil, _ => rfl
  | _, _, _, .cons ht hs, h => by
    rw [readItems, Option.bind_eq_some_iff] at h
    obtain ⟨v, hv, h⟩ := h
    obtain ⟨vs, hvs, -⟩ := Option.map_eq_some_iff.mp h
    rw [ht.eq_of_unread hnum hv, hs.eq_of_unread hnum hvs]

theorem RespelledMembers.eq_of_unread (hnum : num l = none) : ∀ {ms ns : List (Str × Tree)} {acc ws : Map},
    RespelledMembers l l' ms ns → readMembers num acc ms = some ws → ms = ns
  | _, _, _, _, .nil, _ => rfl
  | _, _, _, _, .cons ht hs, h => by
    rw [readMembers, Option.bind_eq_some_iff] at h
    obtain ⟨v, hv, h⟩ := h
    rw [ht.eq_of_unread hnum hv, hs.eq_of_unread hnum h]

end

end Read

/-! ### Members that count -/

mutual

/-- A tree without the members that a later one of their name replaces. -/
def effective : Tree → Tree
  | .arr ts => .arr (effectiveItems ts)
  | .obj ms => .obj (effectiveMembers ms)
  | .null => .null
  | .bool b => .bool b
  | .num l => .num l
  | .str s => .str s

/-- The items so. -/
def effectiveItems : List Tree → List Tree
  | [] => []
  | t :: ts => effective t :: effectiveItems ts

/-- The members so. -/
def effectiveMembers : List (Str × Tree) → List (Str × Tree)
  | [] => []
  | (k, t) :: ms => if k ∈ ms.map Prod.fst then effectiveMembers ms else (k, effective t) :: effectiveMembers ms

end

/-- The names that count are the names. -/
theorem mem_effectiveMembers {ms : List (Str × Tree)} {k : Str} :
    k ∈ (effectiveMembers ms).map Prod.fst ↔ k ∈ ms.map Prod.fst := by
  induction ms with
  | nil => rfl
  | cons m ms ih =>
    obtain ⟨k', t⟩ := m
    rw [effectiveMembers]
    split_ifs with hk
    · rw [ih, List.map_cons, List.mem_cons]
      exact ⟨.inr, fun h => h.elim (fun h => h ▸ hk) id⟩
    · rw [List.map_cons, List.map_cons, List.mem_cons, List.mem_cons, ih]

theorem nodup_effectiveMembers (ms : List (Str × Tree)) : ((effectiveMembers ms).map Prod.fst).Nodup := by
  induction ms with
  | nil => exact List.nodup_nil
  | cons m ms ih =>
    obtain ⟨k, t⟩ := m
    rw [effectiveMembers]
    split_ifs with hk
    · exact ih
    · rw [List.map_cons, List.nodup_cons, mem_effectiveMembers]
      exact ⟨hk, ih⟩

/-- Respelling leaves the names that count, and their order. -/
theorem RespelledMembers.map_fst_effective : ∀ {ms ns : List (Str × Tree)}, RespelledMembers l l' ms ns →
    (effectiveMembers ms).map Prod.fst = (effectiveMembers ns).map Prod.fst
  | _, _, .nil => rfl
  | _, _, .cons _ hs => by
    rw [effectiveMembers, effectiveMembers, ← hs.map_fst]
    split_ifs
    · exact hs.map_fst_effective
    · rw [List.map_cons, List.map_cons, hs.map_fst_effective]

/-! ### What the canonical form depends on -/

section Settle

variable (X : Crates) (num : Literal → Option Number)

/-- A literal as the number it is taken for is printed. -/
def settleLiteral (l : Literal) : Literal := ((num l).map X.printNumber).getD l

mutual

/-- A tree with its members sorted and its numbers printed. -/
def settle : Tree → Tree
  | .num l => .num (settleLiteral X num l)
  | .arr ts => .arr (settleItems ts)
  | .obj ms => .obj ((settleMembers ms).insertionSort entryLe)
  | .null => .null
  | .bool b => .bool b
  | .str s => .str s

/-- The items so. -/
def settleItems : List Tree → List Tree
  | [] => []
  | t :: ts => settle t :: settleItems ts

/-- The members so. -/
def settleMembers : List (Str × Tree) → List (Str × Tree)
  | [] => []
  | (k, t) :: ms => (k, settle t) :: settleMembers ms

end

theorem map_fst_settleMembers (ms : List (Str × Tree)) : (settleMembers X num ms).map Prod.fst = ms.map Prod.fst := by
  induction ms with
  | nil => rfl
  | cons m ms ih => rw [settleMembers, List.map_cons, List.map_cons, ih]

variable {X num}

/-- Of the members read so far those count that no later one replaces. -/
theorem canonMembers_perm {ms : List (Str × Tree)}
    (ih : ∀ m ∈ ms, ∀ v, Value.read num m.2 = some v → canonTree X v = settle X num (effective m.2)) {acc ns : Map}
    (hn : (acc.map Prod.fst).Nodup) (h : readMembers num acc ms = some ns) :
    (canonMembers X ns).Perm
      (canonMembers X (acc.filter fun m => m.1 ∉ ms.map Prod.fst) ++ settleMembers X num (effectiveMembers ms)) := by
  induction ms generalizing acc with
  | nil =>
    cases h
    simp [effectiveMembers, settleMembers]
  | cons m ms ihs =>
    obtain ⟨k, t⟩ := m
    rw [readMembers, Option.bind_eq_some_iff] at h
    obtain ⟨v, hv, h⟩ := h
    have hrest := ihs (fun n hn => ih n (List.mem_cons_of_mem _ hn)) (Map.nodup_insert hn) h
    have htree : canonTree X v = settle X num (effective t) := ih (k, t) List.mem_cons_self v hv
    have hinsert := ((Map.insert_perm_cons hn k v).filter fun m => decide (m.1 ∉ ms.map Prod.fst)).map
      fun e => (e.1, canonTree X e.2)
    have hacc : (acc.filter fun m => decide (m.1 ≠ k)).filter (fun m => decide (m.1 ∉ ms.map Prod.fst))
        = acc.filter fun m => decide (m.1 ∉ ((k, t) :: ms).map Prod.fst) := by
      rw [List.filter_filter]
      apply List.filter_congr
      intro m _
      simp only [List.map_cons, List.mem_cons, not_or, ne_eq, Bool.decide_and, Bool.and_comm]
    rw [← canonMembers_eq_map, ← canonMembers_eq_map] at hinsert
    rw [effectiveMembers]
    by_cases hk : k ∈ ms.map Prod.fst
    · rw [List.filter_cons_of_neg (by simpa using hk), hacc] at hinsert
      rw [if_pos hk]
      exact hrest.trans (hinsert.append_right _)
    · rw [List.filter_cons_of_pos (by simpa using hk), hacc, canonMembers, htree] at hinsert
      rw [if_neg hk, settleMembers]
      exact hrest.trans ((hinsert.append_right _).trans List.perm_middle.symm)

theorem canonItems_of_read {ts : List Tree}
    (ih : ∀ t ∈ ts, ∀ v, Value.read num t = some v → canonTree X v = settle X num (effective t)) {vs : List Value}
    (h : readItems num ts = some vs) : canonItems X vs = settleItems X num (effectiveItems ts) := by
  induction ts generalizing vs with
  | nil => cases h; rfl
  | cons t ts ihs =>
    rw [readItems, Option.bind_eq_some_iff] at h
    obtain ⟨v, hv, h⟩ := h
    obtain ⟨ws, hws, rfl⟩ := Option.map_eq_some_iff.mp h
    rw [canonItems, effectiveItems, settleItems, ih t List.mem_cons_self v hv,
      ihs (fun u hu => ih u (List.mem_cons_of_mem t hu)) hws]

/-- **The sorted tree of what is read** is the tree of the members that count, sorted, its numbers printed. -/
theorem canonTree_of_read {t : Tree} : ∀ v, Value.read num t = some v → canonTree X v = settle X num (effective t) := by
  induction t using Tree.ind with
  | null | bool | str =>
    intro v h
    cases h
    rfl
  | num l =>
    intro v h
    obtain ⟨n, hn, rfl⟩ := Option.map_eq_some_iff.mp h
    rw [canonTree, effective, settle, settleLiteral, hn, Option.map_some, Option.getD_some]
  | arr ts ih =>
    intro v h
    obtain ⟨vs, hvs, rfl⟩ := Option.map_eq_some_iff.mp h
    rw [canonTree, effective, settle, canonItems_of_read ih hvs]
  | obj ms ih =>
    intro v h
    have hu := Value.unique_read h
    obtain ⟨ns, hns, rfl⟩ := Option.map_eq_some_iff.mp h
    have hnil : (([] : Map).map Prod.fst).Nodup := List.nodup_nil
    have hperm := canonMembers_perm ih hnil hns
    have hn : ((canonMembers X ns).map Prod.fst).Nodup := by
      rw [canonMembers_eq_map, List.map_map]
      exact hu.1
    rw [canonTree, effective, settle, insertionSort_eq_of_perm hn hperm]
    rfl

end Settle

/-- Permuted entries whose names are the same, one by one, and different, are the same. -/
theorem eq_of_perm_of_map_fst {α : Type} {es fs : List (Str × α)} (h : es.Perm fs)
    (hfst : es.map Prod.fst = fs.map Prod.fst) (hn : (es.map Prod.fst).Nodup) : es = fs := by
  induction es generalizing fs with
  | nil => exact h.nil_eq
  | cons e es ih =>
    obtain _ | ⟨f, fs⟩ := fs
    · cases hfst
    · rw [List.map_cons, List.map_cons, List.cons.injEq] at hfst
      have hnf : ((f :: fs).map Prod.fst).Nodup := (h.map Prod.fst).nodup_iff.mp hn
      obtain rfl : e = f := List.inj_on_of_nodup_map hnf (h.mem_iff.mp List.mem_cons_self) List.mem_cons_self hfst.1
      rw [ih ((List.perm_cons e).mp h) hfst.2 (List.nodup_cons.mp hn).2]

section Respelled

variable {X : Crates} {num : Literal → Option Number}

mutual

/-- **Where two spellings are printed differently**, they show in the canonical form unless they do not count. -/
theorem effective_eq_of_settle (hne : settleLiteral X num l ≠ settleLiteral X num l') : ∀ {t u : Tree},
    Respelled l l' t u → settle X num (effective t) = settle X num (effective u) → effective t = effective u
  | _, _, .null, _ | _, _, .bool _, _ | _, _, .num _, _ | _, _, .str _, _ => rfl
  | _, _, .literal, h => absurd (Tree.num.inj h) hne
  | _, _, .arr hs, h => congrArg Tree.arr (effectiveItems_eq_of_settle hne hs (Tree.arr.inj h))
  | .obj ms, .obj ns, .obj hs, h => by
    have hsort := Tree.obj.inj h
    have hperm : (settleMembers X num (effectiveMembers ms)).Perm (settleMembers X num (effectiveMembers ns)) :=
      (List.perm_insertionSort entryLe _).symm.trans (hsort ▸ List.perm_insertionSort entryLe _)
    have hfst : (settleMembers X num (effectiveMembers ms)).map Prod.fst
        = (settleMembers X num (effectiveMembers ns)).map Prod.fst := by
      rw [map_fst_settleMembers, map_fst_settleMembers, hs.map_fst_effective]
    have hn : ((settleMembers X num (effectiveMembers ms)).map Prod.fst).Nodup := by
      rw [map_fst_settleMembers]
      exact nodup_effectiveMembers ms
    exact congrArg Tree.obj (effectiveMembers_eq_of_settle hne hs (eq_of_perm_of_map_fst hperm hfst hn))

theorem effectiveItems_eq_of_settle (hne : settleLiteral X num l ≠ settleLiteral X num l') : ∀ {ts us : List Tree},
    RespelledItems l l' ts us → settleItems X num (effectiveItems ts) = settleItems X num (effectiveItems us) →
    effectiveItems ts = effectiveItems us
  | _, _, .nil, _ => rfl
  | _, _, .cons ht hs, h => by
    rw [effectiveItems, effectiveItems, settleItems, settleItems, List.cons.injEq] at h
    rw [effectiveItems, effectiveItems, effective_eq_of_settle hne ht h.1, effectiveItems_eq_of_settle hne hs h.2]

theorem effectiveMembers_eq_of_settle (hne : settleLiteral X num l ≠ settleLiteral X num l') :
    ∀ {ms ns : List (Str × Tree)}, RespelledMembers l l' ms ns →
    settleMembers X num (effectiveMembers ms) = settleMembers X num (effectiveMembers ns) →
    effectiveMembers ms = effectiveMembers ns
  | _, _, .nil, _ => rfl
  | (k, _) :: ms, _, .cons ht hs, h => by
    rw [effectiveMembers, effectiveMembers, ← hs.map_fst] at h ⊢
    by_cases hk : k ∈ ms.map Prod.fst
    · rw [if_pos hk, if_pos hk] at h ⊢
      exact effectiveMembers_eq_of_settle hne hs h
    · rw [if_neg hk, if_neg hk] at h ⊢
      rw [settleMembers, settleMembers, List.cons.injEq, Prod.mk.injEq] at h
      rw [effective_eq_of_settle hne ht h.1.2, effectiveMembers_eq_of_settle hne hs h.2]

end

end Respelled

/-! ### Numbers -/

/-- Zero or negative zero. -/
def F64.IsZero (x : F64) : Prop := x.bits.val % 2 ^ 63 = 0

/-- `serde_json` reads JSON text as the value it says and takes number literals by `num`: an integer
that fits 64 bits for itself, every other literal for the double that `read` gives. -/
structure Crates.ReadsLiterals (X : Crates) (num : Literal → Option Number) (read : Literal → Option F64) : Prop where
  /-- What is read is the value of a text. -/
  text : ∀ {b v}, X.fromSlice b = some v → ∃ s t, b = utf8 s ∧ parse s = some t ∧ Value.read num t = some v
  /-- A literal without fraction or exponent that fits 64 bits; negative zero is none. -/
  integer : ∀ {l n}, Number.ofLiteral l = some n → num l = some n
  /-- Any other literal. -/
  float : ∀ {l}, Number.ofLiteral l = none → num l = (read l).map .float
  /-- A double is printed with a fraction or an exponent. -/
  fractional : ∀ x, (X.printF64 x).Fractional
  /-- Different doubles are printed differently. -/
  injective : Function.Injective X.printF64

/-- Two literals denote one double. -/
def SameDouble (double : Literal → Option F64) (l l' : Literal) : Prop :=
  ∃ x y, double l = some x ∧ double l' = some y ∧ (x = y ∨ x.IsZero ∧ y.IsZero)

/-- Both literals are one integer of 64 bits, or neither is an integer of 64 bits and they are read as one
double, its sign included. -/
def SameForm (read : Literal → Option F64) (l l' : Literal) : Prop :=
  (∃ n, Number.ofLiteral l = some n ∧ Number.ofLiteral l' = some n) ∨
    Number.ofLiteral l = none ∧ Number.ofLiteral l' = none ∧ read l = read l'

theorem ofLiteral_ne_float {l : Literal} {x : F64} : Number.ofLiteral l ≠ some (.float x) := by
  intro h
  rw [Number.ofLiteral] at h
  split_ifs at h
  all_goals
    obtain ⟨n, -, h⟩ := Option.bind_eq_some_iff.mp h
    split_ifs at h
    cases h

variable {X : Crates} {num : Literal → Option Number} {read : Literal → Option F64}

/-- Two literals that are taken for numbers are taken for one exactly when they are of one form. -/
theorem Crates.ReadsLiterals.num_eq_iff (hX : X.ReadsLiterals num read) : num l = num l' ↔ SameForm read l l' := by
  have hmap : (read l).map Number.float = (read l').map .float ↔ read l = read l' :=
    (Option.map_injective fun _ _ h => Number.float.inj h).eq_iff
  have hne : ∀ {l n x}, Number.ofLiteral l = some n → some n ≠ (read x).map .float := by
    intro l n x hl h
    obtain ⟨y, -, rfl⟩ := Option.map_eq_some_iff.mp h.symm
    exact ofLiteral_ne_float hl
  cases hl : Number.ofLiteral l with
  | some n =>
    cases hl' : Number.ofLiteral l' with
    | some n' => simp [SameForm, hX.integer hl, hX.integer hl', hl, hl', eq_comm]
    | none => simp [SameForm, hX.integer hl, hX.float hl', hl, hl', hne hl]
  | none =>
    cases hl' : Number.ofLiteral l' with
    | some n' => simp [SameForm, hX.float hl, hX.integer hl', hl, hl', (hne hl').symm]
    | none => rw [hX.float hl, hX.float hl', hmap, SameForm, hl, hl']; simp

/-- The value of a frame is what its line's tree says. -/
theorem Crates.ReadsLiterals.read_of_parse (hX : X.ReadsLiterals num read) {s : Str} {t : Tree} {f : Frame}
    (ht : parse s = some t) (hf : Frame.parse X (utf8 s) = .ok f) : Value.read num t = some f.value := by
  obtain ⟨s', t', hs, ht', hv⟩ := hX.text ((Frame.parse_eq_ok_iff X).mp hf).2.1
  obtain rfl : s = s' := utf8_injective hs
  rw [ht] at ht'
  cases ht'
  exact hv

/-- **The spelling of a number.** Two lines that differ in the spelling of a number only, `l` in one
and `l'` in the other, have the same canonical form and payload hash exactly when the literals are
of one form, or nothing that counts is spelled differently; whatever doubles the literals denote. -/
theorem spelling_iff (hX : X.ReadsLiterals num read) {s s' : Str} {t t' : Tree} {f f' : Frame}
    (ht : parse s = some t) (ht' : parse s' = some t') (hf : Frame.parse X (utf8 s) = .ok f)
    (hf' : Frame.parse X (utf8 s') = .ok f') (hrespelled : Respelled l l' t t') :
    canonicalize X f.value = canonicalize X f'.value ∧ f.payloadHash X = f'.payloadHash X ↔
      effective t = effective t' ∨ SameForm read l l' := by
  have hv := hX.read_of_parse ht hf
  have hv' := hX.read_of_parse ht' hf'
  have hcanon : canonicalize X f.value = canonicalize X f'.value ↔
      settle X num (effective t) = settle X num (effective t') := by
    rw [canonicalize, canonicalize, writeValue_eq, writeValue_eq, utf8_injective.eq_iff, render_injective.eq_iff,
      canonTree_of_read _ hv, canonTree_of_read _ hv']
  have hhash : canonicalize X f.value = canonicalize X f'.value → f.payloadHash X = f'.payloadHash X := fun h => by
    rw [Frame.payloadHash, Frame.payloadHash, payloadHash, payloadHash, h]
  rw [and_iff_left_of_imp hhash]
  constructor
  · intro h
    by_cases hprinted : settleLiteral X num l = settleLiteral X num l'
    · cases hn : num l with
      | none => exact .inl (congrArg effective (hrespelled.eq_of_unread hn hv))
      | some n =>
        cases hn' : num l' with
        | none => exact .inl (congrArg effective (hrespelled.symm.eq_of_unread hn' hv').symm)
        | some n' =>
          -- what is printed says which number it is
          rw [settleLiteral, settleLiteral, hn, hn', Option.map_some, Option.map_some, Option.getD_some,
            Option.getD_some] at hprinted
          refine .inr (hX.num_eq_iff.mp ?_)
          rw [hn, hn', printNumber_injective X hX.injective hX.fractional hprinted]
    · exact .inl (effective_eq_of_settle hprinted hrespelled (hcanon.mp h))
  · rintro (h | h)
    · exact hcanon.mpr (h ▸ rfl)
    · have hread := hrespelled.read (hX.num_eq_iff.mpr h)
      rw [hv, hv', Option.some.injEq] at hread
      rw [hread]

/-! ### Two spellings of one -/

/-- `1.0`. -/
def onePointZero : Literal := ⟨['1', '.', '0'], by decide⟩

/-- `1.00`. -/
def onePointZeroZero : Literal := ⟨['1', '.', '0', '0'], by decide⟩

/-- The double 1. -/
def F64.one : F64 := ⟨0x3FF0000000000000, by decide⟩

/-- The literals `1`, `1.0` and `1.00` denote it and are read as it; of others nothing is said. -/
def oneOnly (l : Literal) : Option F64 :=
  if l = natLit 1 ∨ l = onePointZero ∨ l = onePointZeroZero then some .one else none

/-- The number a literal is taken for. -/
def takeLiteral (l : Literal) : Option Number := (Number.ofLiteral l).or ((oneOnly l).map .float)

/-- `{"jsonrpc":"2.0","id":1,"method":"m","params":[l]}`. -/
def spelledTree (l : Literal) : Tree :=
  .obj (requestTree 1 ++ [(['p', 'a', 'r', 'a', 'm', 's'], .arr [.num l])])

/-- The request that says so. -/
def spelledFrame (l : Literal) (n : Number) : Frame where
  kind := .request
  method := some ['m']
  id := some (sampleId 1)
  value := .object [(jsonrpcKey, .string ['2', '.', '0']), (idKey, .number (.posInt 1)), (methodKey, .string ['m']),
    (['p', 'a', 'r', 'a', 'm', 's'], .array [.number n])]
  value_unique := ⟨by show [jsonrpcKey, idKey, methodKey, ['p', 'a', 'r', 'a', 'm', 's']].Nodup; decide, trivial, trivial,
    trivial, ⟨trivial, trivial⟩, trivial⟩
  raw := utf8 (render (spelledTree l))

/-- `blake3`'s digests of the canonical forms of the two. -/
def spelledDigests : List (Bytes × Digest) :=
  [(utf8 (render (.obj ([(idKey, .num (natLit 1)), versionMember, (methodKey, .str ['m']),
      (['p', 'a', 'r', 'a', 'm', 's'], .arr [.num (natLit 1)])]))),
    ⟨[0xa8, 0x09, 0x32, 0x1b, 0xa8, 0x31, 0x5f, 0x3b, 0x27, 0x97, 0xf6, 0xb4, 0x6b, 0x44, 0x4c, 0x6a,
    0xea, 0x1c, 0xd5, 0xc9, 0xae, 0x35, 0xab, 0x91, 0xcc, 0x05, 0xa4, 0x33, 0xe5, 0xa0, 0x86, 0x60], rfl⟩),
   (utf8 (render (.obj ([(idKey, .num (natLit 1)), versionMember, (methodKey, .str ['m']),
      (['p', 'a', 'r', 'a', 'm', 's'], .arr [.num onePointZero])]))),
    ⟨[0x54, 0x81, 0x4c, 0xb6, 0x01, 0xb5, 0x0e, 0x0a, 0x53, 0xc6, 0xe6, 0x1b, 0xf4, 0x0f, 0x75, 0xa1,
    0x9b, 0xbb, 0xb4, 0x15, 0xe0, 0x07, 0xcb, 0x7d, 0x2a, 0x68, 0x43, 0x21, 0xd9, 0x60, 0x0b, 0xfd], rfl⟩)]

/-- The instance that reads and prints the double 1. -/
def Crates.withOne : Crates :=
  { Crates.plain spelledDigests with
    fromSlice := fun b => ((utf8Decode b).bind parse).bind (Value.read takeLiteral)
    fromSlice_unique := fun h => by
      obtain ⟨t, -, ht⟩ := Option.bind_eq_some_iff.mp h
      exact Value.unique_read ht
    printF64 := fun x => if x = .one then onePointZero else printBits x }

theorem readsLiterals_withOne : Crates.withOne.ReadsLiterals takeLiteral oneOnly where
  text {b v} h := by
    obtain ⟨t, ht, hv⟩ := Option.bind_eq_some_iff.mp h
    obtain ⟨s, hs, ht⟩ := Option.bind_eq_some_iff.mp ht
    exact ⟨s, t, (utf8_of_utf8Decode hs).symm, ht, hv⟩
  integer h := by rw [takeLiteral, h, Option.some_or]
  float h := by rw [takeLiteral, h, Option.none_or]
  fractional x := by
    simp only [Crates.withOne]
    split_ifs
    · exact ⟨'.', List.mem_cons_of_mem _ List.mem_cons_self, .inl rfl⟩
    · exact fractional_printBits x
  injective x y h := by
    -- what is printed of another double begins with a zero
    have hne : ∀ z, printBits z ≠ onePointZero := fun z hz => by cases congrArg (fun l => l.1.head?) hz
    simp only [Crates.withOne] at h
    split_ifs at h with hx hy hy
    · rw [hx, hy]
    · exact absurd h.symm (hne y)
    · exact absurd h (hne x)
    · exact printBits_injective h

theorem parse_spelledFrame {l : Literal} {n : Number} (h : takeLiteral l = some n) :
    Frame.parse Crates.withOne (utf8 (render (spelledTree l))) = .ok (spelledFrame l n) := by
  have hread : Value.read takeLiteral (spelledTree l) = some (spelledFrame l n).value := by
    have hid : takeLiteral (natLit (1 : Fin (2 ^ 63)).val) = some (.posInt 1) := by decide +kernel
    simp only [spelledTree, requestTree, versionMember, List.cons_append, List.nil_append, Value.read, readMembers,
      readItems, h, hid, Option.map_some, Option.bind_some]
    rfl
  refine parse_text (f := spelledFrame l n) ?_ rfl rfl
  show ((utf8Decode (utf8 (render (spelledTree l)))).bind parse).bind (Value.read takeLiteral) = _
  rw [utf8Decode_utf8, Option.bind_some, parse_render, Option.bind_some, hread]

theorem respelled_spelledTree (l l' : Literal) : Respelled l l' (spelledTree l) (spelledTree l') :=
  .obj (.cons (.str _) (.cons (.num _) (.cons (.str _) (.cons (.arr (.cons .literal .nil)) .nil))))

theorem sameDouble_one : SameDouble oneOnly (natLit 1) onePointZero :=
  ⟨.one, .one, by decide +kernel, by decide +kernel, .inl rfl⟩

/-- `1.0` and `1.00` are read as one double. -/
theorem spelling_iff_sample :
    ∃ f f', Frame.parse Crates.withOne (utf8 (render (spelledTree onePointZero))) = .ok f ∧
      Frame.parse Crates.withOne (utf8 (render (spelledTree onePointZeroZero))) = .ok f' ∧
      canonicalize Crates.withOne f.value = canonicalize Crates.withOne f'.value ∧
      f.payloadHash Crates.withOne = f'.payloadHash Crates.withOne := by
  have hf := parse_spelledFrame (l := onePointZero) (n := .float .one) (by decide +kernel)
  have hf' := parse_spelledFrame (l := onePointZeroZero) (n := .float .one) (by decide +kernel)
  have hform : SameForm oneOnly onePointZero onePointZeroZero := .inr (by decide +kernel)
  exact ⟨_, _, hf, hf', (spelling_iff readsLiterals_withOne (parse_render _) (parse_render _) hf hf'
    (respelled_spelledTree _ _)).mpr (.inr hform)⟩

/-- `1` and `1.0` are one number, and requests for them have different canonical forms and hashes. -/
theorem spelling_fails :
    ∃ f f', Frame.parse Crates.withOne (utf8 (render (spelledTree (natLit 1)))) = .ok f ∧
      Frame.parse Crates.withOne (utf8 (render (spelledTree onePointZero))) = .ok f' ∧
      SameDouble oneOnly (natLit 1) onePointZero ∧
      Respelled (natLit 1) onePointZero (spelledTree (natLit 1)) (spelledTree onePointZero) ∧
      canonicalize Crates.withOne f.value ≠ canonicalize Crates.withOne f'.value ∧
      f.payloadHash Crates.withOne ≠ f'.payloadHash Crates.withOne := by
  have hf := parse_spelledFrame (l := natLit 1) (n := .posInt 1) (by decide +kernel)
  have hf' := parse_spelledFrame (l := onePointZero) (n := .float .one) (by decide +kernel)
  exact ⟨_, _, hf, hf', sameDouble_one, respelled_spelledTree _ _, by decide +kernel, by decide +kernel⟩

end AcpCore.Wire
