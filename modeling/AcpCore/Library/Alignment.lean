import Mathlib.Data.List.Forall2
import Mathlib.Order.Bounds.Basic
import Mathlib.Order.MinMax

/-!
# Alignments

Two sequences, and a relation that says which elements of one count as equal to
which of the other. A common subsequence is a list of related pairs whose first
parts are a subsequence of one and whose second parts are a subsequence of the
other. An edit script says, element by element, what is kept, deleted and inserted.

## What is proved

* `Longest.concat_of_rel`, `Longest.concat_of_not_rel` — the recurrence for the
  length of a longest common subsequence, from the last elements;
* `Turns.common` — what a script keeps is a common subsequence;
* `least_cost` — a script that keeps a longest one deletes and inserts least;
* `cost_eq_zero_iff` — and nothing exactly when the sequences are related throughout.
-/

namespace AcpCore.Alignment

variable {α β : Type} (R : α → β → Prop)

/-! ### Common subsequences -/

/-- Related pairs, in the order of both sequences. -/
structure Common (ps : List (α × β)) (a : List α) (b : List β) : Prop where
  /-- The first parts are a subsequence. -/
  fst : (ps.map Prod.fst).Sublist a
  /-- The second parts are a subsequence. -/
  snd : (ps.map Prod.snd).Sublist b
  /-- The pairs are related. -/
  rel : ∀ p ∈ ps, R p.1 p.2

/-- The length of a longest common subsequence. -/
def Longest (a : List α) (b : List β) (k : ℕ) : Prop := IsGreatest {n | ∃ ps, Common R ps a b ∧ ps.length = n} k

/-- A subsequence of `l` and `x` is one of `l`, or `x` is its last element. -/
theorem sublist_concat {γ : Type} {s l : List γ} {x : γ} (h : s.Sublist (l ++ [x])) :
    s.Sublist l ∨ ∃ t, s = t ++ [x] ∧ t.Sublist l := by
  obtain ⟨t, u, rfl, ht, hu⟩ := List.sublist_append_iff.mp h
  rcases List.sublist_cons_iff.mp hu with hu | ⟨v, rfl, hv⟩
  · rw [List.sublist_nil.mp hu, List.append_nil]
    exact .inl ht
  · rw [List.sublist_nil.mp hv]
    exact .inr ⟨t, rfl, ht⟩

variable {R}

theorem Common.mono {ps : List (α × β)} {a a' : List α} {b b' : List β} (h : Common R ps a b) (ha : a.Sublist a')
    (hb : b.Sublist b') : Common R ps a' b' := ⟨h.fst.trans ha, h.snd.trans hb, h.rel⟩

theorem Common.concat {ps : List (α × β)} {a : List α} {b : List β} (h : Common R ps a b) {x : α} {y : β} (hxy : R x y) :
    Common R (ps ++ [(x, y)]) (a ++ [x]) (b ++ [y]) where
  fst := by simpa using h.fst.append_right [x]
  snd := by simpa using h.snd.append_right [y]
  rel p hp := by
    rcases List.mem_append.mp hp with hp | hp
    · exact h.rel p hp
    · rw [List.mem_singleton.mp hp]
      exact hxy

/-- The pairs exchanged are a common subsequence of the sequences exchanged. -/
theorem Common.swap {ps : List (α × β)} {a : List α} {b : List β} (h : Common R ps a b) :
    Common (flip R) (ps.map Prod.swap) b a where
  fst := by
    rw [List.map_map]
    exact h.snd
  snd := by
    rw [List.map_map]
    exact h.fst
  rel p hp := by
    obtain ⟨q, hq, rfl⟩ := List.mem_map.mp hp
    exact h.rel q hq

/-- Without its last pair a common subsequence does without the last elements. -/
theorem Common.dropLast {ps : List (α × β)} {p : α × β} {a : List α} {b : List β} {x : α} {y : β}
    (h : Common R (ps ++ [p]) (a ++ [x]) (b ++ [y])) : Common R ps a b := by
  have hlast : ∀ {γ : Type} {s l : List γ} {z x : γ}, (s ++ [z]).Sublist (l ++ [x]) → s.Sublist l := by
    intro γ s l z x h
    rcases sublist_concat h with h | ⟨t, ht, h⟩
    · exact (List.sublist_append_left s [z]).trans h
    · rwa [List.append_inj_left' ht rfl]
  refine ⟨hlast (z := p.1) (x := x) ?_, hlast (z := p.2) (x := y) ?_, fun q hq => h.rel q (List.mem_append_left _ hq)⟩
  · simpa using h.fst
  · simpa using h.snd

/-- A common subsequence does without the last element of one sequence, unless they are related. -/
theorem Common.of_not_rel {ps : List (α × β)} {a : List α} {b : List β} {x : α} {y : β} (hxy : ¬ R x y)
    (h : Common R ps (a ++ [x]) (b ++ [y])) : Common R ps a (b ++ [y]) ∨ Common R ps (a ++ [x]) b := by
  rcases sublist_concat h.fst with ha | ⟨s, hs, -⟩
  · exact .inl ⟨ha, h.snd, h.rel⟩
  rcases sublist_concat h.snd with hb | ⟨t, ht, -⟩
  · exact .inr ⟨h.fst, hb, h.rel⟩
  -- else the last pair is made of the last elements
  obtain rfl | ⟨qs, p, rfl⟩ := ps.eq_nil_or_concat'
  · exact absurd (congrArg List.length hs) (by simp)
  · rw [List.map_append, List.map_singleton] at hs ht
    have hx : p.1 = x := List.singleton_inj.mp (List.append_inj_right' hs rfl)
    have hy : p.2 = y := List.singleton_inj.mp (List.append_inj_right' ht rfl)
    exact absurd (h.rel p (by simp)) (by rwa [hx, hy])

/-! ### The longest -/

theorem Longest.nil_left (b : List β) : Longest R [] b 0 := by
  refine ⟨⟨[], ⟨List.nil_sublist _, List.nil_sublist _, by simp⟩, rfl⟩, ?_⟩
  rintro n ⟨ps, h, rfl⟩
  rw [List.map_eq_nil_iff.mp (List.sublist_nil.mp h.fst)]
  rfl

theorem Longest.nil_right (a : List α) : Longest R a [] 0 := by
  refine ⟨⟨[], ⟨List.nil_sublist _, List.nil_sublist _, by simp⟩, rfl⟩, ?_⟩
  rintro n ⟨ps, h, rfl⟩
  rw [List.map_eq_nil_iff.mp (List.sublist_nil.mp h.snd)]
  rfl

/-- **Related last elements are paired.** -/
theorem Longest.concat_of_rel {a : List α} {b : List β} {k : ℕ} {x : α} {y : β} (hxy : R x y) (h : Longest R a b k) :
    Longest R (a ++ [x]) (b ++ [y]) (k + 1) := by
  obtain ⟨⟨ps, hps, rfl⟩, hmax⟩ := h
  refine ⟨⟨_, hps.concat hxy, List.length_append⟩, ?_⟩
  rintro n ⟨qs, hqs, rfl⟩
  obtain rfl | ⟨qs, q, rfl⟩ := qs.eq_nil_or_concat'
  · exact Nat.zero_le _
  · rw [List.length_append, List.length_singleton]
    exact Nat.succ_le_succ (hmax ⟨qs, hqs.dropLast, rfl⟩)

/-- **Of last elements not related one is left out.** -/
theorem Longest.concat_of_not_rel {a : List α} {b : List β} {k l : ℕ} {x : α} {y : β} (hxy : ¬ R x y)
    (hk : Longest R a (b ++ [y]) k) (hl : Longest R (a ++ [x]) b l) : Longest R (a ++ [x]) (b ++ [y]) (max k l) := by
  obtain ⟨⟨ps, hps, rfl⟩, hmaxk⟩ := hk
  obtain ⟨⟨qs, hqs, rfl⟩, hmaxl⟩ := hl
  constructor
  · rcases max_choice ps.length qs.length with h | h <;> rw [h]
    · exact ⟨ps, hps.mono (List.sublist_append_left a [x]) (.refl _), rfl⟩
    · exact ⟨qs, hqs.mono (.refl _) (List.sublist_append_left b [y]), rfl⟩
  · rintro n ⟨rs, hrs, rfl⟩
    rcases hrs.of_not_rel hxy with h | h
    · exact (hmaxk ⟨rs, h, rfl⟩).trans (le_max_left _ _)
    · exact (hmaxl ⟨rs, h, rfl⟩).trans (le_max_right _ _)

/-- Related first elements are paired. -/
theorem Longest.cons_of_rel {a : List α} {b : List β} {k : ℕ} {x : α} {y : β} (hxy : R x y) (h : Longest R a b k) :
    Longest R (x :: a) (y :: b) (k + 1) := by
  obtain ⟨⟨ps, hps, rfl⟩, hmax⟩ := h
  constructor
  · refine ⟨(x, y) :: ps, ⟨hps.fst.cons_cons x, hps.snd.cons_cons y, ?_⟩, rfl⟩
    rintro p hp
    rcases List.mem_cons.mp hp with rfl | hp
    · exact hxy
    · exact hps.rel p hp
  · rintro n ⟨qs, hqs, rfl⟩
    cases qs with
    | nil => exact Nat.zero_le _
    | cons q qs =>
      have htail : Common R qs a b := ⟨hqs.fst.tail, hqs.snd.tail, fun p hp => hqs.rel p (List.mem_cons_of_mem q hp)⟩
      exact Nat.succ_le_succ (hmax ⟨qs, htail, rfl⟩)

/-- Sequences related throughout are paired before all else. -/
theorem Longest.append_left {c : List α} {c' : List β} (hc : List.Forall₂ R c c') {a : List α} {b : List β} {k : ℕ}
    (h : Longest R a b k) : Longest R (c ++ a) (c' ++ b) (c.length + k) := by
  induction hc with
  | nil => simpa using h
  | @cons x y c c' hxy _ ih =>
    rw [List.length_cons, Nat.add_right_comm]
    exact ih.cons_of_rel hxy

theorem Longest.of_forall₂ {c : List α} {c' : List β} (hc : List.Forall₂ R c c') : Longest R c c' c.length := by
  simpa using Longest.append_left hc (.nil_left [])

/-- Longer sequences have no shorter one. -/
theorem Longest.le_of_sublist {a a' : List α} {b b' : List β} {k l : ℕ} (h : Longest R a b k) (h' : Longest R a' b' l)
    (ha : a.Sublist a') (hb : b.Sublist b') : k ≤ l := by
  obtain ⟨ps, hps, rfl⟩ := h.1
  exact h'.2 ⟨ps, hps.mono ha hb, rfl⟩

/-- It is the same of the two sequences exchanged. -/
theorem Longest.swap {a : List α} {b : List β} {k : ℕ} (h : Longest R a b k) : Longest (flip R) b a k := by
  obtain ⟨⟨ps, hps, rfl⟩, hmax⟩ := h
  refine ⟨⟨_, hps.swap, List.length_map _⟩, ?_⟩
  rintro n ⟨qs, hqs, rfl⟩
  exact hmax ⟨_, hqs.swap, List.length_map _⟩

/-- It is no longer than either sequence. -/
theorem Longest.le_length {a : List α} {b : List β} {k : ℕ} (h : Longest R a b k) : k ≤ a.length ∧ k ≤ b.length := by
  obtain ⟨ps, hps, rfl⟩ := h.1
  exact ⟨by simpa using hps.fst.length_le, by simpa using hps.snd.length_le⟩

/-! ### Edit scripts -/

/-- One step of an edit script. -/
inductive Edit (α β : Type) where
  /-- An element is kept, as the related one of the other sequence. -/
  | keep (x : α) (y : β)
  /-- An element is deleted. -/
  | delete (x : α)
  /-- An element of the other sequence is inserted. -/
  | insert (y : β)

/-- The pair of elements kept. -/
def Edit.kept : Edit α β → Option (α × β)
  | .keep x y => some (x, y)
  | .delete _ => none
  | .insert _ => none

/-- The element deleted. -/
def Edit.deleted : Edit α β → Option α
  | .keep _ _ => none
  | .delete x => some x
  | .insert _ => none

/-- The element inserted. -/
def Edit.inserted : Edit α β → Option β
  | .keep _ _ => none
  | .delete _ => none
  | .insert y => some y

/-- How many elements a script deletes and inserts. -/
def cost (es : List (Edit α β)) : ℕ := (es.filterMap Edit.deleted).length + (es.filterMap Edit.inserted).length

variable (R) in
/-- A script turns one sequence into the other. -/
inductive Turns : List (Edit α β) → List α → List β → Prop where
  /-- Nothing into nothing. -/
  | nil : Turns [] [] []
  /-- An element is kept as a related one. -/
  | keep {es : List (Edit α β)} {a : List α} {b : List β} {x : α} {y : β} : R x y → Turns es a b →
      Turns (.keep x y :: es) (x :: a) (y :: b)
  /-- An element is deleted. -/
  | delete {es : List (Edit α β)} {a : List α} {b : List β} {x : α} : Turns es a b → Turns (.delete x :: es) (x :: a) b
  /-- An element is inserted. -/
  | insert {es : List (Edit α β)} {a : List α} {b : List β} {y : β} : Turns es a b → Turns (.insert y :: es) a (y :: b)

theorem Turns.append {es fs : List (Edit α β)} {a a' : List α} {b b' : List β} (h : Turns R es a b)
    (h' : Turns R fs a' b') : Turns R (es ++ fs) (a ++ a') (b ++ b') := by
  induction h with
  | nil => exact h'
  | keep hxy _ ih => exact .keep hxy ih
  | delete _ ih => exact .delete ih
  | insert _ ih => exact .insert ih

theorem Turns.delete_all (a : List α) : Turns R (a.map .delete) a ([] : List β) := by
  induction a with
  | nil => exact .nil
  | cons x a ih => exact .delete ih

theorem Turns.insert_all (b : List β) : Turns R (b.map .insert) ([] : List α) b := by
  induction b with
  | nil => exact .nil
  | cons y b ih => exact .insert ih

/-- What a script keeps is a common subsequence. -/
theorem Turns.common {es : List (Edit α β)} {a : List α} {b : List β} (h : Turns R es a b) :
    Common R (es.filterMap Edit.kept) a b := by
  induction h with
  | nil => exact ⟨.slnil, .slnil, by simp⟩
  | @keep es a b x y hxy _ ih =>
    refine ⟨ih.fst.cons_cons x, ih.snd.cons_cons y, ?_⟩
    rintro p hp
    rcases List.mem_cons.mp hp with rfl | hp
    · exact hxy
    · exact ih.rel p hp
  | @delete es a b x _ ih => exact ih.mono (List.sublist_cons_self x a) (.refl _)
  | @insert es a b y _ ih => exact ih.mono (.refl _) (List.sublist_cons_self y b)

/-- Every element is kept, deleted or inserted once. -/
theorem Turns.length {es : List (Edit α β)} {a : List α} {b : List β} (h : Turns R es a b) :
    (es.filterMap Edit.kept).length + (es.filterMap Edit.deleted).length = a.length ∧
      (es.filterMap Edit.kept).length + (es.filterMap Edit.inserted).length = b.length := by
  induction h with
  | nil => exact ⟨rfl, rfl⟩
  | keep _ _ ih | delete _ ih | insert _ ih =>
    obtain ⟨iha, ihb⟩ := ih
    simp only [List.filterMap_cons, Edit.kept, Edit.deleted, Edit.inserted, List.length_cons]
    omega

/-- A script has a step for each element, and one for each pair kept. -/
theorem Turns.length_add_kept {es : List (Edit α β)} {a : List α} {b : List β} (h : Turns R es a b) :
    es.length + (es.filterMap Edit.kept).length = a.length + b.length := by
  induction h with
  | nil => rfl
  | keep _ _ ih | delete _ ih | insert _ ih =>
    simp only [List.filterMap_cons, Edit.kept, List.length_cons]
    omega

/-- **A script that keeps a longest common subsequence costs least.** -/
theorem least_cost {es : List (Edit α β)} {a : List α} {b : List β} (h : Turns R es a b)
    (hk : Longest R a b (es.filterMap Edit.kept).length) : IsLeast {n | ∃ fs, Turns R fs a b ∧ cost fs = n} (cost es) := by
  refine ⟨⟨es, h, rfl⟩, ?_⟩
  rintro n ⟨fs, hfs, rfl⟩
  have hle := hk.2 ⟨_, hfs.common, rfl⟩
  have hes := h.length
  have hfs := hfs.length
  simp only [cost]
  omega

/-- **Such a script costs nothing if and only if the sequences are related throughout.** -/
theorem cost_eq_zero_iff {es : List (Edit α β)} {a : List α} {b : List β} (h : Turns R es a b)
    (hk : Longest R a b (es.filterMap Edit.kept).length) : cost es = 0 ↔ List.Forall₂ R a b := by
  constructor
  · intro hcost
    clear hk
    induction h with
    | nil => exact .nil
    | keep hxy _ ih => exact .cons hxy (ih hcost)
    | delete _ _ | insert _ _ =>
      simp only [cost, List.filterMap_cons, Edit.deleted, Edit.inserted, List.length_cons] at hcost
      omega
  · intro hall
    have hzip : Common R (a.zip b) a b := by
      refine ⟨?_, ?_, fun p hp => (List.forall₂_iff_zip.mp hall).2 hp⟩
      · rw [List.map_fst_zip hall.length_eq.le]
      · rw [List.map_snd_zip hall.length_eq.ge]
    have hle := hk.2 ⟨_, hzip, rfl⟩
    have hlen := h.length
    rw [List.length_zip, ← hall.length_eq, min_self] at hle
    have := hall.length_eq
    simp only [cost]
    omega

end AcpCore.Alignment
