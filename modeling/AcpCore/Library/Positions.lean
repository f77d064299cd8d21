import AcpCore.Library.Alignment

/-!
# Positions in edit scripts

Where a script keeps and deletes: how many elements it keeps at the start, and the positions
of the pairs kept and of the elements deleted. A script that inserts is one that deletes, seen
from the other sequence.

## What is proved

* `Turns.forall₂_take` — what is kept at the start is related;
* `Turns.deletedFrom_eq` — the elements deleted are those not kept;
* `le_lead_iff_pairsFrom` — what is kept at the start is read off the pairs.
-/

namespace AcpCore.Alignment

variable {α β : Type} {R : α → β → Prop}

/-! ### The start -/

/-- How many elements are kept at the start. -/
def lead (es : List (Edit α β)) : ℕ := es.findIdx fun e => e.kept.isNone

theorem lead_cons_keep (x : α) (y : β) (es : List (Edit α β)) : lead (.keep x y :: es) = lead es + 1 := by
  simp [lead, List.findIdx_cons, Edit.kept]

theorem lead_cons_delete (x : α) (es : List (Edit α β)) : lead (.delete x :: es) = 0 := by
  simp [lead, List.findIdx_cons, Edit.kept]

theorem lead_cons_insert (y : β) (es : List (Edit α β)) : lead (.insert y :: es) = 0 := by
  simp [lead, List.findIdx_cons, Edit.kept]

theorem lead_le_kept (es : List (Edit α β)) : lead es ≤ (es.filterMap Edit.kept).length := by
  induction es with
  | nil => rfl
  | cons e es ih =>
    cases e with
    | keep x y =>
      rw [lead_cons_keep]
      exact Nat.succ_le_succ ih
    | delete x => exact (lead_cons_delete x es).le.trans (Nat.zero_le _)
    | insert y => exact (lead_cons_insert y es).le.trans (Nat.zero_le _)

/-- A script that only keeps. -/
theorem lead_of_kept {es : List (Edit α β)} (h : (es.filterMap Edit.kept).length = es.length) : lead es = es.length := by
  rw [lead, List.findIdx_eq_length]
  intro e he
  simpa using List.filterMap_length_eq_length.mp h e he

/-- What is kept at the start is kept whatever follows. -/
theorem le_lead_append {p : ℕ} {es : List (Edit α β)} (hp : p ≤ es.length) (fs : List (Edit α β)) :
    p ≤ lead (es ++ fs) ↔ p ≤ lead es := by
  have hle : lead es ≤ es.length := List.findIdx_le_length
  rw [lead, List.findIdx_append]
  split_ifs with hlt
  · rfl
  · have : lead es = es.length := Nat.le_antisymm hle (not_lt.mp hlt)
    omega

theorem lead_append_of_eq {es : List (Edit α β)} (h : lead es = es.length) (fs : List (Edit α β)) :
    lead (es ++ fs) = es.length + lead fs := by
  rw [lead] at h ⊢
  rw [List.findIdx_append, if_neg (not_lt.mpr h.ge), Nat.add_comm]
  rfl

/-- What is kept at the start is related. -/
theorem Turns.forall₂_take {es : List (Edit α β)} {a : List α} {b : List β} (h : Turns R es a b) {p : ℕ}
    (hp : p ≤ lead es) : p ≤ a.length ∧ p ≤ b.length ∧ List.Forall₂ R (a.take p) (b.take p) := by
  induction h generalizing p with
  | nil =>
    obtain rfl := Nat.le_zero.mp hp
    exact ⟨le_rfl, le_rfl, .nil⟩
  | @keep es a b x y hxy _ ih =>
    rw [lead_cons_keep] at hp
    cases p with
    | zero => exact ⟨Nat.zero_le _, Nat.zero_le _, .nil⟩
    | succ p =>
      obtain ⟨ha, hb, hrel⟩ := ih (Nat.le_of_succ_le_succ hp)
      exact ⟨Nat.succ_le_succ ha, Nat.succ_le_succ hb, .cons hxy hrel⟩
  | @delete es a b x _ _ =>
    rw [lead_cons_delete] at hp
    obtain rfl := Nat.le_zero.mp hp
    exact ⟨Nat.zero_le _, Nat.zero_le _, .nil⟩
  | @insert es a b y _ _ =>
    rw [lead_cons_insert] at hp
    obtain rfl := Nat.le_zero.mp hp
    exact ⟨Nat.zero_le _, Nat.zero_le _, .nil⟩

/-! ### Pairs -/

/-- The step of the script that turns the second sequence into the first. -/
def Edit.swap : Edit α β → Edit β α
  | .keep x y => .keep y x
  | .delete x => .insert x
  | .insert y => .delete y

/-- The positions of the pairs kept, from two positions on. -/
def pairsFrom : ℕ → ℕ → List (Edit α β) → List (ℕ × ℕ)
  | _, _, [] => []
  | i, j, .keep _ _ :: es => (i, j) :: pairsFrom (i + 1) (j + 1) es
  | i, j, .delete _ :: es => pairsFrom (i + 1) j es
  | i, j, .insert _ :: es => pairsFrom i (j + 1) es

/-- The positions of the elements deleted, from one on. -/
def deletedFrom : ℕ → List (Edit α β) → List ℕ
  | _, [] => []
  | i, .keep _ _ :: es => deletedFrom (i + 1) es
  | i, .delete _ :: es => i :: deletedFrom (i + 1) es
  | i, .insert _ :: es => deletedFrom i es

theorem Turns.swap {es : List (Edit α β)} {a : List α} {b : List β} (h : Turns R es a b) :
    Turns (flip R) (es.map Edit.swap) b a := by
  induction h with
  | nil => exact .nil
  | keep hxy _ ih => exact .keep hxy ih
  | delete _ ih => exact .insert ih
  | insert _ ih => exact .delete ih

theorem pairsFrom_swap (i j : ℕ) (es : List (Edit α β)) :
    pairsFrom j i (es.map Edit.swap) = (pairsFrom i j es).map Prod.swap := by
  induction es generalizing i j with
  | nil => rfl
  | cons e es ih => cases e <;> simp [Edit.swap, pairsFrom, ih]

theorem length_pairsFrom (i j : ℕ) (es : List (Edit α β)) :
    (pairsFrom i j es).length = (es.filterMap Edit.kept).length := by
  induction es generalizing i j with
  | nil => rfl
  | cons e es ih => cases e <;> simp only [List.filterMap_cons, Edit.kept, pairsFrom, List.length_cons, ih]

theorem pairsFrom_append {es : List (Edit α β)} {a : List α} {b : List β} (h : Turns R es a b) (i j : ℕ)
    (fs : List (Edit α β)) :
    pairsFrom i j (es ++ fs) = pairsFrom i j es ++ pairsFrom (i + a.length) (j + b.length) fs := by
  induction h generalizing i j with
  | nil => rfl
  | @keep es a b x y _ _ ih =>
    rw [List.cons_append, pairsFrom, pairsFrom, ih, List.length_cons, List.length_cons, Nat.add_right_comm i,
      Nat.add_right_comm j]
    rfl
  | @delete es a b x _ ih =>
    rw [List.cons_append, pairsFrom, pairsFrom, ih, List.length_cons, Nat.add_right_comm i]
    rfl
  | @insert es a b y _ ih =>
    rw [List.cons_append, pairsFrom, pairsFrom, ih, List.length_cons, Nat.add_right_comm j]
    rfl

theorem le_of_mem_pairsFrom {es : List (Edit α β)} {i j : ℕ} {p : ℕ × ℕ} (hp : p ∈ pairsFrom i j es) :
    i ≤ p.1 ∧ j ≤ p.2 := by
  induction es generalizing i j with
  | nil => cases hp
  | cons e es ih =>
    cases e with
    | keep x y =>
      rcases List.mem_cons.mp hp with rfl | hp
      · exact ⟨le_rfl, le_rfl⟩
      · exact ⟨Nat.le_of_succ_le (ih hp).1, Nat.le_of_succ_le (ih hp).2⟩
    | delete x => exact ⟨Nat.le_of_succ_le (ih hp).1, (ih hp).2⟩
    | insert y => exact ⟨(ih hp).1, Nat.le_of_succ_le (ih hp).2⟩

/-- The elements deleted are those not kept. -/
theorem Turns.deletedFrom_eq {es : List (Edit α β)} {a : List α} {b : List β} (h : Turns R es a b) (i j : ℕ) :
    deletedFrom i es = (List.range' i a.length).filter fun n => n ∉ (pairsFrom i j es).map Prod.fst := by
  induction h generalizing i j with
  | nil => rfl
  | @keep es a b x y _ _ ih =>
    rw [deletedFrom, pairsFrom, List.length_cons, List.range'_succ, List.filter_cons_of_neg (by simp), ih (i + 1) (j + 1)]
    refine List.filter_congr fun n hn => ?_
    have hne : n ≠ i := by
      have := (List.mem_range'_1.mp hn).1
      omega
    simp [hne]
  | @delete es a b x _ ih =>
    have hnot : i ∉ (pairsFrom (i + 1) j es).map Prod.fst := fun hmem => by
      obtain ⟨p, hp, rfl⟩ := List.mem_map.mp hmem
      exact absurd (le_of_mem_pairsFrom hp).1 (Nat.not_succ_le_self _)
    rw [deletedFrom, pairsFrom, List.length_cons, List.range'_succ, List.filter_cons_of_pos (by simpa using hnot),
      ih (i + 1) j]
  | @insert es a b y _ ih => exact ih i (j + 1)

/-- What is kept at the start are the pairs of equal positions. -/
theorem le_lead_iff_pairsFrom (p i : ℕ) (es : List (Edit α β)) :
    p ≤ lead es ↔ (List.range' i p).map (fun n => (n, n)) <+: pairsFrom i i es := by
  induction es generalizing p i with
  | nil =>
    rw [pairsFrom, List.prefix_nil, List.map_eq_nil_iff, List.range'_eq_nil_iff]
    exact Nat.le_zero
  | cons e es ih =>
    cases p with
    | zero => exact iff_of_true (Nat.zero_le _) List.nil_prefix
    | succ p =>
      rw [List.range'_succ, List.map_cons]
      -- a pair of these positions is not kept after a step that is no pair
      have hnot : ∀ {j k : ℕ}, i < j ∨ i < k →
          ¬ (i, i) :: (List.range' (i + 1) p).map (fun n => (n, n)) <+: pairsFrom j k es := by
        intro j k hjk hpre
        have hle := le_of_mem_pairsFrom (hpre.mem List.mem_cons_self)
        simp only at hle
        omega
      cases e with
      | keep x y =>
        rw [lead_cons_keep, pairsFrom, List.prefix_cons_inj, ← ih]
        exact Nat.succ_le_succ_iff
      | delete x =>
        rw [lead_cons_delete]
        exact iff_of_false (Nat.not_succ_le_zero p) (hnot (.inl (Nat.lt_succ_self i)))
      | insert y =>
        rw [lead_cons_insert]
        exact iff_of_false (Nat.not_succ_le_zero p) (hnot (.inr (Nat.lt_succ_self i)))

end AcpCore.Alignment
