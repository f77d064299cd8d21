import AcpCore.Library.Positions

/-!
# The distance of two sequences

The distance of two sequences is the least a script costs that turns one into the
other. Where the relation between their elements is an equivalence, it is a metric on
the sequences up to that.

## What is proved

* **`Turns.trans`** — scripts that follow each other make one that costs no more;
* `Distance.triangle`, `Distance.symm` — the laws of a metric, but for that of a script
  that costs nothing;
* `Distance.append` — what is put together is no further apart than its parts;
* `Longest.append_right` — what is related at the end is paired after all else.
-/

namespace AcpCore.Alignment

variable {α β γ : Type} {R : α → β → Prop}

variable (R) in
/-- The least cost of a script. -/
def Distance (a : List α) (b : List β) (n : ℕ) : Prop := IsLeast {n | ∃ es, Turns R es a b ∧ cost es = n} n

@[simp] theorem cost_keep (x : α) (y : β) (es : List (Edit α β)) : cost (.keep x y :: es) = cost es := rfl

@[simp] theorem cost_delete (x : α) (es : List (Edit α β)) : cost (.delete x :: es) = cost es + 1 := by
  simp only [cost, List.filterMap_cons, Edit.deleted, Edit.inserted, List.length_cons]
  omega

@[simp] theorem cost_insert (y : β) (es : List (Edit α β)) : cost (.insert y :: es) = cost es + 1 := by
  simp only [cost, List.filterMap_cons, Edit.deleted, Edit.inserted, List.length_cons]
  omega

/-! ### One script after another -/

/-- **Scripts that follow each other make one** that costs no more: an element deleted or inserted by either is so by it,
or is inserted by the first and deleted by the second. -/
theorem Turns.trans {S : β → γ → Prop} {T : α → γ → Prop} (hcomp : ∀ x y z, R x y → S y z → T x z)
    {es : List (Edit α β)} {fs : List (Edit β γ)} {a : List α} {b : List β} {c : List γ} (h : Turns R es a b)
    (h' : Turns S fs b c) : ∃ gs, Turns T gs a c ∧ cost gs ≤ cost es + cost fs := by
  induction h generalizing fs c with
  | nil =>
    generalize hb : ([] : List β) = b at h'
    induction h' with
    | nil => exact ⟨[], .nil, Nat.zero_le _⟩
    | keep | delete => cases hb
    | insert _ ih =>
      obtain ⟨gs, hgs, hcost⟩ := ih hb
      refine ⟨_, .insert hgs, ?_⟩
      simp only [cost_insert]
      omega
  | delete _ ih =>
    obtain ⟨gs, hgs, hcost⟩ := ih h'
    refine ⟨_, .delete hgs, ?_⟩
    simp only [cost_delete]
    omega
  | @keep es a b x y hxy _ ih =>
    -- what the second script inserts before it comes to the element kept
    generalize hb : y :: b = b' at h'
    induction h' with
    | nil => cases hb
    | keep hyz h' =>
      cases hb
      obtain ⟨gs, hgs, hcost⟩ := ih h'
      refine ⟨_, .keep (hcomp _ _ _ hxy hyz) hgs, ?_⟩
      simp only [cost_keep]
      omega
    | delete h' =>
      cases hb
      obtain ⟨gs, hgs, hcost⟩ := ih h'
      refine ⟨_, .delete hgs, ?_⟩
      simp only [cost_keep, cost_delete]
      omega
    | insert _ ih' =>
      obtain ⟨gs, hgs, hcost⟩ := ih' hb
      refine ⟨_, .insert hgs, ?_⟩
      simp only [cost_insert]
      omega
  | @insert es a b y _ ih =>
    generalize hb : y :: b = b' at h'
    induction h' with
    | nil => cases hb
    | keep _ h' =>
      cases hb
      obtain ⟨gs, hgs, hcost⟩ := ih h'
      refine ⟨_, .insert hgs, ?_⟩
      simp only [cost_insert, cost_keep]
      omega
    | delete h' =>
      cases hb
      obtain ⟨gs, hgs, hcost⟩ := ih h'
      refine ⟨gs, hgs, ?_⟩
      simp only [cost_insert, cost_delete]
      omega
    | insert _ ih' =>
      obtain ⟨gs, hgs, hcost⟩ := ih' hb
      refine ⟨_, .insert hgs, ?_⟩
      simp only [cost_insert] at hcost ⊢
      omega

theorem cost_append (es fs : List (Edit α β)) : cost (es ++ fs) = cost es + cost fs := by
  simp only [cost, List.filterMap_append, List.length_append]
  omega

theorem cost_swap (es : List (Edit α β)) : cost (es.map Edit.swap) = cost es := by
  induction es with
  | nil => rfl
  | cons e es ih => cases e <;> simp [Edit.swap, ih]

/-! ### A metric -/

/-- **The triangle inequality.** -/
theorem Distance.triangle {S : β → γ → Prop} {T : α → γ → Prop} (hcomp : ∀ x y z, R x y → S y z → T x z)
    {a : List α} {b : List β} {c : List γ} {k l n : ℕ} (hk : Distance R a b k) (hl : Distance S b c l)
    (hn : Distance T a c n) : n ≤ k + l := by
  obtain ⟨⟨es, hes, rfl⟩, -⟩ := hk
  obtain ⟨⟨fs, hfs, rfl⟩, -⟩ := hl
  obtain ⟨gs, hgs, hcost⟩ := hes.trans hcomp hfs
  exact (hn.2 ⟨gs, hgs, rfl⟩).trans hcost

/-- It is the same of the sequences exchanged. -/
theorem Distance.symm {S : β → α → Prop} (hS : flip R = S) {a : List α} {b : List β} {k l : ℕ} (hk : Distance R a b k)
    (hl : Distance S b a l) : k = l := by
  subst hS
  obtain ⟨⟨es, hes, rfl⟩, hmin⟩ := hk
  obtain ⟨⟨fs, hfs, rfl⟩, hmin'⟩ := hl
  apply Nat.le_antisymm
  · exact hmin ⟨_, hfs.swap, cost_swap fs⟩
  · exact hmin' ⟨_, hes.swap, cost_swap es⟩

/-- What is put together is no further apart than its parts. -/
theorem Distance.append {a a' : List α} {b b' : List β} {k l n : ℕ} (hk : Distance R a b k) (hl : Distance R a' b' l)
    (hn : Distance R (a ++ a') (b ++ b') n) : n ≤ k + l := by
  obtain ⟨⟨es, hes, rfl⟩, -⟩ := hk
  obtain ⟨⟨fs, hfs, rfl⟩, -⟩ := hl
  exact hn.2 ⟨_, hes.append hfs, cost_append es fs⟩

/-! ### What is related at the end -/

/-- Sequences related throughout are paired after all else. -/
theorem Longest.append_right {c : List α} {c' : List β} (hc : List.Forall₂ R c c') {a : List α} {b : List β} {k : ℕ}
    (h : Longest R a b k) : Longest R (a ++ c) (b ++ c') (k + c.length) := by
  induction hc generalizing a b k with
  | nil => simpa using h
  | cons hxy _ ih =>
    have hcons := ih (h.concat_of_rel hxy)
    rw [List.append_assoc, List.append_assoc, List.singleton_append, List.singleton_append] at hcons
    rwa [List.length_cons, ← Nat.add_assoc, Nat.add_right_comm]

end AcpCore.Alignment
