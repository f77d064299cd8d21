import AcpCore.Library.ReadBack
import AcpCore.Trace.Reader
import Mathlib.Tactic.Linarith

/-!
# Divergence

`lcs_diff` aligns two sequences of steps: it fills a table of the lengths of longest
common subsequences of prefixes, and reads an alignment off it from the end.

## The model

The table is flat, as in the source, and the two loops that fill it are folds. The
three loops that read it back push onto the list that is reversed at the end.
`Alignment` says what the result is for: the ops are an edit script.

## What is proved

* `table_spec` — every entry is the length of a longest common subsequence;
* `table_lt` — a table that can be allocated holds numbers of 32 bits;
* `lcsDiff_eq` — the ops are those of the script read back, which keeps a longest one.
-/

namespace AcpCore.Diverge

open AcpCore.Text AcpCore.Trace AcpCore.Alignment

/-! ### Steps and ops -/

/-- `Step`. -/
structure Step where
  /-- The direction. -/
  dir : Direction
  /-- The canonical hash. -/
  hash : Str
  /-- The method. -/
  method : Option Str
  /-- The position in the trace. -/
  seq : U64
  deriving DecidableEq

/-- `DiffOp`. -/
inductive DiffOp where
  /-- `Common`. -/
  | common (aSeq bSeq : U64) (dir : Direction) (hash : Str) (method : Option Str)
  /-- `OnlyA`. -/
  | onlyA (aSeq : U64) (dir : Direction) (hash : Str) (method : Option Str)
  /-- `OnlyB`. -/
  | onlyB (bSeq : U64) (dir : Direction) (hash : Str) (method : Option Str)
  deriving DecidableEq

/-- Is the op `Common`? -/
def DiffOp.isCommon : DiffOp → Bool
  | .common .. => true
  | _ => false

/-- `steps`. -/
def steps (trace : TraceReader) : List Step := trace.events.map fun e => ⟨e.dir, e.hash, e.method, e.seq⟩

/-- `step_eq`. -/
def stepEq (a b : Step) : Prop := a.dir = b.dir ∧ a.hash = b.hash

instance : DecidableRel stepEq := fun a b => inferInstanceAs (Decidable (a.dir = b.dir ∧ a.hash = b.hash))

/-- The op pushed where two steps are equal. -/
def commonOp (s t : Step) : DiffOp := .common s.seq t.seq s.dir s.hash s.method

/-- The op pushed for a step of the first trace. -/
def onlyAOp (s : Step) : DiffOp := .onlyA s.seq s.dir s.hash s.method

/-- The op pushed for a step of the second trace. -/
def onlyBOp (s : Step) : DiffOp := .onlyB s.seq s.dir s.hash s.method

/-- The op of a step of an edit script. -/
def toOp : Edit Step Step → DiffOp
  | .keep s t => commonOp s t
  | .delete s => onlyAOp s
  | .insert t => onlyBOp t

/-! ### The table -/

variable (a b : List Step)

/-- Where the entry of two prefixes is. -/
def idx (i j : ℕ) : ℕ := i * (b.length + 1) + j

/-- The entry of two prefixes. -/
def entry (dp : List ℕ) (i j : ℕ) : ℕ := dp.getD (idx b i j) 0

/-- The entry computed for the prefixes that end in two steps. -/
def cell (dp : List ℕ) (i : Fin a.length) (j : Fin b.length) : ℕ :=
  if stepEq a[i] b[j] then entry b dp i j + 1 else max (entry b dp i (j + 1)) (entry b dp (i + 1) j)

/-- The inner loop: a row of the table. -/
def fillRow (dp : List ℕ) (i : Fin a.length) : List ℕ :=
  Fin.foldl b.length (fun dp j => dp.set (idx b (i + 1) (j + 1)) (cell a b dp i j)) dp

/-- The table `dp`. -/
def table : List ℕ := Fin.foldl a.length (fillRow a b) (List.replicate ((a.length + 1) * (b.length + 1)) 0)

/-! ### Reading the table back -/

variable {a b}

/-- The loop that reads the table back while steps are left on both sides. -/
def backtrack (dp : List ℕ) (i j : ℕ) (hi : i ≤ a.length) (hj : j ≤ b.length) (ops : List DiffOp) :
    Fin (a.length + 1) × Fin (b.length + 1) × List DiffOp :=
  match i, j with
  | i + 1, j + 1 =>
    if stepEq a[i] b[j] then backtrack dp i j (Nat.le_of_succ_le hi) (Nat.le_of_succ_le hj) (ops ++ [commonOp a[i] b[j]])
    else if entry b dp i (j + 1) ≥ entry b dp (i + 1) j then
      backtrack dp i (j + 1) (Nat.le_of_succ_le hi) hj (ops ++ [onlyAOp a[i]])
    else backtrack dp (i + 1) j hi (Nat.le_of_succ_le hj) (ops ++ [onlyBOp b[j]])
  | i, j => (⟨i, Nat.lt_succ_of_le hi⟩, ⟨j, Nat.lt_succ_of_le hj⟩, ops)
termination_by i + j

/-- The loop over what is left of one side. -/
def drain (op : Step → DiffOp) : (i : ℕ) → i ≤ a.length → List DiffOp → List DiffOp
  | 0, _, ops => ops
  | i + 1, hi, ops => drain op i (Nat.le_of_succ_le hi) (ops ++ [op a[i]])

/-- The ops when all loops are done, from two positions on. -/
def opsFrom (dp : List ℕ) (i j : ℕ) (hi : i ≤ a.length) (hj : j ≤ b.length) (ops : List DiffOp) : List DiffOp :=
  match backtrack dp i j hi hj ops with
  | (i, j, ops) => drain onlyBOp j (Nat.le_of_lt_succ j.2) (drain onlyAOp i (Nat.le_of_lt_succ i.2) ops)

variable (a b) in
/-- `lcs_diff`. -/
def lcsDiff : List DiffOp := (opsFrom (table a b) a.length b.length le_rfl le_rfl []).reverse

/-! ### Stats -/

/-- `DiffStats`. -/
structure DiffStats where
  /-- How many ops are `Common`. -/
  common : ℕ
  /-- How many are `OnlyA`. -/
  onlyA : ℕ
  /-- How many are `OnlyB`. -/
  onlyB : ℕ
  /-- The position of the first that is not `Common`. -/
  firstDivergence : Option ℕ
  deriving DecidableEq

/-- The stats after one more op. -/
def tally (stats : DiffStats) (i : ℕ) : DiffOp → DiffStats
  | .common .. => { stats with common := stats.common + 1 }
  | .onlyA .. =>
    { stats with onlyA := stats.onlyA + 1, firstDivergence := stats.firstDivergence.or (some i) }
  | .onlyB .. =>
    { stats with onlyB := stats.onlyB + 1, firstDivergence := stats.firstDivergence.or (some i) }

variable (a b) in
/-- `diff_steps`. -/
def diffSteps : List DiffOp × DiffStats :=
  (lcsDiff a b, (lcsDiff a b).zipIdx.foldl (fun stats op => tally stats op.2 op.1) ⟨0, 0, 0, none⟩)

/-- `DiffReport`. -/
structure DiffReport where
  /-- The name of the first trace. -/
  labelA : Str
  /-- The name of the second trace. -/
  labelB : Str
  /-- The ops. -/
  ops : List DiffOp
  /-- The stats. -/
  stats : DiffStats

/-- `diff_two`. -/
def diffTwo (a : TraceReader) (labelA : Str) (b : TraceReader) (labelB : Str) : DiffReport where
  labelA
  labelB
  ops := (diffSteps (steps a) (steps b)).1
  stats := (diffSteps (steps a) (steps b)).2

/-- The exit status of `cmd_diff` for a report. -/
def exitStatus (report : DiffReport) : ℕ := if report.stats.onlyA = 0 ∧ report.stats.onlyB = 0 then 0 else 1

/-! ### What the table holds -/

/-- A loop over `Fin n` keeps what each of its steps keeps. -/
theorem foldl_invariant {γ : Type} {n : ℕ} (f : γ → Fin n → γ) (P : ℕ → γ → Prop) {x : γ} (start : P 0 x)
    (step : ∀ (i : Fin n) y, P i y → P (i + 1) (f y i)) : P n (Fin.foldl n f x) := by
  induction n with
  | zero => exact start
  | succ n ih =>
    rw [Fin.foldl_succ_last]
    exact step (Fin.last n) _ (ih (fun y i => f y i.castSucc) fun i y h => step i.castSucc y h)

variable (a b) in
/-- The entries of some pairs of prefixes are right. -/
structure Filled (filled : ℕ → ℕ → Prop) (dp : List ℕ) : Prop where
  /-- The table has an entry for every pair. -/
  length : dp.length = (a.length + 1) * (b.length + 1)
  /-- Those filled are the lengths of longest common subsequences. -/
  longest : ∀ i j, i ≤ a.length → j ≤ b.length → filled i j → Longest stepEq (a.take i) (b.take j) (entry b dp i j)

theorem Filled.mono {filled filled' : ℕ → ℕ → Prop} {dp : List ℕ} (h : Filled a b filled dp)
    (himp : ∀ i j, j ≤ b.length → filled' i j → filled i j) : Filled a b filled' dp :=
  ⟨h.length, fun i j hi hj hf => h.longest i j hi hj (himp i j hj hf)⟩

theorem idx_lt {i j : ℕ} (hi : i ≤ a.length) (hj : j ≤ b.length) : idx b i j < (a.length + 1) * (b.length + 1) := by
  calc idx b i j < i * (b.length + 1) + (b.length + 1) := Nat.add_lt_add_left (Nat.lt_succ_of_le hj) _
    _ = (i + 1) * (b.length + 1) := (Nat.succ_mul ..).symm
    _ ≤ (a.length + 1) * (b.length + 1) := Nat.mul_le_mul_right _ (Nat.succ_le_succ hi)

/-- Two pairs have one entry only if they are the same. -/
theorem idx_inj {i i' j j' : ℕ} (hj : j ≤ b.length) (hj' : j' ≤ b.length) (h : idx b i j = idx b i' j') :
    i = i' ∧ j = j' := by
  have hdiv : ∀ {i j : ℕ}, j ≤ b.length → idx b i j / (b.length + 1) = i := fun {i j} hj => by
    rw [idx, Nat.add_comm, Nat.add_mul_div_right _ _ (Nat.succ_pos _), Nat.div_eq_of_lt (Nat.lt_succ_of_le hj),
      Nat.zero_add]
  obtain rfl : i = i' := by rw [← hdiv (i := i) hj, h, hdiv hj']
  exact ⟨rfl, Nat.add_left_cancel h⟩

/-- The entry of two prefixes that end in steps is right where those before it are. -/
theorem longest_cell {filled : ℕ → ℕ → Prop} {dp : List ℕ} (h : Filled a b filled dp) (i : Fin a.length)
    (j : Fin b.length) (hdiag : filled i j) (habove : filled i (j + 1)) (hleft : filled (i + 1) j) :
    Longest stepEq (a.take (i + 1)) (b.take (j + 1)) (cell a b dp i j) := by
  have ha : a.take (i + 1) = a.take i ++ [a[i]] := List.take_succ_eq_append_getElem i.2
  have hb : b.take (j + 1) = b.take j ++ [b[j]] := List.take_succ_eq_append_getElem j.2
  rw [cell, ha, hb]
  split_ifs with heq
  · exact (h.longest i j i.2.le j.2.le hdiag).concat_of_rel heq
  · refine Longest.concat_of_not_rel heq ?_ ?_
    · rw [← hb]
      exact h.longest i (j + 1) i.2.le j.2 habove
    · rw [← ha]
      exact h.longest (i + 1) j i.2 j.2.le hleft

/-- One step of the inner loop. -/
theorem Filled.set {filled : ℕ → ℕ → Prop} {dp : List ℕ} (h : Filled a b filled dp) (i : Fin a.length)
    (j : Fin b.length) (hdiag : filled i j) (habove : filled i (j + 1)) (hleft : filled (i + 1) j) :
    Filled a b (fun i' j' => filled i' j' ∨ (i' = i + 1 ∧ j' = j + 1))
      (dp.set (idx b (i + 1) (j + 1)) (cell a b dp i j)) := by
  refine ⟨by rw [List.length_set, h.length], fun i' j' hi' hj' hf => ?_⟩
  rw [entry, List.getD_eq_getElem?_getD, List.getElem?_set]
  split_ifs with hidx hlt
  · obtain ⟨rfl, rfl⟩ := idx_inj j.2 hj' hidx
    exact longest_cell h i j hdiag habove hleft
  · rw [h.length] at hlt
    exact absurd (idx_lt i.2 j.2) hlt
  · have hne : ¬ (i' = i + 1 ∧ j' = j + 1) := by
      rintro ⟨rfl, rfl⟩
      exact hidx rfl
    rw [← List.getD_eq_getElem?_getD]
    exact h.longest i' j' hi' hj' (hf.resolve_right hne)

/-- A row is filled from those before it. -/
theorem Filled.fillRow {dp : List ℕ} (i : Fin a.length) (h : Filled a b (fun i' j' => i' ≤ i ∨ j' = 0) dp) :
    Filled a b (fun i' j' => i' ≤ i + 1 ∨ j' = 0) (fillRow a b dp i) := by
  have hrow := foldl_invariant (fun dp j => dp.set (idx b (i + 1) (j + 1)) (cell a b dp i j))
    (fun j dp => Filled a b (fun i' j' => i' ≤ i ∨ j' = 0 ∨ (i' = i + 1 ∧ j' ≤ j)) dp) (x := dp)
    (h.mono fun i' j' _ hf => by omega) fun j dp hdp =>
      (hdp.set i j (.inl le_rfl) (.inl le_rfl) (.inr (.inr ⟨rfl, le_rfl⟩))).mono fun i' j' _ hf => by omega
  exact hrow.mono fun i' j' hj' hf => by omega

/-- **Every entry of the table is the length of a longest common subsequence.** -/
theorem table_spec : Filled a b (fun _ _ => True) (table a b) := by
  have htable := foldl_invariant (fillRow a b) (fun i dp => Filled a b (fun i' j' => i' ≤ i ∨ j' = 0) dp)
    (x := List.replicate ((a.length + 1) * (b.length + 1)) 0)
    ⟨List.length_replicate, fun i j hi hj hf => by
      have hzero : entry b (List.replicate ((a.length + 1) * (b.length + 1)) 0) i j = 0 := by
        rw [entry, List.getD_eq_getElem?_getD, List.getElem?_replicate, if_pos (idx_lt hi hj), Option.getD_some]
      rw [hzero]
      rcases hf with hi | rfl
      · rw [Nat.le_zero.mp hi]
        exact .nil_left _
      · exact .nil_right _⟩
    fun i dp hdp => hdp.fillRow i
  refine ⟨htable.length, fun i j hi hj _ => htable.longest i j hi hj (.inl hi)⟩

/-- A table of `u32` that can be allocated (`isize::MAX` bytes at most) holds no number that is too large for it. -/
theorem table_lt (h : (a.length + 1) * (b.length + 1) * 4 < 2 ^ 63) {i j : ℕ} (hi : i ≤ a.length) (hj : j ≤ b.length) :
    entry b (table a b) i j < 2 ^ 32 := by
  obtain ⟨hia, hjb⟩ := (table_spec.longest i j hi hj trivial).le_length
  rw [List.length_take] at hia hjb
  have ha : entry b (table a b) i j ≤ a.length := hia.trans (min_le_right _ _)
  have hb : entry b (table a b) i j ≤ b.length := hjb.trans (min_le_right _ _)
  by_contra hlt
  have : 2 ^ 32 * 2 ^ 32 ≤ (a.length + 1) * (b.length + 1) := Nat.mul_le_mul (by omega) (by omega)
  omega

/-! ### What is read back -/

theorem drain_eq (op : Step → DiffOp) (i : ℕ) (hi : i ≤ a.length) (ops : List DiffOp) :
    drain op i hi ops = ops ++ ((a.take i).map op).reverse := by
  induction i generalizing ops with
  | zero => simp [drain]
  | succ i ih =>
    rw [drain, ih, List.take_succ_eq_append_getElem hi, List.map_append, List.reverse_append, List.append_assoc]
    rfl

theorem opsFrom_of_eq {dp : List ℕ} {i j : ℕ} (hi : i + 1 ≤ a.length) (hj : j + 1 ≤ b.length) (h : stepEq a[i] b[j])
    (ops : List DiffOp) : opsFrom dp (i + 1) (j + 1) hi hj ops
      = opsFrom dp i j (Nat.le_of_succ_le hi) (Nat.le_of_succ_le hj) (ops ++ [commonOp a[i] b[j]]) := by
  rw [opsFrom, backtrack, if_pos h]
  rfl

theorem opsFrom_of_ge {dp : List ℕ} {i j : ℕ} (hi : i + 1 ≤ a.length) (hj : j + 1 ≤ b.length) (h : ¬ stepEq a[i] b[j])
    (hge : entry b dp i (j + 1) ≥ entry b dp (i + 1) j) (ops : List DiffOp) : opsFrom dp (i + 1) (j + 1) hi hj ops
      = opsFrom dp i (j + 1) (Nat.le_of_succ_le hi) hj (ops ++ [onlyAOp a[i]]) := by
  rw [opsFrom, backtrack, if_neg h, if_pos hge]
  rfl

theorem opsFrom_of_lt {dp : List ℕ} {i j : ℕ} (hi : i + 1 ≤ a.length) (hj : j + 1 ≤ b.length) (h : ¬ stepEq a[i] b[j])
    (hlt : ¬ entry b dp i (j + 1) ≥ entry b dp (i + 1) j) (ops : List DiffOp) : opsFrom dp (i + 1) (j + 1) hi hj ops
      = opsFrom dp (i + 1) j hi (Nat.le_of_succ_le hj) (ops ++ [onlyBOp b[j]]) := by
  rw [opsFrom, backtrack, if_neg h, if_neg hlt]
  rfl

/-- Where one side is used up, the other is drained. -/
theorem opsFrom_of_zero {dp : List ℕ} {i j : ℕ} (hi : i ≤ a.length) (hj : j ≤ b.length) (h : i = 0 ∨ j = 0)
    (ops : List DiffOp) : opsFrom dp i j hi hj ops
      = ops ++ (((b.take j).map Edit.insert ++ (a.take i).map Edit.delete).map toOp).reverse := by
  have hback : backtrack dp i j hi hj ops = (⟨i, Nat.lt_succ_of_le hi⟩, ⟨j, Nat.lt_succ_of_le hj⟩, ops) := by
    rw [backtrack]
    intros
    omega
  rw [opsFrom, hback]
  simp only [drain_eq, List.map_append, List.map_map, List.reverse_append, List.append_assoc]
  rfl

/-- **What is read back from two positions is the script read back off the lengths.** -/
theorem opsFrom_eq (i j : ℕ) (hi : i ≤ a.length) (hj : j ≤ b.length) (ops : List DiffOp) :
    ∃ es, ReadBack stepEq es (a.take i) (b.take j) ∧
      opsFrom (table a b) i j hi hj ops = ops ++ (es.map toOp).reverse := by
  induction h : i + j using Nat.strong_induction_on generalizing i j ops with
  | _ n ih =>
    subst h
    by_cases hzero : i = 0 ∨ j = 0
    · refine ⟨gap (a.take i) (b.take j), ?_, opsFrom_of_zero hi hj hzero ops⟩
      rcases hzero with rfl | rfl
      · exact .nil_left _
      · exact .nil_right _
    obtain ⟨i, rfl⟩ : ∃ k, i = k + 1 := Nat.exists_eq_succ_of_ne_zero fun h => hzero (.inl h)
    obtain ⟨j, rfl⟩ : ∃ k, j = k + 1 := Nat.exists_eq_succ_of_ne_zero fun h => hzero (.inr h)
    have ha : a.take (i + 1) = a.take i ++ [a[i]] := List.take_succ_eq_append_getElem hi
    have hb : b.take (j + 1) = b.take j ++ [b[j]] := List.take_succ_eq_append_getElem hj
    have habove := table_spec.longest i (j + 1) (Nat.le_of_succ_le hi) hj trivial
    have hleft := table_spec.longest (i + 1) j hi (Nat.le_of_succ_le hj) trivial
    have hpush : ∀ (op : DiffOp) (e : Edit Step Step) (es : List (Edit Step Step)), toOp e = op →
        ops ++ [op] ++ (es.map toOp).reverse = ops ++ ((es ++ [e]).map toOp).reverse := by
      rintro _ e es rfl
      simp
    by_cases heq : stepEq a[i] b[j]
    · -- equal steps are kept
      obtain ⟨es, hes, hops⟩ := ih (i + j) (by omega) i j (Nat.le_of_succ_le hi) (Nat.le_of_succ_le hj)
        (ops ++ [commonOp a[i] b[j]]) rfl
      refine ⟨es ++ [.keep a[i] b[j]], ?_, ?_⟩
      · rw [ha, hb]
        exact hes.keep heq
      · rw [opsFrom_of_eq hi hj heq, hops]
        exact hpush _ _ es rfl
    by_cases hge : entry b (table a b) i (j + 1) ≥ entry b (table a b) (i + 1) j
    · -- the last step of `a` can be left out
      obtain ⟨es, hes, hops⟩ := ih (i + (j + 1)) (by omega) i (j + 1) (Nat.le_of_succ_le hi) hj
        (ops ++ [onlyAOp a[i]]) rfl
      refine ⟨es ++ [.delete a[i]], ?_, ?_⟩
      · rw [hb] at habove hes ⊢
        rw [ha] at hleft ⊢
        exact hes.delete heq habove hleft hge
      · rw [opsFrom_of_ge hi hj heq hge, hops]
        exact hpush _ _ es rfl
    · -- the last step of `b` can be left out
      obtain ⟨es, hes, hops⟩ := ih (i + 1 + j) (by omega) (i + 1) j hi (Nat.le_of_succ_le hj)
        (ops ++ [onlyBOp b[j]]) rfl
      refine ⟨es ++ [.insert b[j]], ?_, ?_⟩
      · rw [ha] at hleft hes ⊢
        rw [hb] at habove ⊢
        exact hes.insert heq habove hleft (not_le.mp hge)
      · rw [opsFrom_of_lt hi hj heq hge, hops]
        exact hpush _ _ es rfl

variable (a b) in
/-- **The ops are those of the script that is read back.** -/
theorem lcsDiff_eq : ∃ es, ReadBack stepEq es a b ∧ lcsDiff a b = es.map toOp := by
  obtain ⟨es, hes, hops⟩ := opsFrom_eq a.length b.length (a := a) (b := b) le_rfl le_rfl []
  rw [List.take_length, List.take_length] at hes
  exact ⟨es, hes, by rw [lcsDiff, hops, List.nil_append, List.reverse_reverse]⟩

end AcpCore.Diverge
