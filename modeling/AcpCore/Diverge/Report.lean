import AcpCore.Diverge.Diff

/-!
# Reports

What `diff_steps` returns, read as an edit script from one trace to the other.

## What is proved

* `diffSteps_stats` — the stats count the ops;
* **`diff_maximum`** — the common steps are a longest common subsequence, so that
  least is deleted and inserted, and nothing exactly when the traces are equal step
  by step, which is when `acp diff` succeeds;
* **`diff_faithful`** — each op carries its steps, and each step of both traces is in
  one op, in order.
-/

namespace AcpCore.Diverge

open AcpCore.Text AcpCore.Trace AcpCore.Alignment

variable (a b : List Step)

/-! ### Stats -/

/-- Is the op `OnlyA`? -/
def DiffOp.isOnlyA : DiffOp → Bool
  | .onlyA .. => true
  | _ => false

/-- Is the op `OnlyB`? -/
def DiffOp.isOnlyB : DiffOp → Bool
  | .onlyB .. => true
  | _ => false

/-- What the loop over the ops does to the stats. -/
theorem foldl_tally (ops : List DiffOp) (stats : DiffStats) (n : ℕ) :
    (ops.zipIdx n).foldl (fun stats op => tally stats op.2 op.1) stats =
      { common := stats.common + ops.countP DiffOp.isCommon
        onlyA := stats.onlyA + ops.countP DiffOp.isOnlyA
        onlyB := stats.onlyB + ops.countP DiffOp.isOnlyB
        firstDivergence := stats.firstDivergence.or ((ops.findIdx? fun op => !op.isCommon).map (· + n)) } := by
  induction ops generalizing stats n with
  | nil => simp
  | cons op ops ih =>
    rw [List.zipIdx_cons, List.foldl_cons, ih]
    cases op with
    | common =>
      simp [tally, List.countP_cons, List.findIdx?_cons, DiffOp.isCommon, DiffOp.isOnlyA, DiffOp.isOnlyB]
      exact ⟨by omega, by rw [Nat.add_comm 1 n]⟩
    | onlyA | onlyB =>
      simp [tally, List.countP_cons, List.findIdx?_cons, DiffOp.isCommon, DiffOp.isOnlyA, DiffOp.isOnlyB]
      omega

/-- **The stats count the ops**, and say where the first is that is not `Common`. -/
theorem diffSteps_stats : (diffSteps a b).2 =
    { common := (diffSteps a b).1.countP DiffOp.isCommon
      onlyA := (diffSteps a b).1.countP DiffOp.isOnlyA
      onlyB := (diffSteps a b).1.countP DiffOp.isOnlyB
      firstDivergence := (diffSteps a b).1.findIdx? fun op => !op.isCommon } := by
  rw [diffSteps, foldl_tally]
  simp

/-- What a script's ops count is what the script keeps, deletes and inserts. -/
theorem countP_toOp (es : List (Edit Step Step)) :
    (es.map toOp).countP DiffOp.isCommon = (es.filterMap Edit.kept).length ∧
      (es.map toOp).countP DiffOp.isOnlyA = (es.filterMap Edit.deleted).length ∧
      (es.map toOp).countP DiffOp.isOnlyB = (es.filterMap Edit.inserted).length := by
  induction es with
  | nil => exact ⟨rfl, rfl, rfl⟩
  | cons e es ih =>
    obtain ⟨hkept, hdeleted, hinserted⟩ := ih
    simp only [List.map_cons, List.countP_cons, List.filterMap_cons, hkept, hdeleted, hinserted]
    cases e <;> exact ⟨rfl, rfl, rfl⟩

/-- The first op that is not `Common` comes after what the script keeps at the start. -/
theorem findIdx?_toOp (es : List (Edit Step Step)) :
    (es.map toOp).findIdx? (fun op => !op.isCommon) = if lead es < es.length then some (lead es) else none := by
  have hlead : (es.map toOp).findIdx (fun op => !op.isCommon) = lead es := by
    rw [List.findIdx_map, lead]
    congr 1
    funext e
    cases e <;> rfl
  rw [List.findIdx?_eq_guard_findIdx_lt, hlead, List.length_map, Option.guard]
  simp only [decide_eq_true_eq]

/-- The result of `diff_steps` as a script. -/
theorem exists_script : ∃ es, ReadBack stepEq es a b ∧ (diffSteps a b).1 = es.map toOp ∧
    (diffSteps a b).2.common = (es.filterMap Edit.kept).length ∧
    (diffSteps a b).2.onlyA = (es.filterMap Edit.deleted).length ∧
    (diffSteps a b).2.onlyB = (es.filterMap Edit.inserted).length ∧
    (diffSteps a b).2.firstDivergence = if lead es < es.length then some (lead es) else none := by
  obtain ⟨es, hes, hops⟩ := lcsDiff_eq a b
  have hops : (diffSteps a b).1 = es.map toOp := hops
  obtain ⟨hkept, hdeleted, hinserted⟩ := countP_toOp es
  rw [diffSteps_stats, hops]
  exact ⟨es, hes, rfl, hkept, hdeleted, hinserted, findIdx?_toOp es⟩

/-! ### The alignment is a longest one -/

/-- **The diff is a maximum alignment.** The number of common ops is the length of a longest
common subsequence; what is only in one trace is least among all edit scripts; there is
none if and only if the traces are equal step by step, which is when `acp diff` succeeds. -/
theorem diff_maximum :
    Longest stepEq a b ((diffSteps a b).1.countP DiffOp.isCommon) ∧
    (diffSteps a b).2.common = (diffSteps a b).1.countP DiffOp.isCommon ∧
    IsLeast {n | ∃ es, Turns stepEq es a b ∧ cost es = n} ((diffSteps a b).2.onlyA + (diffSteps a b).2.onlyB) ∧
    ((diffSteps a b).2.onlyA = 0 ∧ (diffSteps a b).2.onlyB = 0 ↔ List.Forall₂ stepEq a b) ∧
    ∀ report : DiffReport, report.stats = (diffSteps a b).2 → (exitStatus report = 0 ↔ List.Forall₂ stepEq a b) := by
  obtain ⟨es, hback, hops, hcommon, honlyA, honlyB, -⟩ := exists_script a b
  obtain ⟨hes, hlong⟩ := hback.turns
  have hzero : (diffSteps a b).2.onlyA = 0 ∧ (diffSteps a b).2.onlyB = 0 ↔ List.Forall₂ stepEq a b := by
    rw [← cost_eq_zero_iff hes hlong, cost, honlyA, honlyB, Nat.add_eq_zero_iff]
  refine ⟨?_, ?_, ?_, hzero, fun report hstats => ?_⟩
  · rw [hops, (countP_toOp es).1]
    exact hlong
  · rw [hcommon, hops, (countP_toOp es).1]
  · rw [honlyA, honlyB]
    exact least_cost hes hlong
  · rw [← hzero, exitStatus, hstats]
    split_ifs with h
    · exact iff_of_true rfl h
    · exact iff_of_false (by decide) h

/-! ### The ops are the steps -/

/-- What an op says of a step of the first trace. -/
def DiffOp.sideA : DiffOp → Option (U64 × Direction × Str × Option Str)
  | .common aSeq _ dir hash method => some (aSeq, dir, hash, method)
  | .onlyA aSeq dir hash method => some (aSeq, dir, hash, method)
  | .onlyB _ _ _ _ => none

/-- What an op says of a step of the second trace. -/
def DiffOp.sideB : DiffOp → Option (U64 × Direction × Str)
  | .common _ bSeq dir hash _ => some (bSeq, dir, hash)
  | .onlyA _ _ _ _ => none
  | .onlyB bSeq dir hash _ => some (bSeq, dir, hash)

/-- The ops of a script say of every step of both sequences what it is. -/
theorem sides_toOp {es : List (Edit Step Step)} {a b : List Step} (h : Turns stepEq es a b) :
    (es.map toOp).filterMap DiffOp.sideA = a.map (fun s => (s.seq, s.dir, s.hash, s.method)) ∧
      (es.map toOp).filterMap DiffOp.sideB = b.map (fun s => (s.seq, s.dir, s.hash)) := by
  induction h with
  | nil => exact ⟨rfl, rfl⟩
  | @keep es a b s t hst _ ih =>
    simp only [List.map_cons, List.filterMap_cons, toOp, commonOp, DiffOp.sideA, DiffOp.sideB, ih.1, ih.2, hst.1, hst.2,
      and_self]
  | delete _ ih | insert _ ih =>
    simp only [List.map_cons, List.filterMap_cons, toOp, onlyAOp, onlyBOp, DiffOp.sideA, DiffOp.sideB, ih.1, ih.2,
      and_self]

/-- **The diff is a faithful edit script.** The ops `Common` and `OnlyA` carry every step of the
first trace, once and in order, and `Common` and `OnlyB` every step of the second; a `Common`
op carries a step of each that are equal; the stats add up to the lengths, and the first
divergence is the position of the first op that is not `Common`. -/
theorem diff_faithful :
    (diffSteps a b).1.filterMap DiffOp.sideA = a.map (fun s => (s.seq, s.dir, s.hash, s.method)) ∧
    (diffSteps a b).1.filterMap DiffOp.sideB = b.map (fun s => (s.seq, s.dir, s.hash)) ∧
    (∀ op ∈ (diffSteps a b).1, op.isCommon = true → ∃ s ∈ a, ∃ t ∈ b, stepEq s t ∧ op = commonOp s t) ∧
    (diffSteps a b).2.common + (diffSteps a b).2.onlyA = a.length ∧
    (diffSteps a b).2.common + (diffSteps a b).2.onlyB = b.length ∧
    (diffSteps a b).2.firstDivergence = (diffSteps a b).1.findIdx? (fun op => !op.isCommon) ∧
    ((diffSteps a b).2.firstDivergence = none ↔ ∀ op ∈ (diffSteps a b).1, op.isCommon = true) := by
  obtain ⟨es, hback, hops, hcommon, honlyA, honlyB, -⟩ := exists_script a b
  have hes := hback.turns.1
  obtain ⟨hsideA, hsideB⟩ := sides_toOp hes
  have hfirst : (diffSteps a b).2.firstDivergence = (diffSteps a b).1.findIdx? fun op => !op.isCommon := by
    rw [diffSteps_stats]
  refine ⟨by rw [hops, hsideA], by rw [hops, hsideB], fun op hop hc => ?_, ?_, ?_, hfirst, ?_⟩
  · rw [hops] at hop
    obtain ⟨e, he, rfl⟩ := List.mem_map.mp hop
    cases e with
    | keep s t =>
      have hpair := hes.common
      have hmem : (s, t) ∈ es.filterMap Edit.kept := List.mem_filterMap.mpr ⟨_, he, rfl⟩
      exact ⟨s, hpair.fst.mem (List.mem_map_of_mem hmem), t, hpair.snd.mem (List.mem_map_of_mem hmem), hpair.rel _ hmem, rfl⟩
    | delete s => cases hc
    | insert t => cases hc
  · rw [hcommon, honlyA]
    exact hes.length.1
  · rw [hcommon, honlyB]
    exact hes.length.2
  · rw [hfirst, List.findIdx?_eq_none_iff]
    simp

/-! ### Sample steps -/

/-- A step of the client. -/
def sampleStep (hash : Char) (seq : U64) : Step where
  dir := .c2a
  hash := [hash]
  method := none
  seq := seq

end AcpCore.Diverge
