import AcpCore.Diverge.Report

/-!
# Exchanging the traces

When the diff of two traces is that of the traces exchanged, seen from the other side.

## The model

Positions in the traces are counted off the ops. A gap may report what is in one trace
only in another order than what is in the other only; which steps are `Common`, and which
are in one trace only, is what is compared.

## What is proved

* `commonAt_toOp`, `onlyAt_toOp` — the positions reported are those of the script;
* **`diff_symmetric_iff`** — the two diffs mirror each other if and only if reading back
  takes no side;
* `diff_symmetric_fails` — two steps that change places.
-/

namespace AcpCore.Diverge

open AcpCore.Text AcpCore.Trace AcpCore.Alignment

/-! ### Positions -/

/-- The positions in both traces of the steps reported as `Common`. -/
def commonAt : ℕ → ℕ → List DiffOp → List (ℕ × ℕ)
  | _, _, [] => []
  | i, j, .common .. :: ops => (i, j) :: commonAt (i + 1) (j + 1) ops
  | i, j, .onlyA .. :: ops => commonAt (i + 1) j ops
  | i, j, .onlyB .. :: ops => commonAt i (j + 1) ops

/-- The positions in one trace of the steps reported as only in it. -/
def onlyAt (isOnly : DiffOp → Bool) : ℕ → List DiffOp → List ℕ
  | _, [] => []
  | i, op :: ops =>
    if isOnly op then i :: onlyAt isOnly (i + 1) ops
    else if op.isCommon then onlyAt isOnly (i + 1) ops
    else onlyAt isOnly i ops

/-- A result of `diff_steps` is another with the two traces exchanged. -/
structure Mirrors (r r' : List DiffOp × DiffStats) : Prop where
  /-- The same pairs of positions are `Common`. -/
  common : commonAt 0 0 r'.1 = (commonAt 0 0 r.1).map Prod.swap
  /-- What is `OnlyB` in the one is `OnlyA` in the other. -/
  onlyA : onlyAt DiffOp.isOnlyA 0 r'.1 = onlyAt DiffOp.isOnlyB 0 r.1
  /-- What is `OnlyA` in the one is `OnlyB` in the other. -/
  onlyB : onlyAt DiffOp.isOnlyB 0 r'.1 = onlyAt DiffOp.isOnlyA 0 r.1
  /-- The counts of common steps are equal. -/
  commonCount : r'.2.common = r.2.common
  /-- The counts of what is in one trace only are exchanged. -/
  onlyACount : r'.2.onlyA = r.2.onlyB
  /-- And the other way. -/
  onlyBCount : r'.2.onlyB = r.2.onlyA
  /-- The first divergence is the same. -/
  firstDivergence : r'.2.firstDivergence = r.2.firstDivergence

theorem commonAt_toOp (i j : ℕ) (es : List (Edit Step Step)) : commonAt i j (es.map toOp) = pairsFrom i j es := by
  induction es generalizing i j with
  | nil => rfl
  | cons e es ih =>
    cases e with
    | keep s t => exact congrArg ((i, j) :: ·) (ih (i + 1) (j + 1))
    | delete s => exact ih (i + 1) j
    | insert t => exact ih i (j + 1)

theorem onlyAt_toOp (i : ℕ) (es : List (Edit Step Step)) :
    onlyAt DiffOp.isOnlyA i (es.map toOp) = deletedFrom i es ∧
      onlyAt DiffOp.isOnlyB i (es.map toOp) = deletedFrom i (es.map Edit.swap) := by
  induction es generalizing i with
  | nil => exact ⟨rfl, rfl⟩
  | cons e es ih =>
    cases e with
    | keep s t => exact ih (i + 1)
    | delete s => exact ⟨congrArg (i :: ·) (ih (i + 1)).1, (ih i).2⟩
    | insert t => exact ⟨(ih i).1, congrArg (i :: ·) (ih (i + 1)).2⟩

/-! ### Scripts that keep the same pairs -/

theorem stepEq_comm {s t : Step} : stepEq s t ↔ stepEq t s := and_congr eq_comm eq_comm

theorem flip_stepEq : flip stepEq = stepEq := by
  funext s t
  exact propext stepEq_comm

theorem turns_swap {es : List (Edit Step Step)} {a b : List Step} (h : Turns stepEq es a b) :
    Turns stepEq (es.map Edit.swap) b a := by
  rw [← flip_stepEq]
  exact h.swap

/-- What is deleted is told by what is kept. -/
theorem deletedFrom_congr {es fs : List (Edit Step Step)} {a b : List Step} (h : Turns stepEq es a b)
    (h' : Turns stepEq fs a b) (hpairs : pairsFrom 0 0 es = pairsFrom 0 0 fs) : deletedFrom 0 es = deletedFrom 0 fs := by
  rw [h.deletedFrom_eq 0 0, h'.deletedFrom_eq 0 0, hpairs]

/-- What is kept at the start is told by what is kept, and is the same with the positions exchanged. -/
theorem lead_of_swap {es fs : List (Edit Step Step)} (hpairs : pairsFrom 0 0 fs = (pairsFrom 0 0 es).map Prod.swap) :
    lead fs = lead es := by
  have hle : ∀ {es fs : List (Edit Step Step)}, pairsFrom 0 0 fs = (pairsFrom 0 0 es).map Prod.swap → ∀ p,
      p ≤ lead es → p ≤ lead fs := by
    intro es fs hpairs p hp
    rw [le_lead_iff_pairsFrom p 0] at hp ⊢
    have hmap := hp.map Prod.swap
    rw [List.map_map, ← hpairs] at hmap
    exact hmap
  refine Nat.le_antisymm (hle ?_ _ le_rfl) (hle hpairs _ le_rfl)
  rw [hpairs, List.map_map]
  exact (List.map_id _).symm

/-! ### The two diffs -/

/-- **The diff is symmetric where reading back takes no side.** For all sequences of steps, the diff of the second and
the first mirrors that of the first and the second if and only if, from the end, each pair kept is related to nothing
after it, and where something is left after one of its steps, no common subsequence is as long without the other. -/
theorem diff_symmetric_iff (a b : List Step) : Mirrors (diffSteps a b) (diffSteps b a) ↔ Settled stepEq a b := by
  obtain ⟨es, hes, hops, hcommon, honlyA, honlyB, hfirst⟩ := exists_script a b
  obtain ⟨fs, hfs, hops', hcommon', honlyA', honlyB', hfirst'⟩ := exists_script b a
  have hflip : ReadBack (flip stepEq) fs b a := by rwa [flip_stepEq]
  rw [← hes.pairs_swap_iff hflip]
  constructor
  · intro h
    have hpairs := h.common
    rwa [hops, hops', commonAt_toOp, commonAt_toOp] at hpairs
  · intro hpairs
    have hturns := hes.turns.1
    have hturns' := hfs.turns.1
    have hkept : (fs.filterMap Edit.kept).length = (es.filterMap Edit.kept).length := by
      rw [← length_pairsFrom 0 0, ← length_pairsFrom 0 0, hpairs, List.length_map]
    have hlen := hturns.length
    have hlen' := hturns'.length
    refine ⟨?_, ?_, ?_, by rw [hcommon, hcommon', hkept], by rw [honlyA', honlyB]; omega, by rw [honlyB', honlyA]; omega, ?_⟩
    · rw [hops, hops', commonAt_toOp, commonAt_toOp, hpairs]
    · rw [hops, hops', (onlyAt_toOp 0 fs).1, (onlyAt_toOp 0 es).2]
      exact deletedFrom_congr hturns' (turns_swap hturns) (by rw [pairsFrom_swap, hpairs])
    · rw [hops, hops', (onlyAt_toOp 0 fs).2, (onlyAt_toOp 0 es).1]
      apply deletedFrom_congr (turns_swap hturns') hturns
      rw [pairsFrom_swap, hpairs, List.map_map]
      exact List.map_id _
    · have hsum := hturns.length_add_kept
      have hsum' := hturns'.length_add_kept
      rw [hfirst, hfirst', lead_of_swap hpairs, show fs.length = es.length by omega]

/-! ### Two steps that change places -/

/-- The step `x` is kept with the traces in one order, and `y` in the other. -/
theorem diff_symmetric_fails :
    commonAt 0 0 (diffSteps [sampleStep 'x' 0, sampleStep 'y' 1] [sampleStep 'y' 0, sampleStep 'x' 1]).1 = [(0, 1)] ∧
    commonAt 0 0 (diffSteps [sampleStep 'y' 0, sampleStep 'x' 1] [sampleStep 'x' 0, sampleStep 'y' 1]).1 = [(0, 1)] ∧
    ¬ Mirrors (diffSteps [sampleStep 'x' 0, sampleStep 'y' 1] [sampleStep 'y' 0, sampleStep 'x' 1])
      (diffSteps [sampleStep 'y' 0, sampleStep 'x' 1] [sampleStep 'x' 0, sampleStep 'y' 1]) := by
  have h : commonAt 0 0 (diffSteps [sampleStep 'x' 0, sampleStep 'y' 1] [sampleStep 'y' 0, sampleStep 'x' 1]).1
      = [(0, 1)] := by decide +kernel
  have h' : commonAt 0 0 (diffSteps [sampleStep 'y' 0, sampleStep 'x' 1] [sampleStep 'x' 0, sampleStep 'y' 1]).1
      = [(0, 1)] := by decide +kernel
  refine ⟨h, h', fun hmirrors => ?_⟩
  have hcommon := hmirrors.common
  rw [h, h'] at hcommon
  exact absurd hcommon (by decide)

end AcpCore.Diverge
