import AcpCore.Library.Distance
import AcpCore.Diverge.Symmetry

/-!
# How far traces are apart

`only_a` and `only_b` count what a diff has of one trace alone. Which steps these are
depends on how the table is read back, and on which trace is named first; how many
there are does not.

## What is proved

* `isDistance_distance` — together they are the distance of the two sequences of steps;
* **`diff_metric`** — it is 0 for traces that are equal step by step and only for these,
  does not depend on the order of the two, and is no more than by way of a third trace;
* **`diff_local`** — it is no more than that of parts put together, and what the traces
  have in common at the start and at the end does not count.
-/

namespace AcpCore.Diverge

open AcpCore.Text AcpCore.Trace AcpCore.Alignment

/-- The number of steps a diff has of one trace alone. -/
def distance (a b : List Step) : ℕ := (diffSteps a b).2.onlyA + (diffSteps a b).2.onlyB

/-- It is the least number of steps to delete and to insert. -/
theorem isDistance_distance (a b : List Step) : Distance stepEq a b (distance a b) := by
  obtain ⟨es, hback, -, -, honlyA, honlyB, -⟩ := exists_script a b
  obtain ⟨hes, hlong⟩ := hback.turns
  rw [distance, honlyA, honlyB]
  exact least_cost hes hlong

/-- It is what a longest common subsequence leaves out of both. -/
theorem distance_add {a b : List Step} {k : ℕ} (h : Longest stepEq a b k) :
    distance a b + 2 * k = a.length + b.length := by
  obtain ⟨es, hback, -, -, honlyA, honlyB, -⟩ := exists_script a b
  obtain ⟨hes, hlong⟩ := hback.turns
  have hlen := hes.length
  rw [← hlong.unique h, distance, honlyA, honlyB]
  omega

theorem stepEq_trans (s t u : Step) (hst : stepEq s t) (htu : stepEq t u) : stepEq s u :=
  ⟨hst.1.trans htu.1, hst.2.trans htu.2⟩

/-- No step is in one trace alone where they are equal step by step. -/
theorem distance_eq_zero_iff {a b : List Step} : distance a b = 0 ↔ List.Forall₂ stepEq a b := by
  obtain ⟨es, hback, -, -, honlyA, honlyB, -⟩ := exists_script a b
  obtain ⟨hes, hlong⟩ := hback.turns
  rw [← cost_eq_zero_iff hes hlong, distance, honlyA, honlyB, cost]

/-- **The number of steps that are in one trace alone is a metric**, on the traces that are told apart by direction and
hash. -/
theorem diff_metric (a b c : List Step) :
    (distance a b = 0 ↔ List.Forall₂ stepEq a b) ∧ distance a b = distance b a ∧
      distance a c ≤ distance a b + distance b c := by
  refine ⟨distance_eq_zero_iff, ?_, ?_⟩
  · exact (isDistance_distance a b).symm flip_stepEq (isDistance_distance b a)
  · exact (isDistance_distance a b).triangle stepEq_trans (isDistance_distance b c) (isDistance_distance a c)

/-- **A diff is local.** Traces put together are no further apart than their parts; and where they start with equal steps
and end with equal steps, they are as far apart as what is between. -/
theorem diff_local (a a' b b' : List Step) :
    distance (a ++ a') (b ++ b') ≤ distance a b + distance a' b' ∧
      ∀ p p' q q', List.Forall₂ stepEq p p' → List.Forall₂ stepEq q q' →
        distance (p ++ a ++ q) (p' ++ b ++ q') = distance a b := by
  constructor
  · exact (isDistance_distance a b).append (isDistance_distance a' b') (isDistance_distance _ _)
  · intro p p' q q' hp hq
    obtain ⟨es, hback, -⟩ := exists_script a b
    have hlong := hback.turns.2
    have hwhole := (hlong.append_left hp).append_right hq
    have hsum := distance_add hlong
    have hsum' := distance_add hwhole
    have hplen := hp.length_eq
    have hqlen := hq.length_eq
    simp only [List.length_append] at hsum'
    omega

end AcpCore.Diverge
