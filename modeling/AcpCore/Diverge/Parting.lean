import AcpCore.Diverge.Report

/-!
# Where traces part ways

When the first divergence that is reported is where the traces part: after the steps they
begin with in common.

## The model

`commonPrefix` counts these steps. Where the last of them occurs again, the diff may pair
it with the later copy, and report a divergence before it.

## What is proved

* `isGreatest_commonPrefix` — it is the length of the longest common prefix;
* `firstDivergence_iff` — the first divergence is there if the script keeps the prefix;
* **`parting_iff`** — and it does if and only if what follows, read back as if it were alone,
  does not go on to pair the prefix's end;
* `parting_fails` — a step that one trace repeats.
-/

namespace AcpCore.Diverge

open AcpCore.Text AcpCore.Trace AcpCore.Alignment

/-! ### The common prefix -/

/-- How many steps are equal from the start. -/
def commonPrefix : List Step → List Step → ℕ
  | s :: a, t :: b => if stepEq s t then commonPrefix a b + 1 else 0
  | _, _ => 0

/-- The first steps of both are equal. -/
def Agree (a b : List Step) (q : ℕ) : Prop := q ≤ a.length ∧ q ≤ b.length ∧ List.Forall₂ stepEq (a.take q) (b.take q)

/-- It is the length of the longest common prefix. -/
theorem isGreatest_commonPrefix (a b : List Step) : IsGreatest {q | Agree a b q} (commonPrefix a b) := by
  have hzero : ∀ {a b : List Step}, (∀ q, ¬ Agree a b (q + 1)) → IsGreatest {q | Agree a b q} 0 := by
    intro a b hnot
    refine ⟨⟨Nat.zero_le _, Nat.zero_le _, .nil⟩, fun q hq => ?_⟩
    cases q with
    | zero => exact le_rfl
    | succ q => exact absurd hq (hnot q)
  fun_induction commonPrefix a b with
  | case1 s a t b heq ih =>
    constructor
    · exact ⟨Nat.succ_le_succ ih.1.1, Nat.succ_le_succ ih.1.2.1, .cons heq ih.1.2.2⟩
    · rintro q ⟨ha, hb, hrel⟩
      cases q with
      | zero => exact Nat.zero_le _
      | succ q =>
        cases hrel with
        | cons _ hrel => exact Nat.succ_le_succ (ih.2 ⟨Nat.le_of_succ_le_succ ha, Nat.le_of_succ_le_succ hb, hrel⟩)
  | case2 s a t b hne =>
    apply hzero
    rintro q ⟨-, -, hrel⟩
    cases hrel with
    | cons heq _ => exact hne heq
  | case3 a b hcases =>
    apply hzero
    rintro q ⟨ha, hb, -⟩
    rcases a with _ | ⟨s, a⟩
    · exact Nat.not_succ_le_zero q ha
    · rcases b with _ | ⟨t, b⟩
      · exact Nat.not_succ_le_zero q hb
      · exact hcases s a t b rfl rfl

/-! ### The first divergence -/

/-- The diff reports all steps of the common prefix as common, and the first divergence after them. -/
def PartsAtPrefix (a b : List Step) : Prop :=
  (diffSteps a b).2.firstDivergence = some (commonPrefix a b) ∧
    ∀ op ∈ (diffSteps a b).1.take (commonPrefix a b), op.isCommon = true

/-- What follows the common prefix does not pair its end. -/
def EndClear (a b : List Step) : Prop :=
  ∀ q s t, commonPrefix a b = q + 1 → a[q]? = some s → b[q]? = some t →
    Clear stepEq s t (a.drop (q + 1)) (b.drop (q + 1))

variable {a b : List Step}

/-- The ops of what is kept at the start are common. -/
theorem isCommon_of_le_lead {es : List (Edit Step Step)} {p : ℕ} (hp : p ≤ lead es) {op : DiffOp}
    (hop : op ∈ (es.map toOp).take p) : op.isCommon = true := by
  rw [← List.map_take] at hop
  obtain ⟨e, he, rfl⟩ := List.mem_map.mp hop
  obtain ⟨i, hi, rfl⟩ := List.mem_take_iff_getElem.mp he
  have hlt : i < es.findIdx fun e => e.kept.isNone := by
    unfold lead at hp
    omega
  have hkept := List.not_of_lt_findIdx hlt
  cases hei : es[i] with
  | keep s t => rfl
  | delete s | insert t =>
    rw [hei] at hkept
    cases hkept

/-- A script keeps no more at the start than is in common there. -/
theorem lead_le_commonPrefix {es : List (Edit Step Step)} (h : Turns stepEq es a b) : lead es ≤ commonPrefix a b :=
  (isGreatest_commonPrefix a b).2 (h.forall₂_take le_rfl)

/-- Between traces that differ a script does not only keep. -/
theorem lead_lt_length {es : List (Edit Step Step)} (h : Turns stepEq es a b) (hne : ¬ List.Forall₂ stepEq a b) :
    lead es < es.length := by
  refine lt_of_le_of_ne List.findIdx_le_length fun heq => hne ?_
  obtain ⟨ha, hb, hrel⟩ := h.forall₂_take le_rfl
  have hkept := lead_le_kept es
  have hle := List.length_filterMap_le Edit.kept es
  have hsum := h.length_add_kept
  rwa [List.take_of_length_le (by omega), List.take_of_length_le (by omega)] at hrel

/-- **The first divergence is where the traces part** if and only if the script keeps the prefix. -/
theorem firstDivergence_iff (hne : ¬ List.Forall₂ stepEq a b) {es : List (Edit Step Step)} (h : Turns stepEq es a b)
    (hops : (diffSteps a b).1 = es.map toOp)
    (hfirst : (diffSteps a b).2.firstDivergence = if lead es < es.length then some (lead es) else none) :
    PartsAtPrefix a b ↔ commonPrefix a b ≤ lead es := by
  rw [PartsAtPrefix, hfirst, hops, if_pos (lead_lt_length h hne), Option.some.injEq]
  constructor
  · rintro ⟨heq, -⟩
    exact heq.ge
  · intro hle
    exact ⟨Nat.le_antisymm (lead_le_commonPrefix h) hle, fun op hop => isCommon_of_le_lead hle hop⟩

/-- **The traces part where the diff says** so long as nothing after the common prefix is paired with its end. For all
sequences of steps that are not equal step by step: the diff reports the steps of the longest common prefix as common,
and the first divergence at its length, if and only if the prefix is empty, or what follows it, read back as if it were
alone, leaves in its first gap no copy of the prefix's last step. -/
theorem parting_iff (hne : ¬ List.Forall₂ stepEq a b) : PartsAtPrefix a b ↔ EndClear a b := by
  obtain ⟨es, hes, hops, -, -, -, hfirst⟩ := exists_script a b
  rw [firstDivergence_iff hne hes.turns.1 hops hfirst]
  obtain ⟨hlena, hlenb, hrel⟩ := (isGreatest_commonPrefix a b).1
  rcases hp : commonPrefix a b with _ | q
  · refine iff_of_true (Nat.zero_le _) fun q s t hq => ?_
    rw [hp] at hq
    cases hq
  rw [hp] at hlena hlenb hrel
  obtain ⟨fs, hfs, -⟩ := lcsDiff_eq (a.drop (q + 1)) (b.drop (q + 1))
  have ha : a = a.take q ++ a[q] :: a.drop (q + 1) := by rw [← List.drop_eq_getElem_cons, List.take_append_drop]
  have hb : b = b.take q ++ b[q] :: b.drop (q + 1) := by rw [← List.drop_eq_getElem_cons, List.take_append_drop]
  have hc : List.Forall₂ stepEq (a.take q) (b.take q) := by
    have := List.forall₂_take q hrel
    rwa [List.take_take, List.take_take, min_eq_left (Nat.le_succ q)] at this
  have hz : stepEq a[q] b[q] := by
    have := hrel.get (by rw [List.length_take_of_le hlena]; exact q.lt_succ_self)
      (by rw [List.length_take_of_le hlenb]; exact q.lt_succ_self)
    simpa using this
  have hback : ReadBack stepEq es (a.take q ++ a[q] :: a.drop (q + 1)) (b.take q ++ b[q] :: b.drop (q + 1)) := by
    rwa [← ha, ← hb]
  have hiff := hfs.le_lead_iff hc hz hback
  rw [List.length_take_of_le (Nat.le_of_succ_le hlena)] at hiff
  rw [hiff]
  constructor
  · intro hclear q' s t hq hs ht
    obtain rfl : q = q' := Nat.succ.inj (hp.symm.trans hq)
    rw [List.getElem?_eq_getElem hlena, Option.some.injEq] at hs
    rw [List.getElem?_eq_getElem hlenb, Option.some.injEq] at ht
    rwa [← hs, ← ht]
  · intro hclear
    exact hclear q _ _ hp (List.getElem?_eq_getElem hlena) (List.getElem?_eq_getElem hlenb)

/-- After a common step nothing is in common. -/
theorem endClear_sample : EndClear [sampleStep 'x' 0, sampleStep 'y' 1] [sampleStep 'x' 0, sampleStep 'z' 1] := by
  intro q s t hq hs ht
  obtain rfl : q = 0 := Nat.succ.inj (hq.symm.trans (by decide))
  cases hs
  cases ht
  have hnot : ¬ stepEq (sampleStep 'y' 1) (sampleStep 'z' 1) := by decide
  have hnone := Longest.concat_of_not_rel hnot (.nil_left _) (.nil_right _)
  refine .none hnone (fun h => (by cases h)) fun _ y hy => ?_
  rw [List.mem_singleton.mp hy]
  decide

theorem parting_iff_sample : PartsAtPrefix [sampleStep 'x' 0, sampleStep 'y' 1] [sampleStep 'x' 0, sampleStep 'z' 1] := by
  have hne : ¬ List.Forall₂ stepEq [sampleStep 'x' 0, sampleStep 'y' 1] [sampleStep 'x' 0, sampleStep 'z' 1] := by
    rw [List.forall₂_cons, List.forall₂_cons]
    decide
  exact (parting_iff hne).mpr endClear_sample

/-- One trace repeats the step that both begin with. It is paired with the copy. -/
theorem parting_fails :
    ¬ List.Forall₂ stepEq [sampleStep 'x' 0] [sampleStep 'x' 0, sampleStep 'x' 1] ∧
    commonPrefix [sampleStep 'x' 0] [sampleStep 'x' 0, sampleStep 'x' 1] = 1 ∧
    (diffSteps [sampleStep 'x' 0] [sampleStep 'x' 0, sampleStep 'x' 1]).2.firstDivergence = some 0 ∧
    ¬ PartsAtPrefix [sampleStep 'x' 0] [sampleStep 'x' 0, sampleStep 'x' 1] := by
  have hfirst : (diffSteps [sampleStep 'x' 0] [sampleStep 'x' 0, sampleStep 'x' 1]).2.firstDivergence = some 0 := by
    decide +kernel
  have hprefix : commonPrefix [sampleStep 'x' 0] [sampleStep 'x' 0, sampleStep 'x' 1] = 1 := by decide
  refine ⟨fun h => absurd h.length_eq (by decide), hprefix, hfirst, fun h => ?_⟩
  have hparts := h.1
  rw [hfirst, hprefix] at hparts
  exact absurd hparts (by decide)

end AcpCore.Diverge
