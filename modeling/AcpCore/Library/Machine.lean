import Mathlib.Algebra.BigOperators.Group.List.Basic
import Mathlib.Algebra.Ring.Nat

/-!
# Machines

A machine takes one action at a time, in the states in which it is possible
(`step`). A run takes a list of actions, each of which must also be allowed in the
state it is taken in.

* `run_invariant` — what every allowed step keeps, every run keeps;
* `run_history`, `run_reach` — the same, of the state and the actions that led to it;
* `run_of_last` — a run into a state that only allowed steps lead to is allowed;
* `run_potential` — what every step pays from what is left, every run pays;
* `exists_run_to` — where a step that lowers a measure can always be taken, a run gets there.
-/

namespace AcpCore.Machine

variable {S A : Type} (step : S → A → Option S)

/-- The actions one after another, each where it is allowed. -/
def run (allowed : S → A → Bool) : S → List A → Option S
  | s, [] => some s
  | s, a :: as => if allowed s a then (step s a).bind fun s' => run allowed s' as else none

/-- Every action is allowed. -/
def anything : S → A → Bool := fun _ _ => true

variable {step} {allowed : S → A → Bool}

/-- The first step of a run. -/
theorem run_cons {s s' : S} {a : A} {as : List A} (h : run step allowed s (a :: as) = some s') :
    ∃ s₁, allowed s a = true ∧ step s a = some s₁ ∧ run step allowed s₁ as = some s' := by
  rw [run] at h
  split_ifs at h with ha
  obtain ⟨s₁, hs, h⟩ := Option.bind_eq_some_iff.mp h
  exact ⟨s₁, ha, hs, h⟩

/-- One run after another. -/
theorem run_append {s s' s'' : S} {as bs : List A} (h : run step allowed s as = some s')
    (h' : run step allowed s' bs = some s'') : run step allowed s (as ++ bs) = some s'' := by
  induction as generalizing s with
  | nil =>
    cases h
    exact h'
  | cons a as ih =>
    obtain ⟨s₁, ha, hs₁, h⟩ := run_cons h
    rw [List.cons_append, run, if_pos ha, hs₁]
    exact ih h

/-- A run of allowed actions is a run. -/
theorem run_anything {s s' : S} {as : List A} (h : run step allowed s as = some s') : run step anything s as = some s' := by
  induction as generalizing s with
  | nil => exact h
  | cons a as ih =>
    obtain ⟨s₁, -, hs₁, h⟩ := run_cons h
    rw [run, hs₁]
    exact ih h

/-- A run of allowed actions is one where more are allowed. -/
theorem run_mono {allowed' : S → A → Bool} (himp : ∀ s a, allowed s a = true → allowed' s a = true) {s s' : S} {as : List A}
    (h : run step allowed s as = some s') : run step allowed' s as = some s' := by
  induction as generalizing s with
  | nil => exact h
  | cons a as ih =>
    obtain ⟨s₁, ha, hs₁, h⟩ := run_cons h
    rw [run, if_pos (himp s a ha), hs₁]
    exact ih h

/-- **What every allowed step keeps, every run keeps.** -/
theorem run_invariant {P : S → Prop} (hstep : ∀ s a s', allowed s a = true → step s a = some s' → P s → P s') {s s' : S}
    {as : List A} (h : run step allowed s as = some s') (hs : P s) : P s' := by
  induction as generalizing s with
  | nil =>
    cases h
    exact hs
  | cons a as ih =>
    obtain ⟨s₁, ha, hs₁, h⟩ := run_cons h
    exact ih h (hstep s a s₁ ha hs₁ hs)

/-- **What every allowed step keeps**, of the state and of the actions taken, every run keeps. -/
theorem run_history {P : List A → S → Prop}
    (hstep : ∀ pre s a s', allowed s a = true → step s a = some s' → P pre s → P (pre ++ [a]) s') {pre : List A}
    {s s' : S} {as : List A} (h : run step allowed s as = some s') (hs : P pre s) : P (pre ++ as) s' := by
  induction as generalizing pre s with
  | nil =>
    cases h
    rwa [List.append_nil]
  | cons a as ih =>
    obtain ⟨s₁, ha, hs₁, h⟩ := run_cons h
    rw [List.append_cons]
    exact ih h (hstep pre s a s₁ ha hs₁ hs)

/-- The same of a run from where no action has been taken. -/
theorem run_history_nil (P : List A → S → Prop)
    (hstep : ∀ pre s a s', allowed s a = true → step s a = some s' → P pre s → P (pre ++ [a]) s') {s s' : S} {as : List A}
    (h : run step allowed s as = some s') (hs : P [] s) : P as s' := run_history hstep h hs

/-- **What every step that goes on a run keeps** holds of the whole run, where the steps may use what is known of the runs
that lead to them. -/
theorem run_reach (P : List A → S → Prop) {s₀ : S}
    (hstep : ∀ pre s a s', run step allowed s₀ pre = some s → allowed s a = true → step s a = some s' → P pre s →
      P (pre ++ [a]) s') {s : S} {as : List A} (h : run step allowed s₀ as = some s) (hs₀ : P [] s₀) : P as s := by
  refine (run_history_nil (fun pre s => run step allowed s₀ pre = some s ∧ P pre s) ?_ h ⟨rfl, hs₀⟩).2
  rintro pre s a s' ha hs' ⟨hpre, hP⟩
  refine ⟨run_append hpre ?_, hstep pre s a s' hpre ha hs' hP⟩
  rw [run, if_pos ha, hs']
  rfl

/-- A run into a state of a kind that only allowed steps from such states lead to is allowed. -/
theorem run_of_last {P : S → Prop} (hstep : ∀ s a s', step s a = some s' → P s' → P s ∧ allowed s a = true) {s s' : S}
    {as : List A} (h : run step anything s as = some s') (hs' : P s') : P s ∧ run step allowed s as = some s' := by
  induction as generalizing s with
  | nil =>
    cases h
    exact ⟨hs', rfl⟩
  | cons a as ih =>
    obtain ⟨s₁, -, hs₁, h⟩ := run_cons h
    obtain ⟨hP, hrun⟩ := ih h
    obtain ⟨hPs, ha⟩ := hstep s a s₁ hs₁ hP
    refine ⟨hPs, ?_⟩
    rw [run, if_pos ha, hs₁]
    exact hrun

/-- **A potential that every step pays from** pays for every run. -/
theorem run_potential {Φ : S → ℕ} (cost gain : A → ℕ) (hstep : ∀ s a s', step s a = some s' → Φ s' + cost a ≤ Φ s + gain a)
    {s s' : S} {as : List A} (h : run step allowed s as = some s') :
    Φ s' + (as.map cost).sum ≤ Φ s + (as.map gain).sum := by
  induction as generalizing s with
  | nil =>
    cases h
    exact Nat.le_refl _
  | cons a as ih =>
    obtain ⟨s₁, -, hs₁, h⟩ := run_cons h
    have hfirst := hstep s a s₁ hs₁
    have hrest := ih h
    simp only [List.map_cons, List.sum_cons]
    omega

/-- **Where an allowed step that lowers a measure can be taken** in every state of a kind that is not as wanted, and
leads to one of the kind, a run leads to one that is, in no more steps than the measure. -/
theorem exists_run_to {P Q : S → Prop} (Φ : S → ℕ)
    (hstep : ∀ s, P s → Q s ∨ ∃ a s', allowed s a = true ∧ step s a = some s' ∧ P s' ∧ Φ s' < Φ s) {s : S} (hs : P s) :
    ∃ as s', run step allowed s as = some s' ∧ as.length ≤ Φ s ∧ P s' ∧ Q s' := by
  induction hn : Φ s using Nat.strongRecOn generalizing s with
  | _ n ih =>
    rcases hstep s hs with hQ | ⟨a, s₁, ha, hs₁, hP, hlt⟩
    · exact ⟨[], s, rfl, Nat.zero_le n, hs, hQ⟩
    · obtain ⟨as, s', hrun, hlen, hs'⟩ := ih (Φ s₁) (hn ▸ hlt) hP rfl
      refine ⟨a :: as, s', ?_, ?_, hs'⟩
      · rw [run, if_pos ha, hs₁]
        exact hrun
      · rw [List.length_cons, ← hn]
        exact Nat.lt_of_le_of_lt hlen hlt

end AcpCore.Machine
