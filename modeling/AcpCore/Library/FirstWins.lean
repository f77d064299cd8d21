import Mathlib.Data.List.Basic
import Mathlib.Logic.Function.Basic

/-!
# Stores where the first writer wins

A store keeps for each key the value put first: putting another value under a key
that is there changes nothing (`put`).

* `puts_apply` — after a history of puts, a key has the value it had at the start,
  or the first one put under it.
* `puts_keeps` — a value once there stays.
-/

namespace AcpCore.FirstWins

variable {κ ν : Type*} [DecidableEq κ]

/-- Put a value under a key unless one is there. -/
def put (s : κ → Option ν) (k : κ) (v : ν) : κ → Option ν :=
  if (s k).isSome then s else Function.update s k (some v)

/-- Put one after another. -/
def puts (s : κ → Option ν) (kvs : List (κ × ν)) : κ → Option ν := kvs.foldl (fun s kv => put s kv.1 kv.2) s

theorem puts_nil (s : κ → Option ν) : puts s [] = s := rfl

theorem put_apply (s : κ → Option ν) (k k' : κ) (v : ν) :
    put s k v k' = (s k').or (if k' = k then some v else none) := by
  rw [put]
  by_cases hs : (s k).isSome
  · obtain ⟨w, hw⟩ := Option.isSome_iff_exists.mp hs
    rw [if_pos hs]
    by_cases hk : k' = k
    · subst hk
      rw [hw, Option.some_or]
    · rw [if_neg hk, Option.or_none]
  · rw [if_neg hs]
    rw [Bool.not_eq_true, Option.isSome_eq_false_iff, Option.isNone_iff_eq_none] at hs
    by_cases hk : k' = k
    · subst hk
      rw [Function.update_self, if_pos rfl, hs, Option.none_or]
    · rw [Function.update_of_ne hk, if_neg hk, Option.or_none]

/-- The keys are those from before and the one put. -/
theorem isSome_put {s : κ → Option ν} {k k' : κ} {v : ν} : (put s k v k').isSome ↔ (s k').isSome ∨ k' = k := by
  rw [put_apply, Option.isSome_or, Bool.or_eq_true]
  by_cases hk : k' = k
  · simp [hk]
  · simp [hk]

/-- A key has the value from the start, or the first one put under it. -/
theorem puts_apply (s : κ → Option ν) (kvs : List (κ × ν)) (k : κ) : puts s kvs k = (s k).or (kvs.lookup k) := by
  induction kvs generalizing s with
  | nil => rw [puts_nil, List.lookup_nil, Option.or_none]
  | cons kv kvs ih =>
    obtain ⟨k', v⟩ := kv
    rw [puts, List.foldl_cons, ← puts, ih, put_apply, Option.or_assoc, List.lookup_cons]
    by_cases hk : k = k'
    · rw [if_pos hk, beq_iff_eq.mpr hk, Option.some_or]
    · rw [if_neg hk, beq_false_of_ne hk, Option.none_or]

/-- What is there stays. -/
theorem puts_keeps {s : κ → Option ν} {k : κ} {v : ν} (h : s k = some v) (kvs : List (κ × ν)) :
    puts s kvs k = some v := by
  rw [puts_apply, h, Option.some_or]

/-- What has been put under a key is from the history. -/
theorem mem_of_lookup {kvs : List (κ × ν)} {k : κ} {v : ν} (h : kvs.lookup k = some v) : (k, v) ∈ kvs := by
  induction kvs with
  | nil => cases h
  | cons kv kvs ih =>
    rw [List.lookup_cons] at h
    split at h
    · next hk =>
      cases h
      rw [beq_iff_eq.mp hk]
      exact List.mem_cons_self
    · exact List.mem_cons_of_mem kv (ih h)

/-- A key put is there. -/
theorem isSome_lookup {kvs : List (κ × ν)} {k : κ} : (kvs.lookup k).isSome ↔ k ∈ kvs.map Prod.fst := by
  induction kvs with
  | nil => simp
  | cons kv kvs ih =>
    rw [List.lookup_cons, List.map_cons, List.mem_cons, ← ih]
    by_cases hk : k = kv.1
    · simp [hk]
    · simp [hk, beq_false_of_ne hk]

/-- The keys are those from the start and those put. -/
theorem isSome_puts {s : κ → Option ν} {kvs : List (κ × ν)} {k : κ} :
    (puts s kvs k).isSome ↔ (s k).isSome ∨ k ∈ kvs.map Prod.fst := by
  rw [puts_apply, Option.isSome_or, Bool.or_eq_true, isSome_lookup]

end AcpCore.FirstWins
