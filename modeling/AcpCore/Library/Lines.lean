import Mathlib.Data.List.Flatten
import Mathlib.Data.List.Infix

/-!
# Terminated lines

Sequences cut after each occurrence of a terminator `d`: reading up to the next
terminator (`readUntil`), the lines of a sequence (`splitLines`), each with its
terminator but perhaps the last, and the sequence made of given lines
(`joinLines`).

* `splitLines_joinLines` — the lines of a sequence made of lines without a
  terminator of their own are those lines.
* `joinLines_injective` — such lines are determined by the sequence.
* `splitLines_eq_splitOn` — the lines are the pieces between terminators.
* `length_splitLines_joinLines_eq_iff` — terminated texts are as many lines exactly when
  they have no terminator in them.
* `readUntil_append_of_notMem`, `readUntil_append_of_mem` — reading what arrives in
  two parts.
-/

namespace AcpCore.Lines

variable {α : Type*} [DecidableEq α] (d : α)

/-- What is read up to and including the first terminator, and what is left. -/
def readUntil : List α → List α × List α
  | [] => ([], [])
  | c :: s => if c = d then ([c], s) else (c :: (readUntil s).1, (readUntil s).2)

theorem readUntil_append (s : List α) : (readUntil d s).1 ++ (readUntil d s).2 = s := by
  induction s with
  | nil => rfl
  | cons c s ih =>
    rw [readUntil]
    split_ifs
    · rfl
    · exact congrArg (c :: ·) ih

theorem readUntil_length_lt {c : α} {s : List α} : (readUntil d (c :: s)).2.length < (c :: s).length := by
  have h := congrArg List.length (readUntil_append d s)
  rw [List.length_append] at h
  rw [readUntil]
  split_ifs
  · exact Nat.lt_succ_self _
  · simp only [List.length_cons]; omega

theorem readUntil_ne_nil {c : α} {s : List α} : (readUntil d (c :: s)).1 ≠ [] := by
  rw [readUntil]
  split_ifs <;> exact List.cons_ne_nil _ _

/-- The lines of a sequence, with their terminators. -/
def splitLines : List α → List (List α)
  | [] => []
  | c :: s =>
    if c = d then [c] :: splitLines s
    else
      match splitLines s with
      | [] => [[c]]
      | l :: ls => (c :: l) :: ls

omit [DecidableEq α] in
/-- The sequence made of the lines, each terminated. -/
def joinLines (ls : List (List α)) : List α := ls.flatMap fun l => l ++ [d]

omit [DecidableEq α] in
@[simp] theorem joinLines_nil : joinLines d [] = [] := rfl

omit [DecidableEq α] in
theorem joinLines_cons (l : List α) (ls : List (List α)) : joinLines d (l :: ls) = l ++ d :: joinLines d ls := by
  simp [joinLines]

omit [DecidableEq α] in
theorem joinLines_append (ls ms : List (List α)) : joinLines d (ls ++ ms) = joinLines d ls ++ joinLines d ms :=
  List.flatMap_append

/-- Splitting reads one line after another. -/
theorem splitLines_eq (c : α) (s : List α) :
    splitLines d (c :: s) = (readUntil d (c :: s)).1 :: splitLines d (readUntil d (c :: s)).2 := by
  induction s generalizing c with
  | nil => rw [splitLines, readUntil]; split_ifs <;> rfl
  | cons b s ih =>
    rw [splitLines, readUntil]
    split_ifs with hc
    · rfl
    · rw [ih b]

/-- No line is empty: each has its terminator, but for the last. -/
theorem ne_nil_of_mem_splitLines {s l : List α} (h : l ∈ splitLines d s) : l ≠ [] := by
  induction hn : s.length using Nat.strong_induction_on generalizing s with
  | _ n ih =>
    subst hn
    cases s with
    | nil => cases h
    | cons c s =>
      rw [splitLines_eq] at h
      rcases List.mem_cons.mp h with rfl | h
      · exact readUntil_ne_nil d
      · exact ih _ (readUntil_length_lt d) h rfl

theorem splitLines_line {l : List α} (hl : d ∉ l) (s : List α) :
    splitLines d (l ++ d :: s) = (l ++ [d]) :: splitLines d s := by
  induction l with
  | nil => simp [splitLines]
  | cons c l ih =>
    rw [List.mem_cons, not_or] at hl
    rw [List.cons_append, splitLines, if_neg (Ne.symm hl.1), ih hl.2]
    rfl

theorem splitLines_last {l : List α} (hl : d ∉ l) (hne : l ≠ []) : splitLines d l = [l] := by
  induction l with
  | nil => exact absurd rfl hne
  | cons c l ih =>
    rw [List.mem_cons, not_or] at hl
    rw [splitLines, if_neg (Ne.symm hl.1)]
    cases l with
    | nil => rfl
    | cons b l => rw [ih hl.2 (List.cons_ne_nil b l)]

/-- The lines of terminated lines and a beginning of one more. -/
theorem splitLines_joinLines_append {ls : List (List α)} (hls : ∀ l ∈ ls, d ∉ l) (s : List α) :
    splitLines d (joinLines d ls ++ s) = (ls.map fun l => l ++ [d]) ++ splitLines d s := by
  induction ls with
  | nil => rfl
  | cons l ls ih =>
    rw [joinLines_cons, List.append_assoc, List.cons_append, splitLines_line d (hls l List.mem_cons_self),
      ih fun m hm => hls m (List.mem_cons_of_mem l hm)]
    rfl

theorem splitLines_joinLines {ls : List (List α)} (hls : ∀ l ∈ ls, d ∉ l) :
    splitLines d (joinLines d ls) = ls.map fun l => l ++ [d] := by
  have h := splitLines_joinLines_append d hls []
  rwa [List.append_nil, splitLines, List.append_nil] at h

/-- A terminator ends one line; those before it end others. -/
theorem length_splitLines_append (s t : List α) :
    (splitLines d (s ++ d :: t)).length = s.count d + 1 + (splitLines d t).length := by
  induction s with
  | nil =>
    rw [List.nil_append, splitLines, if_pos rfl, List.length_cons, List.count_nil]
    omega
  | cons c s ih =>
    rw [List.cons_append, splitLines]
    by_cases hc : c = d
    · rw [if_pos hc, List.length_cons, ih, hc, List.count_cons_self]
      omega
    · rw [if_neg hc, List.count_cons_of_ne hc]
      cases hs : splitLines d (s ++ d :: t) with
      | nil =>
        rw [hs, List.length_nil] at ih
        omega
      | cons l ls =>
        rw [hs] at ih
        exact ih

/-- Texts that are terminated make as many lines as they are, and one more for each terminator in them. -/
theorem length_splitLines_joinLines (ls : List (List α)) :
    (splitLines d (joinLines d ls)).length = ls.length + ls.flatten.count d := by
  induction ls with
  | nil => rfl
  | cons l ls ih =>
    rw [joinLines_cons, length_splitLines_append, ih, List.length_cons, List.flatten_cons, List.count_append]
    omega

/-- They make as many lines as they are exactly when there is none. -/
theorem length_splitLines_joinLines_eq_iff (ls : List (List α)) :
    (splitLines d (joinLines d ls)).length = ls.length ↔ ∀ l ∈ ls, d ∉ l := by
  rw [length_splitLines_joinLines, Nat.add_eq_left, List.count_eq_zero, List.mem_flatten]
  simp only [not_exists, not_and]

/-- Lines without a terminator of their own are determined by the sequence they make. -/
theorem joinLines_injective {ls ms : List (List α)} (hls : ∀ l ∈ ls, d ∉ l) (hms : ∀ l ∈ ms, d ∉ l)
    (h : joinLines d ls = joinLines d ms) : ls = ms := by
  have hmap := congrArg (splitLines d) h
  rw [splitLines_joinLines d hls, splitLines_joinLines d hms] at hmap
  exact List.map_injective_iff.mpr (fun a b hab => List.append_cancel_right hab) hmap

/-- The lines are the pieces between terminators, each with its own; the last has none, and is no line if it
is empty. -/
theorem splitLines_eq_splitOn (s : List α) :
    ∃ ps p, s.splitOn d = ps ++ [p] ∧ d ∉ p ∧
      splitLines d s = (ps.map fun l => l ++ [d]) ++ if p = [] then [] else [p] := by
  induction s with
  | nil => exact ⟨[], [], rfl, List.not_mem_nil, rfl⟩
  | cons c s ih =>
    obtain ⟨ps, p, hs, hp, hlines⟩ := ih
    rw [List.splitOn_cons_eq_if_modifyHead, splitLines, hs, hlines]
    by_cases hc : c = d
    · subst hc
      exact ⟨[] :: ps, p, by simp, hp, by simp⟩
    · rw [if_neg (by simpa using hc), if_neg hc]
      cases ps with
      | nil =>
        have hcp : d ∉ c :: p := by
          rw [List.mem_cons, not_or]
          exact ⟨Ne.symm hc, hp⟩
        refine ⟨[], c :: p, rfl, hcp, ?_⟩
        by_cases hnil : p = [] <;> simp [hnil]
      | cons l ps => exact ⟨(c :: l) :: ps, p, rfl, hp, rfl⟩

/-! ### Reading in parts -/

theorem readUntil_append_of_notMem {p : List α} (hp : d ∉ p) (s : List α) :
    readUntil d (p ++ s) = (p ++ (readUntil d s).1, (readUntil d s).2) := by
  induction p with
  | nil => rfl
  | cons c p ih =>
    rw [List.mem_cons, not_or] at hp
    rw [List.cons_append, readUntil, if_neg (Ne.symm hp.1), ih hp.2]
    rfl

theorem readUntil_append_of_mem {p : List α} (hp : d ∈ p) (s : List α) :
    readUntil d (p ++ s) = (p.take (p.idxOf d + 1), p.drop (p.idxOf d + 1) ++ s) := by
  induction p with
  | nil => cases hp
  | cons c p ih =>
    rw [List.cons_append, readUntil]
    by_cases hc : c = d
    · rw [if_pos hc, hc, List.idxOf_cons_self]
      rfl
    · have hmem : d ∈ p := (List.mem_cons.mp hp).resolve_left (Ne.symm hc)
      rw [if_neg hc, ih hmem, List.idxOf_cons_ne _ hc]
      rfl

end AcpCore.Lines
