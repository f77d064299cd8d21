import AcpCore.Library.Lines

/-!
# Buffered sources

A sequence that is read through a buffer: each time the buffer is filled it holds a
beginning of what is left, how much of it is not for the reader to say (`Source`).
`Source.readUntil` reads up to the next terminator, filling the buffer as often as
it takes.

* `Source.readUntil_eq` — what is read, and what is left, do not depend on how the
  buffer was filled.
-/

namespace AcpCore.Lines

variable {α : Type*}

/-- A buffered source. -/
structure Source (α : Type*) where
  /-- What is left. -/
  rest : List α
  /-- How much of it, at the `n`-th filling, comes after the first element. -/
  more : ℕ → ℕ
  /-- How often the buffer was filled. -/
  fills : ℕ

/-- What the buffer holds when it is filled: nothing only at the end. -/
def Source.fillBuf (b : Source α) : List α := b.rest.take (b.more b.fills + 1)

/-- Having filled the buffer, take `n` elements from it. -/
def Source.consume (b : Source α) (n : ℕ) : Source α := { b with rest := b.rest.drop n, fills := b.fills + 1 }

/-- What the buffer holds is a beginning of what is left. -/
theorem Source.fillBuf_append (b : Source α) : b.fillBuf ++ b.rest.drop b.fillBuf.length = b.rest :=
  List.prefix_iff_eq_append.mp (List.take_prefix ..)

theorem Source.fillBuf_eq_nil_iff (b : Source α) : b.fillBuf = [] ↔ b.rest = [] := by
  simp [fillBuf]

/-- Taking all that the buffer holds leaves less, unless it is the end. -/
theorem Source.length_consume_lt (b : Source α) (h : b.fillBuf ≠ []) :
    (b.consume b.fillBuf.length).rest.length < b.rest.length := by
  have hpos : 0 < b.fillBuf.length := List.length_pos_iff.mpr h
  have hle : b.fillBuf.length ≤ b.rest.length := List.length_take_le' _ _
  simp only [consume, List.length_drop]
  omega

variable [DecidableEq α] (d : α)

/-- Read up to and including the next terminator. -/
def Source.readUntil (b : Source α) : List α × Source α :=
  if d ∈ b.fillBuf then
    (b.fillBuf.take (b.fillBuf.idxOf d + 1), b.consume (b.fillBuf.idxOf d + 1))
  else if _h : b.fillBuf = [] then ([], b.consume 0)
  else
    let r := Source.readUntil (b.consume b.fillBuf.length)
    (b.fillBuf ++ r.1, r.2)
termination_by b.rest.length
decreasing_by exact b.length_consume_lt _h

/-- **However the buffer is filled**, the same is read, and the same is left. -/
theorem Source.readUntil_eq (b : Source α) :
    (b.readUntil d).1 = (Lines.readUntil d b.rest).1 ∧ (b.readUntil d).2.rest = (Lines.readUntil d b.rest).2 := by
  induction h : b.rest.length using Nat.strong_induction_on generalizing b with
  | _ n ih =>
    subst h
    have hrest := b.fillBuf_append
    unfold Source.readUntil
    by_cases hd : d ∈ b.fillBuf
    · -- the terminator is in the buffer
      have hn : b.fillBuf.idxOf d + 1 ≤ b.fillBuf.length := List.idxOf_lt_length_iff.mpr hd
      have hread := readUntil_append_of_mem d hd (b.rest.drop b.fillBuf.length)
      rw [hrest] at hread
      rw [if_pos hd, hread]
      refine ⟨rfl, ?_⟩
      show b.rest.drop _ = _
      rw [← List.drop_append_of_le_length hn, hrest]
    · rw [if_neg hd]
      by_cases hnil : b.fillBuf = []
      · have hend : b.rest = [] := b.fillBuf_eq_nil_iff.mp hnil
        rw [dif_pos hnil, hend]
        exact ⟨rfl, by simp [consume, hend, Lines.readUntil]⟩
      · -- the buffer is all of the line so far
        obtain ⟨hfst, hsnd⟩ := ih _ (b.length_consume_lt hnil) _ rfl
        have hread := readUntil_append_of_notMem d hd (b.rest.drop b.fillBuf.length)
        rw [hrest] at hread
        rw [dif_neg hnil, hread]
        exact ⟨congrArg (b.fillBuf ++ ·) hfst, hsnd⟩

end AcpCore.Lines
