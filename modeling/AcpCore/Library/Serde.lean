import AcpCore.Library.Json

/-!
# Derived encodings

How derived `Serialize` and `Deserialize` implementations spell structures and
enumerations as JSON trees.

A structure is an object with a member for each field, of which an absent option
may be skipped. Read back, unknown members are ignored, a member that occurs
twice is an error, a missing one is an error unless it is an option, and an
option is absent when it is `null`. The items of an array stand for the fields in
order. A variant without data is its name, or an object whose one member has that
name and the value `null`; a variant with data is an object with that one member.
-/

namespace AcpCore.Serde

open AcpCore.Text AcpCore.Json

/-! ### Members -/

/-- The member of a name, if there is one; `none` where it occurs twice. -/
def member (ms : List (Str × Tree)) (name : Str) : Option (Option Tree) :=
  match ms.filter fun m => m.1 = name with
  | [] => some none
  | [m] => some (some m.2)
  | _ => none

/-- A field that must be there. -/
def field {α : Type} (ms : List (Str × Tree)) (name : Str) (read : Tree → Option α) : Option α :=
  (member ms name).bind fun t => t.bind read

/-- An option, absent when it is `null`. -/
def readOption {α : Type} (read : Tree → Option α) : Tree → Option (Option α)
  | .null => some none
  | t => (read t).map some

/-- A field that may be missing. -/
def optionField {α : Type} (ms : List (Str × Tree)) (name : Str) (read : Tree → Option α) : Option (Option α) :=
  (member ms name).bind fun t => t.elim (some none) (readOption read)

/-- A member that is written only when the option is there. -/
def skipNone {α : Type} (name : Str) (write : α → Tree) (o : Option α) : List (Str × Tree) :=
  o.toList.map fun x => (name, write x)

/-- What an option is written as is never `null`, so that it is read back. -/
theorem readOption_write {α : Type} {read : Tree → Option α} {w : α → Tree} {x : α} (hne : w x ≠ .null)
    (h : read (w x) = some x) : readOption read (w x) = some (some x) := by
  rw [readOption, h]
  · rfl
  · exact fun hn => hne hn

/-! ### Scalars -/

/-- A string. -/
def readString : Tree → Option Str
  | .str s => some s
  | _ => none

/-- An unsigned integer below a bound. -/
def readUnsigned (bound : ℕ) : Tree → Option (Fin bound)
  | .num l => (readNat l.1).bind fun n => if h : n < bound then some ⟨n, h⟩ else none
  | _ => none

/-- A signed integer within bounds; `-0` is a double. -/
def readSigned (low high : ℤ) : Tree → Option { i : ℤ // low ≤ i ∧ i < high }
  | .num l => (readInt l.1).bind fun i =>
    if h : low ≤ i ∧ i < high then if i = 0 ∧ l.1.head? = some '-' then none else some ⟨i, h⟩ else none
  | _ => none

/-- Strings in an array. -/
def readStrings : Tree → Option (List Str)
  | .arr ts => ts.mapM readString
  | _ => none

/-- An integer is written in decimal. -/
def writeInt : ℤ → Tree
  | .ofNat n => .num (natLit n)
  | .negSucc n => .num (negLit n)

theorem readUnsigned_natLit {bound : ℕ} (n : Fin bound) : readUnsigned bound (.num (natLit n.val)) = some n := by
  rw [readUnsigned, readNat_natLit, Option.bind_some, dif_pos n.isLt]

theorem readSigned_writeInt {low high : ℤ} (i : { i : ℤ // low ≤ i ∧ i < high }) :
    readSigned low high (writeInt i.1) = some i := by
  obtain ⟨n | n, h⟩ := i
  · have hd : (natLit n).1.head? ≠ some '-' := by
      intro hhead
      obtain ⟨s, hs⟩ := List.head?_eq_some_iff.mp hhead
      have hmem : '-' ∈ (natLit n).1 := hs ▸ List.mem_cons_self
      exact absurd (isDigit_of_mem_decimal hmem) (by decide)
    rw [writeInt, readSigned, readInt_natLit, Option.bind_some]
    simp only [Int.ofNat_eq_natCast] at h ⊢
    rw [dif_pos h, if_neg fun hz => hd hz.2]
  · rw [writeInt, readSigned, readInt_negLit, Option.bind_some, dif_pos h, if_neg fun hz => by simp at hz]

theorem readStrings_map (ss : List Str) : readStrings (.arr (ss.map .str)) = some ss := by
  rw [readStrings]
  induction ss with
  | nil => rfl
  | cons s ss ih => rw [List.map_cons, List.mapM_cons, ih]; rfl

/-! ### Variants -/

/-- Whether a tree is the variant of a name that has no data. -/
def isUnit (name : Str) : Tree → Bool
  | .str s => s = name
  | .obj [(k, .null)] => k = name
  | _ => false

/-- The data of the variant of a name. -/
def variant (name : Str) : Tree → Option Tree
  | .obj [(k, t)] => if k = name then some t else none
  | _ => none

end AcpCore.Serde
