import AcpCore.Wire.Inverse

/-!
# Values that are written and read

`serde_json` writes a value's members in their order, and reads them in the order they
are written in.

* `read_toTree` — the tree of a value says the value, with its members in their order;
* `fromSlice_toVec` — a value written is read back;
* `ofLiteral_printNumber` — an integer's literal is the integer's;
* `get_of_fromSlice` — what is read of a value written has its integers and strings,
  if not its doubles;
* `parse_toVec` — the text of a value is the line of the frame that the value is.
-/

namespace AcpCore.Wire

open AcpCore.Text AcpCore.Json

/-! ### Integers -/

/-- An integer. -/
def Number.isInteger : Number → Bool
  | .float _ => false
  | _ => true

theorem ofLiteral_natLit {n : ℕ} (hn : n < 2 ^ 64) : Number.ofLiteral (natLit n) = some (.posInt ⟨n, hn⟩) := by
  have hminus : (natLit n).1.head? ≠ some '-' := fun h =>
    absurd (isDigit_of_mem_decimal (n := n) (List.mem_of_head? h)) (by decide)
  rw [Number.ofLiteral, if_neg hminus, readNat_natLit, Option.bind_some, dif_pos hn]

theorem ofLiteral_negLit (n : Fin (2 ^ 63)) : Number.ofLiteral (negLit n) = some (.negInt n) := by
  have hlt := n.isLt
  have hminus : (negLit n).1.head? = some '-' := rfl
  have hdigits : readNat (negLit n).1.tail = some (n.val + 1) := readNat_decimal (n.val + 1)
  rw [Number.ofLiteral, if_pos hminus, hdigits, Option.bind_some, dif_pos (by omega)]
  rfl

/-- An integer's literal is the integer's. -/
theorem ofLiteral_printNumber (X : Crates) {n : Number} (hn : n.isInteger = true) :
    Number.ofLiteral (X.printNumber n) = some n := by
  cases n with
  | posInt n => exact ofLiteral_natLit n.isLt
  | negInt n => exact ofLiteral_negLit n
  | float x => cases hn

/-! ### The tree of a value -/

variable {X : Crates} {num : Literal → Option Number}

theorem readItems_toTreeItems {vs : List Value} (ih : ∀ v ∈ vs, Value.read num (X.toTree v) = some v) :
    readItems num (X.toTreeItems vs) = some vs := by
  induction vs with
  | nil => rfl
  | cons v vs ihs =>
    rw [Crates.toTreeItems, readItems, ih v List.mem_cons_self, Option.bind_some,
      ihs fun w hw => ih w (List.mem_cons_of_mem v hw), Option.map_some]

theorem readMembers_toTreeMembers {ms : Map} (ih : ∀ m ∈ ms, Value.read num (X.toTree m.2) = some m.2) (acc : Map)
    (hn : (acc.map Prod.fst ++ ms.map Prod.fst).Nodup) :
    readMembers num acc (X.toTreeMembers ms) = some (acc ++ ms) := by
  induction ms generalizing acc with
  | nil => rw [Crates.toTreeMembers, readMembers, List.append_nil]
  | cons m ms ihs =>
    obtain ⟨k, v⟩ := m
    have hk : k ∉ acc.map Prod.fst := fun h => (List.nodup_append.mp hn).2.2 k h k List.mem_cons_self rfl
    have hn' : ((acc ++ [(k, v)]).map Prod.fst ++ ms.map Prod.fst).Nodup := by
      rw [List.map_append, List.append_assoc]
      exact hn
    rw [Crates.toTreeMembers, readMembers, ih (k, v) List.mem_cons_self, Option.bind_some, Map.insert_of_notMem hk,
      ihs (fun m hm => ih m (List.mem_cons_of_mem _ hm)) _ hn', List.append_assoc]
    rfl

/-- **The tree of a value says the value.** -/
theorem read_toTree {v : Value} (hu : v.Unique) (hnum : ∀ n ∈ v.numbers, num (X.printNumber n) = some n) :
    Value.read num (X.toTree v) = some v := by
  induction v using Value.ind with
  | null => rfl
  | bool b => rfl
  | number n => rw [Crates.toTree, Value.read, hnum n List.mem_cons_self, Option.map_some]
  | string s => rfl
  | array vs ih =>
    rw [Crates.toTree, Value.read, readItems_toTreeItems, Option.map_some]
    exact fun v hv => ih v hv (uniqueItems_iff.mp hu v hv) fun n hn => hnum n (mem_numbersOfItems hv hn)
  | object ms ih =>
    obtain ⟨hn, hu⟩ := hu
    have hmembers : ∀ m ∈ ms, Value.read num (X.toTree m.2) = some m.2 := fun m hm =>
      ih m hm (uniqueMembers_iff.mp hu m hm) fun n hn => hnum n (mem_numbersOfMembers hm hn)
    rw [Crates.toTree, Value.read, readMembers_toTreeMembers hmembers [] hn, Option.map_some, List.nil_append]

/-! ### Its text -/

/-- A value written is read back, within the limit on nesting. -/
theorem fromSlice_toVec (hX : X.ReadsValues num) {v : Value} (hu : v.Unique)
    (hnum : ∀ n ∈ v.numbers, num (X.printNumber n) = some n) (hdepth : (X.toTree v).depth < 128) :
    X.fromSlice (X.toVec v) = some v := by
  rw [Crates.toVec, hX.fromSlice_render _ hdepth, read_toTree hu hnum]

/-- `serde_json` reads nothing of the text of a tree but the value the tree says, and takes integers of 64 bits as
they are written; what it makes of other literals is open. -/
structure Crates.Says (X : Crates) (num : Literal → Option Number) : Prop where
  /-- What is read is what the tree says. -/
  of_fromSlice : ∀ {t v}, X.fromSlice (utf8 (render t)) = some v → Value.read num t = some v
  /-- An integer is read as it is written. -/
  integer : ∀ {l n}, Number.ofLiteral l = some n → num l = some n

theorem get_readMembers_of_notMem {ms : Map} {k : Str} (hk : k ∉ ms.map Prod.fst) {acc ns : Map}
    (h : readMembers num acc (X.toTreeMembers ms) = some ns) : Map.get ns k = Map.get acc k := by
  induction ms generalizing acc with
  | nil =>
    rw [Crates.toTreeMembers, readMembers, Option.some.injEq] at h
    rw [h]
  | cons m ms ih =>
    obtain ⟨l, v⟩ := m
    rw [List.map_cons, List.mem_cons, not_or] at hk
    rw [Crates.toTreeMembers, readMembers, Option.bind_eq_some_iff] at h
    obtain ⟨w, -, h⟩ := h
    rw [ih hk.2 h, Map.get_insert, if_neg (Ne.symm hk.1)]

/-- A member that is read as it was stays. -/
theorem get_readMembers {ms : Map} (hn : (ms.map Prod.fst).Nodup) {k : Str} {v : Value} (hget : Map.get ms k = some v)
    (hv : Value.read num (X.toTree v) = some v) {acc ns : Map}
    (h : readMembers num acc (X.toTreeMembers ms) = some ns) : Map.get ns k = some v := by
  induction ms generalizing acc with
  | nil => cases hget
  | cons m ms ih =>
    obtain ⟨l, u⟩ := m
    rw [List.map_cons, List.nodup_cons] at hn
    rw [Crates.toTreeMembers, readMembers, Option.bind_eq_some_iff] at h
    obtain ⟨w, hw, h⟩ := h
    rw [Map.get] at hget
    split_ifs at hget with hk
    · -- the member itself: none of its name comes after it
      subst hk
      obtain rfl := Option.some.inj hget
      obtain rfl := Option.some.inj (hw.symm.trans hv)
      rw [get_readMembers_of_notMem hn.1 h, Map.get_insert, if_pos rfl]
    · exact ih hn.2 hget h

/-- **What is read of an object that was written** has the members that are read as they were. -/
theorem get_of_fromSlice (hX : X.Says num) {ms : Map} (hn : (ms.map Prod.fst).Nodup) {k : Str} {v : Value}
    (hget : Map.get ms k = some v) (hv : Value.read num (X.toTree v) = some v) {w : Value}
    (h : X.fromSlice (X.toVec (.object ms)) = some w) : ∃ ns, w = .object ns ∧ Map.get ns k = some v := by
  rw [Crates.toVec] at h
  have hread := hX.of_fromSlice h
  rw [Crates.toTree, Value.read] at hread
  obtain ⟨ns, hns, rfl⟩ := Option.map_eq_some_iff.mp hread
  exact ⟨ns, rfl, get_readMembers hn hget hv hns⟩

/-- An id is read as it was written. -/
theorem read_id (hX : X.Says num) (i : Id) : Value.read num (X.toTree i.toValue) = some i.toValue := by
  have hinteger : ∀ n : Number, n.isInteger = true → Value.read num (X.toTree (.number n)) = some (.number n) := by
    intro n hn
    rw [Crates.toTree, Value.read, hX.integer (ofLiteral_printNumber X hn), Option.map_some]
  cases i with
  | num n =>
    obtain ⟨n | n, h⟩ := n
    · exact hinteger (.posInt _) rfl
    · exact hinteger (.negInt _) rfl
  | str s => rfl
  | null => rfl

theorem says_plain (table : List (Bytes × Digest)) : (Crates.plain table).Says Number.ofLiteral where
  of_fromSlice h := (fromSlice_render table _).symm.trans h
  integer h := h

/-- The text of a value has no newline, and does not end in a carriage return. -/
theorem control_toVec (v : Value) : 0x0A ∉ X.toVec v ∧ (X.toVec v).getLast? ≠ some 0x0D := by
  refine ⟨newline_notMem_render _, fun h => ?_⟩
  exact absurd (control_utf8_render (List.mem_of_getLast? h)) (by decide)

/-- **The text of a value** is the line of a frame, if the value is one and is read back. -/
theorem parse_toVec {f : Frame} (hv : X.fromSlice f.raw = some f.value) (hraw : f.raw = X.toVec f.value)
    (he : envelope f.value = .ok (f.kind, f.method, f.id)) : Frame.parse X f.raw = .ok f := by
  rw [Frame.parse_eq_ok_iff]
  exact ⟨hraw ▸ control_toVec f.value |>.1, hv, he, rfl⟩

end AcpCore.Wire
