import AcpCore.Wire.Identity

/-!
# Reading the canonical form

The canonical form of a value is JSON text on one line, and reading it gives the
value back.

## The model

`Crates.ReadsValues` assumes of `serde_json` that it reads the text of a tree as the
value it says (`Value.read`), within its limit on nesting. How it takes literals is
a parameter; that it inverts the printer is assumed of the numbers that occur only.

## What is proved

* `read_canonTree` — the sorted tree of a value says the value;
* **`canonical_roundTrip`** — the canonical form is compact JSON text without a
  control character, it is read as the value it was written from, up to the order
  of members, and what is read has the same canonical form.
-/

namespace AcpCore.Wire

open AcpCore.Text AcpCore.Json

/-! ### Numbers that occur -/

mutual

/-- The numbers that occur in a value. -/
def Value.numbers : Value → List Number
  | .number n => [n]
  | .array vs => numbersOfItems vs
  | .object ms => numbersOfMembers ms
  | _ => []

/-- The numbers of items. -/
def numbersOfItems : List Value → List Number
  | [] => []
  | v :: vs => v.numbers ++ numbersOfItems vs

/-- The numbers of members. -/
def numbersOfMembers : List (Str × Value) → List Number
  | [] => []
  | (_, v) :: ms => v.numbers ++ numbersOfMembers ms

end

theorem mem_numbersOfItems {vs : List Value} {v : Value} (hv : v ∈ vs) {n : Number} (hn : n ∈ v.numbers) :
    n ∈ numbersOfItems vs := by
  induction vs with
  | nil => cases hv
  | cons w vs ih =>
    rw [numbersOfItems, List.mem_append]
    rcases List.mem_cons.mp hv with rfl | hv
    · exact .inl hn
    · exact .inr (ih hv)

theorem mem_numbersOfMembers {ms : Map} {m : Str × Value} (hm : m ∈ ms) {n : Number} (hn : n ∈ m.2.numbers) :
    n ∈ numbersOfMembers ms := by
  induction ms with
  | nil => cases hm
  | cons k ms ih =>
    rw [numbersOfMembers, List.mem_append]
    rcases List.mem_cons.mp hm with rfl | hm
    · exact .inl hn
    · exact .inr (ih hm)

/-- `serde_json` reads the compact text of a tree as the value it says, within its limit on nesting,
and takes number literals by `num`. -/
structure Crates.ReadsValues (X : Crates) (num : Literal → Option Number) : Prop where
  /-- The text of a tree is read. -/
  fromSlice_render : ∀ t, t.depth < 128 → X.fromSlice (utf8 (render t)) = Value.read num t

/-! ### The sorted tree says the value -/

variable {X : Crates} {num : Literal → Option Number}

theorem uniqueItems_iff {vs : List Value} : UniqueItems vs ↔ ∀ v ∈ vs, v.Unique := by
  induction vs with
  | nil => simp [UniqueItems]
  | cons v vs ih => simp [UniqueItems, ih]

/-- A member of a new name goes to the end. -/
theorem Map.insert_of_notMem {ms : Map} {k : Str} (hk : k ∉ ms.map Prod.fst) (v : Value) :
    Map.insert ms k v = ms ++ [(k, v)] := by
  induction ms with
  | nil => rfl
  | cons m ms ih =>
    rw [List.map_cons, List.mem_cons, not_or] at hk
    rw [Map.insert, if_neg (Ne.symm hk.1), ih hk.2, List.cons_append]

theorem readItems_canonItems {vs : List Value}
    (ih : ∀ v ∈ vs, ∃ w, Value.read num (canonTree X v) = some w ∧ Same v w) :
    ∃ ws, readItems num (canonItems X vs) = some ws ∧ SameItems vs ws := by
  induction vs with
  | nil => exact ⟨[], rfl, .nil⟩
  | cons v vs ihs =>
    obtain ⟨w, hw, hsame⟩ := ih v List.mem_cons_self
    obtain ⟨ws, hws, hsames⟩ := ihs fun u hu => ih u (List.mem_cons_of_mem v hu)
    refine ⟨w :: ws, ?_, .cons hsame hsames⟩
    rw [canonItems, readItems, hw, Option.bind_some, hws, Option.map_some]

/-- Members of different names are read one after another. -/
theorem readMembers_canonMembers {ms : Map}
    (ih : ∀ m ∈ ms, ∃ w, Value.read num (canonTree X m.2) = some w ∧ Same m.2 w) (acc : Map)
    (hn : (acc.map Prod.fst ++ ms.map Prod.fst).Nodup) :
    ∃ ns, readMembers num acc (canonMembers X ms) = some (acc ++ ns) ∧ SameMembers ms ns := by
  induction ms generalizing acc with
  | nil => exact ⟨[], by rw [canonMembers, readMembers, List.append_nil], .nil⟩
  | cons m ms ihs =>
    obtain ⟨k, v⟩ := m
    obtain ⟨w, hw, hsame⟩ := ih (k, v) List.mem_cons_self
    have hk : k ∉ acc.map Prod.fst := fun h =>
      (List.nodup_append.mp hn).2.2 k h k List.mem_cons_self rfl
    have hn' : ((acc ++ [(k, w)]).map Prod.fst ++ ms.map Prod.fst).Nodup := by
      rw [List.map_append, List.append_assoc]
      exact hn
    obtain ⟨ns, hns, hsames⟩ := ihs (fun n hn => ih n (List.mem_cons_of_mem _ hn)) (acc ++ [(k, w)]) hn'
    refine ⟨(k, w) :: ns, ?_, .cons hsame hsames⟩
    rw [canonMembers, readMembers, hw, Option.bind_some, Map.insert_of_notMem hk, hns, List.append_assoc]
    rfl

/-- **The sorted tree of a value says the value**, up to the order of members. -/
theorem read_canonTree {v : Value} (hu : v.Unique) (hnum : ∀ n ∈ v.numbers, num (X.printNumber n) = some n) :
    ∃ w, Value.read num (canonTree X v) = some w ∧ Same v w := by
  induction v using Value.ind with
  | null => exact ⟨_, rfl, .null⟩
  | bool b => exact ⟨_, rfl, .bool b⟩
  | number n =>
    refine ⟨.number n, ?_, .number n⟩
    rw [canonTree, Value.read, hnum n List.mem_cons_self, Option.map_some]
  | string s => exact ⟨_, rfl, .string s⟩
  | array vs ih =>
    have hitems : ∀ v ∈ vs, ∃ w, Value.read num (canonTree X v) = some w ∧ Same v w := fun v hv =>
      ih v hv (uniqueItems_iff.mp hu v hv) fun n hn => hnum n (mem_numbersOfItems hv hn)
    obtain ⟨ws, hws, hsames⟩ := readItems_canonItems hitems
    exact ⟨.array ws, by rw [canonTree, Value.read, hws, Option.map_some], .array hsames⟩
  | object ms ih =>
    obtain ⟨hn, hu⟩ := hu
    -- the members are read in the order they are written in
    have hp : (ms.insertionSort entryLe).Perm ms := List.perm_insertionSort entryLe ms
    have hsorted : (canonMembers X ms).insertionSort entryLe = canonMembers X (ms.insertionSort entryLe) := by
      rw [canonMembers_eq_map, canonMembers_eq_map, insertionSort_map]
    have hmembers : ∀ m ∈ ms.insertionSort entryLe, ∃ w, Value.read num (canonTree X m.2) = some w ∧ Same m.2 w :=
      fun m hm => ih m (hp.mem_iff.mp hm) (uniqueMembers_iff.mp hu m (hp.mem_iff.mp hm)) fun n hn =>
        hnum n (mem_numbersOfMembers (hp.mem_iff.mp hm) hn)
    obtain ⟨ns, hns, hsames⟩ := readMembers_canonMembers hmembers [] ((hp.map Prod.fst).nodup_iff.mpr hn)
    refine ⟨.object ns, ?_, .object hp.symm hsames⟩
    rw [canonTree, Value.read, hsorted, hns, List.nil_append, Option.map_some]

/-! ### The canonical form is text -/

/-- **The canonical form round-trips.** It is JSON text, without a byte below `0x20` and without
whitespace outside strings; read, it says the value it was written from, up to the order of
members, which has the same canonical form; and within its limit on nesting `serde_json`
reads it so. -/
theorem canonical_roundTrip (hX : X.ReadsValues num) {v : Value} (hu : v.Unique)
    (hnum : ∀ n ∈ v.numbers, num (X.printNumber n) = some n) :
    ∃ s t w, canonicalize X v = utf8 s ∧ (∀ b ∈ canonicalize X v, 0x20 ≤ b.toNat) ∧ compact false s = s ∧
      parse s = some t ∧ Value.read num t = some w ∧ Same v w ∧ canonicalize X w = canonicalize X v ∧
      (t.depth < 128 → X.fromSlice (canonicalize X v) = some w) := by
  obtain ⟨w, hw, hsame⟩ := read_canonTree (X := X) hu hnum
  have htext : canonicalize X v = utf8 (render (canonTree X v)) := writeValue_eq X v
  have hcompact := compact_render (canonTree X v) []
  rw [compact, List.append_nil] at hcompact
  refine ⟨render (canonTree X v), canonTree X v, w, htext, fun b hb => ?_, hcompact, parse_render _, hw, hsame, ?_, ?_⟩
  · exact control_utf8_render (htext ▸ hb)
  · rw [htext, canonTree_of_same X hu hsame]
    exact writeValue_eq X w
  · intro hdepth
    rw [htext, hX.fromSlice_render _ hdepth, hw]

/-! ### The instance reads values -/

theorem readsValues_plain (table : List (Bytes × Digest)) : (Crates.plain table).ReadsValues Number.ofLiteral where
  fromSlice_render t _ := fromSlice_render table t

theorem canonical_roundTrip_sample :
    ∃ s t w, canonicalize (.plain sampleDigests) sampleResponse'.value = utf8 s ∧
      (∀ b ∈ canonicalize (.plain sampleDigests) sampleResponse'.value, 0x20 ≤ b.toNat) ∧ compact false s = s ∧
      parse s = some t ∧ Value.read Number.ofLiteral t = some w ∧ Same sampleResponse'.value w ∧
      canonicalize (.plain sampleDigests) w = canonicalize (.plain sampleDigests) sampleResponse'.value ∧
      (t.depth < 128 → (Crates.plain sampleDigests).fromSlice
        (canonicalize (.plain sampleDigests) sampleResponse'.value) = some w) := by
  refine canonical_roundTrip (readsValues_plain sampleDigests) sampleResponse'.value_unique fun n hn => ?_
  rcases List.mem_cons.mp hn with rfl | hn
  · rfl
  · cases List.mem_singleton.mp hn
    rfl

end AcpCore.Wire
