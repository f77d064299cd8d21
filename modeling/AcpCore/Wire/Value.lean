import AcpCore.Library.Pretty
import Mathlib.Data.List.Nodup
import Mathlib.Data.List.Perm.Basic

/-!
# JSON values

The data model of `serde_json` that the repository works with (`Value`, `Number`,
`Map` with the `preserve_order` feature), the equality of values up to the order
of object members (`Same`), and the functions the repository takes from other
crates (`Crates`).

## The model

A `Map` is the list of its members in insertion order. That a map has no name
twice is a property of every value `serde_json` builds (`Value.Unique`); `insert`
keeps it. A finite `f64` is given by its bits.

The crates are parameters: `serde_json`'s readers, its printer of doubles, and
`blake3`. What is assumed of them is stated where it is used
(`Crates.ReadsText`, `Crates.Whitespace`); only that a reader's maps have no name
twice, and that a double is printed as a number literal, are part of what they
are. `serde_json`'s writers are the text of the value's tree (`Crates.toVec`).
-/

namespace AcpCore.Wire

open AcpCore.Text

/-! ### Numbers -/

instance neZero_pow_63 : NeZero (2 ^ 63) := ⟨by decide⟩
instance neZero_pow_64 : NeZero (2 ^ 64) := ⟨by decide⟩

/-- An `i64`. -/
abbrev I64 := { i : ℤ // -2 ^ 63 ≤ i ∧ i < 2 ^ 63 }

/-- A finite `f64`, by its bits. -/
structure F64 where
  /-- The bits. -/
  bits : Fin (2 ^ 64)
  /-- The exponent is not all ones. -/
  finite : bits.val / 2 ^ 52 % 2 ^ 11 ≠ 2047
  deriving DecidableEq

/-- `serde_json::Number`. -/
inductive Number where
  /-- A number that fits `u64`. -/
  | posInt (n : Fin (2 ^ 64))
  /-- `–(n+1)`, a negative number that fits `i64`. -/
  | negInt (n : Fin (2 ^ 63))
  /-- A finite double. -/
  | float (x : F64)
  deriving DecidableEq

/-- `Number::as_i64`. -/
def Number.asI64 : Number → Option I64
  | .posInt n => if h : n.val < 2 ^ 63 then some ⟨n.val, by omega, by omega⟩ else none
  | .negInt n => some ⟨Int.negSucc n.val, by have := n.isLt; omega, by omega⟩
  | .float _ => none

/-- `Number::from(i64)`. -/
def Number.ofI64 : I64 → Number
  | ⟨.ofNat n, h⟩ => .posInt ⟨n, by have := h.2; simp only [Int.ofNat_eq_natCast] at this; omega⟩
  | ⟨.negSucc n, h⟩ => .negInt ⟨n, by have := h.1; omega⟩

/-- An integer that fits is the number it came from. -/
theorem Number.ofI64_of_asI64 {n : Number} {i : I64} (h : n.asI64 = some i) : Number.ofI64 i = n := by
  cases n with
  | posInt n =>
    rw [asI64] at h
    split_ifs at h with hn
    cases h
    rfl
  | negInt n => cases h; rfl
  | float x => cases h

theorem Number.asI64_ofI64 (i : I64) : (Number.ofI64 i).asI64 = some i := by
  obtain ⟨n | n, h⟩ := i
  · have hn : n < 2 ^ 63 := by have := h.2; simp only [Int.ofNat_eq_natCast] at this; omega
    rw [ofI64, asI64, dif_pos hn]
    rfl
  · rfl

/-! ### Values -/

/-- `serde_json::Value`. -/
inductive Value where
  /-- `Value::Null`. -/
  | null
  /-- `Value::Bool`. -/
  | bool (b : Bool)
  /-- `Value::Number`. -/
  | number (n : Number)
  /-- `Value::String`. -/
  | string (s : Str)
  /-- `Value::Array`. -/
  | array (items : List Value)
  /-- `Value::Object`. -/
  | object (members : List (Str × Value))

/-- `serde_json::Map`: the members in insertion order. -/
abbrev Map := List (Str × Value)

/-- `Value::as_object`. -/
def Value.asObject : Value → Option Map
  | .object ms => some ms
  | _ => none

/-- `Value::as_str`. -/
def Value.asStr : Value → Option Str
  | .string s => some s
  | _ => none

/-- `Map::get`. -/
def Map.get : Map → Str → Option Value
  | [], _ => none
  | (k, v) :: ms, k' => if k = k' then some v else Map.get ms k'

/-- `Map::contains_key`. -/
def Map.containsKey (ms : Map) (k : Str) : Bool := (Map.get ms k).isSome

/-- `Map::insert`: in place of the member of that name, else at the end. -/
def Map.insert : Map → Str → Value → Map
  | [], k, v => [(k, v)]
  | (k', v') :: ms, k, v => if k' = k then (k, v) :: ms else (k', v') :: Map.insert ms k v

mutual

/-- No object has a name twice. -/
def Value.Unique : Value → Prop
  | .array vs => UniqueItems vs
  | .object ms => (ms.map Prod.fst).Nodup ∧ UniqueMembers ms
  | _ => True

/-- No object among the items has a name twice. -/
def UniqueItems : List Value → Prop
  | [] => True
  | v :: vs => v.Unique ∧ UniqueItems vs

/-- No object among the members' values has a name twice. -/
def UniqueMembers : List (Str × Value) → Prop
  | [] => True
  | (_, v) :: ms => v.Unique ∧ UniqueMembers ms

end

theorem uniqueMembers_iff {ms : Map} : UniqueMembers ms ↔ ∀ m ∈ ms, m.2.Unique := by
  induction ms with
  | nil => simp [UniqueMembers]
  | cons m ms ih => simp [UniqueMembers, ih]

mutual

/-- Induction on values, with a hypothesis for each item and each member. -/
theorem Value.ind {P : Value → Prop} (null : P .null) (bool : ∀ b, P (.bool b)) (number : ∀ n, P (.number n))
    (string : ∀ s, P (.string s)) (array : ∀ vs, (∀ v ∈ vs, P v) → P (.array vs))
    (object : ∀ ms : Map, (∀ m ∈ ms, P m.2) → P (.object ms)) : ∀ v, P v
  | .null => null
  | .bool b => bool b
  | .number n => number n
  | .string s => string s
  | .array vs => array vs (Value.indItems null bool number string array object vs)
  | .object ms => object ms (Value.indMembers null bool number string array object ms)

theorem Value.indItems {P : Value → Prop} (null : P .null) (bool : ∀ b, P (.bool b)) (number : ∀ n, P (.number n))
    (string : ∀ s, P (.string s)) (array : ∀ vs, (∀ v ∈ vs, P v) → P (.array vs))
    (object : ∀ ms : Map, (∀ m ∈ ms, P m.2) → P (.object ms)) : ∀ vs : List Value, ∀ v ∈ vs, P v
  | [], _, h => by cases h
  | w :: vs, v, h => by
    rcases List.mem_cons.mp h with hv | h
    · exact hv ▸ Value.ind null bool number string array object w
    · exact Value.indItems null bool number string array object vs v h

theorem Value.indMembers {P : Value → Prop} (null : P .null) (bool : ∀ b, P (.bool b)) (number : ∀ n, P (.number n))
    (string : ∀ s, P (.string s)) (array : ∀ vs, (∀ v ∈ vs, P v) → P (.array vs))
    (object : ∀ ms : Map, (∀ m ∈ ms, P m.2) → P (.object ms)) : ∀ ms : Map, ∀ m ∈ ms, P m.2
  | [], _, h => by cases h
  | (k, w) :: ms, m, h => by
    rcases List.mem_cons.mp h with hm | h
    · exact hm ▸ Value.ind null bool number string array object w
    · exact Value.indMembers null bool number string array object ms m h

end

/-! ### The same JSON value -/

mutual

/-- The same JSON value: equal but for the order of the members of objects, at every depth. -/
inductive Same : Value → Value → Prop
  /-- `null`. -/
  | null : Same .null .null
  /-- The same boolean. -/
  | bool (b : Bool) : Same (.bool b) (.bool b)
  /-- The same number. -/
  | number (n : Number) : Same (.number n) (.number n)
  /-- The same string. -/
  | string (s : Str) : Same (.string s) (.string s)
  /-- The same items in the same order. -/
  | array {vs ws : List Value} : SameItems vs ws → Same (.array vs) (.array ws)
  /-- The same members in some order. -/
  | object {ms ns ps : Map} : ms.Perm ps → SameMembers ps ns → Same (.object ms) (.object ns)

/-- Item by item the same. -/
inductive SameItems : List Value → List Value → Prop
  /-- No items. -/
  | nil : SameItems [] []
  /-- One more item. -/
  | cons {v w : Value} {vs ws : List Value} : Same v w → SameItems vs ws → SameItems (v :: vs) (w :: ws)

/-- Member by member the same. -/
inductive SameMembers : List (Str × Value) → List (Str × Value) → Prop
  /-- No members. -/
  | nil : SameMembers [] []
  /-- One more member. -/
  | cons {k : Str} {v w : Value} {ms ns : Map} : Same v w → SameMembers ms ns → SameMembers ((k, v) :: ms) ((k, w) :: ns)

end

theorem SameItems.refl {vs : List Value} (h : ∀ v ∈ vs, Same v v) : SameItems vs vs := by
  induction vs with
  | nil => exact .nil
  | cons v vs ih => exact .cons (h v List.mem_cons_self) (ih fun w hw => h w (List.mem_cons_of_mem v hw))

theorem SameMembers.refl {ms : Map} (h : ∀ m ∈ ms, Same m.2 m.2) : SameMembers ms ms := by
  induction ms with
  | nil => exact .nil
  | cons m ms ih => exact .cons (h m List.mem_cons_self) (ih fun n hn => h n (List.mem_cons_of_mem m hn))

theorem Same.refl (v : Value) : Same v v := by
  induction v using Value.ind with
  | null => exact .null
  | bool b => exact .bool b
  | number n => exact .number n
  | string s => exact .string s
  | array vs ih => exact .array (.refl ih)
  | object ms ih => exact .object (List.Perm.refl ms) (.refl ih)

/-! ### Looking up and inserting -/

theorem Map.get_of_mem {ms : Map} (hn : (ms.map Prod.fst).Nodup) {m : Str × Value} (hm : m ∈ ms) :
    Map.get ms m.1 = some m.2 := by
  induction ms with
  | nil => cases hm
  | cons n ms ih =>
    rw [List.map_cons, List.nodup_cons] at hn
    rcases List.mem_cons.mp hm with rfl | hm
    · exact if_pos rfl
    · have hne : n.1 ≠ m.1 := fun h => hn.1 (h ▸ List.mem_map_of_mem hm)
      rw [Map.get, if_neg hne, ih hn.2 hm]

theorem Map.mem_of_get {ms : Map} {k : Str} {v : Value} (h : Map.get ms k = some v) : (k, v) ∈ ms := by
  induction ms with
  | nil => cases h
  | cons m ms ih =>
    rw [Map.get] at h
    split_ifs at h with hk
    · cases h
      subst hk
      exact List.mem_cons_self
    · exact List.mem_cons_of_mem m (ih h)

theorem Map.get_eq_none_iff {ms : Map} {k : Str} : Map.get ms k = none ↔ k ∉ ms.map Prod.fst := by
  induction ms with
  | nil => simp [Map.get]
  | cons m ms ih =>
    rw [Map.get]
    split_ifs with hk
    · simp [hk]
    · rw [ih, List.map_cons, List.mem_cons, not_or]
      exact ⟨fun h => ⟨Ne.symm hk, h⟩, fun h => h.2⟩

/-- Lookup does not depend on the order of the members. -/
theorem Map.get_perm {ms ns : Map} (hn : (ms.map Prod.fst).Nodup) (h : ms.Perm ns) (k : Str) :
    Map.get ms k = Map.get ns k := by
  have hn' : (ns.map Prod.fst).Nodup := (h.map Prod.fst).nodup_iff.mp hn
  cases hg : Map.get ms k with
  | none =>
    rw [Map.get_eq_none_iff] at hg
    rw [eq_comm, Map.get_eq_none_iff]
    exact fun hk => hg ((h.map Prod.fst).mem_iff.mpr hk)
  | some v => exact (Map.get_of_mem hn' (h.mem_iff.mp (Map.mem_of_get hg))).symm

theorem Map.get_insert (ms : Map) (k k' : Str) (v : Value) :
    Map.get (Map.insert ms k v) k' = if k = k' then some v else Map.get ms k' := by
  induction ms with
  | nil => rfl
  | cons m ms ih =>
    rw [Map.insert]
    split_ifs with hm hk hk
    · simp [Map.get, hk]
    · subst hm
      simp [Map.get, hk]
    · rw [Map.get, if_neg (fun h => hm (h.trans hk.symm)), ih, if_pos hk]
    · rw [Map.get, ih, if_neg hk, Map.get]

theorem Map.map_fst_insert {ms : Map} {k : Str} {v : Value} :
    (Map.insert ms k v).map Prod.fst = if k ∈ ms.map Prod.fst then ms.map Prod.fst else ms.map Prod.fst ++ [k] := by
  induction ms with
  | nil => rfl
  | cons m ms ih =>
    rw [Map.insert]
    by_cases hm : m.1 = k
    · subst hm
      simp
    · rw [if_neg hm, List.map_cons, ih]
      by_cases hk : k ∈ ms.map Prod.fst
      · have hk' : k ∈ (m :: ms).map Prod.fst := List.mem_cons_of_mem m.1 hk
        rw [if_pos hk, if_pos hk', List.map_cons]
      · have hk' : k ∉ (m :: ms).map Prod.fst := by
          rw [List.map_cons, List.mem_cons, not_or]
          exact ⟨Ne.symm hm, hk⟩
        rw [if_neg hk, if_neg hk', List.map_cons, List.cons_append]

theorem Map.insert_insert (ms : Map) (k : Str) (v w : Value) : Map.insert (Map.insert ms k v) k w = Map.insert ms k w := by
  induction ms with
  | nil => simp [Map.insert]
  | cons m ms ih =>
    rw [Map.insert, Map.insert]
    split_ifs with hm
    · rw [Map.insert, if_pos rfl]
    · rw [Map.insert, if_neg hm, ih]

/-- Inserting what is there changes nothing. -/
theorem Map.insert_of_get {ms : Map} {k : Str} {v : Value} (h : Map.get ms k = some v) : Map.insert ms k v = ms := by
  induction ms with
  | nil => cases h
  | cons m ms ih =>
    rw [Map.get] at h
    rw [Map.insert]
    split_ifs at h ⊢ with hm
    · cases h
      rw [← hm]
    · rw [ih h]

theorem Map.uniqueMembers_insert {ms : Map} {k : Str} {v : Value} (hms : UniqueMembers ms) (hv : v.Unique) :
    UniqueMembers (Map.insert ms k v) := by
  induction ms with
  | nil => exact ⟨hv, trivial⟩
  | cons m ms ih =>
    rw [Map.insert]
    split_ifs
    · exact ⟨hv, hms.2⟩
    · exact ⟨hms.1, ih hms.2⟩

theorem Map.nodup_insert {ms : Map} {k : Str} {v : Value} (h : (ms.map Prod.fst).Nodup) :
    ((Map.insert ms k v).map Prod.fst).Nodup := by
  rw [Map.map_fst_insert]
  split_ifs with hk
  · exact h
  · exact List.nodup_append.mpr ⟨h, List.nodup_singleton k, by
      rintro a ha b hb rfl
      exact hk (List.mem_singleton.mp hb ▸ ha)⟩

/-- Inserting replaces the members of that name. -/
theorem Map.insert_perm_cons {ms : Map} (hn : (ms.map Prod.fst).Nodup) (k : Str) (v : Value) :
    (Map.insert ms k v).Perm ((k, v) :: ms.filter fun m => m.1 ≠ k) := by
  induction ms with
  | nil => exact .refl _
  | cons m ms ih =>
    rw [List.map_cons, List.nodup_cons] at hn
    rw [Map.insert]
    split_ifs with hm
    · have hall : ms.filter (fun m => m.1 ≠ k) = ms := List.filter_eq_self.mpr fun n hnm => by
        have hne : n.1 ≠ k := fun h => hn.1 (hm ▸ h ▸ List.mem_map_of_mem hnm)
        simpa using hne
      rw [List.filter_cons_of_neg (by simpa using hm), hall]
    · rw [List.filter_cons_of_pos (by simpa using hm)]
      exact ((ih hn.2).cons m).trans (.swap ..)

/-- Without the members of that name nothing was inserted. -/
theorem Map.filter_insert (ms : Map) (k : Str) (v : Value) :
    (Map.insert ms k v).filter (fun m => m.1 ≠ k) = ms.filter fun m => m.1 ≠ k := by
  induction ms with
  | nil => simp [Map.insert]
  | cons m ms ih =>
    rw [Map.insert]
    split_ifs with hm
    · simp [hm]
    · rw [List.filter_cons, List.filter_cons, ih]

/-- Inserting does not depend on the order of the members. -/
theorem Map.insert_perm {ms ns : Map} (h : ms.Perm ns) (hn : (ms.map Prod.fst).Nodup) (k : Str) (v : Value) :
    (Map.insert ms k v).Perm (Map.insert ns k v) := by
  have hn' : (ns.map Prod.fst).Nodup := (h.map Prod.fst).nodup_iff.mp hn
  have hfilter := (h.filter fun m => decide (m.1 ≠ k)).cons (k, v)
  exact (Map.insert_perm_cons hn k v).trans (hfilter.trans (Map.insert_perm_cons hn' k v).symm)

/-! ### The other crates -/

/-- A `blake3` digest. -/
abbrev Digest := { b : Bytes // b.length = 32 }

/-- What the repository takes from other crates. -/
structure Crates where
  /-- `serde_json::from_slice::<Value>`. -/
  fromSlice : Bytes → Option Value
  /-- The maps it builds have no name twice. -/
  fromSlice_unique : ∀ {b v}, fromSlice b = some v → v.Unique
  /-- What `serde_json::from_str` gives a derived `Deserialize` to read. -/
  readStr : Str → Option Json.Tree
  /-- What `serde_json::from_slice` gives a derived `Deserialize` to read. -/
  readSlice : Bytes → Option Json.Tree
  /-- A double as `serde_json` prints it. -/
  printF64 : F64 → Json.Literal
  /-- `blake3::hash`. -/
  blake3 : Bytes → Digest

variable (X : Crates)

/-- `serde_json` reads back the texts it writes, within its limit on nesting, and no
object's text that is cut short. -/
structure Crates.ReadsText : Prop where
  /-- The compact text is read back. -/
  compact : ∀ t, t.depth < 128 → X.readStr (Json.render t) = some t
  /-- The indented text is read back. -/
  pretty : ∀ t, t.depth < 128 → X.readSlice (utf8 (Json.renderPretty 0 t)) = some t
  /-- A proper prefix of an object's text is an error. -/
  cut : ∀ ms p, p <+: Json.render (.obj ms) → p ≠ Json.render (.obj ms) → X.readStr p = none

/-- `Number::to_string`. -/
def Crates.printNumber : Number → Json.Literal
  | .posInt n => Json.natLit n
  | .negInt n => Json.negLit n
  | .float x => X.printF64 x

/-- Different numbers are printed differently, if doubles are, and with a fraction or an exponent. -/
theorem printNumber_injective (hinj : Function.Injective X.printF64) (hf : ∀ x, (X.printF64 x).Fractional) :
    Function.Injective X.printNumber := by
  have hprint : ∀ x l, X.printF64 x = l → l.Fractional := by
    rintro x _ rfl
    exact hf x
  rintro (m | m | x) (n | n | y) h
  · rw [Fin.ext (Json.natLit_injective h)]
  · exact absurd h (Json.natLit_ne_negLit m n)
  · exact absurd (hprint y _ h.symm) (Json.not_fractional_natLit m)
  · exact absurd h.symm (Json.natLit_ne_negLit n m)
  · rw [Fin.ext (Json.negLit_injective h)]
  · exact absurd (hprint y _ h.symm) (Json.not_fractional_negLit m)
  · exact absurd (hprint x _ h) (Json.not_fractional_natLit n)
  · exact absurd (hprint x _ h) (Json.not_fractional_negLit n)
  · rw [hinj h]

mutual

/-- What a value serializes as. -/
def Crates.toTree : Value → Json.Tree
  | .null => .null
  | .bool b => .bool b
  | .number n => .num (X.printNumber n)
  | .string s => .str s
  | .array vs => .arr (Crates.toTreeItems vs)
  | .object ms => .obj (Crates.toTreeMembers ms)

/-- What items serialize as. -/
def Crates.toTreeItems : List Value → List Json.Tree
  | [] => []
  | v :: vs => Crates.toTree v :: Crates.toTreeItems vs

/-- What members serialize as. -/
def Crates.toTreeMembers : List (Str × Value) → List (Str × Json.Tree)
  | [] => []
  | (k, v) :: ms => (k, Crates.toTree v) :: Crates.toTreeMembers ms

end

/-- `serde_json::to_vec` of a value. -/
def Crates.toVec (v : Value) : Bytes := utf8 (Json.render (X.toTree v))

end AcpCore.Wire
