import AcpCore.Wire.Value
import Mathlib.Data.List.Sort

/-!
# Canonical form

`canonicalize` writes a value in the canonical form of RFC 8785: compact, the
members of every object sorted by the UTF-16 code units of their names.

## The model

`writeValue` gives the bytes the source appends to `out`; an object's entries are
sorted by `utf16Cmp`, stably (`writeValue_object` is the source's branch).

## What is proved

* `writeValue_eq` — the canonical form is the text of a tree: the value's own
  with the members sorted (`canonTree`);
* **`canonicalize_eq_iff`** — two values have one canonical form exactly when
  they are the same up to the order of members. One direction is that sorting
  by a total order whose ties are equal names forgets the order (`canonTree_of_same`);
  the other is that different trees have different texts.
-/

namespace AcpCore.Wire

open AcpCore.Text

/-! ### Strings -/

/-- `HEX`. -/
def hex : List UInt8 :=
  [0x30, 0x31, 0x32, 0x33, 0x34, 0x35, 0x36, 0x37, 0x38, 0x39, 0x61, 0x62, 0x63, 0x64, 0x65, 0x66]

/-- `write_uescape`. -/
def writeUescape (codeUnit : ℕ) : Bytes :=
  [0x5C, 0x75, hex.getD (codeUnit / 2 ^ 12 % 16) 0, hex.getD (codeUnit / 2 ^ 8 % 16) 0,
    hex.getD (codeUnit / 2 ^ 4 % 16) 0, hex.getD (codeUnit % 16) 0]

/-- One character of `write_string`. -/
def writeChar (c : Char) : Bytes :=
  if c = '"' then [0x5C, 0x22]
  else if c = '\\' then [0x5C, 0x5C]
  else if c = '\x08' then [0x5C, 0x62]
  else if c = '\x09' then [0x5C, 0x74]
  else if c = '\x0a' then [0x5C, 0x6E]
  else if c = '\x0c' then [0x5C, 0x66]
  else if c = '\x0d' then [0x5C, 0x72]
  else if c.toNat < 0x20 then writeUescape c.toNat
  else String.utf8EncodeChar c

/-- `write_string`. -/
def writeString (s : Str) : Bytes := 0x22 :: (s.flatMap writeChar ++ [0x22])

theorem writeUescape_eq : ∀ n < 0x20,
    writeUescape n = utf8 ['\\', 'u', '0', '0', Json.hexDigit (n / 16), Json.hexDigit (n % 16)] := by
  decide +kernel

theorem writeChar_eq (c : Char) : writeChar c = utf8 (Json.escape c) := by
  by_cases hc : c ∈ Json.shortEscaped
  · simp only [Json.shortEscaped, List.mem_cons, List.not_mem_nil, or_false] at hc
    rcases hc with rfl | rfl | rfl | rfl | rfl | rfl | rfl <;> rfl
  · rw [Json.escape_of_notMem hc]
    simp only [Json.shortEscaped, List.mem_cons, List.not_mem_nil, or_false, not_or] at hc
    obtain ⟨h₁, h₂, h₃, h₄, h₅, h₆, h₇⟩ := hc
    rw [writeChar, if_neg h₁, if_neg h₂, if_neg h₃, if_neg h₄, if_neg h₅, if_neg h₆, if_neg h₇]
    by_cases hcontrol : c.toNat < 0x20
    · rw [if_pos hcontrol, if_pos hcontrol, writeUescape_eq _ hcontrol]
    · rw [if_neg hcontrol, if_neg hcontrol, utf8_cons, utf8_nil, List.append_nil]

/-- A string is written as JSON text has it. -/
theorem writeString_eq (s : Str) : writeString s = utf8 (Json.renderStr s) := by
  have hs : s.flatMap writeChar = utf8 (s.flatMap Json.escape) := by
    induction s with
    | nil => rfl
    | cons c s ih => rw [List.flatMap_cons, List.flatMap_cons, utf8_append, ih, writeChar_eq]
  rw [writeString, Json.renderStr, utf8_cons, utf8_append, hs]
  rfl

/-! ### The order of the members -/

/-- `utf16_cmp`. -/
def utf16Cmp (a b : Str) : Ordering := cmpUnits (encodeUtf16 a) (encodeUtf16 b)

/-- The order `sort_by` sorts the entries in. -/
def entryLe {α : Type} (a b : Str × α) : Prop := utf16Cmp a.1 b.1 ≠ .gt

instance {α : Type} : DecidableRel (entryLe (α := α)) := fun a b =>
  inferInstanceAs (Decidable (utf16Cmp a.1 b.1 ≠ .gt))

theorem entryLe_iff {α : Type} (a b : Str × α) : entryLe a b ↔ encodeUtf16 a.1 ≤ encodeUtf16 b.1 :=
  cmpUnits_ne_gt_iff _ _

instance {α : Type} : Std.Total (entryLe (α := α)) :=
  ⟨fun a b => by rw [entryLe_iff, entryLe_iff]; exact le_total _ _⟩

instance {α : Type} : IsTrans (Str × α) entryLe :=
  ⟨fun a b c => by rw [entryLe_iff, entryLe_iff, entryLe_iff]; exact le_trans⟩

/-- A tie is an equal name. -/
theorem entryLe_antisymm {α : Type} {a b : Str × α} (hab : entryLe a b) (hba : entryLe b a) : a.1 = b.1 := by
  rw [entryLe_iff] at hab hba
  exact encodeUtf16_injective (le_antisymm hab hba)

/-- Entries of different names sort to one list, whatever order they come in. -/
theorem insertionSort_eq_of_perm {α : Type} {es fs : List (Str × α)} (hn : (es.map Prod.fst).Nodup)
    (h : es.Perm fs) : es.insertionSort entryLe = fs.insertionSort entryLe := by
  have hp : (es.insertionSort entryLe).Perm (fs.insertionSort entryLe) :=
    ((List.perm_insertionSort _ es).trans h).trans (List.perm_insertionSort _ fs).symm
  refine hp.eq_of_pairwise (fun a b ha hb hab hba => ?_)
    (List.pairwise_insertionSort _ es) (List.pairwise_insertionSort _ fs)
  rw [List.mem_insertionSort] at ha
  have hb' : b ∈ es := h.mem_iff.mpr ((List.mem_insertionSort _).mp hb)
  exact List.inj_on_of_nodup_map hn ha hb' (entryLe_antisymm hab hba)

/-- Sorting looks at the names only. -/
theorem insertionSort_map {α β : Type} (f : Str × α → β) (es : List (Str × α)) :
    (es.map fun e => (e.1, f e)).insertionSort entryLe = (es.insertionSort entryLe).map fun e => (e.1, f e) :=
  (List.map_insertionSort (r := entryLe) (s := entryLe) (f := fun e : Str × α => (e.1, f e)) (l := es)
    (fun _ _ _ _ => Iff.rfl)).symm

/-! ### Values -/

variable (X : Crates)

mutual

/-- `write_value`: what it appends to `out`. -/
def writeValue : Value → Bytes
  | .null => [0x6E, 0x75, 0x6C, 0x6C]
  | .bool true => [0x74, 0x72, 0x75, 0x65]
  | .bool false => [0x66, 0x61, 0x6C, 0x73, 0x65]
  | .number n => utf8 (X.printNumber n).1
  | .string s => writeString s
  | .array arr => 0x5B :: (sepBy 0x2C (writeItems arr) ++ [0x5D])
  | .object obj => 0x7B :: (sepBy 0x2C (((writeEntries obj).insertionSort entryLe).map Prod.snd) ++ [0x7D])

/-- What it appends for each item. -/
def writeItems : List Value → List Bytes
  | [] => []
  | item :: arr => writeValue item :: writeItems arr

/-- What it appends for each entry, with the entry's name. -/
def writeEntries : List (Str × Value) → List (Str × Bytes)
  | [] => []
  | (k, val) :: obj => (k, writeString k ++ 0x3A :: writeValue val) :: writeEntries obj

end

/-- `canonicalize`. -/
def canonicalize (v : Value) : Bytes := writeValue X v

theorem writeItems_eq_map (arr : List Value) : writeItems X arr = arr.map (writeValue X) := by
  induction arr with
  | nil => rfl
  | cons v arr ih => rw [writeItems, ih, List.map_cons]

theorem writeEntries_eq_map (obj : Map) :
    writeEntries X obj = obj.map fun e => (e.1, writeString e.1 ++ 0x3A :: writeValue X e.2) := by
  induction obj with
  | nil => rfl
  | cons e obj ih => rw [writeEntries, ih, List.map_cons]

/-- The source's branch for an object: sort the entries, then write each. -/
theorem writeValue_object (obj : Map) :
    writeValue X (.object obj) = 0x7B :: (sepBy 0x2C
      ((obj.insertionSort entryLe).map fun e => writeString e.1 ++ 0x3A :: writeValue X e.2) ++ [0x7D]) := by
  rw [writeValue, writeEntries_eq_map, insertionSort_map, List.map_map]
  rfl

mutual

/-- The tree of a value with the members of every object sorted. -/
def canonTree : Value → Json.Tree
  | .null => .null
  | .bool b => .bool b
  | .number n => .num (X.printNumber n)
  | .string s => .str s
  | .array arr => .arr (canonItems arr)
  | .object obj => .obj ((canonMembers obj).insertionSort entryLe)

/-- The trees of the items. -/
def canonItems : List Value → List Json.Tree
  | [] => []
  | v :: arr => canonTree v :: canonItems arr

/-- The trees of the members. -/
def canonMembers : List (Str × Value) → List (Str × Json.Tree)
  | [] => []
  | (k, v) :: obj => (k, canonTree v) :: canonMembers obj

end

theorem canonItems_eq_map (arr : List Value) : canonItems X arr = arr.map (canonTree X) := by
  induction arr with
  | nil => rfl
  | cons v arr ih => rw [canonItems, ih, List.map_cons]

theorem canonMembers_eq_map (obj : Map) : canonMembers X obj = obj.map fun e => (e.1, canonTree X e.2) := by
  induction obj with
  | nil => rfl
  | cons e obj ih => rw [canonMembers, ih, List.map_cons]

/-- The canonical form is the text of the sorted tree. -/
theorem writeValue_eq (v : Value) : writeValue X v = utf8 (Json.render (canonTree X v)) := by
  induction v using Value.ind with
  | null => rfl
  | bool b => cases b <;> rfl
  | number n => rfl
  | string s => exact writeString_eq s
  | array arr ih =>
    have hi : writeItems X arr = (Json.renderItems (canonItems X arr)).map utf8 := by
      rw [writeItems_eq_map, canonItems_eq_map, Json.renderItems_eq_map, List.map_map, List.map_map]
      exact List.map_congr_left ih
    rw [writeValue, canonTree, Json.render, utf8_cons, utf8_append, utf8_sepBy (b := 0x2C) rfl, hi]
    rfl
  | object obj ih =>
    have hm : ((writeEntries X obj).insertionSort entryLe).map Prod.snd
        = (Json.renderMembers ((canonMembers X obj).insertionSort entryLe)).map utf8 := by
      rw [writeEntries_eq_map, canonMembers_eq_map, Json.renderMembers_eq_map]
      rw [insertionSort_map, insertionSort_map, List.map_map, List.map_map, List.map_map]
      refine List.map_congr_left fun e he => ?_
      rw [List.mem_insertionSort] at he
      simp only [Function.comp_apply, utf8_append, utf8_cons, writeString_eq, ih e he]
      rfl
    rw [writeValue, canonTree, Json.render, utf8_cons, utf8_append, utf8_sepBy (b := 0x2C) rfl, hm]
    rfl

/-! ### One form for each value -/

theorem canonItems_of_sameItems {vs ws : List Value}
    (ih : ∀ v ∈ vs, ∀ w, v.Unique → Same v w → canonTree X v = canonTree X w) (hu : UniqueItems vs)
    (h : SameItems vs ws) : canonItems X vs = canonItems X ws := by
  induction vs generalizing ws with
  | nil => cases h; rfl
  | cons v vs ihs =>
    obtain ⟨hv, hvs⟩ := hu
    cases h with
    | cons hw hws =>
      rw [canonItems, canonItems, ih v List.mem_cons_self _ hv hw]
      rw [ihs (fun u hu => ih u (List.mem_cons_of_mem v hu)) hvs hws]

theorem canonMembers_of_sameMembers {ms ns : Map}
    (ih : ∀ m ∈ ms, ∀ w, m.2.Unique → Same m.2 w → canonTree X m.2 = canonTree X w) (hu : UniqueMembers ms)
    (h : SameMembers ms ns) : canonMembers X ms = canonMembers X ns := by
  induction ms generalizing ns with
  | nil => cases h; rfl
  | cons m ms ihs =>
    cases h with
    | cons hw hws =>
      obtain ⟨hv, hvs⟩ := hu
      rw [canonMembers, canonMembers, ih _ List.mem_cons_self _ hv hw]
      rw [ihs (fun u hu => ih u (List.mem_cons_of_mem _ hu)) hvs hws]

/-- The same value has the same sorted tree. -/
theorem canonTree_of_same {v w : Value} (hu : v.Unique) (h : Same v w) : canonTree X v = canonTree X w := by
  induction v using Value.ind generalizing w with
  | null | bool | number | string => cases h; rfl
  | array vs ih =>
    cases h with
    | array hs => rw [canonTree, canonTree, canonItems_of_sameItems X (fun v hv w => ih v hv) hu hs]
  | object ms ih =>
    cases h with
    | @object _ ns ps hp hs =>
      obtain ⟨hn, hu⟩ := hu
      have hups : UniqueMembers ps := uniqueMembers_iff.mpr fun m hm => uniqueMembers_iff.mp hu m (hp.mem_iff.mpr hm)
      have hps : canonMembers X ps = canonMembers X ns :=
        canonMembers_of_sameMembers X (fun m hm w => ih m (hp.mem_iff.mpr hm)) hups hs
      have hfst : ((canonMembers X ms).map Prod.fst).Nodup := by
        rw [canonMembers_eq_map, List.map_map]
        exact hn
      have hperm : (canonMembers X ms).Perm (canonMembers X ps) := by
        rw [canonMembers_eq_map, canonMembers_eq_map]
        exact hp.map _
      rw [canonTree, canonTree, insertionSort_eq_of_perm hfst hperm, hps]

theorem sameItems_of_canonItems {vs ws : List Value} (ih : ∀ v ∈ vs, ∀ w, canonTree X v = canonTree X w → Same v w)
    (h : canonItems X vs = canonItems X ws) : SameItems vs ws := by
  induction vs generalizing ws with
  | nil =>
    cases ws with
    | nil => exact .nil
    | cons w ws => cases h
  | cons v vs ihs =>
    cases ws with
    | nil => cases h
    | cons w ws =>
      rw [canonItems, canonItems, List.cons.injEq] at h
      exact .cons (ih v List.mem_cons_self w h.1) (ihs (fun u hu => ih u (List.mem_cons_of_mem v hu)) h.2)

theorem sameMembers_of_canonMembers {ms ns : Map}
    (ih : ∀ m ∈ ms, ∀ w, canonTree X m.2 = canonTree X w → Same m.2 w)
    (h : canonMembers X ms = canonMembers X ns) : SameMembers ms ns := by
  induction ms generalizing ns with
  | nil =>
    cases ns with
    | nil => exact .nil
    | cons n ns => cases h
  | cons m ms ihs =>
    cases ns with
    | nil => cases h
    | cons n ns =>
      rw [canonMembers, canonMembers, List.cons.injEq, Prod.mk.injEq] at h
      obtain ⟨⟨hk, hv⟩, hs⟩ := h
      obtain ⟨k, v⟩ := m
      obtain ⟨k', w⟩ := n
      cases hk
      exact .cons (ih _ List.mem_cons_self w hv) (ihs (fun u hu => ih u (List.mem_cons_of_mem _ hu)) hs)

/-- Different numbers being printed differently, the sorted tree says which value it is. -/
theorem same_of_canonTree (hX : Function.Injective X.printNumber) {v w : Value} (h : canonTree X v = canonTree X w) :
    Same v w := by
  induction v using Value.ind generalizing w with
  | null => cases w <;> cases h; exact .null
  | bool b => cases w <;> cases h; exact .bool b
  | number n =>
    cases w <;> first | (rw [canonTree, canonTree, Json.Tree.num.injEq] at h) | cases h
    cases hX h
    exact .number n
  | string s => cases w <;> cases h; exact .string s
  | array vs ih =>
    cases w <;> first | (rw [canonTree, canonTree, Json.Tree.arr.injEq] at h) | cases h
    exact .array (sameItems_of_canonItems X (fun v hv w => ih v hv) h)
  | object ms ih =>
    cases w <;> first | (rw [canonTree, canonTree, Json.Tree.obj.injEq] at h) | cases h
    rename_i ns
    -- the two lists of members are permutations of each other, and one is the other's image
    have hp : (canonMembers X ms).Perm (canonMembers X ns) :=
      (List.perm_insertionSort entryLe _).symm.trans (h ▸ List.perm_insertionSort entryLe _)
    rw [canonMembers_eq_map, canonMembers_eq_map] at hp
    obtain ⟨ps, hps, hperm⟩ := (congrFun₂ (List.eq_map_comp_perm _) _ _).mpr hp.symm
    refine .object hperm.symm (sameMembers_of_canonMembers X (fun m hm w => ih m (hperm.mem_iff.mp hm)) ?_)
    rw [canonMembers_eq_map, canonMembers_eq_map]
    exact hps.symm

/-- **Canonical identity is exact**: two values have one canonical form if and only
if they are the same up to the order of object members. -/
theorem canonicalize_eq_iff (hX : Function.Injective X.printNumber) {v w : Value} (hv : v.Unique) :
    canonicalize X v = canonicalize X w ↔ Same v w := by
  rw [canonicalize, canonicalize, writeValue_eq, writeValue_eq]
  constructor
  · intro h
    exact same_of_canonTree X hX (Json.render_injective (utf8_injective h))
  · intro h
    rw [canonTree_of_same X hv h]

end AcpCore.Wire
