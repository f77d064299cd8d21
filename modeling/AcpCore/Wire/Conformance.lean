import AcpCore.Library.Rfc8785
import AcpCore.Wire.Inverse

/-!
# Conformance

The canonical form is the text RFC 8785 gives the value, if its numbers are integers
that a double holds.

## The model

`Value.data` is the value as JSON data. The scheme prints a number as ECMAScript
does; `EcmaNumber` says how at an integer, and nothing of other numbers.

## What is proved

* `serialized_canonTree` — the sorted tree's text is derived by the scheme's rules,
  for every value, up to the printing of its numbers;
* **`canonicalize_conforms`** — where the numbers are integers of magnitude at most
  `2 ^ 53 - 1`, the canonical form is what the scheme computes, and nothing else
  is derived by its rules.
-/

namespace AcpCore.Wire

open AcpCore.Text AcpCore.Rfc8785

mutual

/-- A value as JSON data. -/
def Value.data : Value → Data Number
  | .null => .null
  | .bool b => .bool b
  | .number n => .num n
  | .string s => .str s
  | .array vs => .arr (dataItems vs)
  | .object ms => .obj (dataMembers ms)

/-- Items as JSON data. -/
def dataItems : List Value → List (Data Number)
  | [] => []
  | v :: vs => v.data :: dataItems vs

/-- Members as JSON data. -/
def dataMembers : List (Str × Value) → List (Str × Data Number)
  | [] => []
  | (k, v) :: ms => (k, v.data) :: dataMembers ms

end

theorem dataMembers_eq_map (ms : Map) : dataMembers ms = ms.map fun m => (m.1, m.2.data) := by
  induction ms with
  | nil => rfl
  | cons m ms ih => rw [dataMembers, ih, List.map_cons]

theorem map_fst_dataMembers (ms : Map) : (dataMembers ms).map Prod.fst = ms.map Prod.fst := by
  rw [dataMembers_eq_map, List.map_map]
  rfl

/-- The data of a value has no name twice in an object. -/
theorem unique_data {v : Value} (hu : v.Unique) : v.data.Unique := by
  induction v using Value.ind with
  | null | bool | number | string => trivial
  | array vs ih =>
    show Rfc8785.UniqueItems (dataItems vs)
    induction vs with
    | nil => trivial
    | cons v vs ihs => exact ⟨ih v List.mem_cons_self hu.1, ihs (fun w hw => ih w (List.mem_cons_of_mem v hw)) hu.2⟩
  | object ms ih =>
    refine ⟨(map_fst_dataMembers ms).symm ▸ hu.1, ?_⟩
    show Rfc8785.UniqueMembers (dataMembers ms)
    replace hu := hu.2
    induction ms with
    | nil => trivial
    | cons m ms ihs => exact ⟨ih m List.mem_cons_self hu.1, ihs (fun n hn => ih n (List.mem_cons_of_mem m hn)) hu.2⟩

/-! ### Strings -/

theorem hexDigit_eq_digitChar : ∀ n < 16, Json.hexDigit n = Nat.digitChar n := by decide

/-- JSON text has the scheme's escapes. -/
theorem spellChar_eq_escape (c : Char) : spellChar c = Json.escape c := by
  by_cases hc : c ∈ Json.shortEscaped
  · simp only [Json.shortEscaped, List.mem_cons, List.not_mem_nil, or_false] at hc
    rcases hc with rfl | rfl | rfl | rfl | rfl | rfl | rfl <;> rfl
  · have hnone : shortEscapes.lookup c = none := by
      simp only [Json.shortEscaped, List.mem_cons, List.not_mem_nil, or_false, not_or] at hc
      simp [shortEscapes, List.lookup_eq_none_iff, hc]
    rw [spellChar, hnone, Json.escape_of_notMem hc]
    simp only
    by_cases hcontrol : c.toNat < 0x20
    · have hlt : c.toNat / 16 < 16 := by omega
      rw [if_pos hcontrol, if_pos hcontrol, hexDigit_eq_digitChar _ hlt,
        hexDigit_eq_digitChar _ (Nat.mod_lt _ (by decide : 0 < 16))]
    · rw [if_neg hcontrol, if_neg hcontrol]

theorem spell_eq_renderStr (s : Str) : spell s = Json.renderStr s := by
  rw [spell, Json.renderStr, funext spellChar_eq_escape]

/-! ### The sorted tree's text -/

variable (X : Crates)

section Rules

variable {num : Number → Str → Prop}

theorem serializedItems_canonItems {vs : List Value}
    (ih : ∀ v ∈ vs, Serialized num v.data (Json.render (canonTree X v))) :
    SerializedItems num (dataItems vs) (Json.renderItems (canonItems X vs)) := by
  induction vs with
  | nil => exact .nil
  | cons v vs ihs => exact .cons (ih v List.mem_cons_self) (ihs fun w hw => ih w (List.mem_cons_of_mem v hw))

theorem serializedMembers_canonMembers {ms : Map}
    (ih : ∀ m ∈ ms, Serialized num m.2.data (Json.render (canonTree X m.2))) :
    SerializedMembers num (dataMembers ms) (Json.renderMembers (canonMembers X ms)) := by
  induction ms with
  | nil => exact .nil
  | cons m ms ihs =>
    rw [dataMembers, canonMembers, Json.renderMembers, ← spell_eq_renderStr]
    exact .cons (ih m List.mem_cons_self) (ihs fun n hn => ih n (List.mem_cons_of_mem m hn))

/-- **The sorted tree's text is derived by the scheme's rules**, numbers being printed as they are. -/
theorem serialized_canonTree {v : Value} (hu : v.Unique) (hnum : ∀ n ∈ v.numbers, num n (X.printNumber n).1) :
    Serialized num v.data (Json.render (canonTree X v)) := by
  induction v using Value.ind with
  | null => exact .null
  | bool b =>
    cases b
    · exact .false
    · exact .true
  | number n => exact .num (hnum n List.mem_cons_self)
  | string s =>
    rw [canonTree, Json.render, ← spell_eq_renderStr]
    exact .str s
  | array vs ih =>
    exact .arr (serializedItems_canonItems X fun v hv =>
      ih v hv (uniqueItems_iff.mp hu v hv) fun n hn => hnum n (mem_numbersOfItems hv hn))
  | object ms ih =>
    obtain ⟨hn, hu⟩ := hu
    have hp : (ms.insertionSort entryLe).Perm ms := List.perm_insertionSort entryLe ms
    have hsorted : (canonMembers X ms).insertionSort entryLe = canonMembers X (ms.insertionSort entryLe) := by
      rw [canonMembers_eq_map, canonMembers_eq_map, insertionSort_map]
    have hle : (ms.insertionSort entryLe).Pairwise fun a b => encodeUtf16 a.1 ≤ encodeUtf16 b.1 :=
      (List.pairwise_insertionSort entryLe ms).imp fun h => (entryLe_iff _ _).mp h
    have hlt := increasing_of_nodup hle ((hp.map Prod.fst).nodup_iff.mpr hn)
    rw [canonTree, Json.render, hsorted]
    have hser : SerializedMembers num (dataMembers (ms.insertionSort entryLe))
        (Json.renderMembers (canonMembers X (ms.insertionSort entryLe))) := by
      apply serializedMembers_canonMembers X
      intro m hm
      rw [hp.mem_iff] at hm
      exact ih m hm (uniqueMembers_iff.mp hu m hm) fun n hn => hnum n (mem_numbersOfMembers hm hn)
    refine .obj ?_ ?_ hser
    · rw [dataMembers_eq_map, dataMembers_eq_map]
      exact (hp.map _).symm
    · rw [dataMembers_eq_map, List.pairwise_map]
      exact hlt

end Rules

/-! ### Integers -/

/-- The integer a number is, if it is no double. -/
def Number.toInt : Number → Option ℤ
  | .posInt n => some n.val
  | .negInt n => some (Int.negSucc n.val)
  | .float _ => none

/-- An integer that a double holds, and no other integer rounds to it. -/
def Number.IsSafe (n : Number) : Prop := ∃ x, n.toInt = some x ∧ x.natAbs ≤ 2 ^ 53 - 1

/-- The texts ECMAScript prints an integer as. -/
def EcmaNumber (n : Number) (t : Str) : Prop := ∃ x, n.toInt = some x ∧ EcmaInteger x t

/-- The text of an integer. -/
def Number.ecmaText (n : Number) : Str := decimal (n.toInt.getD 0)

/-- An integer is printed in decimal. -/
theorem printNumber_toInt {n : Number} {x : ℤ} (h : n.toInt = some x) : (X.printNumber n).1 = decimal x := by
  cases n with
  | posInt n =>
    cases h
    exact (if_neg (by omega)).symm
  | negInt n =>
    cases h
    exact (if_pos (Int.negSucc_lt_zero _)).symm
  | float x => cases h

/-- **Conformance to RFC 8785.** Where the numbers of a value are integers of magnitude at most
`2 ^ 53 - 1`, its canonical form is the text the scheme computes, and that is the one text
the scheme's rules derive. -/
theorem canonicalize_conforms {v : Value} (hu : v.Unique) (hsafe : ∀ n ∈ v.numbers, n.IsSafe) :
    canonicalize X v = utf8 (serialize Number.ecmaText v.data) ∧
      ∀ t, Serialized EcmaNumber v.data t ↔ t = serialize Number.ecmaText v.data := by
  have htext : canonicalize X v = utf8 (Json.render (canonTree X v)) := writeValue_eq X v
  have hecma : Serialized EcmaNumber v.data (Json.render (canonTree X v)) := by
    refine serialized_canonTree X hu fun n hn => ?_
    obtain ⟨x, hx, hle⟩ := hsafe n hn
    refine ⟨x, hx, ?_⟩
    rw [printNumber_toInt X hx]
    exact ecmaInteger_decimal (by omega)
  have hcomputed : Serialized (fun n t => t = n.ecmaText) v.data (Json.render (canonTree X v)) := by
    refine serialized_canonTree X hu fun n hn => ?_
    obtain ⟨x, hx, -⟩ := hsafe n hn
    rw [printNumber_toInt X hx, Number.ecmaText, hx, Option.getD_some]
  have heq : Json.render (canonTree X v) = serialize Number.ecmaText v.data :=
    hcomputed.unique (fun _ _ _ h h' => h.trans h'.symm) (serialized_serialize Number.ecmaText (unique_data hu))
  have hfunctional : ∀ n t u, EcmaNumber n t → EcmaNumber n u → t = u := by
    rintro n t u ⟨x, hx, ht⟩ ⟨y, hy, hu⟩
    obtain rfl : x = y := Option.some.inj (hx.symm.trans hy)
    rw [decimal_of_ecmaInteger ht, decimal_of_ecmaInteger hu]
  refine ⟨by rw [htext, heq], fun t => ⟨fun ht => ?_, ?_⟩⟩
  · rw [← heq]
    exact ht.unique hfunctional hecma
  · rintro rfl
    exact heq ▸ hecma

/-- Names out of order: one above the surrogates' code units comes after one that is written with them. -/
def sampleNames : Value :=
  .object [(['\uE000'], .array [.number (.negInt 16), .string ['"', '\x1f']]), (['🦀'], .number (.posInt 100)),
    ([], .null)]

theorem canonicalize_conforms_sample :
    canonicalize (.plain []) sampleNames = utf8 (serialize Number.ecmaText sampleNames.data) ∧
      ∀ t, Serialized EcmaNumber sampleNames.data t ↔ t = serialize Number.ecmaText sampleNames.data := by
  refine canonicalize_conforms _ ⟨by decide, ⟨trivial, trivial, trivial⟩, trivial, trivial, trivial⟩ fun n hn => ?_
  have hn : n ∈ [Number.negInt 16, Number.posInt 100] := hn
  simp only [List.mem_cons, List.not_mem_nil, or_false] at hn
  rcases hn with rfl | rfl
  · exact ⟨_, rfl, by decide⟩
  · exact ⟨_, rfl, by decide⟩

end AcpCore.Wire
