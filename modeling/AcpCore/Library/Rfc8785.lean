import AcpCore.Library.Text
import Mathlib.Data.List.Sort
import Mathlib.Data.Nat.Digits.Defs
import Mathlib.Data.Nat.Factorization.Basic

/-!
# The JSON Canonicalization Scheme

RFC 8785: JSON data has one text. No whitespace stands between tokens, the members
of an object come in the order of their names as UTF-16 code units, a string is
spelled with the fewest escapes, and a number as ECMAScript prints it.

## The model

`Data ν` is JSON data whose numbers are of a type `ν`. `Serialized` are the rules of
the scheme, one for each kind of data; how a number is printed is a parameter.
`serialize` computes a text. `EcmaInteger` is ECMAScript's `Number::toString` at an
integer that is a double and the only integer that rounds to it: its shortest
decimal is its own.

## What is proved

* `Serialized.unique` — the rules derive one text at most;
* `serialized_serialize` — `serialize` gives a text they derive;
* `decimal_of_ecmaInteger`, `ecmaInteger_decimal` — an integer of magnitude below `10 ^ 21` is printed in decimal.
-/

namespace AcpCore.Rfc8785

open AcpCore.Text

/-- JSON data with numbers of the type `ν`. -/
inductive Data (ν : Type) where
  /-- `null`. -/
  | null
  /-- `true` or `false`. -/
  | bool (b : Bool)
  /-- A number. -/
  | num (n : ν)
  /-- A string. -/
  | str (s : Str)
  /-- An array. -/
  | arr (items : List (Data ν))
  /-- An object. -/
  | obj (members : List (Str × Data ν))

/-! ### Strings -/

/-- The characters with an escape of two characters, and the second of these. -/
def shortEscapes : List (Char × Char) :=
  [('"', '"'), ('\\', '\\'), ('\x08', 'b'), ('\x09', 't'), ('\x0a', 'n'), ('\x0c', 'f'), ('\x0d', 'r')]

/-- The spelling of a character in a string. -/
def spellChar (c : Char) : Str :=
  match shortEscapes.lookup c with
  | some e => ['\\', e]
  | none =>
    if c.toNat < 0x20 then ['\\', 'u', '0', '0', Nat.digitChar (c.toNat / 16), Nat.digitChar (c.toNat % 16)] else [c]

/-- The spelling of a string. -/
def spell (s : Str) : Str := '"' :: (s.flatMap spellChar ++ ['"'])

/-! ### The rules -/

section Rules

variable {ν : Type} (num : ν → Str → Prop)

mutual

/-- The text of data, numbers being printed by `num`. -/
inductive Serialized : Data ν → Str → Prop
  /-- `null`. -/
  | null : Serialized .null ['n', 'u', 'l', 'l']
  /-- `true`. -/
  | true : Serialized (.bool true) ['t', 'r', 'u', 'e']
  /-- `false`. -/
  | false : Serialized (.bool false) ['f', 'a', 'l', 's', 'e']
  /-- A number. -/
  | num {n : ν} {t : Str} : num n t → Serialized (.num n) t
  /-- A string. -/
  | str (s : Str) : Serialized (.str s) (spell s)
  /-- The items in order, with commas between them. -/
  | arr {vs : List (Data ν)} {ts : List Str} : SerializedItems vs ts →
    Serialized (.arr vs) ('[' :: (sepBy ',' ts ++ [']']))
  /-- The members in strictly increasing order of their names, with commas between them. -/
  | obj {ms ps : List (Str × Data ν)} {ts : List Str} : ms.Perm ps →
    ps.Pairwise (fun a b => encodeUtf16 a.1 < encodeUtf16 b.1) → SerializedMembers ps ts →
    Serialized (.obj ms) ('{' :: (sepBy ',' ts ++ ['}']))

/-- The texts of items. -/
inductive SerializedItems : List (Data ν) → List Str → Prop
  /-- No items. -/
  | nil : SerializedItems [] []
  /-- One more item. -/
  | cons {v : Data ν} {t : Str} {vs : List (Data ν)} {ts : List Str} : Serialized v t → SerializedItems vs ts →
    SerializedItems (v :: vs) (t :: ts)

/-- The texts of members. -/
inductive SerializedMembers : List (Str × Data ν) → List Str → Prop
  /-- No members. -/
  | nil : SerializedMembers [] []
  /-- One more member. -/
  | cons {k : Str} {v : Data ν} {t : Str} {ms : List (Str × Data ν)} {ts : List Str} : Serialized v t →
    SerializedMembers ms ts → SerializedMembers ((k, v) :: ms) ((spell k ++ ':' :: t) :: ts)

end

end Rules

variable {ν : Type} {num : ν → Str → Prop}

/-- Lists in strictly increasing order of their names with the same elements are equal. -/
theorem eq_of_perm_of_increasing {α : Type} {ps qs : List (Str × α)} (h : ps.Perm qs)
    (hps : ps.Pairwise fun a b => encodeUtf16 a.1 < encodeUtf16 b.1)
    (hqs : qs.Pairwise fun a b => encodeUtf16 a.1 < encodeUtf16 b.1) : ps = qs := by
  refine h.eq_of_pairwise ?_ hps hqs
  intro a b _ _ hab hba
  exact absurd hab hba.asymm

mutual

/-- **The rules derive one text at most.** -/
theorem Serialized.unique (hnum : ∀ n t u, num n t → num n u → t = u) {d : Data ν} {t : Str} :
    Serialized num d t → ∀ {u : Str}, Serialized num d u → t = u
  | .null, _, .null => rfl
  | .true, _, .true => rfl
  | .false, _, .false => rfl
  | .num h, _, .num h' => hnum _ _ _ h h'
  | .str _, _, .str _ => rfl
  | .arr h, _, .arr h' => by rw [h.unique hnum h']
  | .obj hp hs h, _, .obj hp' hs' h' => by
    -- the members come in one order only
    obtain rfl := eq_of_perm_of_increasing (hp.symm.trans hp') hs hs'
    rw [h.unique hnum h']

theorem SerializedItems.unique (hnum : ∀ n t u, num n t → num n u → t = u) {vs : List (Data ν)} {ts : List Str} :
    SerializedItems num vs ts → ∀ {us : List Str}, SerializedItems num vs us → ts = us
  | .nil, _, .nil => rfl
  | .cons h hs, _, .cons h' hs' => by rw [h.unique hnum h', hs.unique hnum hs']

theorem SerializedMembers.unique (hnum : ∀ n t u, num n t → num n u → t = u) {ms : List (Str × Data ν)}
    {ts : List Str} : SerializedMembers num ms ts → ∀ {us : List Str}, SerializedMembers num ms us → ts = us
  | .nil, _, .nil => rfl
  | .cons h hs, _, .cons h' hs' => by rw [h.unique hnum h', hs.unique hnum hs']

end

/-! ### Computing the text -/

mutual

/-- No object has a name twice. -/
def Data.Unique : Data ν → Prop
  | .arr vs => UniqueItems vs
  | .obj ms => (ms.map Prod.fst).Nodup ∧ UniqueMembers ms
  | _ => True

/-- No object among the items has a name twice. -/
def UniqueItems : List (Data ν) → Prop
  | [] => True
  | v :: vs => v.Unique ∧ UniqueItems vs

/-- No object among the members has a name twice. -/
def UniqueMembers : List (Str × Data ν) → Prop
  | [] => True
  | (_, v) :: ms => v.Unique ∧ UniqueMembers ms

end

/-- One name does not come after another. -/
def nameLe {α : Type} (a b : Str × α) : Bool := decide (encodeUtf16 a.1 ≤ encodeUtf16 b.1)

variable (f : ν → Str)

mutual

/-- The text of data, numbers being printed by `f`. -/
def serialize : Data ν → Str
  | .null => ['n', 'u', 'l', 'l']
  | .bool true => ['t', 'r', 'u', 'e']
  | .bool false => ['f', 'a', 'l', 's', 'e']
  | .num n => f n
  | .str s => spell s
  | .arr vs => '[' :: (sepBy ',' (itemTexts vs) ++ [']'])
  | .obj ms => '{' :: (sepBy ',' (((memberTexts ms).mergeSort nameLe).map Prod.snd) ++ ['}'])

/-- The texts of items. -/
def itemTexts : List (Data ν) → List Str
  | [] => []
  | v :: vs => serialize v :: itemTexts vs

/-- The texts of members, each with its name. -/
def memberTexts : List (Str × Data ν) → List (Str × Str)
  | [] => []
  | (k, v) :: ms => (k, spell k ++ ':' :: serialize v) :: memberTexts ms

end

theorem memberTexts_eq_map (ms : List (Str × Data ν)) :
    memberTexts f ms = ms.map fun m => (m.1, spell m.1 ++ ':' :: serialize f m.2) := by
  induction ms with
  | nil => rfl
  | cons m ms ih => rw [memberTexts, ih, List.map_cons]

/-- Sorting the texts is sorting the members. -/
theorem sort_memberTexts (ms : List (Str × Data ν)) :
    (memberTexts f ms).mergeSort nameLe = memberTexts f (ms.mergeSort nameLe) := by
  rw [memberTexts_eq_map, memberTexts_eq_map]
  exact (List.map_mergeSort (r := nameLe) (s := nameLe) (f := fun m => (m.1, spell m.1 ++ ':' :: serialize f m.2))
    fun _ _ _ _ => rfl).symm

/-- Different names in order are in strictly increasing order. -/
theorem increasing_of_nodup {α : Type} {ms : List (Str × α)}
    (hle : ms.Pairwise fun a b => encodeUtf16 a.1 ≤ encodeUtf16 b.1) (hn : (ms.map Prod.fst).Nodup) :
    ms.Pairwise fun a b => encodeUtf16 a.1 < encodeUtf16 b.1 := by
  have hne : ms.Pairwise fun a b => a.1 ≠ b.1 := List.pairwise_map.mp hn
  apply (hle.and hne).imp
  rintro a b ⟨hab, hne⟩
  exact hab.lt_of_ne fun h => hne (encodeUtf16_injective h)

theorem pairwise_mergeSort_nameLe {α : Type} (ms : List (Str × α)) :
    (ms.mergeSort nameLe).Pairwise fun a b => encodeUtf16 a.1 ≤ encodeUtf16 b.1 := by
  have hle : (ms.mergeSort nameLe).Pairwise fun a b => nameLe a b = true := by
    apply List.pairwise_mergeSort
    · intro a b c hab hbc
      simp only [nameLe, decide_eq_true_eq] at hab hbc ⊢
      exact hab.trans hbc
    · intro a b
      simp only [nameLe, Bool.or_eq_true, decide_eq_true_eq]
      exact le_total _ _
  simpa [nameLe] using hle

theorem serializedMembers_texts {ms : List (Str × Data ν)}
    (h : ∀ m ∈ ms, Serialized (fun n t => t = f n) m.2 (serialize f m.2)) :
    SerializedMembers (fun n t => t = f n) ms ((memberTexts f ms).map Prod.snd) := by
  induction ms with
  | nil => exact .nil
  | cons m ms ih =>
    rw [memberTexts, List.map_cons]
    exact .cons (h m List.mem_cons_self) (ih fun n hn => h n (List.mem_cons_of_mem m hn))

mutual

/-- **The text computed is the one the rules derive.** -/
theorem serialized_serialize : ∀ {d : Data ν}, d.Unique → Serialized (fun n t => t = f n) d (serialize f d)
  | .null, _ => .null
  | .bool true, _ => .true
  | .bool false, _ => .false
  | .num _, _ => .num rfl
  | .str s, _ => .str s
  | .arr _, hu => .arr (serialized_items hu)
  | .obj ms, ⟨hn, hu⟩ => by
    have hp := List.mergeSort_perm ms nameLe
    have hsorted := increasing_of_nodup (pairwise_mergeSort_nameLe ms) ((hp.map Prod.fst).nodup_iff.mpr hn)
    rw [serialize, sort_memberTexts]
    refine .obj hp.symm hsorted (serializedMembers_texts f fun m hm => ?_)
    exact serialized_members hu m (hp.mem_iff.mp hm)

theorem serialized_items : ∀ {vs : List (Data ν)}, UniqueItems vs →
    SerializedItems (fun n t => t = f n) vs (itemTexts f vs)
  | [], _ => .nil
  | _ :: _, ⟨hv, hvs⟩ => .cons (serialized_serialize hv) (serialized_items hvs)

theorem serialized_members : ∀ {ms : List (Str × Data ν)}, UniqueMembers ms →
    ∀ m ∈ ms, Serialized (fun n t => t = f n) m.2 (serialize f m.2)
  | [], _, _, h => by cases h
  | (_, _) :: _, ⟨hv, hms⟩, m, h => by
    rcases List.mem_cons.mp h with rfl | h
    · exact serialized_serialize hv
    · exact serialized_members hms m h

end

/-! ### Integers -/

/-- ECMAScript's `Number::toString` at an integer: zero; a minus and the negated integer; or the
digits of an `s` which is no multiple of ten, followed by as many zeros as it takes, if all
are at most 21. -/
inductive EcmaInteger : ℤ → Str → Prop
  /-- Zero. -/
  | zero : EcmaInteger 0 ['0']
  /-- A negative integer. -/
  | neg {x : ℤ} {t : Str} : x < 0 → EcmaInteger (-x) t → EcmaInteger x ('-' :: t)
  /-- A positive integer. -/
  | pos {s j : ℕ} : ¬ 10 ∣ s → (Nat.toDigits 10 s).length + j ≤ 21 →
    EcmaInteger (s * 10 ^ j : ℕ) (Nat.toDigits 10 s ++ List.replicate j '0')

/-- An integer in decimal. -/
def decimal (x : ℤ) : Str := if x < 0 then '-' :: Nat.toDigits 10 x.natAbs else Nat.toDigits 10 x.natAbs

/-- A power of ten adds zeros. -/
theorem toDigits_mul_pow {s : ℕ} (hs : 0 < s) (j : ℕ) :
    Nat.toDigits 10 (s * 10 ^ j) = Nat.toDigits 10 s ++ List.replicate j '0' := by
  induction j with
  | zero => simp
  | succ j ih =>
    have hpos : 0 < s * 10 ^ j := Nat.mul_pos hs (Nat.pow_pos (by decide))
    have hdigits := Nat.toDigits_append_toDigits (b := 10) (d := 0) (by decide) hpos (by decide)
    calc Nat.toDigits 10 (s * 10 ^ (j + 1))
        = Nat.toDigits 10 (10 * (s * 10 ^ j) + 0) := by rw [Nat.pow_succ]; congr 1; ring
      _ = Nat.toDigits 10 (s * 10 ^ j) ++ ['0'] := hdigits.symm
      _ = Nat.toDigits 10 s ++ List.replicate (j + 1) '0' := by
        rw [ih, List.append_assoc, List.replicate_succ']

theorem pos_of_not_dvd {s : ℕ} (h : ¬ 10 ∣ s) : 0 < s :=
  Nat.pos_of_ne_zero fun hs => h (hs ▸ Nat.dvd_zero 10)

theorem decimal_of_ecmaInteger {x : ℤ} {t : Str} (h : EcmaInteger x t) : t = decimal x := by
  induction h with
  | zero => rfl
  | @neg x t hx _ ih =>
    have hpos : ¬ -x < 0 := by omega
    rw [decimal, if_neg hpos, Int.natAbs_neg] at ih
    rw [decimal, if_pos hx, ih]
  | @pos s j hs _ =>
    have hpos : ¬ ((s * 10 ^ j : ℕ) : ℤ) < 0 := by omega
    rw [decimal, if_neg hpos, Int.natAbs_natCast, toDigits_mul_pow (pos_of_not_dvd hs)]

theorem ecmaInteger_decimal {x : ℤ} (hx : x.natAbs < 10 ^ 21) : EcmaInteger x (decimal x) := by
  have hnat : ∀ n : ℕ, n < 10 ^ 21 → EcmaInteger n (Nat.toDigits 10 n) := by
    intro n hn
    rcases Nat.eq_zero_or_pos n with rfl | hpos
    · exact .zero
    · -- the zeros at the end of the digits are those of the power of ten
      obtain ⟨j, s, hs, rfl⟩ := Nat.exists_eq_pow_mul_and_not_dvd hpos.ne' 10 (by decide)
      have hlen := Nat.toDigits_length 10 (s * 10 ^ j) 21 (by decide) (Nat.mul_comm _ s ▸ hn)
      rw [toDigits_mul_pow (pos_of_not_dvd hs), List.length_append, List.length_replicate] at hlen
      rw [Nat.mul_comm, toDigits_mul_pow (pos_of_not_dvd hs)]
      exact .pos hs hlen
  unfold decimal
  split_ifs with hneg
  · apply EcmaInteger.neg hneg
    have h := hnat x.natAbs hx
    rwa [Int.ofNat_natAbs_of_nonpos hneg.le] at h
  · have h := hnat x.natAbs hx
    rwa [Int.natAbs_of_nonneg (not_lt.mp hneg)] at h

end AcpCore.Rfc8785
