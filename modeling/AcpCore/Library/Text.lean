import Mathlib.Data.List.Lex
import Mathlib.Data.List.Flatten
import Mathlib.Order.Basic

/-!
# Text: characters, bytes and code units

Strings are lists of Unicode scalar values (`Str`), byte strings are lists of
bytes (`Bytes`). This module has the two encodings of a string that the rest of
the development reads and compares: UTF-8 (`utf8`, with its decoder
`utf8Decode`) and UTF-16 (`encodeUtf16`), and the order of strings by UTF-16
code unit.

* `utf8Decode_utf8`, `utf8_of_utf8Decode` — decoding inverts encoding, both ways.
* `utf8DecodeLossy_of_utf8Decode` — what decodes is not changed where a decoder replaces
  what does not.
* `utf8_prefix` — a byte prefix of a string's encoding that is itself valid
  UTF-8 is the encoding of a prefix of the string.
* `encodeUtf16_injective` — different strings have different code units, so the
  order by code units is a total order on strings.
-/

namespace AcpCore.Text

/-- A string: its Unicode scalar values. -/
abbrev Str := List Char

/-- A byte string. -/
abbrev Bytes := List UInt8

/-! ### UTF-8 -/

/-- The UTF-8 bytes of a string. -/
def utf8 (s : Str) : Bytes := s.flatMap String.utf8EncodeChar

@[simp] theorem utf8_nil : utf8 [] = [] := rfl

@[simp] theorem utf8_cons (c : Char) (s : Str) : utf8 (c :: s) = String.utf8EncodeChar c ++ utf8 s := rfl

@[simp] theorem utf8_append (s t : Str) : utf8 (s ++ t) = utf8 s ++ utf8 t := List.flatMap_append

/-- The character whose encoding the bytes begin with. -/
def decodeChar (bs : Bytes) : Option Char := (bs.take 4).toByteArray.utf8DecodeChar? 0

theorem length_encodeChar_le (c : Char) : (String.utf8EncodeChar c).length ≤ 4 := by
  rw [String.length_utf8EncodeChar]; exact c.utf8Size_le_four

theorem decodeChar_encodeChar (c : Char) (bs : Bytes) : decodeChar (String.utf8EncodeChar c ++ bs) = some c := by
  unfold decodeChar
  rw [List.take_append, List.take_of_length_le (length_encodeChar_le c), List.toByteArray_append]
  exact ByteArray.utf8DecodeChar?_utf8EncodeChar_append

theorem eq_encodeChar_of_decodeChar {bs : Bytes} {c : Char} (h : decodeChar bs = some c) :
    ∃ r, bs = String.utf8EncodeChar c ++ r := by
  obtain ⟨l, hl⟩ := ByteArray.exists_of_utf8DecodeChar?_eq_some h
  have hl' : (bs.take 4).toByteArray = (String.utf8EncodeChar c ++ l.data.toList).toByteArray := by
    rw [hl, List.toByteArray_append]
    congr 1
    exact ByteArray.ext (by simp)
  rw [List.toByteArray_inj] at hl'
  exact ⟨l.data.toList ++ bs.drop 4, by rw [← List.append_assoc, ← hl', List.take_append_drop]⟩

/-- Decode at most `n` characters, all of the bytes. -/
def decodeUpTo : ℕ → Bytes → Option Str
  | _, [] => some []
  | 0, _ :: _ => none
  | n + 1, b :: bs =>
    match decodeChar (b :: bs) with
    | none => none
    | some c => (decodeUpTo n ((b :: bs).drop c.utf8Size)).map (c :: ·)

/-- The string whose UTF-8 encoding the bytes are, if there is one. -/
def utf8Decode (bs : Bytes) : Option Str := decodeUpTo bs.length bs

theorem decodeUpTo_utf8 (s : Str) : ∀ n, (utf8 s).length ≤ n → decodeUpTo n (utf8 s) = some s := by
  induction s with
  | nil => intro n _; cases n <;> rfl
  | cons c s ih =>
    intro n hn
    have hpos : 0 < (String.utf8EncodeChar c).length := by
      rw [String.length_utf8EncodeChar]; exact c.utf8Size_pos
    have hdec : decodeChar (utf8 (c :: s)) = some c := decodeChar_encodeChar c (utf8 s)
    have hdrop : (utf8 (c :: s)).drop c.utf8Size = utf8 s := by
      rw [utf8_cons, ← String.length_utf8EncodeChar, List.drop_left]
    rw [utf8_cons, List.length_append] at hn
    cases n with
    | zero => omega
    | succ n =>
      rcases hb : utf8 (c :: s) with _ | ⟨b, bs⟩
      · rw [utf8_cons, List.append_eq_nil_iff] at hb
        rw [hb.1] at hpos
        exact absurd hpos (Nat.lt_irrefl 0)
      · rw [decodeUpTo, ← hb, hdec]
        simp only [hdrop, ih n (by omega), Option.map_some]

/-- Decoding inverts encoding. -/
@[simp] theorem utf8Decode_utf8 (s : Str) : utf8Decode (utf8 s) = some s := decodeUpTo_utf8 s _ le_rfl

theorem utf8_of_decodeUpTo {n : ℕ} : ∀ {bs : Bytes} {s : Str}, decodeUpTo n bs = some s → utf8 s = bs := by
  induction n with
  | zero =>
    intro bs s h
    cases bs with
    | nil => simp only [decodeUpTo, Option.some.injEq] at h; subst h; rfl
    | cons b bs => simp [decodeUpTo] at h
  | succ n ih =>
    intro bs s h
    cases bs with
    | nil => simp only [decodeUpTo, Option.some.injEq] at h; subst h; rfl
    | cons b bs =>
      rw [decodeUpTo] at h
      split at h
      · cases h
      · rename_i c hc
        rw [Option.map_eq_some_iff] at h
        obtain ⟨t, ht, rfl⟩ := h
        obtain ⟨r, hr⟩ := eq_encodeChar_of_decodeChar hc
        rw [hr, ← String.length_utf8EncodeChar, List.drop_left] at ht
        rw [utf8_cons, ih ht, hr]

/-- Bytes that decode are the encoding of what they decode to. -/
theorem utf8_of_utf8Decode {bs : Bytes} {s : Str} (h : utf8Decode bs = some s) : utf8 s = bs :=
  utf8_of_decodeUpTo h

theorem utf8_injective : Function.Injective utf8 := by
  intro s t h
  have := congrArg utf8Decode h
  simpa using this

/-- The second byte may follow the first in the encoding of a character of three or four bytes. -/
def mayFollow (a b : UInt8) : Bool :=
  if a = 0xE0 then 0xA0 ≤ b && b ≤ 0xBF
  else if a = 0xED then 0x80 ≤ b && b ≤ 0x9F
  else if a = 0xF0 then 0x90 ≤ b && b ≤ 0xBF
  else if a = 0xF4 then 0x80 ≤ b && b ≤ 0x8F
  else 0xE1 ≤ a && a ≤ 0xF3 && 0x80 ≤ b && b ≤ 0xBF

/-- Of bytes that begin with no character, how many are replaced together: as many as begin one, and at least one. -/
def brokenLength : Bytes → ℕ
  | a :: b :: bs =>
    if mayFollow a b then
      match bs with
      | c :: _ => if 0xF0 ≤ a ∧ 0x80 ≤ c ∧ c ≤ 0xBF then 3 else 2
      | [] => 2
    else 1
  | _ => 1

/-- U+FFFD. -/
def replacement : Char := Char.ofNat 0xFFFD

/-- Decode at most `n` characters, where what begins with none is replaced. -/
def decodeLossyUpTo : ℕ → Bytes → Str
  | _, [] => []
  | 0, _ :: _ => []
  | n + 1, b :: bs =>
    match decodeChar (b :: bs) with
    | none => replacement :: decodeLossyUpTo n ((b :: bs).drop (brokenLength (b :: bs)))
    | some c => c :: decodeLossyUpTo n ((b :: bs).drop c.utf8Size)

/-- The string of some bytes, with U+FFFD for each maximal part that breaks off the encoding of a character. -/
def utf8DecodeLossy (bs : Bytes) : Str := decodeLossyUpTo bs.length bs

/-- What decodes is not changed. -/
theorem utf8DecodeLossy_of_utf8Decode {bs : Bytes} {s : Str} (h : utf8Decode bs = some s) : utf8DecodeLossy bs = s := by
  have hupTo : ∀ (n : ℕ) (bs : Bytes) (s : Str), decodeUpTo n bs = some s → decodeLossyUpTo n bs = s := by
    intro n
    induction n with
    | zero =>
      intro bs s h
      cases bs with
      | nil => exact Option.some.inj h
      | cons b bs => cases h
    | succ n ih =>
      intro bs s h
      cases bs with
      | nil => exact Option.some.inj h
      | cons b bs =>
        rw [decodeUpTo] at h
        rw [decodeLossyUpTo]
        cases hc : decodeChar (b :: bs) with
        | none =>
          rw [hc] at h
          cases h
        | some c =>
          rw [hc] at h
          obtain ⟨t, ht, rfl⟩ := Option.map_eq_some_iff.mp h
          exact congrArg (c :: ·) (ih _ t ht)
  exact hupTo _ bs s h

/-- A character, one that breaks off, and a byte that begins none. -/
example : utf8DecodeLossy [0x61, 0xF0, 0x9F, 0xA6, 0x62, 0xFF] = ['a', replacement, 'b', replacement] := by decide +kernel

/-- Encoded characters are self-delimiting. -/
theorem encodeChar_append_inj {c d : Char} {r s : Bytes}
    (h : String.utf8EncodeChar c ++ r = String.utf8EncodeChar d ++ s) : c = d ∧ r = s := by
  have hc := decodeChar_encodeChar c r
  rw [h, decodeChar_encodeChar d s, Option.some.injEq] at hc
  subst hc
  exact ⟨rfl, List.append_cancel_left h⟩

/-- A prefix of an encoded string that is itself an encoded string encodes a prefix. -/
theorem utf8_prefix {p s : Str} (h : utf8 p <+: utf8 s) : p <+: s := by
  induction p generalizing s with
  | nil => exact List.nil_prefix
  | cons c p ih =>
    obtain ⟨r, hr⟩ := h
    rw [utf8_cons, List.append_assoc] at hr
    cases s with
    | nil =>
      rw [utf8_nil, List.append_eq_nil_iff] at hr
      exact absurd hr.1 String.utf8EncodeChar_ne_nil
    | cons d s =>
      rw [utf8_cons] at hr
      obtain ⟨rfl, htail⟩ := encodeChar_append_inj hr
      exact (List.prefix_cons_inj c).mpr (ih ⟨r, htail⟩)

/-- A byte below `0x80` in the encoding of a character is the whole character. -/
theorem toNat_of_mem_encodeChar {c : Char} {b : UInt8} (hb : b.toNat < 0x80) (h : b ∈ String.utf8EncodeChar c) :
    c.toNat = b.toNat := by
  rw [String.utf8EncodeChar] at h
  split_ifs at h with h₁ h₂ h₃ <;> simp only [List.mem_cons, List.not_mem_nil, or_false] at h
  · subst h
    rw [UInt8.toNat_ofNat', Nat.mod_eq_of_lt (by omega)]
    rfl
  -- every byte of a longer encoding is from `0x80` on
  · rcases h with rfl | rfl <;> (rw [UInt8.toNat_ofNat'] at hb; omega)
  · rcases h with rfl | rfl | rfl <;> (rw [UInt8.toNat_ofNat'] at hb; omega)
  · rcases h with rfl | rfl | rfl | rfl <;> (rw [UInt8.toNat_ofNat'] at hb; omega)

/-- An ASCII byte is in the encoding of a string only where its character is in the string. -/
theorem exists_of_mem_utf8 {s : Str} {b : UInt8} (hb : b.toNat < 0x80) (h : b ∈ utf8 s) : ∃ c ∈ s, c.toNat = b.toNat := by
  obtain ⟨c, hc, hbc⟩ := List.mem_flatMap.mp h
  exact ⟨c, hc, toNat_of_mem_encodeChar hb hbc⟩

/-! ### Separated pieces -/

/-- The pieces with a separator between neighbours. -/
def sepBy {α : Type*} (sep : α) : List (List α) → List α
  | [] => []
  | [p] => p
  | p :: q :: ps => p ++ sep :: sepBy sep (q :: ps)

@[simp] theorem sepBy_singleton {α : Type*} (sep : α) (p : List α) : sepBy sep [p] = p := rfl

theorem sepBy_cons_cons {α : Type*} (sep : α) (p q : List α) (ps : List (List α)) :
    sepBy sep (p :: q :: ps) = p ++ sep :: sepBy sep (q :: ps) := rfl

/-- Encoding pieces separated by an ASCII character. -/
theorem utf8_sepBy {c : Char} {b : UInt8} (hc : String.utf8EncodeChar c = [b]) (ps : List Str) :
    utf8 (sepBy c ps) = sepBy b (ps.map utf8) := by
  induction ps with
  | nil => rfl
  | cons p ps ih =>
    cases ps with
    | nil => rfl
    | cons q ps =>
      rw [sepBy_cons_cons, utf8_append, utf8_cons, hc, ih]
      rfl

/-! ### UTF-16 -/

/-- The UTF-16 code units of a character: one, or a surrogate pair. -/
def encodeUtf16Char (c : Char) : List ℕ :=
  if c.toNat < 0x10000 then [c.toNat]
  else [0xD800 + (c.toNat - 0x10000) / 0x400, 0xDC00 + (c.toNat - 0x10000) % 0x400]

/-- The UTF-16 code units of a string. -/
def encodeUtf16 (s : Str) : List ℕ := s.flatMap encodeUtf16Char

/-- A character is no surrogate. -/
theorem toNat_valid (c : Char) : c.toNat < 0xD800 ∨ (0xDFFF < c.toNat ∧ c.toNat < 0x110000) := c.valid

/-- The code units of a character are self-delimiting. -/
theorem encodeUtf16Char_append_inj {c d : Char} {r s : List ℕ}
    (h : encodeUtf16Char c ++ r = encodeUtf16Char d ++ s) : c = d ∧ r = s := by
  have hc := toNat_valid c
  have hd := toNat_valid d
  unfold encodeUtf16Char at h
  split_ifs at h <;> simp only [List.cons_append, List.nil_append, List.cons.injEq] at h
  · exact ⟨Char.toNat_inj.mp h.1, h.2⟩
  · omega
  · omega
  · exact ⟨Char.toNat_inj.mp (by omega), h.2.2⟩

theorem encodeUtf16Char_ne_nil (c : Char) : encodeUtf16Char c ≠ [] := by
  unfold encodeUtf16Char; split_ifs <;> simp

theorem encodeUtf16_injective : Function.Injective encodeUtf16 := by
  intro s t h
  induction s generalizing t with
  | nil =>
    cases t with
    | nil => rfl
    | cons d t => exact absurd (List.append_eq_nil_iff.mp h.symm).1 (encodeUtf16Char_ne_nil d)
  | cons c s ih =>
    cases t with
    | nil => exact absurd (List.append_eq_nil_iff.mp h).1 (encodeUtf16Char_ne_nil c)
    | cons d t =>
      have hst : encodeUtf16Char c ++ encodeUtf16 s = encodeUtf16Char d ++ encodeUtf16 t := h
      obtain ⟨rfl, htail⟩ := encodeUtf16Char_append_inj hst
      rw [ih htail]

/-- Compare two sequences of code units, the first difference deciding. -/
def cmpUnits : List ℕ → List ℕ → Ordering
  | x :: a, y :: b =>
    match compare x y with
    | .eq => cmpUnits a b
    | ord => ord
  | _ :: _, [] => .gt
  | [], _ :: _ => .lt
  | [], [] => .eq

/-- `cmpUnits` is the lexicographic order. -/
theorem cmpUnits_eq_gt_iff (a b : List ℕ) : cmpUnits a b = .gt ↔ b < a := by
  induction a generalizing b with
  | nil => cases b <;> simp [cmpUnits]
  | cons x a ih =>
    cases b with
    | nil => simp [cmpUnits]
    | cons y b =>
      rw [cmpUnits, List.cons_lt_cons_iff]
      rcases lt_trichotomy x y with h | rfl | h
      · simp [compare_lt_iff_lt.mpr h, h.not_gt, h.ne']
      · simp [ih]
      · simp [compare_gt_iff_gt.mpr h, h]

theorem cmpUnits_ne_gt_iff (a b : List ℕ) : cmpUnits a b ≠ .gt ↔ a ≤ b := by
  rw [ne_eq, cmpUnits_eq_gt_iff, not_lt]

end AcpCore.Text
