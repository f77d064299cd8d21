import AcpCore.Wire.Reader
import AcpCore.Wire.Reading
import Mathlib.Data.List.DropRight

/-!
# An instance of the crates

`Crates.plain` reads JSON with the reader of the library, so that all that is
assumed of `serde_json` can be seen to hold of something (`whitespace_plain`,
`readsText_plain`, `printNumber_plain_injective`). Its hash is a table: `blake3`'s
digests of the inputs it lists. Literals that are no integers of 64 bits are not
read, and doubles are not printed as `serde_json` prints them; none occurs where
the instance is used.

The frames at the end, a request under two ids and a response in two spellings,
are what the examples of later modules are made of.
-/

namespace AcpCore.Wire

open AcpCore.Text AcpCore.Json

/-! ### Reading numbers -/

/-- The number of a literal: an integer of 64 bits. -/
def Number.ofLiteral (l : Literal) : Option Number :=
  if l.1.head? = some '-' then
    (readNat l.1.tail).bind fun n => if h : 0 < n ∧ n ≤ 2 ^ 63 then some (.negInt ⟨n - 1, by omega⟩) else none
  else (readNat l.1).bind fun n => if h : n < 2 ^ 64 then some (.posInt ⟨n, h⟩) else none

/-! ### The instance -/

/-- A literal for a double: its bits, as a fraction. -/
def printBits (x : F64) : Literal :=
  ⟨'0' :: '.' :: Nat.toDigits 10 x.bits, by
    have hd : digits (Nat.toDigits 10 x.bits) = some [] := by
      cases hs : Nat.toDigits 10 x.bits with
      | nil => exact absurd hs Nat.toDigits_ne_nil
      | cons c s =>
        have hall : ∀ e ∈ c :: s, e.isDigit = true := fun e he => isDigit_of_mem_decimal (hs ▸ he)
        rw [digits, if_pos (hall c List.mem_cons_self),
          dropWhile_digits fun e he => hall e (List.mem_cons_of_mem c he)]
    rw [number, minus, if_neg (by decide), int, if_pos rfl, Option.bind_some, frac, if_pos rfl, hd]
    rfl⟩

/-- A hash by a table. -/
def tableHash (table : List (Bytes × Digest)) (b : Bytes) : Digest :=
  (table.lookup b).getD ⟨List.replicate 32 0, List.length_replicate⟩

/-- The instance: the library's reader, and a table for the hash. -/
def Crates.plain (table : List (Bytes × Digest)) : Crates where
  fromSlice b := ((utf8Decode (b.rdropWhile (· == 0x0D))).bind parse).bind (Value.read Number.ofLiteral)
  fromSlice_unique h := by
    obtain ⟨t, -, ht⟩ := Option.bind_eq_some_iff.mp h
    exact Value.unique_read ht
  readStr := parse
  readSlice b := (utf8Decode b).bind fun s => parse (compact false s)
  printF64 := printBits
  blake3 := tableHash table

variable (table : List (Bytes × Digest))

theorem whitespace_plain : (Crates.plain table).Whitespace where
  trailing_cr b := by
    simp only [Crates.plain]
    rw [List.rdropWhile_concat_pos _ _ _ (by decide)]
  empty := by
    simp only [Crates.plain]
    rw [List.rdropWhile_nil]
    rfl

theorem readsText_plain : (Crates.plain table).ReadsText where
  compact t _ := parse_render t
  pretty t _ := by
    have h := compact_renderPretty t 0 []
    rw [List.append_nil, compact, List.append_nil] at h
    simp only [Crates.plain]
    rw [utf8Decode_utf8, Option.bind_some, h, parse_render]
  cut _ _ := parse_cut

theorem fractional_printBits (x : F64) : (printBits x).Fractional :=
  ⟨'.', List.mem_cons_of_mem _ List.mem_cons_self, .inl rfl⟩

theorem printBits_injective : Function.Injective printBits := by
  intro x y h
  have hdigits : Nat.toDigits 10 x.bits = Nat.toDigits 10 y.bits :=
    (List.cons.inj (List.cons.inj (congrArg Subtype.val h)).2).2
  obtain ⟨x, hx⟩ := x
  obtain ⟨y, hy⟩ := y
  cases Fin.ext (natLit_injective (Subtype.ext hdigits))
  rfl

theorem printNumber_plain_injective : Function.Injective (Crates.plain table).printNumber :=
  printNumber_injective _ printBits_injective fractional_printBits

/-- A tree's compact text is read as the value of the tree. -/
theorem fromSlice_render (t : Tree) :
    (Crates.plain table).fromSlice (utf8 (render t)) = Value.read Number.ofLiteral t := by
  have hlast : (utf8 (render t)).rdropWhile (· == 0x0D) = utf8 (render t) := by
    rw [List.rdropWhile_eq_self_iff]
    intro hne h
    have := control_utf8_render (List.getLast_mem hne)
    rw [beq_iff_eq.mp h] at this
    exact absurd this (by decide)
  simp only [Crates.plain]
  rw [hlast, utf8Decode_utf8, Option.bind_some, parse_render, Option.bind_some]

/-- The frame of a tree's compact text, if the text is read as its value. -/
theorem parse_text {X : Crates} {t : Tree} {f : Frame} (hv : X.fromSlice (utf8 (render t)) = some f.value)
    (he : envelope f.value = .ok (f.kind, f.method, f.id)) (hraw : f.raw = utf8 (render t)) :
    Frame.parse X f.raw = .ok f := by
  rw [Frame.parse_eq_ok_iff]
  refine ⟨?_, hraw ▸ hv, he, rfl⟩
  rw [hraw]
  exact newline_notMem_render t

/-- The frame of an object's compact text. -/
theorem parse_render_frame (ms : List (Str × Tree)) {f : Frame}
    (hv : Value.read Number.ofLiteral (.obj ms) = some f.value) (he : envelope f.value = .ok (f.kind, f.method, f.id))
    (hraw : f.raw = utf8 (render (.obj ms))) :
    Frame.parse (Crates.plain table) f.raw = .ok f :=
  parse_text ((fromSlice_render table (.obj ms)).trans hv) he hraw

/-! ### A request and its response -/

/-- `"jsonrpc":"2.0"`. -/
def versionMember : Str × Tree := (jsonrpcKey, .str ['2', '.', '0'])

/-- `{"jsonrpc":"2.0","id":n,"method":"m"}`. -/
def requestTree (n : Fin (2 ^ 63)) : List (Str × Tree) :=
  [versionMember, (idKey, .num (natLit n)), (methodKey, .str ['m'])]

/-- The id `n`. -/
def sampleId (n : Fin (2 ^ 63)) : Id := .num ⟨n, by omega, by have := n.isLt; omega⟩

/-- A request for the method `m`. -/
def sampleRequest (n : Fin (2 ^ 63)) : Frame where
  kind := .request
  method := some ['m']
  id := some (sampleId n)
  value := .object [(jsonrpcKey, .string ['2', '.', '0']), (idKey, .number (.posInt ⟨n, by have := n.isLt; omega⟩)),
    (methodKey, .string ['m'])]
  value_unique := ⟨by show [jsonrpcKey, idKey, methodKey].Nodup; decide, trivial, trivial, trivial, trivial⟩
  raw := utf8 (render (.obj (requestTree n)))

/-- `{"jsonrpc":"2.0","id":1,"result":0}`. -/
def responseTree : List (Str × Tree) :=
  [versionMember, (idKey, .num (natLit 1)), (resultKey, .num (natLit 0))]

/-- The response to request 1. -/
def sampleResponse : Frame where
  kind := .response
  method := none
  id := some (sampleId 1)
  value := .object [(jsonrpcKey, .string ['2', '.', '0']), (idKey, .number (.posInt 1)), (resultKey, .number (.posInt 0))]
  value_unique := ⟨by decide, trivial, trivial, trivial, trivial⟩
  raw := utf8 (render (.obj responseTree))

/-- `{"id":1,"jsonrpc":"2.0","result":0}`. -/
def responseTree' : List (Str × Tree) :=
  [(idKey, .num (natLit 1)), versionMember, (resultKey, .num (natLit 0))]

/-- The same response, spelled with its members in another order. -/
def sampleResponse' : Frame where
  kind := .response
  method := none
  id := some (sampleId 1)
  value := .object [(idKey, .number (.posInt 1)), (jsonrpcKey, .string ['2', '.', '0']), (resultKey, .number (.posInt 0))]
  value_unique := ⟨by decide, trivial, trivial, trivial, trivial⟩
  raw := utf8 (render (.obj responseTree'))

theorem read_requestTree (n : Fin (2 ^ 63)) :
    Value.read Number.ofLiteral (.obj (requestTree n)) = some (sampleRequest n).value := by
  have hn : Number.ofLiteral (natLit n) = some (.posInt ⟨n, by have := n.isLt; omega⟩) := by
    have hminus : (natLit n).1.head? ≠ some '-' := fun h =>
      absurd (isDigit_of_mem_decimal (n := n) (List.mem_of_head? h)) (by decide)
    rw [Number.ofLiteral, if_neg hminus, readNat_natLit, Option.bind_some, dif_pos]
  simp only [requestTree, Value.read, readMembers, versionMember, hn]
  rfl

theorem envelope_sampleRequest (n : Fin (2 ^ 63)) : envelope (sampleRequest n).value
    = .ok ((sampleRequest n).kind, (sampleRequest n).method, (sampleRequest n).id) := by
  have hid : (Map.get [(jsonrpcKey, .string ['2', '.', '0']), (idKey, .number (.posInt ⟨n, by have := n.isLt; omega⟩)),
      (methodKey, .string ['m'])] idKey).bind Id.fromValue = (sampleRequest n).id := by
    show (Number.asI64 (.posInt ⟨n, _⟩)).map Id.num = _
    rw [Number.asI64, dif_pos n.isLt]
    rfl
  simp only [envelope, sampleRequest, Value.asObject] at hid ⊢
  rw [hid]
  rfl

theorem parse_sampleRequest (n : Fin (2 ^ 63)) :
    Frame.parse (Crates.plain table) (sampleRequest n).raw = .ok (sampleRequest n) :=
  parse_render_frame table (requestTree n) (read_requestTree n) (envelope_sampleRequest n) rfl

theorem parse_sampleResponse : Frame.parse (Crates.plain table) sampleResponse.raw = .ok sampleResponse :=
  parse_render_frame table responseTree rfl rfl rfl

theorem parse_sampleResponse' : Frame.parse (Crates.plain table) sampleResponse'.raw = .ok sampleResponse' :=
  parse_render_frame table responseTree' rfl rfl rfl

/-- `blake3`'s digests of the canonical forms of these frames. -/
def sampleDigests : List (Bytes × Digest) :=
  [(utf8 (render (.obj [(idKey, .num (natLit 1)), versionMember, (methodKey, .str ['m'])])),
    ⟨[0x5e, 0xaa, 0x2b, 0xaa, 0x2c, 0x38, 0xfb, 0xe6, 0xd2, 0xc5, 0xd1, 0x3e, 0x66, 0x09, 0x0c, 0x8a,
    0x65, 0xa0, 0x6a, 0x75, 0x4c, 0xfd, 0xa8, 0xec, 0x4a, 0x3a, 0x3f, 0x2d, 0x61, 0x22, 0x96, 0x2f], rfl⟩),
   (utf8 (render (.obj [(idKey, .num (natLit 7)), versionMember, (methodKey, .str ['m'])])),
    ⟨[0x80, 0x20, 0xa5, 0x94, 0x7f, 0x0a, 0xff, 0x94, 0x5f, 0x4f, 0x21, 0x63, 0x9e, 0x31, 0xa3, 0x4f,
    0x0a, 0x10, 0xda, 0x0a, 0x1e, 0x47, 0x66, 0xdd, 0x57, 0x04, 0x28, 0x1d, 0x26, 0x39, 0x20, 0x66], rfl⟩),
   (utf8 (render (.obj responseTree')),
    ⟨[0x20, 0xe4, 0x06, 0x50, 0x9a, 0xd9, 0xb1, 0x4b, 0xda, 0x7a, 0x4e, 0x92, 0x62, 0xd8, 0x90, 0xe4,
    0x07, 0xcc, 0xaa, 0xb5, 0x3f, 0x61, 0xdf, 0x46, 0x8b, 0x0a, 0x22, 0x69, 0xc7, 0x0d, 0x05, 0xf4], rfl⟩)]

theorem payloadHash_sampleRequest :
    ((sampleRequest 1).payloadHash (.plain sampleDigests)) = (sampleDigests.map Prod.snd)[0] := by decide +kernel

theorem payloadHash_sampleRequest' :
    ((sampleRequest 7).payloadHash (.plain sampleDigests)) = (sampleDigests.map Prod.snd)[1] := by decide +kernel

theorem payloadHash_sampleResponse :
    sampleResponse.payloadHash (.plain sampleDigests) = (sampleDigests.map Prod.snd)[2] := by decide +kernel

end AcpCore.Wire
