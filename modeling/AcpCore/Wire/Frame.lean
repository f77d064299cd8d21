import AcpCore.Wire.Canonical

/-!
# Frames

A frame is one line of JSON-RPC 2.0: its kind, method and id, the parsed value,
and the bytes it was parsed from. `Frame.parse` makes one from a line; its
identity is the `blake3` digest of its canonical form (`payloadHash`).

## What is proved

* `Frame.parse_eq_ok_iff` — what `Frame.parse` accepts and what it returns;
* `envelope_of_same` — the classification looks at the value up to the order of
  members only, so a frame parsed again from another spelling is the same frame;
* `hexWithPrefix_injective` — a hash string determines the digest;
* `payloadHash_of_same` — the payload hash does not see the order of members.
-/

namespace AcpCore.Wire

open AcpCore.Text

/-! ### Frames -/

/-- `Kind`. -/
inductive Kind where
  /-- `method` is present and `id` is present. -/
  | request
  /-- `method` is present and `id` is absent. -/
  | notification
  /-- `method` is absent and either `result` or `error` is present. -/
  | response
  deriving DecidableEq

/-- `Id`. -/
inductive Id where
  /-- `Id::Num`. -/
  | num (n : I64)
  /-- `Id::Str`. -/
  | str (s : Str)
  /-- `Id::Null`. -/
  | null
  deriving DecidableEq

/-- `Id::from_value`. -/
def Id.fromValue : Value → Option Id
  | .number n => n.asI64.map .num
  | .string s => some (.str s)
  | .null => some .null
  | _ => none

/-- `Id::to_value`. -/
def Id.toValue : Id → Value
  | .num n => .number (.ofI64 n)
  | .str s => .string s
  | .null => .null

theorem Id.fromValue_toValue (i : Id) : Id.fromValue i.toValue = some i := by
  cases i with
  | num n => rw [toValue, fromValue, Number.asI64_ofI64, Option.map_some]
  | str s => rfl
  | null => rfl

/-- An id is read off one value only. -/
theorem Id.toValue_of_fromValue {v : Value} {i : Id} (h : Id.fromValue v = some i) : i.toValue = v := by
  cases v with
  | number n =>
    obtain ⟨k, hk, rfl⟩ := Option.map_eq_some_iff.mp h
    rw [toValue, Number.ofI64_of_asI64 hk]
  | string s => cases h; rfl
  | null => cases h; rfl
  | bool | array | object => cases h

/-- `Frame`. That the value's maps have no name twice is `serde_json`'s. -/
structure Frame where
  /-- The kind. -/
  kind : Kind
  /-- `method` for requests and notifications. -/
  method : Option Str
  /-- `id` for requests and responses. -/
  id : Option Id
  /-- The parsed value, the entire envelope. -/
  value : Value
  /-- No map in it has a name twice. -/
  value_unique : value.Unique
  /-- The bytes of the line, without the newline. -/
  raw : Bytes

/-- `WireError`. -/
inductive WireError where
  /-- `Io`. -/
  | io
  /-- `Utf8`. -/
  | utf8
  /-- `Json`. -/
  | json
  /-- `NotJsonRpc`. -/
  | notJsonRpc
  /-- `EmbeddedNewline`. -/
  | embeddedNewline
  /-- `UnclassifiableFrame`. -/
  | unclassifiableFrame
  /-- `Eof`. -/
  | eof
  deriving DecidableEq

/-! ### Parsing -/

/-- `"jsonrpc"`. -/
def jsonrpcKey : Str := ['j', 's', 'o', 'n', 'r', 'p', 'c']
/-- `"method"`. -/
def methodKey : Str := ['m', 'e', 't', 'h', 'o', 'd']
/-- `"id"`. -/
def idKey : Str := ['i', 'd']
/-- `"result"`. -/
def resultKey : Str := ['r', 'e', 's', 'u', 'l', 't']
/-- `"error"`. -/
def errorKey : Str := ['e', 'r', 'r', 'o', 'r']

/-- The kind of an object by its method, its id and whether it has a result or an error. -/
def classify (method : Option Str) (id : Option Id) (hasOutcome : Bool) : Option Kind :=
  match method.isSome, id.isSome, hasOutcome with
  | true, true, false => some .request
  | true, false, false => some .notification
  | false, _, true => some .response
  | _, _, _ => none

/-- What `Frame::parse` reads off the parsed value: kind, method and id. -/
def envelope (value : Value) : Except WireError (Kind × Option Str × Option Id) :=
  match value.asObject with
  | none => .error .unclassifiableFrame
  | some obj =>
    if (Map.get obj jsonrpcKey).bind Value.asStr = some ['2', '.', '0'] then
      let method := (Map.get obj methodKey).bind Value.asStr
      let id := (Map.get obj idKey).bind Id.fromValue
      match classify method id (Map.containsKey obj resultKey || Map.containsKey obj errorKey) with
      | some kind => .ok (kind, method, id)
      | none => .error .unclassifiableFrame
    else .error .notJsonRpc

/-- Which values are classified, and how. -/
theorem envelope_eq_ok_iff {v : Value} {kind : Kind} {method : Option Str} {id : Option Id} :
    envelope v = .ok (kind, method, id) ↔ ∃ obj, v = .object obj ∧
      (Map.get obj jsonrpcKey).bind Value.asStr = some ['2', '.', '0'] ∧
      (Map.get obj methodKey).bind Value.asStr = method ∧ (Map.get obj idKey).bind Id.fromValue = id ∧
      classify method id (Map.containsKey obj resultKey || Map.containsKey obj errorKey) = some kind := by
  cases v with
  | object obj =>
    simp only [envelope, Value.asObject]
    constructor
    · intro h
      split_ifs at h with hversion
      split at h
      · next kind' hkind =>
        simp only [Except.ok.injEq, Prod.mk.injEq] at h
        obtain ⟨rfl, rfl, rfl⟩ := h
        exact ⟨obj, rfl, hversion, rfl, rfl, hkind⟩
      · cases h
    · rintro ⟨_, hobj, hversion, rfl, rfl, hkind⟩
      cases hobj
      rw [if_pos hversion, hkind]
  | null | bool | number | string | array =>
    exact ⟨fun h => (by cases h), fun ⟨_, h, _⟩ => (by cases h)⟩

variable (X : Crates)

/-- `Frame::parse`. -/
def Frame.parse (line : Bytes) : Except WireError Frame :=
  if 0x0A ∈ line then .error .embeddedNewline
  else
    match h : X.fromSlice line with
    | none => .error .json
    | some value =>
      match envelope value with
      | .error e => .error e
      | .ok (kind, method, id) =>
        .ok { kind, method, id, value, value_unique := X.fromSlice_unique h, raw := line }

/-- What `Frame.parse` accepts, and the frame it returns. -/
theorem Frame.parse_eq_ok_iff {line : Bytes} {f : Frame} :
    Frame.parse X line = .ok f ↔ 0x0A ∉ line ∧ X.fromSlice line = some f.value ∧
      envelope f.value = .ok (f.kind, f.method, f.id) ∧ f.raw = line := by
  rw [Frame.parse]
  by_cases hn : 0x0A ∈ line
  · simp [hn]
  rw [if_neg hn]
  constructor
  · intro h
    split at h
    · cases h
    · next value hv =>
      split at h
      · cases h
      · next kind method id he =>
        cases h
        exact ⟨hn, hv, he, rfl⟩
  · rintro ⟨-, hv, he, rfl⟩
    split
    · next hnone => rw [hnone] at hv; cases hv
    · next value hv' =>
      obtain rfl : value = f.value := Option.some.inj (hv'.symm.trans hv)
      rw [he]

/-- Parsing the bytes of a frame again gives the frame. -/
theorem Frame.parse_raw {line : Bytes} {f : Frame} (h : Frame.parse X line = .ok f) :
    Frame.parse X f.raw = .ok f := by
  rw [((Frame.parse_eq_ok_iff X).mp h).2.2.2, h]

/-- No newline in a frame's bytes. -/
theorem Frame.newline_notMem_raw {line : Bytes} {f : Frame} (h : Frame.parse X line = .ok f) : 0x0A ∉ f.raw := by
  obtain ⟨hn, -, -, hr⟩ := (Frame.parse_eq_ok_iff X).mp h
  rwa [hr]

/-! ### Up to the order of members -/

theorem SameMembers.get {ms ns : Map} (h : SameMembers ms ns) (k : Str) :
    Option.Rel Same (Map.get ms k) (Map.get ns k) := by
  induction ms generalizing ns with
  | nil => cases h; exact .none
  | cons m ms ih =>
    cases h with
    | @cons k' v w _ _ hv hs =>
      rw [Map.get, Map.get]
      split_ifs
      · exact .some hv
      · exact ih hs

/-- Members of the same object are the same. -/
theorem Same.get {ms ns : Map} (hu : (ms.map Prod.fst).Nodup) (h : Same (.object ms) (.object ns)) (k : Str) :
    Option.Rel Same (Map.get ms k) (Map.get ns k) := by
  cases h with
  | object hp hs =>
    rw [Map.get_perm hu hp]
    exact hs.get k

theorem SameMembers.insert {ms ns : Map} (h : SameMembers ms ns) (k : Str) (v : Value) :
    SameMembers (Map.insert ms k v) (Map.insert ns k v) := by
  induction ms generalizing ns with
  | nil => cases h; exact .cons (.refl v) .nil
  | cons m ms ih =>
    cases h with
    | @cons k' v' w _ _ hv hs =>
      rw [Map.insert, Map.insert]
      split_ifs
      · exact .cons (.refl v) hs
      · exact .cons hv (ih hs)

/-- The same object with the same member inserted. -/
theorem Same.insert {ms ns : Map} (hu : (ms.map Prod.fst).Nodup) (h : Same (.object ms) (.object ns)) (k : Str)
    (v : Value) : Same (.object (Map.insert ms k v)) (.object (Map.insert ns k v)) := by
  cases h with
  | object hp hs => exact .object (Map.insert_perm hp hu k v) (hs.insert k v)

theorem SameMembers.filter {ms ns : Map} (h : SameMembers ms ns) (p : Str → Bool) :
    SameMembers (ms.filter fun m => p m.1) (ns.filter fun m => p m.1) := by
  induction ms generalizing ns with
  | nil => cases h; exact .nil
  | cons m ms ih =>
    cases h with
    | @cons k v w _ _ hv hs =>
      rw [List.filter_cons, List.filter_cons]
      split_ifs
      · exact .cons hv (ih hs)
      · exact ih hs

/-- Members can be put in the order of the others. -/
theorem SameMembers.perm {ms ns ps : Map} (h : SameMembers ms ns) (hp : ns.Perm ps) :
    ∃ qs, ms.Perm qs ∧ SameMembers qs ps := by
  induction hp generalizing ms with
  | nil => exact ⟨ms, .refl ms, h⟩
  | cons m _ ih =>
    cases h with
    | cons hv hs =>
      obtain ⟨qs, hq, hsame⟩ := ih hs
      exact ⟨_, hq.cons _, .cons hv hsame⟩
  | swap m n ns =>
    cases h with
    | cons hv hs =>
      cases hs with
      | cons hw hs => exact ⟨_, .swap .., .cons hw (.cons hv hs)⟩
  | trans _ _ ih ih' =>
    obtain ⟨qs, hq, hsame⟩ := ih h
    obtain ⟨qs', hq', hsame'⟩ := ih' hsame
    exact ⟨qs', hq.trans hq', hsame'⟩

/-- **Objects with one member inserted** are the same exactly when they are the same without the members of that
name. -/
theorem Same.insert_iff {ms ns : Map} (hm : (ms.map Prod.fst).Nodup) (hn : (ns.map Prod.fst).Nodup) (k : Str)
    (v : Value) : Same (.object (Map.insert ms k v)) (.object (Map.insert ns k v)) ↔
      Same (.object (ms.filter fun m => m.1 ≠ k)) (.object (ns.filter fun m => m.1 ≠ k)) := by
  constructor
  · intro h
    cases h with
    | object hp hs =>
      have hfilter := hp.filter fun m => decide (m.1 ≠ k)
      have hsame := hs.filter fun k' => decide (k' ≠ k)
      rw [Map.filter_insert] at hfilter hsame
      exact .object hfilter hsame
  · intro h
    cases h with
    | object hp hs =>
      have hcons : SameMembers _ ((k, v) :: ns.filter fun m => m.1 ≠ k) := .cons (.refl v) hs
      obtain ⟨qs, hq, hsame⟩ := hcons.perm (Map.insert_perm_cons hn k v).symm
      exact .object ((Map.insert_perm_cons hm k v).trans ((hp.cons _).trans hq)) hsame

theorem asStr_of_same {o o' : Option Value} (h : Option.Rel Same o o') : o.bind Value.asStr = o'.bind Value.asStr := by
  cases h with
  | none => rfl
  | some h => cases h <;> rfl

theorem fromValue_of_same {o o' : Option Value} (h : Option.Rel Same o o') :
    o.bind Id.fromValue = o'.bind Id.fromValue := by
  cases h with
  | none => rfl
  | some h => cases h <;> rfl

theorem isSome_of_same {o o' : Option Value} (h : Option.Rel Same o o') : o.isSome = o'.isSome := by
  cases h <;> rfl

/-- The classification does not see the order of members. -/
theorem envelope_of_same {v w : Value} (hu : v.Unique) (h : Same v w) : envelope v = envelope w := by
  cases h with
  | object hp hs =>
    have hget := fun k => Same.get hu.1 (.object hp hs) k
    simp only [envelope, Value.asObject, Map.containsKey, asStr_of_same (hget _), fromValue_of_same (hget _),
      isSome_of_same (hget _)]
  | null | bool | number | string | array => rfl

/-! ### Hashes -/

/-- The two hexadecimal digits of a byte. -/
def hexOfByte (b : UInt8) : Str :=
  [Char.ofNat (hex.getD (b.toNat / 16) 0).toNat, Char.ofNat (hex.getD (b.toNat % 16) 0).toNat]

/-- The hexadecimal digits of bytes, two for each: `format_blake3_hex`. -/
def formatBlake3Hex (bytes : Bytes) : Str := bytes.flatMap hexOfByte

/-- `"blake3:"`. -/
def blake3Prefix : Str := ['b', 'l', 'a', 'k', 'e', '3', ':']

/-- A turn of the loop of `hex_with_prefix`, which has its own `HEX` in each crate. -/
def pushHex (digits : List UInt8) (s : Str) (b : UInt8) : Str :=
  s ++ [Char.ofNat (digits.getD (b >>> 4).toNat 0).toNat] ++ [Char.ofNat (digits.getD (b &&& 0x0F).toNat 0).toNat]

/-- `hex_with_prefix`. -/
def hexWithPrefix (bytes : Bytes) : Str := bytes.foldl (pushHex hex) blake3Prefix

theorem hexVal_hexOfByte : ∀ b : Fin 256, (hexOfByte (UInt8.ofFin b)).map Json.hexVal
    = [some (b.val / 16), some (b.val % 16)] := by decide +kernel

theorem hexOfByte_injective : Function.Injective hexOfByte := by
  intro b c h
  have hb := hexVal_hexOfByte b.toFin
  have hc := hexVal_hexOfByte c.toFin
  rw [UInt8.ofFin_toFin] at hb hc
  rw [h, hc] at hb
  simp only [List.cons.injEq, Option.some.injEq, and_true] at hb
  have hval : b.toFin.val = c.toFin.val := by omega
  exact UInt8.toFin_inj.mp (Fin.ext hval)

theorem formatBlake3Hex_injective : Function.Injective formatBlake3Hex := by
  intro a b h
  induction a generalizing b with
  | nil =>
    cases b with
    | nil => rfl
    | cons y b => cases h
  | cons x a ih =>
    cases b with
    | nil => cases h
    | cons y b =>
      rw [formatBlake3Hex, formatBlake3Hex, List.flatMap_cons, List.flatMap_cons] at h
      obtain ⟨hxy, hab⟩ := List.append_inj h rfl
      rw [hexOfByte_injective hxy, ih hab]

/-- What the loop pushes is the digits of `format_blake3_hex`. -/
theorem foldl_pushHex (s : Str) (bytes : Bytes) : bytes.foldl (pushHex hex) s = s ++ formatBlake3Hex bytes := by
  induction bytes generalizing s with
  | nil => exact (List.append_nil s).symm
  | cons b bytes ih =>
    have hhigh : (b >>> 4).toNat = b.toNat / 16 := by
      rw [UInt8.toNat_shiftRight, Nat.shiftRight_eq_div_pow]
      rfl
    have hlow : (b &&& 0x0F).toNat = b.toNat % 16 := by
      rw [UInt8.toNat_and]
      exact Nat.and_two_pow_sub_one_eq_mod b.toNat 4
    rw [List.foldl_cons, ih, pushHex, hhigh, hlow, formatBlake3Hex, formatBlake3Hex, List.flatMap_cons, hexOfByte]
    simp only [List.append_assoc, List.cons_append, List.nil_append]

/-- The two encoders give the same digits. -/
theorem hexWithPrefix_eq (bytes : Bytes) : hexWithPrefix bytes = blake3Prefix ++ formatBlake3Hex bytes :=
  foldl_pushHex blake3Prefix bytes

/-- A hash string determines the bytes. -/
theorem hexWithPrefix_injective : Function.Injective hexWithPrefix := by
  intro a b h
  rw [hexWithPrefix_eq, hexWithPrefix_eq] at h
  exact formatBlake3Hex_injective (List.append_cancel_left h)

/-- `payload_hash`. -/
def payloadHash (v : Value) : Digest := X.blake3 (canonicalize X v)

/-- `Frame::payload_hash`. -/
def Frame.payloadHash (f : Frame) : Digest := Wire.payloadHash X f.value

/-- `Frame::payload_hash_str`. -/
def Frame.payloadHashStr (f : Frame) : Str := hexWithPrefix (f.payloadHash X).1

/-- `frames_equivalent`. -/
def framesEquivalent (a b : Frame) : Bool := a.payloadHash X == b.payloadHash X

theorem payloadHashStr_eq_iff {f g : Frame} : f.payloadHashStr X = g.payloadHashStr X ↔
    f.payloadHash X = g.payloadHash X := by
  rw [Frame.payloadHashStr, Frame.payloadHashStr, hexWithPrefix_injective.eq_iff, Subtype.ext_iff]

/-- The hash string, in the digits of `format_blake3_hex`. -/
theorem Frame.payloadHashStr_eq (f : Frame) :
    f.payloadHashStr X = blake3Prefix ++ formatBlake3Hex (f.payloadHash X).1 := hexWithPrefix_eq _

/-- Frames of the same value have the same hash. -/
theorem payloadHash_of_same {v w : Value} (hv : v.Unique) (h : Same v w) : payloadHash X v = payloadHash X w := by
  rw [payloadHash, payloadHash, canonicalize, canonicalize, writeValue_eq, writeValue_eq, canonTree_of_same X hv h]

end AcpCore.Wire
