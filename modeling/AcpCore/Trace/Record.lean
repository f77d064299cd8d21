import AcpCore.Wire.Frame
import AcpCore.Library.Serde
import Mathlib.Data.List.DropRight

/-!
# Event records

What a trace stores of a frame beside its blob: an `EventRecord`, one line of
`events.jsonl`, written and read by derived implementations (`toTree`, `ofTree`).

## What is proved

* `EventRecord.ofTree_toTree` — a record is read back as it was written, an absent
  id distinct from a null one;
* `EventRecord.fromStr_text`, `EventRecord.fromStr_cut` — its text is read back,
  and cut short it is an error;
* `EventRecord.trimEnd_text` — its text is one line that trimming leaves alone.
-/

namespace AcpCore.Trace

open AcpCore.Text AcpCore.Wire AcpCore.Json AcpCore.Serde

/-- A `u32`. -/
abbrev U32 := Fin (2 ^ 32)
/-- A `u64`. -/
abbrev U64 := Fin (2 ^ 64)
/-- A `u128`. -/
abbrev U128 := Fin (2 ^ 128)

instance neZero_pow_128 : NeZero (2 ^ 128) := ⟨by decide⟩

/-! ### Enumerations -/

/-- `Direction`. -/
inductive Direction where
  /-- Client → agent. -/
  | c2a
  /-- Agent → client. -/
  | a2c
  deriving DecidableEq

/-- `RecordKind`. -/
inductive RecordKind where
  /-- `Request`. -/
  | request
  /-- `Response`. -/
  | response
  /-- `Notification`. -/
  | notification
  deriving DecidableEq

/-- `RecordKind::from`. -/
def RecordKind.ofKind : Kind → RecordKind
  | .request => .request
  | .response => .response
  | .notification => .notification

/-- `RecordId`. -/
inductive RecordId where
  /-- `Num`. -/
  | num (n : I64)
  /-- `Str`. -/
  | str (s : Str)
  /-- `Null`. -/
  | null
  deriving DecidableEq

/-- `RecordId::from`. -/
def RecordId.ofId : Id → RecordId
  | .num n => .num n
  | .str s => .str s
  | .null => .null

/-- `rename_all = "lowercase"`. -/
def Direction.name : Direction → Str
  | .c2a => ['c', '2', 'a']
  | .a2c => ['a', '2', 'c']

/-- `Direction::as_str`. -/
def Direction.asStr : Direction → Str
  | .c2a => ['c', '2', 'a']
  | .a2c => ['a', '2', 'c']

/-- `rename_all = "lowercase"`. -/
def RecordKind.name : RecordKind → Str
  | .request => ['r', 'e', 'q', 'u', 'e', 's', 't']
  | .response => ['r', 'e', 's', 'p', 'o', 'n', 's', 'e']
  | .notification => ['n', 'o', 't', 'i', 'f', 'i', 'c', 'a', 't', 'i', 'o', 'n']

/-- `Serialize` for `Direction`. -/
def Direction.toTree (d : Direction) : Tree := .str d.name

/-- `Deserialize` for `Direction`. -/
def Direction.ofTree (t : Tree) : Option Direction := [.c2a, .a2c].find? fun d => isUnit d.name t

/-- `Serialize` for `RecordKind`. -/
def RecordKind.toTree (k : RecordKind) : Tree := .str k.name

/-- `Deserialize` for `RecordKind`. -/
def RecordKind.ofTree (t : Tree) : Option RecordKind :=
  [.request, .response, .notification].find? fun k => isUnit k.name t

/-- `Serialize` for `RecordId`. -/
def RecordId.toTree : RecordId → Tree
  | .num n => .obj [(['n', 'u', 'm'], writeInt n.1)]
  | .str s => .obj [(['s', 't', 'r'], .str s)]
  | .null => .str ['n', 'u', 'l', 'l']

/-- `Deserialize` for `RecordId`. -/
def RecordId.ofTree (t : Tree) : Option RecordId :=
  if isUnit ['n', 'u', 'l', 'l'] t then some .null
  else
    match variant ['n', 'u', 'm'] t with
    | some n => (readSigned _ _ n).map .num
    | none => (variant ['s', 't', 'r'] t).bind fun s => (readString s).map .str

@[simp] theorem Direction.ofTree_toTree (d : Direction) : Direction.ofTree d.toTree = some d := by
  cases d <;> rfl

@[simp] theorem RecordKind.ofTree_toTree (k : RecordKind) : RecordKind.ofTree k.toTree = some k := by
  cases k <;> rfl

@[simp] theorem RecordId.ofTree_toTree (i : RecordId) : RecordId.ofTree i.toTree = some i := by
  cases i with
  | num n =>
    have hu : isUnit ['n', 'u', 'l', 'l'] (RecordId.num n).toTree = false := by
      obtain ⟨n | n, h⟩ := n <;> rfl
    rw [ofTree, hu, if_neg Bool.false_ne_true, toTree, variant, if_pos rfl]
    show (readSigned _ _ (writeInt n.1)).map RecordId.num = _
    rw [readSigned_writeInt, Option.map_some]
  | str s => rfl
  | null => rfl

theorem RecordId.toTree_ne_null (i : RecordId) : i.toTree ≠ .null := by
  cases i <;> exact fun h => by cases h

/-! ### Event records -/

/-- `EventRecord`. -/
structure EventRecord where
  /-- Position in the event log, from 0. -/
  seq : U64
  /-- Nanoseconds since the epoch when the frame was observed. -/
  tWallNs : U128
  /-- Direction across the proxy. -/
  dir : Direction
  /-- Frame classification. -/
  kind : RecordKind
  /-- `method` for requests and notifications. -/
  method : Option Str
  /-- `id` for requests and responses. -/
  id : Option RecordId
  /-- `blake3:<hex>` of the canonicalized payload. -/
  hash : Str
  /-- Size of the original frame in bytes. -/
  bytes : U64
  deriving DecidableEq

namespace EventRecord

/-- `"seq"`. -/
def seqName : Str := ['s', 'e', 'q']
/-- `"t_wall_ns"`. -/
def tWallNsName : Str := ['t', '_', 'w', 'a', 'l', 'l', '_', 'n', 's']
/-- `"dir"`. -/
def dirName : Str := ['d', 'i', 'r']
/-- `"kind"`. -/
def kindName : Str := ['k', 'i', 'n', 'd']
/-- `"method"`. -/
def methodName : Str := ['m', 'e', 't', 'h', 'o', 'd']
/-- `"id"`. -/
def idName : Str := ['i', 'd']
/-- `"hash"`. -/
def hashName : Str := ['h', 'a', 's', 'h']
/-- `"bytes"`. -/
def bytesName : Str := ['b', 'y', 't', 'e', 's']

/-- The members of a record's object. -/
def members (r : EventRecord) : List (Str × Tree) :=
  (seqName, .num (natLit r.seq)) :: (tWallNsName, .num (natLit r.tWallNs)) :: (dirName, r.dir.toTree)
    :: (kindName, r.kind.toTree) :: (skipNone methodName .str r.method ++ (skipNone idName RecordId.toTree r.id
      ++ [(hashName, .str r.hash), (bytesName, .num (natLit r.bytes))]))

/-- `Serialize` for `EventRecord`. -/
def toTree (r : EventRecord) : Tree := .obj r.members

/-- `Deserialize` for `EventRecord`. -/
def ofTree : Tree → Option EventRecord
  | .obj ms => do
    let seq ← field ms seqName (readUnsigned (2 ^ 64))
    let tWallNs ← field ms tWallNsName (readUnsigned (2 ^ 128))
    let dir ← field ms dirName Direction.ofTree
    let kind ← field ms kindName RecordKind.ofTree
    let method ← optionField ms methodName readString
    let id ← optionField ms idName RecordId.ofTree
    let hash ← field ms hashName readString
    let bytes ← field ms bytesName (readUnsigned (2 ^ 64))
    some { seq, tWallNs, dir, kind, method, id, hash, bytes }
  | .arr [seq, tWallNs, dir, kind, method, id, hash, bytes] => do
    let seq ← readUnsigned (2 ^ 64) seq
    let tWallNs ← readUnsigned (2 ^ 128) tWallNs
    let dir ← Direction.ofTree dir
    let kind ← RecordKind.ofTree kind
    let method ← readOption readString method
    let id ← readOption RecordId.ofTree id
    let hash ← readString hash
    let bytes ← readUnsigned (2 ^ 64) bytes
    some { seq, tWallNs, dir, kind, method, id, hash, bytes }
  | _ => none

/-- Each field is found under its name. -/
theorem member_members (r : EventRecord) :
    member r.members seqName = some (some (.num (natLit r.seq))) ∧
    member r.members tWallNsName = some (some (.num (natLit r.tWallNs))) ∧
    member r.members dirName = some (some r.dir.toTree) ∧
    member r.members kindName = some (some r.kind.toTree) ∧
    member r.members methodName = some (r.method.map .str) ∧
    member r.members idName = some (r.id.map RecordId.toTree) ∧
    member r.members hashName = some (some (.str r.hash)) ∧
    member r.members bytesName = some (some (.num (natLit r.bytes))) := by
  obtain ⟨seq, tWallNs, dir, kind, method, id, hash, bytes⟩ := r
  cases method <;> cases id <;> exact ⟨rfl, rfl, rfl, rfl, rfl, rfl, rfl, rfl⟩

/-- **A record is read back as it was written.** -/
theorem ofTree_toTree (r : EventRecord) : ofTree r.toTree = some r := by
  obtain ⟨hseq, htWallNs, hdir, hkind, hmethod, hid, hhash, hbytes⟩ := member_members r
  have hm : optionField r.members methodName readString = some r.method := by
    rw [optionField, hmethod]
    cases r.method <;> rfl
  have hi : optionField r.members idName RecordId.ofTree = some r.id := by
    rw [optionField, hid]
    cases r.id with
    | none => rfl
    | some i => exact readOption_write i.toTree_ne_null (RecordId.ofTree_toTree i)
  simp only [toTree, ofTree, field, hseq, htWallNs, hdir, hkind, hhash, hbytes, hm, hi, Option.bind_some,
    readUnsigned_natLit, Direction.ofTree_toTree, RecordKind.ofTree_toTree, readString, bind]

/-! ### Its line -/

/-- The text of a record, as `serde_json::to_vec` writes it. -/
def text (r : EventRecord) : Str := render r.toTree

/-- `from_str::<EventRecord>`. -/
def fromStr (X : Crates) (s : Str) : Option EventRecord := (X.readStr s).bind ofTree

theorem depth_toTree (r : EventRecord) : r.toTree.depth < 128 := by
  obtain ⟨seq, tWallNs, dir, kind, method, id, hash, bytes⟩ := r
  have hid : ∀ i : RecordId, i.toTree.depth ≤ 1 := by
    rintro (⟨n | n, h⟩ | s | _)
    · exact le_rfl
    · exact le_rfl
    · exact le_rfl
    · exact Nat.zero_le 1
  cases method <;> cases id <;>
    simp only [toTree, members, skipNone, Option.toList, List.map, List.cons_append, List.nil_append, Tree.depth,
      depthMembers, Direction.toTree, RecordKind.toTree]
  · omega
  · have := hid ‹_›; omega
  · omega
  · have := hid ‹_›; omega

theorem fromStr_text {X : Crates} (hX : X.ReadsText) (r : EventRecord) : fromStr X r.text = some r := by
  rw [fromStr, text, hX.compact _ r.depth_toTree, Option.bind_some, ofTree_toTree]

/-- A record's text cut short is an error. -/
theorem fromStr_cut {X : Crates} (hX : X.ReadsText) {r : EventRecord} {p : Str} (hp : p <+: r.text)
    (hne : p ≠ r.text) : fromStr X p = none := by
  rw [fromStr, hX.cut r.members p hp hne, Option.bind_none]

theorem text_eq (r : EventRecord) : r.text = '{' :: (sepBy ',' (renderMembers r.members) ++ ['}']) := rfl

/-- `trim_end_matches(['\n', '\r'])`. -/
def trimEnd (s : Str) : Str := s.rdropWhile fun c => c == '\n' || c == '\r'

/-- Trimming takes the newline off a record's line and nothing else. -/
theorem trimEnd_line (r : EventRecord) : trimEnd (r.text ++ ['\n']) = r.text := by
  rw [trimEnd, List.rdropWhile_concat_pos _ _ _ (by decide), text_eq, ← List.cons_append]
  exact List.rdropWhile_concat_neg _ _ _ (by decide)

theorem trimEnd_text (r : EventRecord) : trimEnd r.text = r.text := by
  rw [trimEnd, text_eq, ← List.cons_append]
  exact List.rdropWhile_concat_neg _ _ _ (by decide)

/-- A prefix of a record's text has nothing to trim. -/
theorem trimEnd_prefix {r : EventRecord} {p : Str} (hp : p <+: r.text) : trimEnd p = p := by
  rw [trimEnd, List.rdropWhile_eq_self_iff]
  intro hne hlast
  have hmem : p.getLast hne ∈ r.text := hp.subset (List.getLast_mem hne)
  have hcontrol := control_render hmem
  rw [Bool.or_eq_true, beq_iff_eq, beq_iff_eq] at hlast
  rcases hlast with h | h <;> (rw [h] at hcontrol; exact absurd hcontrol (by decide))

end EventRecord

end AcpCore.Trace
