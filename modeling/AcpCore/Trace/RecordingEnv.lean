import AcpCore.Library.SortedMap
import AcpCore.Trace.Record
import Mathlib.Data.Char

/-!
# The recording environment

`acp record` notes in the manifest where it runs, and of its environment variables those
that it is asked to capture.

## The model

A process is what `RecordingEnv::capture` may read of it. Its directory and the values of
its variables are bytes, of which UTF-8 is not asked (`OsString`): the directory is made
text as `to_string_lossy` does, and a variable that is not UTF-8 counts as not set.

## What is proved

* `get_capture` — what is captured of a variable;
* `capture_eq_iff` — of which processes the same is captured;
* `RecordingEnv.ofTree_toTree` — an environment is read back as it was written.
-/

namespace AcpCore.Trace

open AcpCore.Text AcpCore.Wire AcpCore.Json AcpCore.Serde

/-! ### Capture -/

/-- `RecordingEnv`. -/
structure RecordingEnv where
  /-- The working directory. -/
  cwd : Option Str
  /-- The host's operating system. -/
  hostOs : Option Str
  /-- The host's architecture. -/
  hostArch : Option Str
  /-- The recorder's process. -/
  recorderPid : Option U32
  /-- `BTreeMap<String, String>`: the variables captured. -/
  env : SortedMap Str Str
  deriving DecidableEq

/-- `OsString`, which is any bytes. -/
abbrev OsString := Bytes

/-- `to_string_lossy`. -/
def toStringLossy (s : OsString) : Str := utf8DecodeLossy s

/-- Bytes that are text are told apart. -/
theorem toStringLossy_eq_iff {b c : OsString} {s t : Str} (hb : utf8Decode b = some s) (hc : utf8Decode c = some t) :
    toStringLossy b = toStringLossy c ↔ b = c := by
  rw [toStringLossy, toStringLossy, utf8DecodeLossy_of_utf8Decode hb, utf8DecodeLossy_of_utf8Decode hc]
  constructor
  · rintro rfl
    exact (utf8_of_utf8Decode hb).symm.trans (utf8_of_utf8Decode hc)
  · rintro rfl
    exact Option.some.inj (hb.symm.trans hc)

/-- A process. -/
structure Process where
  /-- `std::env::current_dir`, if there is one. -/
  cwd : Option OsString
  /-- `std::env::consts::OS`. -/
  os : Str
  /-- `std::env::consts::ARCH`. -/
  arch : Str
  /-- `std::process::id`. -/
  pid : U32
  /-- The environment. -/
  environment : Str → Option OsString

/-- `std::env::var`: `none` where a variable is not set, or is not UTF-8. -/
def Process.var (p : Process) (key : Str) : Option Str := (p.environment key).bind utf8Decode

/-- A process that has a secret, and a directory that is not UTF-8. -/
def sampleProcess : Process where
  cwd := some [0x2F, 0xFF]
  os := ['l', 'i', 'n', 'u', 'x']
  arch := ['x', '8', '6']
  pid := ⟨42, by decide⟩
  environment k := if k = ['P'] then some [0x75] else if k = ['K', 'E', 'Y'] then some [0x73] else none

/-- A turn of the loop of `capture`. -/
def captureKey (p : Process) (env : SortedMap Str Str) (key : Str) : SortedMap Str Str :=
  match p.var key with
  | some v => env.insert key v
  | none => env

/-- `RecordingEnv::capture`. -/
def RecordingEnv.capture (envWhitelist : List Str) (p : Process) : RecordingEnv where
  cwd := p.cwd.map toStringLossy
  hostOs := some p.os
  hostArch := some p.arch
  recorderPid := some p.pid
  env := envWhitelist.foldl (captureKey p) .empty

theorem get_captureKey (p : Process) (env : SortedMap Str Str) (key k : Str) :
    (captureKey p env key).get k = if key = k then (p.var k).or (env.get k) else env.get k := by
  rw [captureKey]
  split
  · next v hv =>
    rw [SortedMap.get_insert]
    split_ifs with h
    · rw [← h, hv, Option.some_or]
    · rfl
  · next hv =>
    split_ifs with h
    · rw [← h, hv, Option.none_or]
    · rfl

/-- A variable is captured if it is asked for and there is one. -/
theorem get_capture (envWhitelist : List Str) (p : Process) (k : Str) :
    (RecordingEnv.capture envWhitelist p).env.get k = if k ∈ envWhitelist then p.var k else none := by
  have hloop : ∀ (ks : List Str) (env : SortedMap Str Str),
      (ks.foldl (captureKey p) env).get k = if k ∈ ks then (p.var k).or (env.get k) else env.get k := by
    intro ks
    induction ks with
    | nil => simp
    | cons key ks ih =>
      intro env
      rw [List.foldl_cons, ih, get_captureKey]
      by_cases hkey : key = k
      · subst hkey
        cases p.var key <;> simp
      · simp [hkey, Ne.symm hkey]
  rw [RecordingEnv.capture, hloop, SortedMap.get_empty, Option.or_none]

/-- The environments captured are the same. -/
theorem capture_eq_iff {envWhitelist : List Str} {p q : Process} :
    RecordingEnv.capture envWhitelist p = RecordingEnv.capture envWhitelist q ↔
      (p.cwd.map toStringLossy = q.cwd.map toStringLossy ∧ p.os = q.os ∧ p.arch = q.arch ∧ p.pid = q.pid) ∧
        ∀ k ∈ envWhitelist, p.var k = q.var k := by
  constructor
  · intro h
    have hvar : ∀ k ∈ envWhitelist, p.var k = q.var k := by
      intro k hk
      have hget := get_capture envWhitelist p k
      rwa [h, get_capture, if_pos hk, if_pos hk, eq_comm] at hget
    simp only [RecordingEnv.capture, RecordingEnv.mk.injEq, Option.some.injEq] at h
    obtain ⟨hcwd, hos, harch, hpid, -⟩ := h
    exact ⟨⟨hcwd, hos, harch, hpid⟩, hvar⟩
  · rintro ⟨⟨hcwd, hos, harch, hpid⟩, hvar⟩
    have hloop : ∀ (ks : List Str) (env : SortedMap Str Str), (∀ k ∈ ks, p.var k = q.var k) →
        ks.foldl (captureKey p) env = ks.foldl (captureKey q) env := by
      intro ks
      induction ks with
      | nil => exact fun _ _ => rfl
      | cons k ks ih =>
        intro env hks
        rw [List.forall_mem_cons] at hks
        have hkey : captureKey p env k = captureKey q env k := by rw [captureKey, captureKey, hks.1]
        rw [List.foldl_cons, List.foldl_cons, hkey, ih _ hks.2]
    rw [RecordingEnv.capture, RecordingEnv.capture, hcwd, hos, harch, hpid, hloop _ _ hvar]

/-! ### The environment in JSON -/

namespace RecordingEnv

/-- `"cwd"`. -/
def cwdName : Str := ['c', 'w', 'd']
/-- `"host_os"`. -/
def hostOsName : Str := ['h', 'o', 's', 't', '_', 'o', 's']
/-- `"host_arch"`. -/
def hostArchName : Str := ['h', 'o', 's', 't', '_', 'a', 'r', 'c', 'h']
/-- `"recorder_pid"`. -/
def recorderPidName : Str := ['r', 'e', 'c', 'o', 'r', 'd', 'e', 'r', '_', 'p', 'i', 'd']
/-- `"env"`. -/
def envName : Str := ['e', 'n', 'v']

/-- A map of strings as an object. -/
def mapTree (m : SortedMap Str Str) : Tree := .obj (m.entries.map fun e => (e.1, .str e.2))

/-- An object of strings as a map: of two members of one name the last counts. -/
def readMap : Tree → Option (SortedMap Str Str)
  | .obj ms => (ms.mapM fun m => (readString m.2).map fun v => (m.1, v)).map fun es => SortedMap.empty.insertAll es
  | _ => none

/-- The members of the environment's object. -/
def members (r : RecordingEnv) : List (Str × Tree) :=
  skipNone cwdName .str r.cwd ++ (skipNone hostOsName .str r.hostOs ++ (skipNone hostArchName .str r.hostArch ++
    (skipNone recorderPidName (fun n : U32 => .num (natLit n)) r.recorderPid ++
      if r.env.entries = [] then [] else [(envName, mapTree r.env)])))

/-- `Serialize` for `RecordingEnv`. -/
def toTree (r : RecordingEnv) : Tree := .obj r.members

/-- `Deserialize` for `RecordingEnv`. -/
def ofTree : Tree → Option RecordingEnv
  | .obj ms => do
    let cwd ← optionField ms cwdName readString
    let hostOs ← optionField ms hostOsName readString
    let hostArch ← optionField ms hostArchName readString
    let recorderPid ← optionField ms recorderPidName (readUnsigned (2 ^ 32))
    let env ← (member ms envName).bind fun t => t.elim (some .empty) readMap
    some { cwd, hostOs, hostArch, recorderPid, env }
  | .arr ts => do
    let cwd ← ts[0]?.elim (some none) (readOption readString)
    let hostOs ← ts[1]?.elim (some none) (readOption readString)
    let hostArch ← ts[2]?.elim (some none) (readOption readString)
    let recorderPid ← ts[3]?.elim (some none) (readOption (readUnsigned (2 ^ 32)))
    let env ← ts[4]?.elim (some .empty) readMap
    if ts.length ≤ 5 then some { cwd, hostOs, hostArch, recorderPid, env } else none
  | _ => none

theorem readMap_mapTree (m : SortedMap Str Str) : readMap (mapTree m) = some m := by
  have hmap : ∀ es : List (Str × Str), (es.map fun e => (e.1, Tree.str e.2)).mapM
      (fun m => (readString m.2).map fun v => (m.1, v)) = some es := by
    intro es
    induction es with
    | nil => rfl
    | cons e es ih => rw [List.map_cons, List.mapM_cons, ih]; rfl
  rw [mapTree, readMap, hmap, Option.map_some, Option.some.injEq]
  exact SortedMap.ext (SortedMap.insertAll_entries _ m.sorted)

/-- Each field is found under its name. -/
theorem member_members (r : RecordingEnv) :
    member r.members cwdName = some (r.cwd.map .str) ∧
    member r.members hostOsName = some (r.hostOs.map .str) ∧
    member r.members hostArchName = some (r.hostArch.map .str) ∧
    member r.members recorderPidName = some (r.recorderPid.map fun n : U32 => .num (natLit n)) ∧
    member r.members envName = some (if r.env.entries = [] then none else some (mapTree r.env)) := by
  obtain ⟨cwd, hostOs, hostArch, recorderPid, env⟩ := r
  by_cases h : env.entries = [] <;> cases cwd <;> cases hostOs <;> cases hostArch <;> cases recorderPid <;>
    simp only [members, h, if_true, if_false] <;> exact ⟨rfl, rfl, rfl, rfl, rfl⟩

/-- An environment is read back as it was written. -/
theorem ofTree_toTree (r : RecordingEnv) : ofTree r.toTree = some r := by
  obtain ⟨hcwd, hos, harch, hpid, henv⟩ := member_members r
  have hstr : ∀ {name : Str} {o : Option Str}, member r.members name = some (o.map .str) →
      optionField r.members name readString = some o := by
    intro name o h
    rw [optionField, h]
    cases o <;> rfl
  have hp : optionField r.members recorderPidName (readUnsigned (2 ^ 32)) = some r.recorderPid := by
    rw [optionField, hpid]
    cases r.recorderPid with
    | none => rfl
    | some n =>
      exact readOption_write (w := fun n : U32 => .num (natLit n)) (fun h => by cases h) (readUnsigned_natLit n)
  have he : ((member r.members envName).bind fun t => t.elim (some .empty) readMap) = some r.env := by
    rw [henv]
    split_ifs with h
    · exact congrArg some (SortedMap.ext h.symm)
    · exact readMap_mapTree r.env
  simp only [toTree, ofTree, hstr hcwd, hstr hos, hstr harch, hp, he, bind, Option.bind_some]

theorem depth_toTree (r : RecordingEnv) : r.toTree.depth ≤ 2 := by
  have hmap : ∀ es : List (Str × Str), depthMembers (es.map fun e => (e.1, Tree.str e.2)) = 0 := by
    intro es
    induction es with
    | nil => rfl
    | cons e es ih => rw [List.map_cons, depthMembers, ih]; rfl
  obtain ⟨cwd, hostOs, hostArch, recorderPid, env⟩ := r
  by_cases h : env.entries = [] <;> cases cwd <;> cases hostOs <;> cases hostArch <;> cases recorderPid <;>
    simp [toTree, members, skipNone, mapTree, Tree.depth, depthMembers, hmap, h]

end RecordingEnv

end AcpCore.Trace
