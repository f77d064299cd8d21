import AcpCore.Trace.RecordingEnv

/-!
# The manifest

The metadata of a recording, `manifest.json`: written when the recording starts
and again, with the counts, when it is finalized.

## The model

The clock's timestamps are arguments.

## What is proved

* `Manifest.fromSlice_toVecPretty` — a manifest is read back as it was written.
-/

namespace AcpCore.Trace

open AcpCore.Text AcpCore.Wire AcpCore.Json AcpCore.Serde

/-- `FORMAT_VERSION`. -/
def formatVersion : U32 := 1

/-- `Manifest`. -/
structure Manifest where
  /-- The format's version. -/
  formatVersion : U32
  /-- The program that recorded. -/
  recorder : Str
  /-- Its version. -/
  recorderVersion : Str
  /-- The agent's command line. -/
  agentArgv : List Str
  /-- RFC 3339 timestamp. -/
  startedAt : Str
  /-- RFC 3339 timestamp, there once the trace is finalized. -/
  endedAt : Option Str
  /-- Number of events at finalize time. -/
  eventCount : Option U64
  /-- `blake3` of `events.jsonl` at finalize time. -/
  eventsHash : Option Str
  /-- Where it was recorded. -/
  recordingEnv : Option RecordingEnv
  deriving DecidableEq

namespace Manifest

/-- `"acp-core"`. -/
def acpCore : Str := ['a', 'c', 'p', '-', 'c', 'o', 'r', 'e']

/-- `Manifest::new_with_clock`, with the clock's timestamp. -/
def newWithClock (recorderVersion : Str) (agentArgv : List Str) (now : Str) : Manifest where
  formatVersion := Trace.formatVersion
  recorder := acpCore
  recorderVersion := recorderVersion
  agentArgv := agentArgv
  startedAt := now
  endedAt := none
  eventCount := none
  eventsHash := none
  recordingEnv := none

/-- `Manifest::with_recording_env`. -/
def withRecordingEnv (m : Manifest) (env : RecordingEnv) : Manifest := { m with recordingEnv := some env }

/-- With the environment that `run` captures, unless it is to skip it. -/
def withCapture (m : Manifest) (skipRecordingEnv : Bool) (envWhitelist : List Str) (p : Process) : Manifest :=
  if skipRecordingEnv then m else m.withRecordingEnv (.capture envWhitelist p)

@[simp] theorem withCapture_formatVersion (m : Manifest) (skipRecordingEnv : Bool) (envWhitelist : List Str)
    (p : Process) : (m.withCapture skipRecordingEnv envWhitelist p).formatVersion = m.formatVersion := by
  cases skipRecordingEnv <;> rfl

/-- `"format_version"`. -/
def formatVersionName : Str := ['f', 'o', 'r', 'm', 'a', 't', '_', 'v', 'e', 'r', 's', 'i', 'o', 'n']
/-- `"recorder"`. -/
def recorderName : Str := ['r', 'e', 'c', 'o', 'r', 'd', 'e', 'r']
/-- `"recorder_version"`. -/
def recorderVersionName : Str := ['r', 'e', 'c', 'o', 'r', 'd', 'e', 'r', '_', 'v', 'e', 'r', 's', 'i', 'o', 'n']
/-- `"agent_argv"`. -/
def agentArgvName : Str := ['a', 'g', 'e', 'n', 't', '_', 'a', 'r', 'g', 'v']
/-- `"started_at"`. -/
def startedAtName : Str := ['s', 't', 'a', 'r', 't', 'e', 'd', '_', 'a', 't']
/-- `"ended_at"`. -/
def endedAtName : Str := ['e', 'n', 'd', 'e', 'd', '_', 'a', 't']
/-- `"event_count"`. -/
def eventCountName : Str := ['e', 'v', 'e', 'n', 't', '_', 'c', 'o', 'u', 'n', 't']
/-- `"events_hash"`. -/
def eventsHashName : Str := ['e', 'v', 'e', 'n', 't', 's', '_', 'h', 'a', 's', 'h']
/-- `"recording_env"`. -/
def recordingEnvName : Str := ['r', 'e', 'c', 'o', 'r', 'd', 'i', 'n', 'g', '_', 'e', 'n', 'v']

/-- The members of the manifest's object. -/
def members (m : Manifest) : List (Str × Tree) :=
  (formatVersionName, .num (natLit m.formatVersion)) :: (recorderName, .str m.recorder)
    :: (recorderVersionName, .str m.recorderVersion) :: (agentArgvName, .arr (m.agentArgv.map .str))
    :: (startedAtName, .str m.startedAt) :: (skipNone endedAtName .str m.endedAt
      ++ (skipNone eventCountName (fun n : U64 => .num (natLit n)) m.eventCount
        ++ (skipNone eventsHashName .str m.eventsHash ++ skipNone recordingEnvName RecordingEnv.toTree m.recordingEnv)))

/-- `Serialize` for `Manifest`. -/
def toTree (m : Manifest) : Tree := .obj m.members

/-- `Deserialize` for `Manifest`. -/
def ofTree : Tree → Option Manifest
  | .obj ms => do
    let formatVersion ← field ms formatVersionName (readUnsigned (2 ^ 32))
    let recorder ← field ms recorderName readString
    let recorderVersion ← field ms recorderVersionName readString
    let agentArgv ← field ms agentArgvName readStrings
    let startedAt ← field ms startedAtName readString
    let endedAt ← optionField ms endedAtName readString
    let eventCount ← optionField ms eventCountName (readUnsigned (2 ^ 64))
    let eventsHash ← optionField ms eventsHashName readString
    let recordingEnv ← optionField ms recordingEnvName RecordingEnv.ofTree
    some { formatVersion, recorder, recorderVersion, agentArgv, startedAt, endedAt, eventCount, eventsHash, recordingEnv }
  | .arr (formatVersion :: recorder :: recorderVersion :: agentArgv :: startedAt :: rest) => do
    let formatVersion ← readUnsigned (2 ^ 32) formatVersion
    let recorder ← readString recorder
    let recorderVersion ← readString recorderVersion
    let agentArgv ← readStrings agentArgv
    let startedAt ← readString startedAt
    let endedAt ← rest[0]?.elim (some none) (readOption readString)
    let eventCount ← rest[1]?.elim (some none) (readOption (readUnsigned (2 ^ 64)))
    let eventsHash ← rest[2]?.elim (some none) (readOption readString)
    let recordingEnv ← rest[3]?.elim (some none) (readOption RecordingEnv.ofTree)
    if rest.length ≤ 4 then
      some { formatVersion, recorder, recorderVersion, agentArgv, startedAt, endedAt, eventCount, eventsHash, recordingEnv }
    else none
  | _ => none

/-- Each field is found under its name. -/
theorem member_members (m : Manifest) :
    member m.members formatVersionName = some (some (.num (natLit m.formatVersion))) ∧
    member m.members recorderName = some (some (.str m.recorder)) ∧
    member m.members recorderVersionName = some (some (.str m.recorderVersion)) ∧
    member m.members agentArgvName = some (some (.arr (m.agentArgv.map .str))) ∧
    member m.members startedAtName = some (some (.str m.startedAt)) ∧
    member m.members endedAtName = some (m.endedAt.map .str) ∧
    member m.members eventCountName = some (m.eventCount.map fun n : U64 => .num (natLit n)) ∧
    member m.members eventsHashName = some (m.eventsHash.map .str) ∧
    member m.members recordingEnvName = some (m.recordingEnv.map RecordingEnv.toTree) := by
  obtain ⟨formatVersion, recorder, recorderVersion, agentArgv, startedAt, endedAt, eventCount, eventsHash, env⟩ := m
  cases endedAt <;> cases eventCount <;> cases eventsHash <;> cases env <;>
    exact ⟨rfl, rfl, rfl, rfl, rfl, rfl, rfl, rfl, rfl⟩

/-- A manifest is read back as it was written. -/
theorem ofTree_toTree (m : Manifest) : ofTree m.toTree = some m := by
  obtain ⟨hversion, hrecorder, hrecorderVersion, hargv, hstarted, hended, hcount, hhash, henv⟩ := member_members m
  have he : optionField m.members endedAtName readString = some m.endedAt := by
    rw [optionField, hended]
    cases m.endedAt <;> rfl
  have hc : optionField m.members eventCountName (readUnsigned (2 ^ 64)) = some m.eventCount := by
    rw [optionField, hcount]
    cases m.eventCount with
    | none => rfl
    | some n =>
      exact readOption_write (w := fun n : U64 => .num (natLit n)) (fun h => by cases h) (readUnsigned_natLit n)
  have hh : optionField m.members eventsHashName readString = some m.eventsHash := by
    rw [optionField, hhash]
    cases m.eventsHash <;> rfl
  have hr : optionField m.members recordingEnvName RecordingEnv.ofTree = some m.recordingEnv := by
    rw [optionField, henv]
    cases m.recordingEnv with
    | none => rfl
    | some r => exact readOption_write (fun h => by cases h) r.ofTree_toTree
  simp only [toTree, ofTree, field, hversion, hrecorder, hrecorderVersion, hargv, hstarted, he, hc, hh, hr,
    Option.bind_some, readUnsigned_natLit, readStrings_map, readString, bind]

/-- `serde_json::to_vec_pretty`. -/
def toVecPretty (m : Manifest) : Bytes := utf8 (renderPretty 0 m.toTree)

/-- `serde_json::from_slice::<Manifest>`. -/
def fromSlice (X : Crates) (b : Bytes) : Option Manifest := (X.readSlice b).bind ofTree

theorem depth_toTree (m : Manifest) : m.toTree.depth < 128 := by
  obtain ⟨formatVersion, recorder, recorderVersion, agentArgv, startedAt, endedAt, eventCount, eventsHash, env⟩ := m
  have hargv : ∀ ss : List Str, depthItems (ss.map .str) = 0 := by
    intro ss
    induction ss with
    | nil => rfl
    | cons s ss ih => rw [List.map_cons, depthItems, ih]; rfl
  have henv : ∀ r : RecordingEnv, max 1 r.toTree.depth + 1 < 128 := fun r => by
    have := r.depth_toTree
    omega
  cases endedAt <;> cases eventCount <;> cases eventsHash <;> cases env <;>
    simp [toTree, members, skipNone, Tree.depth, depthMembers, hargv, henv]

/-- A manifest's file is read back. -/
theorem fromSlice_toVecPretty {X : Crates} (hX : X.ReadsText) (m : Manifest) :
    fromSlice X m.toVecPretty = some m := by
  rw [fromSlice, toVecPretty, hX.pretty _ m.depth_toTree, Option.bind_some, ofTree_toTree]

end Manifest

end AcpCore.Trace
