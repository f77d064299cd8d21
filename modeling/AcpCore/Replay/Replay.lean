import AcpCore.Trace.Reader
import AcpCore.Wire.Reader

/-!
# Replay

`replayOffline` writes what the agent wrote, in order. `replayInteractiveWith` plays
the agent against a live client: it reads a frame, expects it to match the next
recorded client frame, and answers with what the agent wrote after it.

## The model

The output is the bytes written, also where the replay ends in an error. The
client's stream is taken frame by frame as its reader returns them, the first
error ending the replay. `HashMap<Id, Id>` is a function, and the loops over the
events from a cursor recurse on the events from there.

## What is proved

`resume` is what the replay does from a cursor on: emit a block, then serve the
client. `resume_a2c` and `resume_c2a` say what it does with one event, and
`resume_nil` at the end of the trace; the results on whole replays are inductions
with these three.
-/

namespace AcpCore.Replay

open AcpCore.Text AcpCore.Wire AcpCore.Trace

/-! ### Errors -/

/-- `DivergenceDetail`. -/
structure DivergenceDetail where
  /-- `seq` of the recorded event to be matched. -/
  expectedSeq : U64
  /-- Its `method`. -/
  expectedMethod : Option Str
  /-- Its canonical hash. -/
  expectedHash : Str
  /-- `method` of the client's frame. -/
  gotMethod : Option Str
  /-- `id` of the client's frame, as JSON. -/
  gotId : Option Str
  /-- Canonical hash of the client's frame. -/
  gotHash : Str
  /-- How many client frames had been accepted. -/
  clientFramesConsumed : ℕ
  deriving DecidableEq

/-- `ReplayError`. -/
inductive ReplayError where
  /-- `Io`. -/
  | io
  /-- `Wire`. -/
  | wire (e : WireError)
  /-- `Trace`. -/
  | trace (e : TraceError)
  /-- `Json`. -/
  | json
  /-- `TraceExhausted`. -/
  | traceExhausted (method : Option Str)
  /-- `Divergence`. -/
  | divergence (detail : DivergenceDetail)
  deriving DecidableEq

/-- An outcome of loading a blob, as one of the replay. -/
def ofTrace : Abort TraceError → Abort ReplayError
  | .error e => .error (.trace e)
  | .panic => .panic

variable (X : Crates)

/-! ### Offline -/

/-- The loop of `replay_offline`. -/
def offlineLoop (trace : TraceReader) (d : Disk) :
    List EventRecord → ℕ → Bytes → Except (Abort ReplayError) ℕ × Bytes
  | [], n, out => (.ok n, out)
  | rec :: events, n, out =>
    if rec.dir ≠ .a2c then offlineLoop trace d events n out
    else
      match trace.loadBlob X d rec with
      | .error e => (.error (ofTrace e), out)
      | .ok bytes =>
        match writeLine out bytes with
        | (.error e, out) => (.error (.error (.wire e)), out)
        | (.ok (), out) => offlineLoop trace d events (n + 1) out

/-- `replay_offline`. -/
def replayOffline (trace : TraceReader) (d : Disk) : Except (Abort ReplayError) ℕ × Bytes :=
  offlineLoop X trace d trace.events 0 []

/-! ### Ids -/

/-- `HashMap<Id, Id>`: the client's id for a recorded one. -/
abbrev IdMap := Id → Option Id

/-- `record_id_to_wire`. -/
def recordIdToWire : RecordId → Id
  | .num n => .num n
  | .str s => .str s
  | .null => .null

/-- A value with its top-level id inserted, if it is an object. -/
def withId (value : Value) (newId : Id) : Value :=
  match value with
  | .object map => .object (Map.insert map idKey newId.toValue)
  | v => v

/-- `HEX`. -/
def hexDigits : List UInt8 :=
  [0x30, 0x31, 0x32, 0x33, 0x34, 0x35, 0x36, 0x37, 0x38, 0x39, 0x61, 0x62, 0x63, 0x64, 0x65, 0x66]

/-- `hex_with_prefix`. -/
def hexWithPrefix (bytes : Bytes) : Str := bytes.foldl (pushHex hexDigits) blake3Prefix

/-- It is that of the wire. -/
theorem hexWithPrefix_eq (bytes : Bytes) : hexWithPrefix bytes = Wire.hexWithPrefix bytes := rfl

/-- `hash_with_id`: the id is replaced where there is one. -/
def hashWithId (value : Value) (newId : Id) : Str :=
  let clone :=
    match value with
    | .object map => if Map.containsKey map idKey then .object (Map.insert map idKey newId.toValue) else .object map
    | v => v
  hexWithPrefix (X.blake3 (canonicalize X clone)).1

/-- `rewrite_id_in_value`. -/
def rewriteIdInValue (value : Value) (newId : Id) : Bytes := X.toVec (withId value newId)

/-! ### Interactive -/

/-- The line `emit_a2c_block` writes for an event. -/
def emitLine (trace : TraceReader) (d : Disk) (idMap : IdMap) (remapIds : Bool) (rec : EventRecord) :
    Except (Abort ReplayError) Bytes :=
  if remapIds = true ∧ rec.kind = .response then
    match trace.loadBlob X d rec with
    | .error e => .error (ofTrace e)
    | .ok bytes =>
      match Frame.parse X bytes with
      | .error e => .error (.error (.wire e))
      | .ok frame =>
        if frame.kind = .response then
          match frame.id with
          | none => .ok bytes
          | some recordedId =>
            match idMap recordedId with
            | some clientId => .ok (rewriteIdInValue X frame.value clientId)
            -- unknown id: verbatim
            | none => .ok bytes
        else .ok bytes
  else
    match trace.loadBlob X d rec with
    | .error e => .error (ofTrace e)
    | .ok bytes => .ok bytes

/-- `emit_a2c_block`, over the events from the cursor on: the new cursor, the output and the count. -/
def emitA2cBlock (trace : TraceReader) (d : Disk) (idMap : IdMap) (remapIds : Bool) :
    List EventRecord → ℕ → Bytes → ℕ → Except (Abort ReplayError) ℕ × Bytes × ℕ
  | [], idx, out, emitted => (.ok idx, out, emitted)
  | rec :: events, idx, out, emitted =>
    if rec.dir = .c2a then (.ok idx, out, emitted)
    else
      match emitLine X trace d idMap remapIds rec with
      | .error e => (.error e, out, emitted)
      | .ok line =>
        match writeLine out line with
        | (.error e, out) => (.error (.error (.wire e)), out, emitted)
        | (.ok (), out) => emitA2cBlock trace d idMap remapIds events (idx + 1) out (emitted + 1)

/-- `find_next_c2a`, over the events from the cursor on. -/
def findNextC2a : List EventRecord → ℕ → Option (ℕ × EventRecord)
  | [], _ => none
  | rec :: events, idx => if rec.dir = .c2a then some (idx, rec) else findNextC2a events (idx + 1)

/-- `divergence`. -/
def divergence (expected : EventRecord) (got : Frame) (clientFramesConsumed : ℕ) : ReplayError :=
  .divergence
    { expectedSeq := expected.seq
      expectedMethod := expected.method
      expectedHash := expected.hash
      gotMethod := got.method
      gotId := got.id.map fun id => Json.render (X.toTree id.toValue)
      gotHash := got.payloadHashStr X
      clientFramesConsumed }

/-- The match of an incoming frame with the expected event: the id map after it, or the divergence. -/
def matchFrame (remapIds : Bool) (idMap : IdMap) (expected : EventRecord) (incoming : Frame) (consumed : ℕ) :
    Except ReplayError IdMap :=
  -- fast path: hashes match outright
  if incoming.payloadHashStr X = expected.hash then .ok idMap
  else if remapIds then
    match expected.id, incoming.id with
    | some recId, some clientId =>
      if hashWithId X incoming.value (recordIdToWire recId) = expected.hash then
        .ok (Function.update idMap (recordIdToWire recId) (some clientId))
      else .error (divergence X expected incoming consumed)
    | _, _ => .error (divergence X expected incoming consumed)
  else .error (divergence X expected incoming consumed)

/-- The loop of `replay_interactive_with`, over what the client's reader returns. -/
def replayLoop (trace : TraceReader) (d : Disk) (remapIds : Bool) :
    List (Except WireError Frame) → ℕ → ℕ → IdMap → Bytes → ℕ → Except (Abort ReplayError) ℕ × Bytes
  | [], _, _, _, out, emitted => (.ok emitted, out)
  | .error e :: _, _, _, _, out, _ => (.error (.error (.wire e)), out)
  | .ok incoming :: rest, cursor, consumed, idMap, out, emitted =>
    match findNextC2a (trace.events.drop cursor) cursor with
    | none => (.error (.error (.traceExhausted none)), out)
    | some (idx, expected) =>
      match matchFrame X remapIds idMap expected incoming consumed with
      | .error e => (.error (.error e), out)
      | .ok idMap =>
        match emitA2cBlock X trace d idMap remapIds (trace.events.drop (idx + 1)) (idx + 1) out emitted with
        | (.error e, out, _) => (.error e, out)
        | (.ok cursor, out, emitted) => replayLoop trace d remapIds rest cursor (consumed + 1) idMap out emitted

/-- `replay_interactive_with`. -/
def replayInteractiveWith (trace : TraceReader) (d : Disk) (clientIn : Bytes) (remapIds : Bool) :
    Except (Abort ReplayError) ℕ × Bytes :=
  match emitA2cBlock X trace d (fun _ => none) remapIds trace.events 0 [] 0 with
  | (.error e, out, _) => (.error e, out)
  | (.ok cursor, out, emitted) =>
    replayLoop X trace d remapIds ((FrameReader.new clientIn).results X) cursor 0 (fun _ => none) out emitted

/-- `replay_interactive`. -/
def replayInteractive (trace : TraceReader) (d : Disk) (clientIn : Bytes) : Except (Abort ReplayError) ℕ × Bytes :=
  replayInteractiveWith X trace d clientIn false

/-! ### From a cursor on -/

/-- What the replay does from a cursor on: emit the block there, then serve the client. -/
def resume (trace : TraceReader) (d : Disk) (remapIds : Bool) (results : List (Except WireError Frame))
    (cursor consumed : ℕ) (idMap : IdMap) (out : Bytes) (emitted : ℕ) : Except (Abort ReplayError) ℕ × Bytes :=
  match emitA2cBlock X trace d idMap remapIds (trace.events.drop cursor) cursor out emitted with
  | (.error e, out, _) => (.error e, out)
  | (.ok cursor, out, emitted) => replayLoop X trace d remapIds results cursor consumed idMap out emitted

theorem replayInteractiveWith_eq (trace : TraceReader) (d : Disk) (clientIn : Bytes) (remapIds : Bool) :
    replayInteractiveWith X trace d clientIn remapIds
      = resume X trace d remapIds ((FrameReader.new clientIn).results X) 0 0 (fun _ => none) [] 0 := rfl

variable {trace : TraceReader} {d : Disk} {remapIds : Bool} {results : List (Except WireError Frame)}
  {cursor consumed : ℕ} {idMap : IdMap} {out : Bytes} {emitted : ℕ} {rec : EventRecord} {events : List EventRecord}

theorem drop_succ_of_drop (h : trace.events.drop cursor = rec :: events) : trace.events.drop (cursor + 1) = events := by
  rw [← List.drop_drop, h, List.drop_one, List.tail_cons]

/-- An A2c event is emitted. -/
theorem resume_a2c (h : trace.events.drop cursor = rec :: events) (hdir : rec.dir = .a2c) {line : Bytes}
    (hline : emitLine X trace d idMap remapIds rec = .ok line) (hn : 0x0A ∉ line) :
    resume X trace d remapIds results cursor consumed idMap out emitted
      = resume X trace d remapIds results (cursor + 1) consumed idMap (out ++ (line ++ [0x0A])) (emitted + 1) := by
  have hne : rec.dir ≠ .c2a := by rw [hdir]; decide
  rw [resume, h, emitA2cBlock, if_neg hne, hline]
  simp only [writeLine_of_notMem hn]
  rw [resume, drop_succ_of_drop h]

/-- A C2a event waits for the client: the end of its stream, an error of its reader, or a frame. -/
theorem resume_c2a (h : trace.events.drop cursor = rec :: events) (hdir : rec.dir = .c2a) :
    resume X trace d remapIds results cursor consumed idMap out emitted
      = match results with
        | [] => (.ok emitted, out)
        | .error e :: _ => (.error (.error (.wire e)), out)
        | .ok incoming :: rest =>
          match matchFrame X remapIds idMap rec incoming consumed with
          | .error e => (.error (.error e), out)
          | .ok idMap => resume X trace d remapIds rest (cursor + 1) (consumed + 1) idMap out emitted := by
  rw [resume, h, emitA2cBlock, if_pos hdir]
  simp only
  rcases results with _ | ⟨e | incoming, rest⟩
  · rfl
  · rfl
  · rw [replayLoop, h, findNextC2a, if_pos hdir]
    rfl

/-- At the end of the trace the client may end its stream; a frame is one too many. -/
theorem resume_nil (h : trace.events.drop cursor = []) :
    resume X trace d remapIds results cursor consumed idMap out emitted
      = match results with
        | [] => (.ok emitted, out)
        | .error e :: _ => (.error (.error (.wire e)), out)
        | .ok _ :: _ => (.error (.error (.traceExhausted none)), out) := by
  rw [resume, h, emitA2cBlock]
  simp only
  rcases results with _ | ⟨e | incoming, rest⟩
  · rfl
  · rfl
  · rw [replayLoop, h, findNextC2a]

/-! ### What is loaded -/

/-- A blob that loads is the bytes of a frame of the record's hash. -/
theorem frame_of_loadBlob {b : Bytes} (h : trace.loadBlob X d rec = .ok b) :
    ∃ f, Frame.parse X b = .ok f ∧ rec.hash = f.payloadHashStr X := by
  rw [TraceReader.loadBlob] at h
  split_ifs at h
  simp only at h
  split_ifs at h
  split at h
  · cases h
  · split_ifs at h
    split at h
    · cases h
    · split at h
      · cases h
      · next bytes _ frame hf =>
        split_ifs at h with hhash
        cases h
        exact ⟨frame, hf, (not_not.mp hhash).symm.trans (frame.payloadHashStr_eq X).symm⟩

theorem parse_of_loadBlob {b : Bytes} (h : trace.loadBlob X d rec = .ok b) : ∃ f, Frame.parse X b = .ok f := by
  obtain ⟨f, hf, -⟩ := frame_of_loadBlob X h
  exact ⟨f, hf⟩

theorem newline_notMem_of_loadBlob {b : Bytes} (h : trace.loadBlob X d rec = .ok b) : 0x0A ∉ b := by
  obtain ⟨f, hf⟩ := parse_of_loadBlob X h
  exact ((Frame.parse_eq_ok_iff X).mp hf).1

end AcpCore.Replay
