import AcpCore.Replay.Replay

/-!
# What remapping adds

With `remap_ids` on, a replay does what it does with it off, as far as that gets.

## The model

Both replays run over the same trace and the same client. As long as every frame matches
outright the id map is empty, and then a response is loaded and parsed, and written as
it is (`emitLine_empty`).

## What is proved

* `output_prefix_emitA2cBlock`, `output_prefix_replayLoop` — what is written stays written;
* `replayLoop_extends` — the two loops side by side;
* **`remap_extends_strict`** — a replay that succeeds does so with the option on, with the
  same count and output, and any replay's output is a prefix of what is written then.
-/

namespace AcpCore.Replay

open AcpCore.Text AcpCore.Wire AcpCore.Trace

/-- A run that another extends: the same where it succeeds, and else a beginning of it. -/
structure Extends (strict remap : Except (Abort ReplayError) ℕ × Bytes) : Prop where
  /-- What succeeds is the same. -/
  ok : ∀ n, strict.1 = .ok n → remap = strict
  /-- What is written is written. -/
  output : strict.2 <+: remap.2

theorem Extends.refl (result : Except (Abort ReplayError) ℕ × Bytes) : Extends result result :=
  ⟨fun _ _ => rfl, List.prefix_rfl⟩

/-- A run that ends in an error, by any that writes as much. -/
theorem Extends.of_error {e : Abort ReplayError} {out : Bytes} {remap : Except (Abort ReplayError) ℕ × Bytes}
    (h : out <+: remap.2) : Extends (.error e, out) remap :=
  ⟨fun _ h => (by cases h), h⟩

variable {X : Crates} {trace : TraceReader} {d : Disk}

/-! ### What is written stays -/

theorem output_prefix_writeLine (out line : Bytes) : out <+: (writeLine out line).2 := by
  unfold writeLine
  split_ifs
  · exact List.prefix_rfl
  · exact List.prefix_append out _

theorem output_prefix_emitA2cBlock (idMap : IdMap) (remapIds : Bool) (events : List EventRecord) (idx : ℕ) (out : Bytes)
    (emitted : ℕ) : out <+: (emitA2cBlock X trace d idMap remapIds events idx out emitted).2.1 := by
  induction events generalizing idx out emitted with
  | nil => exact List.prefix_rfl
  | cons rec events ih =>
    rw [emitA2cBlock]
    split_ifs
    · exact List.prefix_rfl
    cases emitLine X trace d idMap remapIds rec with
    | error e => exact List.prefix_rfl
    | ok line =>
      have hwrite := output_prefix_writeLine out line
      simp only
      rcases hw : writeLine out line with ⟨_ | _, out'⟩ <;> rw [hw] at hwrite
      · exact hwrite
      · exact hwrite.trans (ih (idx + 1) out' (emitted + 1))

theorem output_prefix_replayLoop (remapIds : Bool) (results : List (Except WireError Frame)) (cursor consumed : ℕ)
    (idMap : IdMap) (out : Bytes) (emitted : ℕ) :
    out <+: (replayLoop X trace d remapIds results cursor consumed idMap out emitted).2 := by
  induction results generalizing cursor consumed idMap out emitted with
  | nil => exact List.prefix_rfl
  | cons result results ih =>
    cases result with
    | error e => exact List.prefix_rfl
    | ok incoming =>
      unfold replayLoop
      cases findNextC2a (trace.events.drop cursor) cursor with
      | none => exact List.prefix_rfl
      | some found =>
        obtain ⟨idx, expected⟩ := found
        simp only
        cases matchFrame X remapIds idMap expected incoming consumed with
        | error e => exact List.prefix_rfl
        | ok idMap' =>
          simp only
          have hblock : out <+: (emitA2cBlock X trace d idMap' remapIds (trace.events.drop (idx + 1)) (idx + 1) out
              emitted).2.1 := output_prefix_emitA2cBlock ..
          rcases hemit : emitA2cBlock X trace d idMap' remapIds (trace.events.drop (idx + 1)) (idx + 1) out emitted with
            ⟨_ | cursor', out', emitted'⟩ <;> rw [hemit] at hblock
          · exact hblock
          · exact hblock.trans (ih cursor' (consumed + 1) idMap' out' emitted')

/-! ### With an empty map -/

/-- With no id in the map an event's line is the one written without remapping. -/
theorem emitLine_empty (idMap : IdMap) (rec : EventRecord) :
    emitLine X trace d (fun _ => none) true rec = emitLine X trace d idMap false rec := by
  have hstrict : ¬ (false = true ∧ rec.kind = .response) := fun h => (by cases h.1)
  rw [emitLine, emitLine]
  by_cases hkind : rec.kind = .response
  · rw [if_pos ⟨rfl, hkind⟩, if_neg hstrict]
    cases hload : trace.loadBlob X d rec with
    | error e => rfl
    | ok bytes =>
      -- what loads has been parsed before
      obtain ⟨frame, hframe⟩ := parse_of_loadBlob X hload
      simp only [hframe]
      split_ifs
      · cases frame.id <;> rfl
      · rfl
  · rw [if_neg fun h => hkind h.2, if_neg hstrict]

theorem emitA2cBlock_empty (idMap : IdMap) (events : List EventRecord) (idx : ℕ) (out : Bytes) (emitted : ℕ) :
    emitA2cBlock X trace d (fun _ => none) true events idx out emitted
      = emitA2cBlock X trace d idMap false events idx out emitted := by
  induction events generalizing idx out emitted with
  | nil => rfl
  | cons rec events ih =>
    rw [emitA2cBlock, emitA2cBlock, emitLine_empty idMap]
    simp only [ih]

/-- A frame that matches outright is one that matches with remapping, and is not noted. -/
theorem matchFrame_of_strict {idMap idMap' : IdMap} {expected : EventRecord} {incoming : Frame} {consumed : ℕ}
    (h : matchFrame X false idMap expected incoming consumed = .ok idMap') (remapIds : Bool) :
    idMap' = idMap ∧ matchFrame X remapIds idMap expected incoming consumed = .ok idMap := by
  by_cases hhash : incoming.payloadHashStr X = expected.hash
  · rw [matchFrame, if_pos hhash] at h ⊢
    cases h
    exact ⟨rfl, rfl⟩
  · rw [matchFrame, if_neg hhash, if_neg (by decide)] at h
    cases h

/-! ### Side by side -/

/-- **The two loops side by side**, as long as no id has been noted. -/
theorem replayLoop_extends (results : List (Except WireError Frame)) (cursor consumed : ℕ) (out : Bytes) (emitted : ℕ) :
    Extends (replayLoop X trace d false results cursor consumed (fun _ => none) out emitted)
      (replayLoop X trace d true results cursor consumed (fun _ => none) out emitted) := by
  induction results generalizing cursor consumed out emitted with
  | nil => exact .refl _
  | cons result results ih =>
    cases result with
    | error e => exact .refl _
    | ok incoming =>
      have hremap : out <+: (replayLoop X trace d true (.ok incoming :: results) cursor consumed (fun _ => none) out
          emitted).2 := output_prefix_replayLoop ..
      rw [replayLoop]
      cases hfind : findNextC2a (trace.events.drop cursor) cursor with
      | none => exact .of_error hremap
      | some found =>
        obtain ⟨idx, expected⟩ := found
        simp only
        cases hmatch : matchFrame X false (fun _ => none) expected incoming consumed with
        | error e => exact .of_error hremap
        | ok idMap' =>
          -- the frame matches outright
          obtain ⟨rfl, hmatch'⟩ := matchFrame_of_strict hmatch true
          rw [replayLoop, hfind]
          simp only [hmatch', emitA2cBlock_empty fun _ => none]
          rcases emitA2cBlock X trace d (fun _ => none) false (trace.events.drop (idx + 1)) (idx + 1) out emitted with
            ⟨_ | cursor', out', emitted'⟩
          · exact .refl _
          · exact ih cursor' (consumed + 1) out' emitted'

/-- **Remapping extends strict replay**, for every trace, disk and client: a replay that returns `Ok` without
remapping returns the same count with it, and writes the same; and however it ends, what it has written is
a prefix of what is written with it. -/
theorem remap_extends_strict (trace : TraceReader) (d : Disk) (clientIn : Bytes) :
    (∀ n out, replayInteractiveWith X trace d clientIn false = (.ok n, out) →
      replayInteractiveWith X trace d clientIn true = (.ok n, out)) ∧
    (replayInteractiveWith X trace d clientIn false).2 <+: (replayInteractiveWith X trace d clientIn true).2 := by
  have h : Extends (replayInteractiveWith X trace d clientIn false) (replayInteractiveWith X trace d clientIn true) := by
    rw [replayInteractiveWith, replayInteractiveWith, emitA2cBlock_empty fun _ => none]
    rcases emitA2cBlock X trace d (fun _ => none) false trace.events 0 [] 0 with ⟨_ | cursor, out, emitted⟩
    · exact .refl _
    · exact replayLoop_extends _ cursor 0 out emitted
  refine ⟨fun n out hstrict => ?_, h.output⟩
  rw [hstrict] at h
  exact h.ok n rfl

end AcpCore.Replay
