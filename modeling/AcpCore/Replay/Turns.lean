import AcpCore.Library.Machine
import AcpCore.Replay.Replay

/-!
# The turns of a replay

To a client a replay is an agent that says lines and hears frames, one after another in
the order of the trace. This holds for any trace and any client: the blobs need not
load, and the client may send what it likes.

## The model

`Play` is the agent: the events it has yet to play, and the ids it gives back. A turn
plays the next event, that is the agent's (`say`) or the client's (`hear`). `Ending` says
how a play stops.

## What is proved

* `resume_plays` — from any cursor a replay is a play, and stops as plays do;
* `Playing.step` — what every turn keeps: the turns are those of the events, in order, and
  the ids given back are of frames that were heard;
* **`replay_plays`** — a replay with or without remapping, whatever it returns: it never
  says a line before it has heard what was recorded before it, every line it says is the
  recorded one or has an id in it that the client has sent, and it takes its turns for
  as long as there is one to take.
-/

namespace AcpCore.Replay

open AcpCore.Text AcpCore.Wire AcpCore.Trace

/-- A turn. -/
inductive Turn where
  /-- A frame of the client is heard. -/
  | hear (frame : Frame)
  /-- A line is said. -/
  | say (line : Bytes)

/-- The frame heard. -/
def Turn.heard : Turn → Option Frame
  | .hear frame => some frame
  | .say _ => none

/-- The line said. -/
def Turn.said : Turn → Option Bytes
  | .hear _ => none
  | .say line => some line

/-- An agent that plays a trace. -/
structure Play where
  /-- The events that are left. -/
  events : List EventRecord
  /-- The client's ids for recorded ones. -/
  idMap : IdMap

variable (X : Crates) (trace : TraceReader) (d : Disk) (remapIds : Bool)

/-- It takes a turn: the next event is the agent's and the line is what is written for it, or it is the client's and the
frame matches. -/
def Play.step (p : Play) : Turn → Option Play
  | .say line =>
    match p.events with
    | rec :: events =>
      if rec.dir = .a2c ∧ emitLine X trace d p.idMap remapIds rec = .ok line then some { p with events } else none
    | [] => none
  | .hear frame =>
    match p.events with
    | rec :: events =>
      if rec.dir = .c2a then (matchFrame X remapIds p.idMap rec frame 0).toOption.map fun idMap => ⟨events, idMap⟩
      else none
    | [] => none

/-- A turn plays an event, when some frames have been heard: one that is heard is the recorded one, or is so with the
recorded id; a line that is said is the recorded one, or has in place of the recorded id one that was heard. -/
def Turn.Plays (rec : EventRecord) (heard : List Frame) : Turn → Prop
  | .hear f => rec.dir = .c2a ∧ (f.payloadHashStr X = rec.hash ∨
      (remapIds = true ∧ ∃ r, rec.id = some r ∧ hashWithId X f.value (recordIdToWire r) = rec.hash))
  | .say line => rec.dir = .a2c ∧ ∃ b, trace.loadBlob X d rec = .ok b ∧ (line = b ∨
      (remapIds = true ∧ ∃ f r c, Frame.parse X b = .ok f ∧ f.kind = .response ∧ f.id = some r ∧
        (∃ g ∈ heard, g.id = some c) ∧ line = rewriteIdInValue X f.value c))

/-- What a play has come to. -/
structure Playing (turns : List Turn) (p : Play) : Prop where
  /-- The events are left for which there was no turn. -/
  events : p.events = trace.events.drop turns.length
  /-- The ids given back are of frames heard. -/
  idMap : ∀ r c, p.idMap r = some c → ∃ g ∈ turns.filterMap Turn.heard, g.id = some c
  /-- Each turn has played its event. -/
  plays : ∀ (i : ℕ) (t : Turn), turns[i]? = some t → ∃ rec, trace.events[i]? = some rec ∧
    t.Plays X trace d remapIds rec ((turns.take i).filterMap Turn.heard)

/-- How a play stops: what it returns, for what the client's reader has left. -/
inductive Ending (said : ℕ) : Play → List (Except WireError Frame) → Except (Abort ReplayError) ℕ → Prop where
  /-- The client's stream ends when there is nothing to say. -/
  | over {p : Play} : (∀ rec, p.events.head? = some rec → rec.dir = .c2a) → Ending said p [] (.ok said)
  /-- The client's stream is malformed when there is nothing to say. -/
  | malformed {p : Play} {e : WireError} {rest : List (Except WireError Frame)} :
      (∀ rec, p.events.head? = some rec → rec.dir = .c2a) → Ending said p (.error e :: rest) (.error (.error (.wire e)))
  /-- Another frame was expected. -/
  | diverged {p : Play} {f : Frame} {rest : List (Except WireError Frame)} {rec : EventRecord} {consumed : ℕ} :
      p.events.head? = some rec → rec.dir = .c2a → p.step X trace d remapIds (.hear f) = none →
      Ending said p (.ok f :: rest) (.error (.error (divergence X rec f consumed)))
  /-- No frame was expected. -/
  | exhausted {p : Play} {f : Frame} {rest : List (Except WireError Frame)} :
      p.events = [] → Ending said p (.ok f :: rest) (.error (.error (.traceExhausted none)))
  /-- What is to be said does not load. -/
  | unreadable {p : Play} {results : List (Except WireError Frame)} {rec : EventRecord} {e : Abort ReplayError} :
      p.events.head? = some rec → rec.dir = .a2c → emitLine X trace d p.idMap remapIds rec = .error e →
      Ending said p results (.error e)

variable {X trace d remapIds}

/-! ### One event -/

/-- What is written for an event is one line. -/
theorem newline_notMem_emitLine {idMap : IdMap} {rec : EventRecord} {line : Bytes}
    (h : emitLine X trace d idMap remapIds rec = .ok line) : 0x0A ∉ line := by
  rw [emitLine] at h
  split_ifs at h
  · split at h
    · cases h
    · next bytes hload =>
      have hbytes := newline_notMem_of_loadBlob X hload
      split at h
      · cases h
      · split_ifs at h
        · split at h
          · cases h
            exact hbytes
          · split at h
            · cases h
              exact Json.newline_notMem_render _
            · cases h
              exact hbytes
        · cases h
          exact hbytes
  · split at h
    · cases h
    · next bytes hload =>
      cases h
      exact newline_notMem_of_loadBlob X hload

/-- How many frames were consumed is for the divergence only. -/
theorem matchFrame_eq_ok {idMap idMap' : IdMap} {rec : EventRecord} {f : Frame} {consumed : ℕ} (consumed' : ℕ)
    (h : matchFrame X remapIds idMap rec f consumed = .ok idMap') :
    matchFrame X remapIds idMap rec f consumed' = .ok idMap' := by
  unfold matchFrame at h ⊢
  split_ifs at h ⊢
  · exact h
  · split at h
    · split_ifs at h ⊢
      exact h
    · cases h

/-- A frame that does not match diverges. -/
theorem matchFrame_eq_error {idMap : IdMap} {rec : EventRecord} {f : Frame} {consumed : ℕ} {e : ReplayError}
    (h : matchFrame X remapIds idMap rec f consumed = .error e) : e = divergence X rec f consumed := by
  unfold matchFrame at h
  split_ifs at h
  · split at h
    · split_ifs at h
      exact (Except.error.inj h).symm
    · exact (Except.error.inj h).symm
  · exact (Except.error.inj h).symm

/-! ### From a cursor on -/

/-- A turn, and then others. -/
theorem run_turn {p p₁ p' : Play} {t : Turn} {turns : List Turn} (ht : p.step X trace d remapIds t = some p₁)
    (h : Machine.run (Play.step X trace d remapIds) Machine.anything p₁ turns = some p') :
    Machine.run (Play.step X trace d remapIds) Machine.anything p (t :: turns) = some p' := by
  rw [Machine.run, if_pos (show Machine.anything p t = true from rfl), ht]
  exact h

variable (X trace d remapIds) in
/-- **A replay is a play**, from any cursor on, and stops as plays do. -/
theorem resume_plays {events : List EventRecord} {cursor : ℕ} (h : trace.events.drop cursor = events)
    (results : List (Except WireError Frame)) (consumed : ℕ) (idMap : IdMap) (out : Bytes) (emitted : ℕ) :
    ∃ turns p rest, Machine.run (Play.step X trace d remapIds) Machine.anything ⟨events, idMap⟩ turns = some p ∧
      results = (turns.filterMap Turn.heard).map .ok ++ rest ∧
      (resume X trace d remapIds results cursor consumed idMap out emitted).2
        = out ++ Lines.joinLines 0x0A (turns.filterMap Turn.said) ∧
      Ending X trace d remapIds (emitted + (turns.filterMap Turn.said).length) p rest
        (resume X trace d remapIds results cursor consumed idMap out emitted).1 := by
  induction events generalizing cursor results consumed idMap out emitted with
  | nil =>
    have hhead : ∀ rec, (⟨[], idMap⟩ : Play).events.head? = some rec → rec.dir = .c2a := fun _ h => by cases h
    rw [resume_nil X h]
    rcases results with _ | ⟨e | f, rest⟩
    · exact ⟨[], ⟨[], idMap⟩, _, rfl, rfl, by simp, .over hhead⟩
    · exact ⟨[], ⟨[], idMap⟩, _, rfl, rfl, by simp, .malformed hhead⟩
    · exact ⟨[], ⟨[], idMap⟩, _, rfl, rfl, by simp, .exhausted rfl⟩
  | cons rec events ih =>
    cases hdir : rec.dir with
    | a2c =>
      cases hline : emitLine X trace d idMap remapIds rec with
      | error e =>
        have hstuck : resume X trace d remapIds results cursor consumed idMap out emitted = (.error e, out) := by
          rw [resume, h, emitA2cBlock, if_neg (by rw [hdir]; decide), hline]
        rw [hstuck]
        exact ⟨[], ⟨rec :: events, idMap⟩, results, rfl, rfl, by simp, .unreadable rfl hdir hline⟩
      | ok line =>
        obtain ⟨turns, p, rest, hrun, hresults, hout, hending⟩ := ih (drop_succ_of_drop h) results consumed idMap
          (out ++ (line ++ [0x0A])) (emitted + 1)
        rw [← resume_a2c X h hdir hline (newline_notMem_emitLine hline)] at hout hending
        refine ⟨.say line :: turns, p, rest, run_turn (if_pos ⟨hdir, hline⟩) hrun, hresults, ?_, ?_⟩
        · rw [hout, List.filterMap_cons, Turn.said, Lines.joinLines_cons]
          simp
        · rwa [List.filterMap_cons, Turn.said, List.length_cons, Nat.add_comm _ 1, ← Nat.add_assoc]
    | c2a =>
      have hhead : ∀ r, (⟨rec :: events, idMap⟩ : Play).events.head? = some r → r.dir = .c2a :=
        fun r hr => Option.some.inj hr ▸ hdir
      rw [resume_c2a X h hdir]
      rcases results with _ | ⟨e | f, results⟩
      · exact ⟨[], ⟨rec :: events, idMap⟩, _, rfl, rfl, by simp, .over hhead⟩
      · exact ⟨[], ⟨rec :: events, idMap⟩, _, rfl, rfl, by simp, .malformed hhead⟩
      · cases hmatch : matchFrame X remapIds idMap rec f consumed with
        | error e =>
          simp only [hmatch]
          refine ⟨[], ⟨rec :: events, idMap⟩, _, rfl, rfl, by simp, ?_⟩
          obtain rfl := matchFrame_eq_error hmatch
          refine .diverged rfl hdir ?_
          rw [Play.step]
          simp only [hdir, if_true]
          cases hmatch' : matchFrame X remapIds idMap rec f 0 with
          | error e => rfl
          | ok idMap' =>
            rw [matchFrame_eq_ok consumed hmatch'] at hmatch
            cases hmatch
        | ok idMap' =>
          obtain ⟨turns, p, rest, hrun, hresults, hout, hending⟩ := ih (drop_succ_of_drop h) results (consumed + 1)
            idMap' out emitted
          have hstep : Play.step X trace d remapIds ⟨rec :: events, idMap⟩ (.hear f) = some ⟨events, idMap'⟩ := by
            rw [Play.step]
            simp only [hdir, if_true, matchFrame_eq_ok 0 hmatch]
            rfl
          simp only [hmatch]
          exact ⟨.hear f :: turns, p, rest, run_turn hstep hrun, by rw [hresults]; rfl, hout, hending⟩

/-! ### What turns keep -/

/-- What is written for an event is its blob, or has an id in it that is given back. -/
theorem emitLine_eq_ok {idMap : IdMap} {rec : EventRecord} {line : Bytes}
    (h : emitLine X trace d idMap remapIds rec = .ok line) : ∃ b, trace.loadBlob X d rec = .ok b ∧ (line = b ∨
      (remapIds = true ∧ ∃ f r c, Frame.parse X b = .ok f ∧ f.kind = .response ∧ f.id = some r ∧ idMap r = some c ∧
        line = rewriteIdInValue X f.value c)) := by
  rw [emitLine] at h
  split_ifs at h with hremap
  · split at h
    · cases h
    · next bytes hload =>
      refine ⟨bytes, hload, ?_⟩
      split at h
      · cases h
      · next f hf =>
        split_ifs at h with hkind
        · split at h
          · exact .inl (Except.ok.inj h).symm
          · next r hr =>
            split at h
            · next c hc => exact .inr ⟨hremap.1, f, r, c, hf, hkind, hr, hc, (Except.ok.inj h).symm⟩
            · exact .inl (Except.ok.inj h).symm
        · exact .inl (Except.ok.inj h).symm
  · split at h
    · cases h
    · next bytes hload => exact ⟨bytes, hload, .inl (Except.ok.inj h).symm⟩

/-- A frame that matches has the recorded hash, or has it with the recorded id, and then its own id is given back. -/
theorem matchFrame_ok {idMap idMap' : IdMap} {rec : EventRecord} {f : Frame} {consumed : ℕ}
    (h : matchFrame X remapIds idMap rec f consumed = .ok idMap') :
    (f.payloadHashStr X = rec.hash ∧ idMap' = idMap) ∨
      (remapIds = true ∧ ∃ r c, rec.id = some r ∧ f.id = some c ∧ hashWithId X f.value (recordIdToWire r) = rec.hash ∧
        idMap' = Function.update idMap (recordIdToWire r) (some c)) := by
  unfold matchFrame at h
  split_ifs at h with hhash hremap
  · exact .inl ⟨hhash, (Except.ok.inj h).symm⟩
  · split at h
    · next r c hr hc =>
      split_ifs at h with hwith
      exact .inr ⟨hremap, r, c, hr, hc, hwith, (Except.ok.inj h).symm⟩
    · cases h

/-- One more turn, that plays the next event. -/
theorem Playing.concat {turns : List Turn} {p p' : Play} {t : Turn} {rec : EventRecord} {events : List EventRecord}
    (h : Playing X trace d remapIds turns p) (hevents : p.events = rec :: events) (hevents' : p'.events = events)
    (hplays : t.Plays X trace d remapIds rec (turns.filterMap Turn.heard))
    (hidMap : ∀ r c, p'.idMap r = some c → ∃ g ∈ (turns ++ [t]).filterMap Turn.heard, g.id = some c) :
    Playing X trace d remapIds (turns ++ [t]) p' where
  events := by
    rw [hevents', List.length_append, List.length_singleton, ← List.drop_drop, ← h.events, hevents, List.drop_one,
      List.tail_cons]
  idMap := hidMap
  plays i t' hi := by
    rcases lt_or_ge i turns.length with hlt | hge
    · rw [List.getElem?_append_left hlt] at hi
      rw [List.take_append_of_le_length hlt.le]
      exact h.plays i t' hi
    · rw [List.getElem?_append_right hge] at hi
      obtain rfl : i = turns.length := by
        have hlt := (List.getElem?_eq_some_iff.mp hi).1
        rw [List.length_singleton] at hlt
        omega
      rw [Nat.sub_self] at hi
      obtain rfl : t = t' := Option.some.inj hi
      refine ⟨rec, ?_, ?_⟩
      · rw [← List.head?_drop, ← h.events, hevents, List.head?_cons]
      · rwa [List.take_left]

/-- **What every turn keeps.** -/
theorem Playing.step {turns : List Turn} {p p' : Play} {t : Turn} (hstep : p.step X trace d remapIds t = some p')
    (h : Playing X trace d remapIds turns p) : Playing X trace d remapIds (turns ++ [t]) p' := by
  have hheard : ∀ {g : Frame}, g ∈ turns.filterMap Turn.heard → g ∈ (turns ++ [t]).filterMap Turn.heard := by
    intro g hg
    rw [List.filterMap_append]
    exact List.mem_append_left _ hg
  have hkept : ∀ r c, p.idMap r = some c → ∃ g ∈ (turns ++ [t]).filterMap Turn.heard, g.id = some c := by
    intro r c hc
    obtain ⟨g, hg, hid⟩ := h.idMap r c hc
    exact ⟨g, hheard hg, hid⟩
  cases t with
  | say line =>
    rw [Play.step] at hstep
    split at hstep
    · next rec events hevents =>
      split_ifs at hstep with hsay
      cases hstep
      refine h.concat hevents rfl ?_ hkept
      obtain ⟨b, hload, hline⟩ := emitLine_eq_ok hsay.2
      refine ⟨hsay.1, b, hload, hline.imp_right ?_⟩
      rintro ⟨hremap, f, r, c, hf, hkind, hr, hc, hline⟩
      exact ⟨hremap, f, r, c, hf, hkind, hr, h.idMap r c hc, hline⟩
    · cases hstep
  | hear f =>
    rw [Play.step] at hstep
    split at hstep
    · next rec events hevents =>
      split_ifs at hstep with hdir
      obtain ⟨idMap, hmatch, rfl⟩ := Option.map_eq_some_iff.mp hstep
      have hok : matchFrame X remapIds p.idMap rec f 0 = .ok idMap := by
        cases hm : matchFrame X remapIds p.idMap rec f 0 with
        | error e => rw [hm] at hmatch; cases hmatch
        | ok m => rw [hm] at hmatch; cases hmatch; rfl
      rcases matchFrame_ok hok with ⟨hhash, rfl⟩ | ⟨hremap, r, c, hr, hc, hwith, rfl⟩
      · exact h.concat hevents rfl ⟨hdir, .inl hhash⟩ hkept
      · refine h.concat hevents rfl ⟨hdir, .inr ⟨hremap, r, hr, hwith⟩⟩ fun r' c' hc' => ?_
        simp only [Function.update_apply] at hc'
        split_ifs at hc'
        · cases hc'
          exact ⟨f, by simp [Turn.heard], hc⟩
        · exact hkept r' c' hc'
    · cases hstep

/-- **A replay plays its trace**, with or without remapping, for every trace, every client and every disk, and whatever it
returns. Turn by turn it plays the events, in their order: it hears frames that match the client's events, and says the
agent's lines, each the one recorded, or with an id that the client has sent by then in place of the recorded one. It
takes what it hears from the client's stream in order, writes what it says and nothing else, and stops with the result
that belongs to the turn it cannot take. -/
theorem replay_plays (trace : TraceReader) (d : Disk) (clientIn : Bytes) (remapIds : Bool) :
    ∃ turns p rest, Playing X trace d remapIds turns p ∧
      (FrameReader.new clientIn).results X = (turns.filterMap Turn.heard).map .ok ++ rest ∧
      (replayInteractiveWith X trace d clientIn remapIds).2 = Lines.joinLines 0x0A (turns.filterMap Turn.said) ∧
      Ending X trace d remapIds (turns.filterMap Turn.said).length p rest
        (replayInteractiveWith X trace d clientIn remapIds).1 := by
  obtain ⟨turns, p, rest, hrun, hresults, hout, hending⟩ := resume_plays X trace d remapIds
    (List.drop_zero (l := trace.events)) ((FrameReader.new clientIn).results X) 0 (fun _ => none) [] 0
  rw [← replayInteractiveWith_eq, List.nil_append] at hout
  rw [← replayInteractiveWith_eq, Nat.zero_add] at hending
  refine ⟨turns, p, rest, ?_, hresults, hout, hending⟩
  have hinit : Playing X trace d remapIds [] ⟨trace.events, fun _ => none⟩ := by
    refine ⟨rfl, fun r c hc => ?_, fun i t ht => ?_⟩
    · cases hc
    · rw [List.getElem?_nil] at ht
      cases ht
  exact Machine.run_history_nil (Playing X trace d remapIds) (fun _ _ _ _ _ hstep hp => hp.step hstep) hrun
    hinit

end AcpCore.Replay
