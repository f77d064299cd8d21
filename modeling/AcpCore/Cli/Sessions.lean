import AcpCore.Cli.Commands
import AcpCore.Proxy.Progress

/-!
# Sessions on the command line

What `acp` says of the sessions it has recorded.

## The model

A session is recorded by a run of the proxy. Its directory may have been copied: of the
disk a command reads, only the manifest and the log of a directory are as the run left
them. A second session is recorded of a replay of the first, `acp record -- acp replay`, where the
client's lines are those of the first: the replay reads what the second proxy forwards
to it, and what it writes is what that proxy is sent. `acp emit` is the other command that
plays the agent, to a client it does not listen to.

## What is proved

* `exitCode_of_run` — `acp record` exits with what the agent does, brought between 0 and 255;
* **`diff_of_runs`** — in any states of any two runs of the proxy, `acp diff` exits with 0 if the
  sessions recorded so far are the same, with 1 if they are not, and with nothing else;
* `forall₂_of_filter` — messages in two directions, of which those in each direction are related;
* **`rerecorded_of_replay`** — what is recorded of a replay has, in each direction, the messages
  of the session replayed, and `acp diff` of the two says whether they were recorded in
  the same order.
-/

namespace AcpCore.Cli

open AcpCore.Text AcpCore.Wire AcpCore.Trace AcpCore.Replay AcpCore.Proxy

variable {X : Crates}

/-! ### The exit code of `record` -/

/-- The arguments are accepted, and the threads are spawned. -/
theorem start_of_cmdRecord {traceDir clockSpec version : Str} {captureEnv : List Str} {agent : List OsString}
    {noRecordingEnv spawned : Bool} {p : Process} {now : Clock → Str} {d : Disk} {clock : Clock} {s₀ : State}
    (h : cmdRecord traceDir captureEnv noRecordingEnv clockSpec agent version p now spawned d = .ok (clock, s₀)) :
    parseClock clockSpec = .ok clock ∧
      start ⟨agent, traceDir, version, captureEnv, noRecordingEnv⟩ p (now clock) spawned d = .ok s₀ := by
  unfold cmdRecord at h
  split_ifs at h
  split at h
  · cases h
  · next hclock =>
    dsimp only at h
    split at h
    · cases h
    · next hstart =>
      cases h
      exact ⟨hclock, hstart⟩

/-- `acp record` exits with the agent's exit code, brought between 0 and 255; with 2 where it could not wait for the
agent, or the disk failed. -/
theorem exitCode_of_run {traceDir clockSpec version : Str} {captureEnv : List Str} {agent : List OsString}
    {noRecordingEnv spawned : Bool} {p : Process} {now : Clock → Str} {d : Disk} {clock : Clock} {s₀ s : State}
    {as : List Action}
    (hrecord : cmdRecord traceDir captureEnv noRecordingEnv clockSpec agent version p now spawned d = .ok (clock, s₀))
    (hrun : run X Machine.anything s₀ as = some s) {result : Except ProxyError ℤ} (hret : s.main = .returned result) :
    (∃ status, s.exited = some status ∧ exitCode (recordReturn result) = (max 0 (min (status.getD 0) 255)).toNat) ∨
      (.waitFails ∈ as ∨ d.faults ≠ .none) ∧ exitCode (recordReturn result) = 2 := by
  obtain ⟨-, hstart⟩ := start_of_cmdRecord hrecord
  rcases (reported_of_run hstart hrun).returned result hret with ⟨status, hexited, rfl⟩ | ⟨hwait, rfl⟩ | ⟨hfails, e, rfl⟩
  · exact .inl ⟨status, hexited, rfl⟩
  · exact .inr ⟨.inl hwait, rfl⟩
  · exact .inr ⟨.inr hfails, rfl⟩

/-! ### The verdict of `diff` -/

/-- A directory has the manifest and the log of another, maybe on another disk. -/
structure Copied (root : Str) (d : Disk) (root' : Str) (d' : Disk) : Prop where
  /-- The manifest. -/
  manifest : d'.files (join root' manifestFile) = d.files (join root manifestFile)
  /-- The log. -/
  log : d'.files (join root' eventsFile) = d.files (join root eventsFile)

/-- What a run has recorded, in its directory or in a copy. -/
theorem traced_of_kept {root root' : Str} {d d₁ d' : Disk} {calls : List Call} (h : Kept X root d calls d₁)
    (hcopy : Copied root d₁ root' d') : Traced X root' d' calls := by
  obtain ⟨m, hm, hversion⟩ := h.manifest
  exact ⟨⟨m, hcopy.manifest.trans hm, hversion⟩, hcopy.log.trans h.log⟩

/-- **The verdict of `acp diff`.** Take any two runs of the proxy, in any state, and copies of their directories, all on
disks that do not fail. Where the canonical forms of what was sent do not collide, `acp diff` of the copies exits with 0
if the sessions recorded have the same directions and the same values, message by message, and with 1 if they do not. -/
theorem diff_of_runs (hnum : Function.Injective X.printNumber) (htext : X.ReadsText) {cfg₁ cfg₂ : ProxyConfig}
    {p₁ p₂ : Process} {now₁ now₂ : Str} {spawned₁ spawned₂ : Bool} {d₁ d₂ : Disk} (hd₁ : d₁.faults = .none)
    (hd₂ : d₂.faults = .none) {s₀ s t₀ t : State} {as bs : List Action}
    (hstart₁ : start cfg₁ p₁ now₁ spawned₁ d₁ = .ok s₀) (hstart₂ : start cfg₂ p₂ now₂ spawned₂ d₂ = .ok t₀)
    (hrun₁ : run X Machine.anything s₀ as = some s) (hrun₂ : run X Machine.anything t₀ bs = some t)
    (hcoll : {b | ∃ f ∈ framesSent as ++ framesSent bs, b = canonicalize X f.value}.InjOn X.blake3) {a b : Str} {d : Disk}
    (hd : d.faults = .none) (ha : Copied cfg₁.traceDir s.disk a d) (hb : Copied cfg₂.traceDir t.disk b d) (dot : Bool) :
    ∃ code text, cmdDiff X a b dot d = (.ok code, text) ∧
      (code = 0 ↔ SameSession (s.log.map Entry.call) (t.log.map Entry.call)) ∧
      (code = 1 ↔ ¬ SameSession (s.log.map Entry.call) (t.log.map Entry.call)) := by
  have hs := traced_of_kept (kept_of_run hd₁ hstart₁ hrun₁) ha
  have ht := traced_of_kept (kept_of_run hd₂ hstart₂ hrun₂) hb
  refine cmdDiff_of_traced hnum htext hd hs ht hcoll (fun c hc => ?_) (fun c hc => ?_) dot
  · exact List.mem_append_left _ (frame_mem_framesSent hstart₁ hrun₁ c hc)
  · exact List.mem_append_right _ (frame_mem_framesSent hstart₂ hrun₂ c hc)

/-! ### A replay that is recorded -/

variable (X) in
/-- A session that is recorded whole: the run has returned `Ok`, no step of it has failed, and no frame was forwarded that
is not recorded. -/
structure Whole (root : Str) (d : Disk) (as : List Action) (s : State) : Prop where
  /-- The disk does not fail. -/
  noFaults : d.faults = .none
  /-- It is a run. -/
  run : ∃ cfg p now spawned s₀, cfg.traceDir = root ∧ start cfg p now spawned d = .ok s₀ ∧
    Proxy.run X (fun s a => unfailing X s a && lossless X s a) s₀ as = some s
  /-- It has returned. -/
  returned : ∃ code, s.main = .returned (.ok code)

/-- All that was sent is frames, and all of it is recorded. -/
theorem Whole.sent_eq {root : Str} {d : Disk} {as : List Action} {s : State} (h : Whole X root d as s) (dir : Direction) :
    sent dir as = ((s.lane dir).forwarded.map Item.frame).map .ok ∧ recordedIn dir s.log = (s.lane dir).forwarded := by
  obtain ⟨cfg, p, now, spawned, s₀, rfl, hstart, hrun⟩ := h.run
  obtain ⟨code, hret⟩ := h.returned
  have hrelayed := relayed_of_unfailing hstart (Machine.run_mono (fun _ _ h => (Bool.and_eq_true _ _ ▸ h).1) hrun) hret
  have hlossless := recorded_of_lossless hstart (Machine.run_mono (fun _ _ h => (Bool.and_eq_true _ _ ▸ h).2) hrun) hret
  refine ⟨?_, hlossless dir⟩
  rw [hrelayed.forwarded dir, List.map_map]
  rfl

/-- Its directory has what was recorded, all of which was sent. -/
theorem Whole.kept {root : Str} {d : Disk} {as : List Action} {s : State} (h : Whole X root d as s) :
    Kept X root d (s.log.map Entry.call) s.disk ∧ ∀ c ∈ s.log.map Entry.call, c.frame ∈ framesSent as := by
  obtain ⟨cfg, p, now, spawned, s₀, rfl, hstart, hrun⟩ := h.run
  have hany := Machine.run_anything hrun
  exact ⟨kept_of_run h.noFaults hstart hany, frame_mem_framesSent hstart hany⟩

/-- What is written of the session: `acp emit` writes the agent's lines, and `acp replay` answers the client's with them. -/
theorem Whole.outputs (hnum : Function.Injective X.printNumber) (htext : X.ReadsText) (hws : X.Whitespace) {root : Str}
    {d : Disk} {as : List Action} {s : State} (h : Whole X root d as s)
    (hfs : SpelledAlike X (blobStore root d) (framesSent as)) :
    cmdEmit X root s.disk = (.ok 0, Lines.joinLines 0x0A (((s.lane .a2c).forwarded.map Item.frame).map Frame.raw)) ∧
      cmdReplay X root false (Lines.joinLines 0x0A (((s.lane .c2a).forwarded.map Item.frame).map Frame.raw)) s.disk
        = (.ok 0, Lines.joinLines 0x0A (((s.lane .a2c).forwarded.map Item.frame).map Frame.raw)) := by
  obtain ⟨hkept, hmem⟩ := h.kept
  obtain ⟨r, hopen, hoffline, hinteractive⟩ := replays_of_kept hnum htext hws hkept hfs hmem
  have hlines : ∀ dir, rawLines dir (s.log.map Entry.call) = ((s.lane dir).forwarded.map Item.frame).map Frame.raw := by
    intro dir
    rw [rawLines_log, (h.sent_eq dir).2, List.map_map]
    rfl
  rw [hlines] at hoffline
  rw [hlines, hlines] at hinteractive
  have hwith : replayInteractiveWith X r s.disk _ false = _ := hinteractive
  rw [cmdEmit, cmdReplay, hopen]
  simp only [hoffline, hwith, and_self]

/-- Messages in two directions are related one by one when those of each direction are, and the directions are the
same. -/
theorem forall₂_of_filter {α β : Type} {R : α → β → Prop} (dir : α → Direction) (dir' : β → Direction) {as : List α}
    {bs : List β} (hdir : as.map dir = bs.map dir')
    (h : ∀ e, List.Forall₂ R (as.filter (dir · = e)) (bs.filter (dir' · = e))) :
    List.Forall₂ (fun a b => dir a = dir' b ∧ R a b) as bs := by
  induction as generalizing bs with
  | nil =>
    obtain rfl := List.map_eq_nil_iff.mp hdir.symm
    exact .nil
  | cons a as ih =>
    cases bs with
    | nil => cases hdir
    | cons b bs =>
      rw [List.map_cons, List.map_cons, List.cons.injEq] at hdir
      obtain ⟨hab, hdir⟩ := hdir
      have hhead := h (dir a)
      rw [List.filter_cons_of_pos (by simp), List.filter_cons_of_pos (by simp [hab]), List.forall₂_cons] at hhead
      refine .cons ⟨hab, hhead.1⟩ (ih hdir fun e => ?_)
      have hrest := h e
      by_cases he : dir a = e
      · rw [List.filter_cons_of_pos (by simpa using he), List.filter_cons_of_pos (by simpa [← hab] using he),
          List.forall₂_cons] at hrest
        exact hrest.2
      · rwa [List.filter_cons_of_neg (by simpa using he), List.filter_cons_of_neg (by simpa [← hab] using he)] at hrest

/-- The messages recorded in a direction. -/
theorem map_filter_log {β : Type} (g : Frame → β) (dir : Direction) (log : List Entry) :
    ((log.map Entry.call).filter (·.dir = dir)).map (g ·.frame) = (recordedIn dir log).map (g ·.frame) := by
  rw [List.filter_map, recordedIn, List.map_map, List.map_map]
  rfl

theorem map_eq_map_iff_forall₂ {α β γ : Type} (f : α → γ) (g : β → γ) {as : List α} {bs : List β} :
    as.map f = bs.map g ↔ List.Forall₂ (fun a b => f a = g b) as bs := by
  rw [← List.forall₂_eq_eq_eq, List.forall₂_map_left_iff, List.forall₂_map_right_iff]

/-- Sessions of the same messages in each direction are the same if their messages come in the same order. -/
theorem sameSession_log_iff {log log' : List Entry}
    (h : ∀ dir, (recordedIn dir log).map (·.frame.value) = (recordedIn dir log').map (·.frame.value)) :
    SameSession (log.map Entry.call) (log'.map Entry.call) ↔ log.map (·.event.dir) = log'.map (·.event.dir) := by
  constructor
  · intro hsame
    have hdir := (map_eq_map_iff_forall₂ Call.dir Call.dir).mpr (hsame.imp fun _ _ h => h.1)
    rwa [List.map_map, List.map_map] at hdir
  · intro hdir
    refine forall₂_of_filter Call.dir Call.dir ?_ fun e => ?_
    · rw [List.map_map, List.map_map]
      exact hdir
    · have hvalue : ((log.map Entry.call).filter (·.dir = e)).map (·.frame.value)
          = ((log'.map Entry.call).filter (·.dir = e)).map (·.frame.value) := by
        rw [map_filter_log Frame.value, map_filter_log Frame.value, h e]
      refine ((map_eq_map_iff_forall₂ _ _).mp hvalue).imp fun c c' h => ?_
      rw [h]
      exact Same.refl _

/-- **A replay of a session is recorded as that session.** Record a session; record another, of the same client's lines and
of `acp replay` or `acp emit` of the first as the agent. The second has in each direction the messages of the first,
value by value, and `acp diff` of the two exits with 0 if and only if they were recorded in the same order. -/
theorem rerecorded_of_replay (hnum : Function.Injective X.printNumber) (htext : X.ReadsText) (hws : X.Whitespace)
    {root root' : Str} {d d' : Disk} {as bs : List Action} {s t : State} (hs : Whole X root d as s)
    (ht : Whole X root' d' bs t) (hfs : SpelledAlike X (blobStore root d) (framesSent as))
    (hclient : sent .c2a bs = sent .c2a as)
    {agent : Return × Bytes} (hcmd : agent = cmdEmit X root s.disk ∨ agent = cmdReplay X root false
      (Lines.joinLines 0x0A (((t.lane .c2a).forwarded.map Item.frame).map Frame.raw)) s.disk)
    (hagent : sent .a2c bs = (FrameReader.new agent.2).results X) :
    (∀ dir, (recordedIn dir t.log).map (·.frame.value) = (recordedIn dir s.log).map (·.frame.value)) ∧
      ∀ (a b : Str) (d₁ : Disk) (dot : Bool), d₁.faults = .none → Copied root s.disk a d₁ → Copied root' t.disk b d₁ →
        ∃ code text, cmdDiff X a b dot d₁ = (.ok code, text) ∧
          (code = 0 ↔ s.log.map (·.event.dir) = t.log.map (·.event.dir)) := by
  obtain ⟨hkept, hmem⟩ := hs.kept
  obtain ⟨hkept', hmem'⟩ := ht.kept
  -- what the client sent is the same
  have hc2a : (t.lane .c2a).forwarded.map Item.frame = (s.lane .c2a).forwarded.map Item.frame :=
    map_ok_injective (by rw [← (ht.sent_eq .c2a).1, ← (hs.sent_eq .c2a).1, hclient])
  -- what the replay writes is what the agent sent
  obtain rfl : agent = (.ok 0, Lines.joinLines 0x0A (((s.lane .a2c).forwarded.map Item.frame).map Frame.raw)) := by
    obtain ⟨hemit, hreplay⟩ := hs.outputs hnum htext hws hfs
    rw [hc2a, hemit, hreplay, or_self] at hcmd
    exact hcmd
  have hparsed : ∀ f ∈ (s.lane .a2c).forwarded.map Item.frame, ∃ line, Frame.parse X line = .ok f := by
    intro f hf
    rw [← (hs.sent_eq .a2c).2] at hf
    obtain ⟨item, hitem, rfl⟩ := List.mem_map.mp hf
    obtain ⟨e, he, rfl⟩ := List.mem_map.mp hitem
    exact hfs.parsed _ (hmem _ (List.mem_map_of_mem (List.mem_filter.mp he).1))
  obtain ⟨gs, hgs, hall⟩ := FrameReader.results_joinLines hws hparsed
  rw [hgs, (ht.sent_eq .a2c).1] at hagent
  have ha2c : (t.lane .a2c).forwarded.map Item.frame = gs := map_ok_injective hagent
  have hvalues : ∀ dir, (recordedIn dir t.log).map (·.frame.value) = (recordedIn dir s.log).map (·.frame.value) := by
    intro dir
    rw [(ht.sent_eq dir).2, (hs.sent_eq dir).2]
    cases dir with
    | c2a =>
      have hvalue := congrArg (List.map Frame.value) hc2a
      rwa [List.map_map, List.map_map] at hvalue
    | a2c =>
      have hvalue : gs.map Frame.value = ((s.lane .a2c).forwarded.map Item.frame).map Frame.value := by
        refine (map_eq_map_iff_forall₂ _ _).mpr (hall.imp ?_)
        rintro g f ⟨raw, rfl⟩
        rfl
      rwa [← ha2c, List.map_map, List.map_map] at hvalue
  refine ⟨hvalues, fun a b d₁ dot hd₁ ha hb => ?_⟩
  -- the messages of the second session have the forms of those of the first
  have hform : ∀ c ∈ t.log.map Entry.call, ∃ f ∈ framesSent as, canonicalize X c.frame.value = canonicalize X f.value := by
    intro c hc
    obtain ⟨e, he, rfl⟩ := List.mem_map.mp hc
    have hvalue : e.item.frame.value ∈ (recordedIn e.event.dir s.log).map (·.frame.value) := by
      rw [← hvalues]
      exact List.mem_map_of_mem (List.mem_map_of_mem (List.mem_filter.mpr ⟨he, by simp⟩))
    obtain ⟨item, hitem, hvalue⟩ := List.mem_map.mp hvalue
    obtain ⟨e', he', rfl⟩ := List.mem_map.mp hitem
    exact ⟨_, hmem _ (List.mem_map_of_mem (List.mem_filter.mp he').1), congrArg (canonicalize X) hvalue.symm⟩
  have hcoll : {b | ∃ f ∈ framesSent as ++ (t.log.map Entry.call).map Call.frame, b = canonicalize X f.value}.InjOn
      X.blake3 := by
    refine hfs.noCollision.mono ?_
    rintro _ ⟨f, hf, rfl⟩
    rcases List.mem_append.mp hf with hf | hf
    · exact ⟨f, hf, rfl⟩
    · obtain ⟨c, hc, rfl⟩ := List.mem_map.mp hf
      exact hform c hc
  obtain ⟨code, text, hdiff, hzero, -⟩ := cmdDiff_of_traced hnum htext hd₁ (traced_of_kept hkept ha)
    (traced_of_kept hkept' hb) hcoll (fun c hc => List.mem_append_left _ (hmem c hc))
    (fun c hc => List.mem_append_right _ (List.mem_map_of_mem hc)) dot
  exact ⟨code, text, hdiff, hzero.trans (sameSession_log_iff fun dir => (hvalues dir).symm)⟩

/-! ### The sample session -/

/-- The sample run, to its end. -/
def sampleSession : List Action := Proxy.sampleExchange ++ [.record .c2a 0, .record .a2c 0] ++ sampleExit ++ sampleHangup

theorem whole_sampleSession :
    ∃ s₀ s, sampleStart = .ok s₀ ∧ Proxy.run (.plain loggedDigests) Machine.anything s₀ sampleSession = some s ∧
      Whole (.plain loggedDigests) ['t'] emptyDisk sampleSession s := by
  obtain ⟨s₀, s, hstart, hrun, hmain⟩ := exists_run (.plain loggedDigests)
    (fun s a => unfailing (.plain loggedDigests) s a && lossless (.plain loggedDigests) s a) sampleSession State.main
    (.returned (.ok 0)) (by decide +kernel)
  exact ⟨s₀, s, hstart, Machine.run_anything hrun, rfl, ⟨_, _, _, _, _, rfl, hstart, hrun⟩, ⟨0, hmain⟩⟩

/-- The sample session is itself. -/
theorem diff_of_runs_sample :
    ∃ s₀ s text, sampleStart = .ok s₀ ∧
      Proxy.run (.plain loggedDigests) Machine.anything s₀ sampleSession = some s ∧
      cmdDiff (.plain loggedDigests) ['t'] ['t'] false s.disk = (.ok 0, text) := by
  obtain ⟨s₀, s, hstart, hrun, hwhole⟩ := whole_sampleSession
  have hcoll : {b | ∃ f ∈ framesSent sampleSession ++ framesSent sampleSession,
      b = canonicalize (.plain loggedDigests) f.value}.InjOn (Crates.plain loggedDigests).blake3 := by
    refine spelledAlike_sample.noCollision.mono ?_
    rintro b ⟨f, hf, rfl⟩
    exact ⟨f, (List.mem_append.mp hf).elim id id, rfl⟩
  obtain ⟨code, text, hdiff, hzero, -⟩ := diff_of_runs (printNumber_plain_injective _) (readsText_plain _)
    (rfl : emptyDisk.faults = .none) (rfl : emptyDisk.faults = .none) hstart hstart hrun hrun hcoll (a := ['t']) (b := ['t'])
    hwhole.kept.1.noFaults ⟨rfl, rfl⟩ ⟨rfl, rfl⟩ false
  have hsame : SameSession (s.log.map Entry.call) (s.log.map Entry.call) :=
    List.forall₂_same.mpr fun c _ => ⟨rfl, Same.refl _⟩
  rw [hzero.mpr hsame] at hdiff
  exact ⟨s₀, s, text, hstart, hrun, hdiff⟩

/-- A replay of the sample session is the sample session. -/
theorem rerecorded_of_replay_sample :
    ∃ s₀ s code text, sampleStart = .ok s₀ ∧
      Proxy.run (.plain loggedDigests) Machine.anything s₀ sampleSession = some s ∧
      cmdDiff (.plain loggedDigests) ['t'] ['t'] true s.disk = (.ok code, text) ∧ code = 0 := by
  obtain ⟨s₀, s, hstart, hrun, hwhole⟩ := whole_sampleSession
  have hresponse : [sampleResponse] = (s.lane .a2c).forwarded.map Item.frame := map_ok_injective (hwhole.sent_eq .a2c).1
  have hlast : ∀ f ∈ [sampleResponse], Frame.parse (.plain loggedDigests) f.raw = .ok f ∧ f.raw.getLast? ≠ some 0x0D := by
    intro f hf
    cases List.mem_singleton.mp hf
    exact ⟨parse_sampleResponse _, by decide +kernel⟩
  have hagent : sent .a2c sampleSession
      = (FrameReader.new (cmdEmit (.plain loggedDigests) ['t'] s.disk).2).results (.plain loggedDigests) := by
    rw [(hwhole.outputs (printNumber_plain_injective _) (readsText_plain _) (whitespace_plain _) spelledAlike_sample).1,
      ← hresponse, FrameReader.results_of_last (whitespace_plain _) hlast]
    rfl
  obtain ⟨-, hdiff⟩ := rerecorded_of_replay (printNumber_plain_injective _) (readsText_plain _) (whitespace_plain _)
    hwhole hwhole spelledAlike_sample rfl (.inl rfl) hagent
  obtain ⟨code, text, hdiff, hzero⟩ := hdiff ['t'] ['t'] s.disk true hwhole.kept.1.noFaults ⟨rfl, rfl⟩ ⟨rfl, rfl⟩
  exact ⟨s₀, s, code, text, hstart, hrun, hdiff, hzero.mpr rfl⟩

end AcpCore.Cli
