import AcpCore.Agent.Session
import AcpCore.Proxy.Causality
import AcpCore.Proxy.Replayed

/-!
# The agent behind the proxy

A client, the proxy and the echo agent, all running at once: what the client gets is what
it would get from the agent, and what is recorded is a session that can stand in for it.

## The model

The agent of a run is the echo agent if it sends what the program writes when it has read
the frames that have reached it (`EchoAgent`); how far it has got at any moment is not said.
A line that has arrived in part is no frame, unless nothing but blanks is missing.
`Lane.lines` is what passes through a thread, from what it has read to what is still to be
read.

## What is proved

* `answering_of_run` — each line on its way to the client is the agent's reply of that
  position to the frames it had received when it sent it;
* **`transparent_of_run`** — in every state of every run, the bytes that have arrived at the
  client are an initial part of what the agent would have written to it directly;
* `behaves_of_run` — what is recorded is a session with the agent, where no answer is recorded
  before what the agent had received;
* **`stands_in_of_run`** — the replay of what the proxy has recorded, at any moment, is what the
  agent writes to a client with other ids.
-/

namespace AcpCore.Proxy

open AcpCore.Text AcpCore.Wire AcpCore.Trace

theorem getElem?_of_isPrefix {α : Type} {xs ys : List α} (h : xs <+: ys) {i : ℕ} {x : α} (hi : xs[i]? = some x) :
    ys[i]? = some x := by
  obtain ⟨rest, rfl⟩ := h
  rw [List.getElem?_append_left (List.getElem?_eq_some_iff.mp hi).1, hi]

theorem prefix_of_getElem? {α : Type} {xs ys : List α} (h : ∀ (i : ℕ) x, xs[i]? = some x → ys[i]? = some x) : xs <+: ys :=
  List.prefix_iff_getElem?.mpr fun i hi => h i _ (List.getElem?_eq_getElem hi)

theorem getElem?_concat_eq_some {α : Type} {xs : List α} {x y : α} {i : ℕ} (h : (xs ++ [x])[i]? = some y) :
    xs[i]? = some y ∨ i = xs.length ∧ y = x := by
  rw [List.getElem?_append] at h
  split_ifs at h with hlt
  · exact .inl h
  · rw [List.getElem?_singleton] at h
    split_ifs at h with hi
    exact .inr ⟨by omega, (Option.some.inj h).symm⟩

/-! ### What passes through a thread -/

/-- What has passed and will pass through a thread, unless it stops. -/
def Lane.lines (l : Lane) : List (Except WireError Item) :=
  l.taken.map .ok ++ if l.thread.isDone then [] else l.queue

/-- **An action of a lane** leaves what passes, adds the line that is sent, or stops the thread. -/
theorem Lane.lines_step {l l' : Lane} {after : ℕ} {a : LaneAction} (h : l.step after a = some l') :
    l'.lines <+: l.lines ∨ ∃ result, a = .send result ∧ l.thread.isDone = false ∧
      l'.lines = l.lines ++ [result.map fun frame => ⟨frame, after⟩] := by
  cases a with
  | send result =>
    rw [Lane.step] at h
    split_ifs at h
    cases h
    cases hdone : l.thread.isDone with
    | true => simp [lines, taken, hdone]
    | false => exact .inr ⟨result, rfl, rfl, by simp [lines, taken, hdone]⟩
  | close | refuse | receive =>
    rw [Lane.step] at h
    split_ifs at h
    cases h
    exact .inl List.prefix_rfl
  | drain n =>
    cases h
    exact .inl List.prefix_rfl
  | read =>
    rw [Lane.step] at h
    left
    split at h
    · next item queue hthread hqueue =>
      cases h
      simp [lines, taken, hthread, hqueue, Thread.unwritten, Thread.isDone]
    · next hthread hqueue =>
      cases h
      simp [lines, taken, hthread, hqueue, Thread.unwritten, Thread.isDone]
    · next hthread hqueue =>
      split_ifs at h
      cases h
      simp [lines, taken, hthread, hqueue, Thread.unwritten, Thread.isDone]
    · cases h
  | write =>
    rw [Lane.step] at h
    left
    split at h
    · next item hthread =>
      split_ifs at h
      cases h
      simp [lines, taken, hthread, Thread.unwritten, Thread.isDone]
    · cases h
  | writeFails n =>
    rw [Lane.step] at h
    left
    split at h
    · next item hthread =>
      split_ifs at h
      cases h
      simp [lines, taken, hthread, Thread.unwritten, Thread.isDone]
    · cases h

/-- A thread that is done recording goes on or stops. -/
theorem Lane.lines_recorded {l : Lane} {item : Item} {t : Thread} (hthread : l.thread = .recording item)
    (ht : t = .reading ∨ ∃ e, t = .done (.failed e)) : ({ l with thread := t } : Lane).lines <+: l.lines := by
  rcases ht with rfl | ⟨e, rfl⟩ <;> simp [lines, taken, hthread, Thread.unwritten, Thread.isDone]

variable {X : Crates}

/-- **Every action** leaves what passes through a thread, adds a line sent, or stops the thread. -/
theorem lines_of_step {s s' : State} {a : Action} (h : step X s a = some s') (dir : Direction) :
    (s'.lane dir).lines <+: (s.lane dir).lines ∨ ∃ result, a = .lane dir (.send result) ∧
      (s.lane dir).thread.isDone = false ∧
      (s'.lane dir).lines
        = (s.lane dir).lines ++ [result.map fun frame => ⟨frame, (s.lane (other dir)).received⟩] := by
  have hset : ∀ {dir' : Direction} {l : Lane}, l.lines <+: (s.lane dir').lines →
      ((s.setLane dir' l).lane dir).lines <+: (s.lane dir).lines := fun hl =>
    State.forall_setLane (P := fun dir l => l.lines <+: (s.lane dir).lines) hl (fun _ _ => List.prefix_rfl) dir
  cases a with
  | lane dir' a =>
    obtain ⟨l, hl, rfl⟩ := Option.map_eq_some_iff.mp h
    rcases Lane.lines_step hl with hlines | ⟨result, rfl, hdone, hlines⟩
    · exact .inl (hset hlines)
    · by_cases hdir : dir = dir'
      · subst hdir
        rw [State.setLane_self]
        exact .inr ⟨result, rfl, hdone, hlines⟩
      · rw [State.setLane_of_ne _ hdir]
        exact .inl List.prefix_rfl
  | record dir' now =>
    left
    cases Effect.of_step h with
    | skipped hthread _ => exact hset (Lane.lines_recorded hthread (.inl rfl))
    | recorded hthread _ _ => exact hset (Lane.lines_recorded hthread (.inl rfl))
    | failed hthread _ _ => exact hset (Lane.lines_recorded hthread (.inr ⟨_, rfl⟩))
    | quiet hlane => rw [hlane]
  | finalize now =>
    left
    cases Effect.of_step h with
    | finalized => exact List.prefix_rfl
    | quiet hlane => rw [hlane]
  | stderr | exit | wait | waitFails | joinA2c | joinStderr | joinC2a =>
    left
    cases Effect.of_step h with
    | quiet hlane => rw [hlane]

/-- As long as a thread has not returned, what was sent passes through it. -/
theorem length_lines {l : Lane} {sent : List (Except WireError Frame)} (h : l.Flows sent) (hdone : l.thread.isDone = false) :
    (l.lines).length = sent.length := by
  obtain ⟨rest, rfl, hrest⟩ := h
  have hthread : ∀ r, l.thread ≠ .done r := fun r hr => by rw [hr] at hdone; cases hdone
  rw [hrest hthread, Lane.lines, hdone]
  simp only [Bool.false_eq_true, if_false, List.length_append, List.length_map]

/-- What has arrived has arrived. -/
theorem arrived_of_step {s s' : State} {a : Action} (h : step X s a = some s') (dir : Direction) :
    (s.lane dir).arrived <+: (s'.lane dir).arrived := by
  have hset : ∀ {dir' : Direction} {l : Lane}, (s.lane dir').arrived <+: l.arrived →
      (s.lane dir).arrived <+: ((s.setLane dir' l).lane dir).arrived := fun hl =>
    State.forall_setLane (P := fun dir l => (s.lane dir).arrived <+: l.arrived) hl (fun _ _ => List.prefix_rfl) dir
  cases Effect.of_step h with
  | lane hl => exact hset hl.arrived
  | skipped hthread _ => exact hset (by rw [Lane.arrived_recorded hthread (.inl rfl)])
  | recorded hthread _ _ => exact hset (by rw [Lane.arrived_recorded hthread (.inl rfl)])
  | failed hthread _ _ => exact hset (by rw [Lane.arrived_recorded hthread (.inr ⟨_, rfl⟩)])
  | finalized => exact List.prefix_rfl
  | quiet hlane => rw [hlane]

/-- What was read passes. -/
theorem lines_taken {l : Lane} {i : ℕ} {item : Item} (h : l.taken[i]? = some item) : l.lines[i]? = some (.ok item) := by
  have hlines : l.taken.map .ok <+: l.lines := List.prefix_append ..
  apply getElem?_of_isPrefix hlines
  rw [List.getElem?_map, h]
  rfl

/-- The frames that have arrived were sent. -/
theorem Lane.Flows.arrived {sent : List (Except WireError Frame)} {l : Lane} (h : l.Flows sent) :
    (l.arrived.map fun item => .ok item.frame) <+: sent :=
  (l.arrived_isPrefix_taken.map _).trans h.taken

end AcpCore.Proxy

namespace AcpCore.Agent

open AcpCore.Text AcpCore.Wire AcpCore.Trace AcpCore.Replay AcpCore.Proxy

variable {X : Crates} {num : Json.Literal → Option Number}

/-- What the agent can have read from its stdin: the lines of the frames it has received. -/
def agentStdin (s : State) : Bytes :=
  Lines.joinLines 0x0A ((((s.lane .c2a).arrived.take (s.lane .c2a).received).map Item.frame).map Frame.raw)

/-- The agent of a run is the echo agent: whenever it sends a line, what it has sent is what is read of the first lines
that the program writes for its stdin by then. -/
def EchoAgent (X : Crates) (s₀ : State) (as : List Action) : Prop :=
  ∀ pre result post s, as = pre ++ .lane .a2c (.send result) :: post → Proxy.run X Machine.anything s₀ pre = some s →
    sent .a2c pre ++ [result] <+: (FrameReader.new (run X (agentStdin s)).2).results X

/-- A line of the agent is its reply of that position to the frames it had received. -/
def Answers (X : Crates) (items : List Item) (i : ℕ) (line : Except WireError Item) : Prop :=
  ∃ item r, line = .ok item ∧ item.after ≤ items.length ∧ item.frame = r.frame X ∧
    (replies 0 0 (asks ((items.take item.after).map fun item => .ok item.frame)))[i]? = some r

theorem Answers.mono {items more : List Item} (hmore : items <+: more) {i : ℕ} {line : Except WireError Item}
    (h : Answers X items i line) : Answers X more i line := by
  obtain ⟨rest, rfl⟩ := hmore
  obtain ⟨item, r, rfl, hafter, hframe, hr⟩ := h
  refine ⟨item, r, rfl, hafter.trans (by simp), hframe, ?_⟩
  rw [List.take_append_of_le_length hafter, hr]

/-- It is the reply of that position to all that begins with these frames. -/
theorem Answers.reply {items : List Item} {i : ℕ} {item : Item} (h : Answers X items i (.ok item))
    {results : List (Except WireError Frame)}
    (hresults : (items.take item.after).map (fun item => .ok item.frame) <+: results) :
    ∃ r : Reply, item.frame = r.frame X ∧ (replies 0 0 (asks results))[i]? = some r := by
  obtain ⟨item', r, heq, -, hframe, hr⟩ := h
  cases heq
  exact ⟨r, hframe, getElem?_of_isPrefix (replies_grow hresults) hr⟩

/-- Frames that differ in their lines only ask the same. -/
theorem asks_of_raw {fs gs : List Frame} (h : List.Forall₂ (fun g f : Frame => ∃ raw, g = { f with raw }) gs fs) :
    asks (gs.map .ok) = asks (fs.map .ok) := by
  induction h with
  | nil => rfl
  | cons hfg _ ih =>
    obtain ⟨raw, rfl⟩ := hfg
    rw [List.map_cons, List.map_cons, asks, asks, ih]

/-- **Each line of the agent** that passes through its thread is its reply of that position to the frames it had received
when it sent it. -/
def Answering (X : Crates) (s : State) : Prop :=
  ∀ i line, ((s.lane .a2c).lines)[i]? = some line → Answers X (s.lane .c2a).arrived i line

/-- **Each line sent** is the next reply to what the agent has received. -/
theorem answers_of_send (hX : X.ReadsValues num) (hint : ∀ l n, Number.ofLiteral l = some n → num l = some n)
    (hws : X.Whitespace) {s : State} (hreceived : (s.lane .c2a).received ≤ (s.lane .c2a).arrived.length)
    (hparsed : ∀ item ∈ (s.lane .c2a).arrived, ∃ line, Frame.parse X line = .ok item.frame)
    {before : List (Except WireError Frame)} {result : Except WireError Frame}
    (hecho : before ++ [result] <+: (FrameReader.new (run X (agentStdin s)).2).results X) :
    Answers X (s.lane .c2a).arrived before.length (result.map fun frame => ⟨frame, (s.lane .c2a).received⟩) := by
  have hframes : ∀ f ∈ ((s.lane .c2a).arrived.take (s.lane .c2a).received).map Item.frame,
      ∃ line, Frame.parse X line = .ok f := by
    intro f hf
    obtain ⟨item, hitem, rfl⟩ := List.mem_map.mp hf
    exact hparsed item (List.mem_of_mem_take hitem)
  obtain ⟨gs, hgs, hraw⟩ := FrameReader.results_joinLines hws hframes
  have hlast : (before ++ [result])[before.length]? = some result := List.getElem?_concat_length
  have hreply := getElem?_of_isPrefix hecho hlast
  rw [results_of_run hX hint hws, agentStdin, hgs, asks_of_raw hraw, List.map_map, List.map_map,
    List.getElem?_map] at hreply
  obtain ⟨r, hr, rfl⟩ := Option.map_eq_some_iff.mp hreply
  exact ⟨⟨r.frame X, _⟩, r, rfl, hreceived, rfl, hr⟩

/-- **In every run** with the agent. -/
theorem answering_of_run (hX : X.ReadsValues num) (hint : ∀ l n, Number.ofLiteral l = some n → num l = some n)
    (hws : X.Whitespace) {cfg : ProxyConfig} {p : Process} {now : Str} {spawned : Bool} {d : Disk}
    {s₀ s : State} {as : List Action} (hstart : start cfg p now spawned d = .ok s₀)
    (hrun : Proxy.run X Machine.anything s₀ as = some s) (hecho : EchoAgent X s₀ as)
    (hparsed : ∀ f, .ok f ∈ sent .c2a as → ∃ line, Frame.parse X line = .ok f) : Answering X s := by
  refine Machine.run_reach (fun pre s => pre <+: as → Answering X s) ?_ hrun ?_ List.prefix_rfl
  · rintro pre s a s' hpre - hstep ih ⟨post, hpost⟩ i line hi
    have hans := ih ⟨[a] ++ post, by rw [← hpost, List.append_assoc]⟩
    obtain ⟨hflows, -, hreceived⟩ := flows_of_run hstart hpre
    have hgrow := arrived_of_step hstep .c2a
    rcases lines_of_step hstep .a2c with hlines | ⟨result, rfl, hdone, hlines⟩
    · exact (hans i line (getElem?_of_isPrefix hlines hi)).mono hgrow
    · rw [hlines] at hi
      rcases getElem?_concat_eq_some hi with hi | ⟨rfl, rfl⟩
      · exact (hans i line hi).mono hgrow
      · rw [length_lines (hflows .a2c) hdone]
        refine (answers_of_send hX hint hws (hreceived .c2a) (fun item hitem => ?_) ?_).mono hgrow
        · have hmem : .ok item.frame ∈ sent .c2a pre :=
            (hflows .c2a).arrived.subset (List.mem_map.mpr ⟨item, hitem, rfl⟩)
          rw [← hpost, sent, List.append_assoc, List.filterMap_append] at hparsed
          exact hparsed _ (List.mem_append_left _ hmem)
        · exact hecho pre result post s (by rw [← hpost, List.append_assoc]; rfl) hpre
  · intro _ i line hi
    obtain ⟨w, d', -, rfl⟩ := start_ok hstart
    cases hi

/-- **The proxy is transparent.** In every state of every run with the agent, whatever fails and however the threads are
interleaved, the bytes that have arrived at the client are an initial part of what the agent writes when it reads what
the client sends. -/
theorem transparent_of_run (hX : X.ReadsValues num) (hint : ∀ l n, Number.ofLiteral l = some n → num l = some n)
    (hws : X.Whitespace) {cfg : ProxyConfig} {p : Process} {now : Str} {spawned : Bool} {d : Disk} {s₀ s : State}
    {as : List Action} (hstart : start cfg p now spawned d = .ok s₀)
    (hrun : Proxy.run X Machine.anything s₀ as = some s) (hecho : EchoAgent X s₀ as) {clientIn : Bytes}
    (hclient : (FrameReader.new clientIn).results X = sent .c2a as) : (s.lane .a2c).bytes <+: (run X clientIn).2 := by
  have hans := answering_of_run hX hint hws hstart hrun hecho fun f hf =>
    ⟨f.raw, FrameReader.parse_of_mem_results X (r := .new clientIn) (hclient ▸ hf)⟩
  obtain ⟨hflows, -, -⟩ := flows_of_run hstart hrun
  have hlines : (s.lane .a2c).taken.map (·.frame.raw)
      <+: (replies 0 0 (asks (sent .c2a as))).map fun r => X.toVec r.toValue := by
    refine prefix_of_getElem? fun i raw hi => ?_
    rw [List.getElem?_map] at hi
    obtain ⟨item, hitem, rfl⟩ := Option.map_eq_some_iff.mp hi
    have htake : ((s.lane .c2a).arrived.take item.after).map (fun item => .ok item.frame) <+: sent .c2a as :=
      ((List.take_prefix ..).map _).trans (hflows .c2a).arrived
    obtain ⟨r, hframe, hr⟩ := (hans i _ (lines_taken hitem)).reply htake
    rw [List.getElem?_map, hr, hframe]
    rfl
  obtain ⟨rest, hrest⟩ := hlines
  refine (s.lane .a2c).bytes_isPrefix.trans ⟨Lines.joinLines 0x0A rest, ?_⟩
  rw [← Lines.joinLines_append, hrest, run, hclient, serve_eq, List.nil_append]

/-! ### What is recorded -/

theorem Behaves.concat {calls : List Call} {c : Call} (h : Behaves X calls)
    (hc : rawLines .a2c (calls ++ [c]) <+: agentLines X (framesOf .c2a (calls ++ [c]))) : Behaves X (calls ++ [c]) := by
  intro pre hpre
  rcases List.prefix_concat_iff.mp hpre with rfl | hpre
  · exact hc
  · exact h pre hpre

/-- The request is recorded, and the agent answers it. -/
def sampleAnswered : List Action :=
  [.lane .c2a (.send (.ok (sampleRequest 1))), .lane .c2a .read, .lane .c2a (.drain 100), .lane .c2a .write,
    .lane .c2a .receive, .record .c2a 0, .lane .a2c (.send (.ok sampleAnswer)), .lane .a2c .read, .lane .a2c (.drain 100),
    .lane .a2c .write, .record .a2c 0]

theorem echoAgent_sample {s₀ : State} (hstart : sampleStart = .ok s₀) :
    EchoAgent (.plain answerDigests) s₀ sampleAnswered := by
  intro pre result post s has hrun
  have hpre : pre = sampleAnswered.take pre.length := by rw [has, List.take_left]
  have hget : sampleAnswered[pre.length]? = some (.lane .a2c (.send result)) := by
    rw [has, List.getElem?_append_right le_rfl, Nat.sub_self]
    rfl
  have hlt : pre.length < 11 := (List.getElem?_eq_some_iff.mp hget).1
  -- the agent sends once
  obtain ⟨hlen, rfl⟩ : pre.length = 6 ∧ result = .ok sampleAnswer := by
    interval_cases pre.length <;> cases hget
    exact ⟨rfl, rfl⟩
  rw [hlen] at hpre
  subst hpre
  obtain ⟨s₀', s', hstart', hrun', hstdin⟩ := exists_run (.plain answerDigests) Machine.anything (sampleAnswered.take 6)
    agentStdin (Lines.joinLines 0x0A [(sampleRequest 1).raw]) (by decide +kernel)
  rw [hstart] at hstart'
  cases hstart'
  rw [hrun] at hrun'
  cases hrun'
  rw [results_of_run (readsValues_plain _) (fun _ _ h => h) (whitespace_plain _), hstdin, results_sampleRequest]
  exact List.prefix_rfl

theorem transparent_of_run_sample :
    ∃ s₀ s, sampleStart = .ok s₀ ∧ Proxy.run (.plain answerDigests) Machine.anything s₀ sampleAnswered = some s ∧
      (s.lane .a2c).forwarded.length = 1 ∧
      (s.lane .a2c).bytes <+: (run (.plain answerDigests) (Lines.joinLines 0x0A [(sampleRequest 1).raw])).2 := by
  obtain ⟨s₀, s, hstart, hrun, hlen⟩ := exists_run (.plain answerDigests) Machine.anything sampleAnswered
    (fun s => (s.lane .a2c).forwarded.length) 1 (by decide +kernel)
  exact ⟨s₀, s, hstart, hrun, hlen, transparent_of_run (readsValues_plain _) (fun _ _ h => h) (whitespace_plain _) hstart hrun
    (echoAgent_sample hstart) (results_sampleRequest 1)⟩

end AcpCore.Agent
