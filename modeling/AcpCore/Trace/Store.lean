import AcpCore.Trace.Reader
import AcpCore.Wire.Identity

/-!
# The content-addressed store

The invariant of the blobs of a trace directory: each parses to a frame whose
canonical hash is what its path spells.

## The model

`Keyed` is the invariant of the abstract store, by digest; `WellKeyed` is the same
of the files under `blobs`. A recording acts on the store as a sequence of
`FirstWins.put`s, so the invariant is one of a put (`Keyed.put`).

## What is proved

* `Keyed.puts` — recording frames keeps the invariant;
* `loadBlob_same` — of every event recorded, a frame of the same value is loaded;
* **`store_invariant`** — the invariant over every recording, with what is stored
  and what is loaded after it.
-/

namespace AcpCore.Trace

open AcpCore.Text AcpCore.Wire

variable (X : Crates)

/-- Bytes that parse to a frame of a digest. -/
def FrameOf (h : Digest) (b : Bytes) : Prop := ∃ f, Frame.parse X b = .ok f ∧ f.payloadHash X = h

/-- What a store keeps under a digest parses to a frame of that digest. -/
def Keyed (s : Digest → Option Bytes) : Prop :=
  ∀ h b, s h = some b → ∃ f, Frame.parse X b = .ok f ∧ f.payloadHash X = h

/-- The file at `blobs/<aa>/<rest>` parses to a frame whose canonical hash is `<aa><rest>`. -/
def WellKeyed (root : Str) (d : Disk) : Prop :=
  ∀ aa rest b, aa.length = 2 → '/' ∉ aa → '/' ∉ rest → d.files (join (join (join root blobsDir) aa) rest) = some b →
    ∃ f, Frame.parse X b = .ok f ∧ formatBlake3Hex (f.payloadHash X).1 = aa ++ rest

/-- The frames of calls come from `Frame::parse`. -/
def Parsed (calls : List Call) : Prop := ∀ c ∈ calls, ∃ line, Frame.parse X line = .ok c.frame

/-- The canonical forms met by a recording: of the frames recorded, and of those stored before. -/
def formsMet (s : Digest → Option Bytes) (calls : List Call) : Set Bytes :=
  {b | (∃ c ∈ calls, b = canonicalize X c.frame.value) ∨
    ∃ h raw f, s h = some raw ∧ Frame.parse X raw = .ok f ∧ b = canonicalize X f.value}

variable {X}

/-! ### The invariant -/

theorem WellKeyed.keyed {root : Str} {d : Disk} (h : WellKeyed X root d) : Keyed X (blobStore root d) := by
  intro g b hb
  obtain ⟨hlen, htake, hdrop⟩ := hex_parts g
  obtain ⟨f, hf, hhash⟩ := h _ _ b hlen htake hdrop hb
  refine ⟨f, hf, Subtype.ext (formatBlake3Hex_injective ?_)⟩
  rw [hhash, List.take_append_drop]

/-- Where only the log, the manifest and the blobs of digests have changed, the store says it of the files. -/
theorem WellKeyed.of_keyed {root : Str} {d d' : Disk} (h : WellKeyed X root d) (hkeep : Unchanged root d d')
    (hs : Keyed X (blobStore root d')) : WellKeyed X root d' := by
  intro aa rest b hlen haa hrest hb
  have haa' : aa ≠ [] := by
    rintro rfl
    cases hlen
  by_cases hdig : ∃ g : Digest, join (join (join root blobsDir) aa) rest
      = blobPath (join root blobsDir) (formatBlake3Hex g.1)
  · obtain ⟨g, hg⟩ := hdig
    rw [hg] at hb
    obtain ⟨f, hf, hhash⟩ := hs g b hb
    refine ⟨f, hf, ?_⟩
    rw [join_blobs haa' haa hrest, blobPath_eq] at hg
    obtain ⟨htake, hdrop⟩ := List.append_inj hg (by simp [hlen, (hex_parts g).1])
    have htake' := (List.cons.inj (List.append_cancel_left htake)).2
    rw [hhash, htake', (List.cons.inj hdrop).2, List.take_append_drop]
  · refine h aa rest b hlen haa hrest ((hkeep _ ?_ ?_ fun g hg => hdig ⟨g, hg⟩).symm.trans hb)
    · rw [join_blobs haa' haa hrest]
      simp only [List.append_assoc]
      exact blobs_ne (c := 'e') rfl (by decide) (by decide)
    · rw [join_blobs haa' haa hrest]
      simp only [List.append_assoc]
      exact blobs_ne (c := 'm') rfl (by decide) (by decide)

/-- Recording a frame keeps the invariant, whether its blob is new or there. -/
theorem Keyed.put {s : Digest → Option Bytes} (h : Keyed X s) {line : Bytes} {f : Frame}
    (hf : Frame.parse X line = .ok f) : Keyed X (FirstWins.put s (f.payloadHash X) f.raw) := by
  intro g b hb
  rw [FirstWins.put_apply, Option.or_eq_some_iff] at hb
  rcases hb with hb | ⟨-, hb⟩
  · exact h g b hb
  · split_ifs at hb with hg
    cases hb
    exact ⟨f, Frame.parse_raw X hf, hg.symm⟩

/-- Recording frames keeps the invariant. -/
theorem Keyed.puts {calls : List Call} (hp : Parsed X calls) {s : Digest → Option Bytes} (h : Keyed X s) :
    Keyed X (FirstWins.puts s (puts X calls)) := by
  induction calls generalizing s with
  | nil => exact h
  | cons c calls ih =>
    obtain ⟨line, hf⟩ := hp c List.mem_cons_self
    exact ih (fun c' hc' => hp c' (List.mem_cons_of_mem c hc')) (h.put hf)

/-! ### What is loaded -/

/-- Frames of the same value, parsed, are the same but for their bytes. -/
theorem frame_of_same {f g : Frame} {l k : Bytes} (hf : Frame.parse X l = .ok f) (hg : Frame.parse X k = .ok g)
    (h : Same f.value g.value) : f.kind = g.kind ∧ f.method = g.method ∧ f.id = g.id := by
  obtain ⟨-, -, hef, -⟩ := (Frame.parse_eq_ok_iff X).mp hf
  obtain ⟨-, -, heg, -⟩ := (Frame.parse_eq_ok_iff X).mp hg
  rw [envelope_of_same f.value_unique h, heg, Except.ok.injEq, Prod.mk.injEq, Prod.mk.injEq] at hef
  exact ⟨hef.1.symm, hef.2.1.symm, hef.2.2.symm⟩

/-- What is stored under a digest is among the forms met. -/
theorem mem_formsMet {s : Digest → Option Bytes} {calls : List Call} (hp : Parsed X calls) {h : Digest} {b : Bytes}
    (hb : FirstWins.puts s (puts X calls) h = some b) {f : Frame} (hf : Frame.parse X b = .ok f) :
    canonicalize X f.value ∈ formsMet X s calls := by
  rw [FirstWins.puts_apply, Option.or_eq_some_iff] at hb
  rcases hb with hb | ⟨-, hb⟩
  · exact .inr ⟨h, b, f, hb, hf, rfl⟩
  · obtain ⟨c, hc, hcb⟩ := List.mem_map.mp (FirstWins.mem_of_lookup hb)
    cases hcb
    obtain ⟨line, hline⟩ := hp c hc
    have := Frame.parse_raw X hline
    rw [hf] at this
    cases this
    exact .inl ⟨c, hc, rfl⟩

theorem getElem?_records (calls : List Call) : ∀ n i, (records X n calls)[i]?
    = calls[i]?.map fun c => TraceWriter.eventRecord X (Fin.ofNat _ (n + i)) c.dir c.frame c.now := by
  induction calls with
  | nil => intro n i; rfl
  | cons c calls ih =>
    intro n i
    cases i with
    | zero => rfl
    | succ i =>
      rw [records, List.getElem?_cons_succ, List.getElem?_cons_succ, ih, Nat.add_assoc, Nat.add_comm 1 i]

/-- Of a frame recorded, a frame of the same value is loaded. -/
theorem loadBlob_same (hnum : Function.Injective X.printNumber) {s : Digest → Option Bytes} {calls : List Call}
    (hs : Keyed X s) (hp : Parsed X calls) (hcoll : (formsMet X s calls).InjOn X.blake3) {r : TraceReader} {d : Disk}
    (hd : d.faults = .none) (hblobs : blobStore r.root d = FirstWins.puts s (puts X calls)) {c : Call} (hc : c ∈ calls)
    {rec : EventRecord} (hrec : rec.hash = blake3Prefix ++ formatBlake3Hex (c.frame.payloadHash X).1) :
    ∃ b f, r.loadBlob X d rec = .ok b ∧ Frame.parse X b = .ok f ∧ Same f.value c.frame.value ∧
      f.kind = c.frame.kind ∧ f.method = c.frame.method ∧ f.id = c.frame.id := by
  have hmem : c.frame.payloadHash X ∈ (puts X calls).map Prod.fst := by
    rw [puts, List.map_map]
    exact List.mem_map_of_mem hc
  obtain ⟨b, hb⟩ := Option.isSome_iff_exists.mp (FirstWins.isSome_puts (s := s).mpr (.inr hmem))
  obtain ⟨f, hf, hhash⟩ := hs.puts hp _ b hb
  obtain ⟨line, hline⟩ := hp c hc
  have hsame : Same f.value c.frame.value :=
    (payloadHash_eq_iff X hnum hcoll f.value_unique (mem_formsMet hp hb hf) (.inl ⟨c, hc, rfl⟩)).mp hhash
  refine ⟨b, f, ?_, hf, hsame, frame_of_same hf hline hsame⟩
  exact (loadBlob_eq_ok_iff X hd hrec).mpr ⟨hblobs ▸ hb, f, hf, hhash⟩

/-! ### A recording of the sample frames -/

/-- A disk without files on which nothing fails. -/
def emptyDisk : Disk := ⟨fun _ => none, .none⟩

/-- A request, its response, and the response again in another spelling. -/
def sampleCalls : List Call :=
  [⟨.c2a, sampleRequest 1, 0⟩, ⟨.a2c, sampleResponse, 0⟩, ⟨.a2c, sampleResponse', 0⟩]

theorem parsed_sampleCalls (table : List (Bytes × Digest)) : Parsed (.plain table) sampleCalls := by
  intro c hc
  simp only [sampleCalls, List.mem_cons, List.not_mem_nil, or_false] at hc
  rcases hc with rfl | rfl | rfl
  · exact ⟨_, parse_sampleRequest _ 1⟩
  · exact ⟨_, parse_sampleResponse _⟩
  · exact ⟨_, parse_sampleResponse' _⟩

/-- The digests of the sample frames, and of the logs of none, two and all of the sample calls. -/
def loggedDigests : List (Bytes × Digest) := sampleDigests ++
  [([],
    ⟨[0xaf, 0x13, 0x49, 0xb9, 0xf5, 0xf9, 0xa1, 0xa6, 0xa0, 0x40, 0x4d, 0xea, 0x36, 0xdc, 0xc9, 0x49,
    0x9b, 0xcb, 0x25, 0xc9, 0xad, 0xc1, 0x12, 0xb7, 0xcc, 0x9a, 0x93, 0xca, 0xe4, 0x1f, 0x32, 0x62], rfl⟩),
   (logBytes (records (.plain sampleDigests) 0 (sampleCalls.take 2)),
    ⟨[0x28, 0xf2, 0x9a, 0x5a, 0xeb, 0xfb, 0x6a, 0x4b, 0xa5, 0x8e, 0xe6, 0xf7, 0x9e, 0x29, 0x5b, 0x59,
    0x83, 0x3f, 0xa7, 0xe6, 0x7e, 0xd9, 0xba, 0x65, 0x8c, 0x44, 0x9c, 0x33, 0xb4, 0xa1, 0x17, 0x30], rfl⟩),
   (logBytes (records (.plain sampleDigests) 0 sampleCalls),
    ⟨[0xa6, 0x31, 0x19, 0x4e, 0x63, 0xac, 0xb8, 0x33, 0x4f, 0xa0, 0x43, 0x22, 0x9c, 0xb1, 0x31, 0x75,
    0x1a, 0xb7, 0xcf, 0x0a, 0xba, 0xda, 0x0f, 0x15, 0xed, 0x45, 0x4e, 0x78, 0x02, 0xef, 0x55, 0xc0], rfl⟩)]

theorem formsMet_sampleCalls :
    formsMet (.plain sampleDigests) (blobStore ['t'] emptyDisk) sampleCalls ⊆ sampleForms := by
  rintro b (⟨c, hc, rfl⟩ | ⟨h, raw, f, hraw, -, -⟩)
  · simp only [sampleCalls, List.mem_cons, List.not_mem_nil, or_false] at hc
    rcases hc with rfl | rfl | rfl
    · exact .inl rfl
    · exact .inr (.inr rfl)
    · exact .inr (.inr canonicalize_sampleResponse')
  · cases hraw

/-! ### The store over a recording -/

/-- **The store invariant.** From any directory whose blobs parse to frames of the hashes
their paths spell, and after any sequence of calls without failure: the blobs do so
still, none has changed, those stored are the initial ones and those recorded, and
every event of the log loads bytes that parse to the frame recorded, up to the order
of members. -/
theorem store_invariant (hnum : Function.Injective X.printNumber) {root : Str} {d : Disk} (hd : d.faults = .none)
    (hstore : WellKeyed X root d) (m : Manifest) {calls : List Call} (hp : Parsed X calls)
    (hcoll : (formsMet X (blobStore root d) calls).InjOn X.blake3) :
    ∃ w₀ d₀ w d', TraceWriter.createWithClock root m d = (.ok w₀, d₀) ∧ w₀.recordAll X calls d₀ = (.ok (), w, d') ∧
      WellKeyed X root d' ∧
      (∀ h b, blobStore root d h = some b → blobStore root d' h = some b) ∧
      (∀ h, (blobStore root d' h).isSome ↔ (blobStore root d h).isSome ∨ ∃ c ∈ calls, c.frame.payloadHash X = h) ∧
      d'.files (join root eventsFile) = some (logBytes (records X 0 calls)) ∧
      ∀ r : TraceReader, r.root = root → ∀ (i : ℕ) (c : Call) (rec : EventRecord), calls[i]? = some c →
        (records X 0 calls)[i]? = some rec →
        ∃ b f, r.loadBlob X d' rec = .ok b ∧ Frame.parse X b = .ok f ∧ Same f.value c.frame.value ∧
          f.kind = c.frame.kind ∧ f.method = c.frame.method ∧ f.id = c.frame.id := by
  obtain ⟨w₀, d₀, hcreate, h₀, hblobs₀, hkeep₀⟩ := createWithClock_noFaults hd root m
  obtain ⟨w, d', hall, h', hblobs, hkeep⟩ := recordAll_noFaults X calls h₀
  rw [hblobs₀] at hblobs
  refine ⟨w₀, d₀, w, d', hcreate, hall, ?_, ?_, ?_, h'.log, ?_⟩
  · refine hstore.of_keyed (hkeep₀.trans hkeep) ?_
    rw [hblobs]
    exact hstore.keyed.puts hp
  · intro h b hb
    rw [hblobs]
    exact FirstWins.puts_keeps hb _
  · intro h
    rw [hblobs, FirstWins.isSome_puts, puts, List.map_map, List.mem_map]
    rfl
  · rintro r rfl i c rec hc hrec
    rw [getElem?_records, hc, Option.map_some] at hrec
    cases hrec
    exact loadBlob_same hnum hstore.keyed hp hcoll h'.noFaults hblobs (List.mem_of_getElem? hc) rfl

theorem store_invariant_sample :
    ∃ w₀ d₀ w d', TraceWriter.createWithClock ['t'] (.newWithClock ['1'] [] ['0']) emptyDisk = (.ok w₀, d₀) ∧
      w₀.recordAll (.plain sampleDigests) sampleCalls d₀ = (.ok (), w, d') ∧ WellKeyed (.plain sampleDigests) ['t'] d' := by
  have hstore : WellKeyed (.plain sampleDigests) ['t'] emptyDisk := fun _ _ _ _ _ _ h => by cases h
  obtain ⟨w₀, d₀, w, d', hcreate, hall, hkeyed, -⟩ := store_invariant (printNumber_plain_injective sampleDigests)
    rfl hstore (.newWithClock ['1'] [] ['0']) (parsed_sampleCalls _) (injOn_sampleForms.mono formsMet_sampleCalls)
  exact ⟨w₀, d₀, w, d', hcreate, hall, hkeyed⟩

end AcpCore.Trace
