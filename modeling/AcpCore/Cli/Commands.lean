import AcpCore.Diverge.Distance
import AcpCore.Diverge.Dot
import AcpCore.Proxy.Reproduced
import AcpCore.Trace.Lookup

/-!
# The commands

`acp` hands its arguments to the libraries, and turns what they return into an exit code.

## The model

A command is what it returns and what it writes to its stdout. `main` exits with 2 where it
returns an error, whose text on stderr is left out, and a panic exits with 101. `record` is
the proxy's run once its arguments are accepted. Two sessions are the same where their
messages have the same directions and the same values, one by one.

## What is proved

* **`parseClock_iff`** — the clock of each text, and that there is none for any other;
* `renderUnified_isSome` — the diff of traces as they are recorded does not panic;
* `cmdDiff_of_traced` — for two directories with the records of calls, `diff` exits with 0 if
  their sessions are the same, with 1 if they are not, and with nothing else.
-/

namespace AcpCore.Cli

open AcpCore.Text AcpCore.Wire AcpCore.Trace AcpCore.Replay AcpCore.Diverge AcpCore.Proxy

/-! ### The clock -/

/-- A digit more; `none` where it overflows or is no digit. -/
def pushDigit (n : U128) (c : Char) : Option U128 :=
  if c.isDigit then
    if h : n.val * 10 + (c.toNat - '0'.toNat) < 2 ^ 128 then some ⟨_, h⟩ else none
  else none

/-- `u128::from_str`. -/
def parseU128 (s : Str) : Option U128 :=
  let digits := if s.head? = some '+' then s.tail else s
  if digits = [] then none else digits.foldlM pushDigit 0

/-- A `Box<dyn Clock>` of the command line. -/
inductive Clock where
  /-- `SystemClock`. -/
  | system
  /-- `FixedClock`. -/
  | fixed (c : FixedClock)

/-- What a command fails with. -/
inductive CliError where
  /-- `agent argv is empty`. -/
  | emptyArgv
  /-- `--no-recording-env and --capture-env are mutually exclusive`. -/
  | exclusive
  /-- `--clock nanos:<N>: not a u128`. -/
  | notNanos (n : Str)
  /-- `--clock: unknown spec`. -/
  | unknownClock (spec : Str)
  /-- Of a trace. -/
  | trace (e : TraceError)
  /-- Of a replay. -/
  | replay (e : ReplayError)
  /-- Of the proxy. -/
  | proxy (e : ProxyError)

/-- `"system"`. -/
def systemSpec : Str := ['s', 'y', 's', 't', 'e', 'm']
/-- `"epoch"`. -/
def epochSpec : Str := ['e', 'p', 'o', 'c', 'h']
/-- `"nanos:"`. -/
def nanosPrefix : Str := ['n', 'a', 'n', 'o', 's', ':']

/-- `parse_clock`. -/
def parseClock (spec : Str) : Except CliError Clock :=
  if spec = systemSpec then .ok .system
  else if spec = epochSpec then .ok (.fixed .epoch)
  else if nanosPrefix.isPrefixOf spec then
    let n := spec.drop nanosPrefix.length
    match parseU128 n with
    | some nanos => .ok (.fixed (.atNanos nanos))
    | none => .error (.notNanos n)
  else .error (.unknownClock spec)

/-! ### Exit codes -/

/-- What a command returns. -/
abbrev Return := Except (Abort CliError) ℕ

/-- The exit code of `main`, and of a panic. -/
def exitCode : Return → ℕ
  | .ok code => code
  | .error (.error _) => 2
  | .error .panic => 101

/-- An error of a library, as the command's. -/
def Return.fail {ε : Type} (f : ε → CliError) : Abort ε → Return
  | .error e => .error (.error (f e))
  | .panic => .error .panic

/-! ### The commands -/

variable (X : Crates)

/-- `cmd_record` up to the spawning of the proxy's threads, in a process: `now` is what is read from the clock, `version`
the crate's version. -/
def cmdRecord (traceDir : Str) (captureEnv : List Str) (noRecordingEnv : Bool) (clockSpec : Str) (agent : List OsString)
    (version : Str) (p : Process) (now : Clock → Str) (spawned : Bool) (d : Disk) : Except CliError (Clock × State) :=
  if agent = [] then .error .emptyArgv
  else if noRecordingEnv ∧ captureEnv ≠ [] then .error .exclusive
  else
    match parseClock clockSpec with
    | .error e => .error e
    | .ok clock =>
      let cfg : ProxyConfig := {
        agentArgv := agent
        traceDir
        recorderVersion := version
        envWhitelist := captureEnv
        skipRecordingEnv := noRecordingEnv }
      match start cfg p (now clock) spawned d with
      | .error e => .error (.proxy e)
      | .ok s => .ok (clock, s)

/-- What `cmd_record` returns when the proxy's run has. -/
def recordReturn : Except ProxyError ℤ → Return
  | .ok code => .ok (max 0 (min code 255)).toNat
  | .error e => .error (.error (.proxy e))

/-- `cmd_replay`. -/
def cmdReplay (traceDir : Str) (remapIds : Bool) (stdin : Bytes) (d : Disk) : Return × Bytes :=
  match TraceReader.open X traceDir d with
  | .error e => (.error (.error (.trace e)), [])
  | .ok reader =>
    match replayInteractiveWith X reader d stdin remapIds with
    | (.error e, out) => (.fail .replay e, out)
    | (.ok _, out) => (.ok 0, out)

/-- `cmd_emit`. -/
def cmdEmit (traceDir : Str) (d : Disk) : Return × Bytes :=
  match TraceReader.open X traceDir d with
  | .error e => (.error (.error (.trace e)), [])
  | .ok reader =>
    match replayOffline X reader d with
    | (.error e, out) => (.fail .replay e, out)
    | (.ok _, out) => (.ok 0, out)

/-- `cmd_diff`. -/
def cmdDiff (a b : Str) (dot : Bool) (d : Disk) : Return × Bytes :=
  match TraceReader.open X a d with
  | .error e => (.error (.error (.trace e)), [])
  | .ok ra =>
    match TraceReader.open X b d with
    | .error e => (.error (.error (.trace e)), [])
    | .ok rb =>
      let report := diffTwo ra a rb b
      match if dot then some (renderDot report) else renderUnified report with
      | none => (.error .panic, [])
      | some text => (.ok (exitStatus report), utf8 text)

/-! ### What is a clock -/

theorem pushDigit_eq_some_iff {n m : U128} {c : Char} :
    pushDigit n c = some m ↔ c.isDigit = true ∧ m.val = n.val * 10 + (c.toNat - '0'.toNat) := by
  unfold pushDigit
  split_ifs with hc h
  · simp [hc, Fin.ext_iff, eq_comm]
  · simp only [hc, true_and]
    exact ⟨fun hm => (by cases hm), fun hm => absurd (hm ▸ m.isLt) h⟩
  · simp [hc]

theorem le_ofDigitChars (ds : Str) (n : ℕ) : n ≤ Nat.ofDigitChars 10 ds n := by
  induction ds generalizing n with
  | nil => exact le_rfl
  | cons c ds ih =>
    have := ih (10 * n + (c.toNat - '0'.toNat))
    rw [Nat.ofDigitChars_cons]
    omega

/-- The loop overflows exactly where the number is too large. -/
theorem foldlM_pushDigit_iff {ds : Str} {n m : U128} :
    ds.foldlM pushDigit n = some m ↔ (∀ c ∈ ds, c.isDigit = true) ∧ Nat.ofDigitChars 10 ds n = m := by
  induction ds generalizing n with
  | nil => simp [Nat.ofDigitChars_nil, Fin.ext_iff]
  | cons c ds ih =>
    rw [List.foldlM_cons, Option.bind_eq_bind, Option.bind_eq_some_iff, Nat.ofDigitChars_cons, List.forall_mem_cons]
    constructor
    · rintro ⟨k, hk, hds⟩
      obtain ⟨hc, hk⟩ := pushDigit_eq_some_iff.mp hk
      obtain ⟨hall, hm⟩ := ih.mp hds
      rw [hk, Nat.mul_comm] at hm
      exact ⟨⟨hc, hall⟩, hm⟩
    · rintro ⟨⟨hc, hall⟩, hm⟩
      have hle := le_ofDigitChars ds (10 * n.val + (c.toNat - '0'.toNat))
      rw [Nat.mul_comm] at hm hle
      rw [hm] at hle
      exact ⟨⟨_, Nat.lt_of_le_of_lt hle m.isLt⟩, pushDigit_eq_some_iff.mpr ⟨hc, rfl⟩, ih.mpr ⟨hall, hm⟩⟩

/-- A number is its digits, with or without a sign. -/
theorem parseU128_iff {s : Str} {n : U128} :
    parseU128 s = some n ↔ ∃ ds, (s = ds ∨ s = '+' :: ds) ∧ Json.readNat ds = some n.val := by
  have hdigits : ∀ ds : Str, (if ds = [] then none else ds.foldlM pushDigit 0) = some n ↔ Json.readNat ds = some n.val := by
    intro ds
    rw [Json.readNat]
    by_cases hds : ds = []
    · simp [hds]
    · simp only [hds, if_false, foldlM_pushDigit_iff, ne_eq, not_false_eq_true, true_and, List.all_eq_true]
      split_ifs with h
      · simp only [Option.some.injEq, Fin.val_zero]
        exact and_iff_right h
      · exact ⟨fun hds' => absurd hds'.1 h, fun hds' => (by cases hds')⟩
  have hhead : ∀ {ds : Str}, Json.readNat ds = some n.val → ds.head? ≠ some '+' := by
    intro ds hds hplus
    obtain ⟨rest, rfl⟩ := List.head?_eq_some_iff.mp hplus
    rw [Json.readNat, if_neg (by simp)] at hds
    cases hds
  unfold parseU128
  split_ifs with hplus <;> simp only [hdigits]
  · obtain ⟨rest, rfl⟩ := List.head?_eq_some_iff.mp hplus
    constructor
    · exact fun h => ⟨rest, .inr rfl, h⟩
    · rintro ⟨ds, rfl | hds, h⟩
      · exact absurd hplus (hhead h)
      · cases hds
        exact h
  · constructor
    · exact fun h => ⟨s, .inl rfl, h⟩
    · rintro ⟨ds, rfl | rfl, h⟩
      · exact h
      · exact absurd rfl hplus

/-- **The clock of a text**: `system`, `epoch`, or `nanos:` and a number of 128 bits in decimal, which may have a plus
before it and zeros. There is none for any other. -/
theorem parseClock_iff {spec : Str} {clock : Clock} :
    parseClock spec = .ok clock ↔
      spec = systemSpec ∧ clock = .system ∨ spec = epochSpec ∧ clock = .fixed .epoch ∨
      ∃ n ds, (spec = nanosPrefix ++ ds ∨ spec = nanosPrefix ++ '+' :: ds) ∧ Json.readNat ds = some n.val ∧
        clock = .fixed (.atNanos n) := by
  constructor
  · intro h
    unfold parseClock at h
    split_ifs at h with hsystem hepoch hprefix
    · cases h
      exact .inl ⟨hsystem, rfl⟩
    · cases h
      exact .inr (.inl ⟨hepoch, rfl⟩)
    · obtain ⟨s, rfl⟩ := List.isPrefixOf_iff_prefix.mp hprefix
      simp only [List.drop_left] at h
      split at h
      · next n hn =>
        cases h
        obtain ⟨ds, hds, hread⟩ := parseU128_iff.mp hn
        exact .inr (.inr ⟨n, ds, hds.imp (congrArg _) (congrArg _), hread, rfl⟩)
      · cases h
  · rintro (⟨rfl, rfl⟩ | ⟨rfl, rfl⟩ | ⟨n, ds, hspec, hread, rfl⟩)
    · rfl
    · rfl
    · obtain ⟨s, rfl, hs⟩ : ∃ s, spec = nanosPrefix ++ s ∧ (s = ds ∨ s = '+' :: ds) := by
        rcases hspec with rfl | rfl
        · exact ⟨_, rfl, .inl rfl⟩
        · exact ⟨_, rfl, .inr rfl⟩
      have hprefix : nanosPrefix.isPrefixOf (nanosPrefix ++ s) = true :=
        List.isPrefixOf_iff_prefix.mpr (List.prefix_append ..)
      rw [parseClock, if_neg (fun h => by cases h), if_neg (fun h => by cases h), if_pos hprefix]
      simp only [List.drop_left, parseU128_iff.mpr ⟨ds, hs, hread⟩]

/-! ### The verdict of `diff` -/

/-- Message by message, two sessions have the same directions and the same values. -/
def SameSession (calls calls' : List Call) : Prop :=
  List.Forall₂ (fun c c' => c.dir = c'.dir ∧ Same c.frame.value c'.frame.value) calls calls'

/-- A directory that is opened, with the records of some calls. -/
structure Traced (root : Str) (d : Disk) (calls : List Call) : Prop where
  /-- There is a manifest. -/
  manifest : ∃ m : Manifest, d.files (join root manifestFile) = some m.toVecPretty ∧ m.formatVersion = formatVersion
  /-- The log has the calls' records. -/
  log : d.files (join root eventsFile) = some (logBytes (records X 0 calls))

variable {X}

theorem hexDigit_of_mem {b : Bytes} {c : Char} (h : c ∈ formatBlake3Hex b) : HexDigit c := by
  obtain ⟨x, -, hx⟩ := List.mem_flatMap.mp h
  have hval := hexVal_hexOfByte x.toFin
  rw [UInt8.ofFin_toFin] at hval
  have hmem : Json.hexVal c ∈ (hexOfByte x).map Json.hexVal := List.mem_map_of_mem hx
  rw [hval] at hmem
  simp only [List.mem_cons, List.not_mem_nil, or_false] at hmem
  rcases hmem with h | h <;> rw [HexDigit, h] <;> rfl

/-- A hash that is recorded can be cut. -/
theorem exists_shown (f : Frame) : ∃ part, Shown (f.payloadHashStr X) part := by
  have hhex : ∀ c ∈ formatBlake3Hex (f.payloadHash X).1, HexDigit c := fun c => hexDigit_of_mem
  have hstrip : stripHash (f.payloadHashStr X) = formatBlake3Hex (f.payloadHash X).1 := by
    rw [Frame.payloadHashStr_eq, stripHash, if_pos (List.isPrefixOf_iff_prefix.mpr (List.prefix_append ..)), List.drop_left]
  refine ⟨(formatBlake3Hex (f.payloadHash X).1).take 12, (formatBlake3Hex (f.payloadHash X).1).drop 12, ?_, ?_⟩
  · rw [hstrip, List.take_append_drop]
  · rw [hstrip, length_utf8_of_hexDigits hhex, length_utf8_of_hexDigits fun c hc => hhex c (List.mem_of_mem_take hc),
      List.length_take, Nat.min_comm]

/-- The steps of a record's trace. -/
theorem forall₂_steps_iff {calls calls' : List Call} {r r' : TraceReader} {n n' : ℕ}
    (hr : r.events = records X n calls) (hr' : r'.events = records X n' calls') :
    List.Forall₂ stepEq (steps r) (steps r') ↔
      List.Forall₂ (fun c c' => c.dir = c'.dir ∧ c.frame.payloadHash X = c'.frame.payloadHash X) calls calls' := by
  rw [steps, steps, hr, hr', List.forall₂_map_left_iff, List.forall₂_map_right_iff]
  clear hr hr'
  induction calls generalizing calls' n n' with
  | nil => cases calls' <;> simp [records]
  | cons c calls ih =>
    cases calls' with
    | nil => simp [records]
    | cons c' calls' =>
      rw [records, records, List.forall₂_cons, List.forall₂_cons, ih, stepEq, TraceWriter.eventRecord_hash,
        TraceWriter.eventRecord_hash, payloadHashStr_eq_iff]
      rfl

/-- Sessions are told apart by their hashes, where canonical forms do not collide. -/
theorem sameSession_iff (hnum : Function.Injective X.printNumber) {fs : List Frame}
    (hcoll : {b | ∃ f ∈ fs, b = canonicalize X f.value}.InjOn X.blake3) {calls calls' : List Call}
    (hcalls : ∀ c ∈ calls, c.frame ∈ fs) (hcalls' : ∀ c ∈ calls', c.frame ∈ fs) :
    List.Forall₂ (fun c c' => c.dir = c'.dir ∧ c.frame.payloadHash X = c'.frame.payloadHash X) calls calls' ↔
      SameSession calls calls' := by
  induction calls generalizing calls' with
  | nil => cases calls' <;> simp [SameSession]
  | cons c calls ih =>
    cases calls' with
    | nil => simp [SameSession]
    | cons c' calls' =>
      rw [List.forall_mem_cons] at hcalls hcalls'
      have hhead : c.frame.payloadHash X = c'.frame.payloadHash X ↔ Same c.frame.value c'.frame.value :=
        payloadHash_eq_iff X hnum hcoll c.frame.value_unique ⟨_, hcalls.1, rfl⟩ ⟨_, hcalls'.1, rfl⟩
      rw [SameSession, List.forall₂_cons, List.forall₂_cons, ih hcalls.2 hcalls'.2, hhead]
      rfl

/-- **The diff of what was recorded** is printed. -/
theorem renderUnified_isSome {calls calls' : List Call} {r r' : TraceReader} {n n' : ℕ} (hr : r.events = records X n calls)
    (hr' : r'.events = records X n' calls') (a b : Str) : ∃ text, renderUnified (diffTwo r a r' b) = some text := by
  have hshown : ∀ op ∈ (diffTwo r a r' b).ops, ∃ l, op.line = some l := by
    intro op hop
    obtain ⟨s, hs, -, hhash⟩ := exists_step_of_mem hop
    have hrecorded : ∃ f : Frame, s.hash = f.payloadHashStr X := by
      rcases List.mem_append.mp hs with hs | hs
      all_goals
        obtain ⟨rec, hrec, rfl⟩ := List.mem_map.mp hs
        first | rw [hr] at hrec | rw [hr'] at hrec
        obtain ⟨c, -, hc⟩ := exists_call_of_mem_records hrec
        exact ⟨c.frame, hc⟩
    obtain ⟨f, hf⟩ := hrecorded
    rw [line_eq_some_iff, hhash, hf]
    exact exists_shown f
  obtain ⟨ls, hls⟩ := exists_lines hshown
  exact ⟨_, renderUnified_eq_some_iff.mpr ⟨ls, hls, rfl⟩⟩

/-- A directory is opened, with the records of its calls. -/
theorem Traced.open (htext : X.ReadsText) {root : Str} {d : Disk} (hd : d.faults = .none) {calls : List Call}
    (h : Traced X root d calls) : ∃ r, TraceReader.open X root d = .ok r ∧ r.events = records X 0 calls := by
  obtain ⟨m, hm, hversion⟩ := h.manifest
  exact ⟨_, open_recorded htext hd hm hversion h.log, rfl⟩

/-- **The verdict of `acp diff`** on two directories: 0 where the sessions are the same, else 1. -/
theorem cmdDiff_of_traced (hnum : Function.Injective X.printNumber) (htext : X.ReadsText) {a b : Str} {d : Disk}
    (hd : d.faults = .none) {calls calls' : List Call} (ha : Traced X a d calls) (hb : Traced X b d calls') {fs : List Frame}
    (hcoll : {b | ∃ f ∈ fs, b = canonicalize X f.value}.InjOn X.blake3) (hcalls : ∀ c ∈ calls, c.frame ∈ fs)
    (hcalls' : ∀ c ∈ calls', c.frame ∈ fs) (dot : Bool) :
    ∃ code text, cmdDiff X a b dot d = (.ok code, text) ∧
      (code = 0 ↔ SameSession calls calls') ∧ (code = 1 ↔ ¬ SameSession calls calls') := by
  obtain ⟨r, hopen, hr⟩ := ha.open htext hd
  obtain ⟨r', hopen', hr'⟩ := hb.open htext hd
  obtain ⟨text, htext⟩ : ∃ text, (if dot then some (renderDot (diffTwo r a r' b)) else renderUnified (diffTwo r a r' b))
      = some text := by
    cases dot with
    | true => exact ⟨_, rfl⟩
    | false => exact renderUnified_isSome hr hr' a b
  have hsame : (diffTwo r a r' b).stats.onlyA = 0 ∧ (diffTwo r a r' b).stats.onlyB = 0 ↔ SameSession calls calls' := by
    rw [← sameSession_iff hnum hcoll hcalls hcalls', ← forall₂_steps_iff hr hr', ← distance_eq_zero_iff, distance,
      Nat.add_eq_zero_iff]
    rfl
  refine ⟨exitStatus (diffTwo r a r' b), utf8 text, ?_, ?_⟩
  · simp only [cmdDiff, hopen, hopen', htext]
  · rw [← hsame, exitStatus]
    split_ifs with h <;> simp [h]

end AcpCore.Cli
