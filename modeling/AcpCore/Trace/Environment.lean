import AcpCore.Trace.Reader
import AcpCore.Wire.Instance

/-!
# What a manifest tells

The manifest of a recording has the environment that was captured when it started, unless
that is to be skipped.

## What is proved

* **`manifest_tells_iff`** — two processes leave the same manifest if and only if they are the
  same but for the variables that were not asked for, and what is lost where bytes become text;
* `cwd_eq_iff` — of two directories that are UTF-8 nothing is lost;
* **`environment_recorded`** — what was captured is what is read back.
-/

namespace AcpCore.Trace

open AcpCore.Text AcpCore.Wire

theorem Manifest.toVecPretty_injective : Function.Injective Manifest.toVecPretty := by
  intro m m' h
  have hread := Manifest.fromSlice_toVecPretty (readsText_plain []) m
  rw [h, Manifest.fromSlice_toVecPretty (readsText_plain []) m'] at hread
  exact (Option.some.inj hread).symm

/-- Two processes leave the same manifest exactly when the same is captured of them, or it is skipped. -/
theorem Manifest.withCapture_eq_iff {m : Manifest} {skipRecordingEnv : Bool} {envWhitelist : List Str} {p q : Process} :
    m.withCapture skipRecordingEnv envWhitelist p = m.withCapture skipRecordingEnv envWhitelist q ↔
      skipRecordingEnv = true ∨ RecordingEnv.capture envWhitelist p = RecordingEnv.capture envWhitelist q := by
  cases skipRecordingEnv with
  | true => simp [withCapture]
  | false => simp [withCapture, withRecordingEnv]

/-- **The manifest tells nothing that was not asked for.** Two processes leave the same manifest, byte for byte, if and only
if the environment is skipped, or they are the same host and process, their directories are the same as far as they are
text, and `std::env::var` says the same of the variables asked for; no other variable makes a difference, and each of
these does. -/
theorem manifest_tells_iff (m : Manifest) (skipRecordingEnv : Bool) (envWhitelist : List Str) (p q : Process) :
    (m.withCapture skipRecordingEnv envWhitelist p).toVecPretty = (m.withCapture skipRecordingEnv envWhitelist q).toVecPretty ↔
      skipRecordingEnv = true ∨
        (p.cwd.map toStringLossy = q.cwd.map toStringLossy ∧ p.os = q.os ∧ p.arch = q.arch ∧ p.pid = q.pid) ∧
          ∀ k ∈ envWhitelist, p.var k = q.var k := by
  rw [Manifest.toVecPretty_injective.eq_iff, Manifest.withCapture_eq_iff, capture_eq_iff]

/-- Two directories that are UTF-8 are told apart. -/
theorem cwd_eq_iff {p q : Process} (hp : ∀ b ∈ p.cwd, (utf8Decode b).isSome) (hq : ∀ b ∈ q.cwd, (utf8Decode b).isSome) :
    p.cwd.map toStringLossy = q.cwd.map toStringLossy ↔ p.cwd = q.cwd := by
  cases hb : p.cwd with
  | none => cases hc : q.cwd <;> simp
  | some b =>
    obtain ⟨s, hs⟩ := Option.isSome_iff_exists.mp (hp b hb)
    cases hc : q.cwd with
    | none => simp
    | some c =>
      obtain ⟨t, ht⟩ := Option.isSome_iff_exists.mp (hq c hc)
      rw [Option.map_some, Option.map_some, Option.some_inj, Option.some_inj, toStringLossy_eq_iff hs ht]

variable {X : Crates}

/-- **The environment is read back**: the trace is opened, with the process that recorded it, its directory as text, and of
each variable with what `std::env::var` said of it if it was asked for, and with nothing if it was not. -/
theorem environment_recorded (hX : X.ReadsText) {root : Str} {d : Disk} (hd : d.faults = .none) {m : Manifest}
    (hv : m.formatVersion = formatVersion) {envWhitelist : List Str} {p : Process} {recs : List EventRecord}
    (hm : d.files (join root manifestFile) = some (m.withCapture false envWhitelist p).toVecPretty)
    (hlog : d.files (join root eventsFile) = some (logBytes recs)) :
    ∃ env, TraceReader.open X root d = .ok { root, manifest := m.withRecordingEnv env, events := recs } ∧
      (env.cwd, env.hostOs, env.hostArch, env.recorderPid)
        = (p.cwd.map toStringLossy, some p.os, some p.arch, some p.pid) ∧
      ∀ k, env.env.get k = if k ∈ envWhitelist then p.var k else none :=
  ⟨.capture envWhitelist p, open_recorded hX hd hm hv hlog, rfl, get_capture envWhitelist p⟩

theorem environment_recorded_sample :
    ∃ d r env, TraceReader.open (.plain []) ['t'] d = .ok r ∧ r.manifest.recordingEnv = some env ∧
      env.cwd = some ['/', replacement] ∧ env.env.get ['P'] = some ['u'] ∧ env.env.get ['K', 'E', 'Y'] = none := by
  let m := Manifest.newWithClock ['1'] [] ['0']
  let d := (Disk.set ⟨fun _ => none, .none⟩ (join ['t'] manifestFile)
    (m.withCapture false [['P']] sampleProcess).toVecPretty).set (join ['t'] eventsFile) (logBytes [])
  have hm : d.files (join ['t'] manifestFile) = some (m.withCapture false [['P']] sampleProcess).toVecPretty := by
    rw [Disk.set_files, Function.update_of_ne (eventsPath_ne_manifestPath ['t']).symm, Disk.set_files, Function.update_self]
  have hlog : d.files (join ['t'] eventsFile) = some (logBytes []) := by rw [Disk.set_files, Function.update_self]
  obtain ⟨env, hopen, hprocess, henv⟩ :=
    environment_recorded (readsText_plain []) (rfl : d.faults = .none) (m := m) rfl hm hlog
  have hcwd : toStringLossy [0x2F, 0xFF] = ['/', replacement] := by decide +kernel
  have hvar : sampleProcess.var ['P'] = some ['u'] := by decide +kernel
  refine ⟨d, _, env, hopen, rfl, ?_, by rw [henv, if_pos (by decide), hvar], by rw [henv, if_neg (by decide)]⟩
  rw [(Prod.mk.inj hprocess).1, sampleProcess, Option.map_some, hcwd]

end AcpCore.Trace
