import AcpCore.Trace.Store

/-!
# Crashed recordings

What `TraceReader.open` makes of a trace whose log is cut off anywhere.

## The model

A crash leaves the manifest that was written at the start, the blobs, and any
prefix of the bytes the calls append to the log. The records contained in the
prefix are those whose text it has completely, newline or not (`contained`).

## What is proved

* `readEvents_cut` — a prefix that ends inside a record's text is an error;
* **`open_crashed_iff`** — the trace opens with the records contained in the prefix
  exactly when the prefix does not end inside a record's text.
-/

namespace AcpCore.Trace

open AcpCore.Text AcpCore.Wire

/-- The length of a record's text. -/
def textLength (r : EventRecord) : ℕ := (utf8 r.text).length

/-- The records whose text is contained in the first `n` bytes of their log. -/
def contained : ℕ → List EventRecord → List EventRecord
  | _, [] => []
  | n, r :: recs => if textLength r ≤ n then r :: contained (n - textLength r - 1) recs else []

/-- The first `n` bytes of the records' log end inside a record's text. -/
def EndsInside : ℕ → List EventRecord → Prop
  | _, [] => False
  | n, r :: recs => if textLength r ≤ n then EndsInside (n - textLength r - 1) recs else 0 < n

theorem one_lt_textLength (r : EventRecord) : 1 < textLength r := by
  rw [textLength, EventRecord.text_eq, utf8_cons, utf8_append, List.length_append, List.length_append]
  show 1 < 1 + (_ + 1)
  omega

theorem textLength_pos (r : EventRecord) : 0 < textLength r := Nat.lt_of_succ_lt (one_lt_textLength r)

theorem contained_zero (recs : List EventRecord) : contained 0 recs = [] := by
  cases recs with
  | nil => rfl
  | cons r recs => rw [contained, if_neg (Nat.not_le_of_lt (textLength_pos r))]

theorem not_endsInside_zero (recs : List EventRecord) : ¬ EndsInside 0 recs := by
  cases recs with
  | nil => exact id
  | cons r recs =>
    rw [EndsInside, if_neg (Nat.not_le_of_lt (textLength_pos r))]
    exact Nat.lt_irrefl 0

/-! ### The line loop on a log cut off -/

variable {X : Crates}

/-- A record's text cut short, but for nothing at all, is an error. -/
theorem readEvents_cut (hX : X.ReadsText) {r : EventRecord} {p : Bytes} (hp : p <+: utf8 r.text)
    (hlt : p.length < textLength r) (hne : p ≠ []) : ∃ e, readEvents X (Lines.splitLines 0x0A p) = .error e := by
  have hline : 0x0A ∉ p := fun h => newline_notMem_bytes r (hp.subset h)
  rw [Lines.splitLines_last 0x0A hline hne, readEvents]
  cases hdec : utf8Decode p with
  | none => exact ⟨.io, rfl⟩
  | some s =>
    have hs := utf8_of_utf8Decode hdec
    have hpre : s <+: r.text := utf8_prefix (hs ▸ hp)
    have hsne : s ≠ [] := by
      rintro rfl
      exact hne hs.symm
    have hscut : s ≠ r.text := by
      rintro rfl
      rw [← hs] at hlt
      exact Nat.lt_irrefl _ hlt
    simp only [EventRecord.trimEnd_prefix hpre, if_neg hsne, EventRecord.fromStr_cut hX hpre hscut]
    exact ⟨.json, rfl⟩

/-- A record's text without its newline is read as the record. -/
theorem readEvents_text (hX : X.ReadsText) (r : EventRecord) :
    readEvents X (Lines.splitLines 0x0A (utf8 r.text)) = .ok [r] := by
  have hne : utf8 r.text ≠ [] := fun h => (textLength_pos r).ne' (congrArg List.length h)
  have htne : r.text ≠ [] := fun h => hne (by rw [h, utf8_nil])
  rw [Lines.splitLines_last 0x0A (newline_notMem_bytes r) hne, readEvents, utf8Decode_utf8]
  simp only [EventRecord.trimEnd_text, if_neg htne, EventRecord.fromStr_text hX, readEvents]

/-- What the loop makes of a log cut off: the records contained in it, or an error if it
ends inside one. -/
theorem readEvents_prefix (hX : X.ReadsText) {recs : List EventRecord} {p : Bytes} (hp : p <+: logBytes recs) :
    (EndsInside p.length recs → ∃ e, readEvents X (Lines.splitLines 0x0A p) = .error e) ∧
    (¬ EndsInside p.length recs → readEvents X (Lines.splitLines 0x0A p) = .ok (contained p.length recs)) := by
  induction recs generalizing p with
  | nil =>
    obtain rfl : p = [] := List.prefix_nil.mp hp
    exact ⟨False.elim, fun _ => rfl⟩
  | cons r recs ih =>
    have hlog : logBytes (r :: recs) = utf8 r.text ++ 0x0A :: logBytes recs := by
      rw [logBytes, List.map_cons, Lines.joinLines_cons]
      rfl
    rw [hlog] at hp
    rw [EndsInside, contained]
    by_cases hle : textLength r ≤ p.length
    · rw [if_pos hle, if_pos hle]
      obtain ⟨q, rfl⟩ : utf8 r.text <+: p := List.prefix_of_prefix_length_le (List.prefix_append _ _) hp hle
      rw [List.prefix_append_right_inj] at hp
      cases q with
      | nil =>
        -- the text is complete and its newline is missing
        rw [List.append_nil, ← textLength, Nat.sub_self, Nat.zero_sub]
        refine ⟨fun h => absurd h (not_endsInside_zero recs), fun _ => ?_⟩
        rw [readEvents_text hX, contained_zero]
      | cons b q =>
        obtain ⟨rfl, hq⟩ := List.cons_prefix_cons.mp hp
        have hlen : (utf8 r.text ++ 0x0A :: q).length - textLength r - 1 = q.length := by
          rw [List.length_append, List.length_cons, ← textLength]
          omega
        have hread := readEvents_lines hX [r] (Lines.splitLines 0x0A q)
        rw [hlen, Lines.splitLines_line 0x0A (newline_notMem_bytes r)]
        obtain ⟨herr, hok⟩ := ih hq
        constructor
        · intro h
          obtain ⟨e, he⟩ := herr h
          exact ⟨e, by rw [he] at hread; exact hread⟩
        · intro h
          rw [hok h] at hread
          exact hread
    · rw [if_neg hle, if_neg hle]
      have hpre : p <+: utf8 r.text :=
        List.prefix_of_prefix_length_le hp (List.prefix_append _ _) (Nat.le_of_not_le hle)
      constructor
      · intro hpos
        exact readEvents_cut hX hpre (Nat.lt_of_not_le hle) (List.length_pos_iff.mp hpos)
      · intro hnil
        obtain rfl : p = [] := List.length_eq_zero_iff.mp (Nat.eq_zero_of_not_pos hnil)
        rfl

/-! ### Opening a crashed recording -/

/-- **When a crashed recording is inspectable.** After any calls on a fresh writer, take
any disk with the manifest written at the start and a prefix of the log: opening it gives
the records contained in the prefix, in order, if and only if the prefix does not end
inside a record's text. -/
theorem open_crashed_iff (hX : X.ReadsText) {d : Disk} (hd : d.faults = .none) (root recorderVersion : Str)
    (agentArgv : List Str) (startedAt : Str) (calls : List Call) :
    ∃ w₀ d₀ w d', TraceWriter.createWithClock root (.newWithClock recorderVersion agentArgv startedAt) d = (.ok w₀, d₀) ∧
      w₀.recordAll X calls d₀ = (.ok (), w, d') ∧
      ∀ (log p : Bytes) (crashed : Disk), d'.files (join root eventsFile) = some log → p <+: log →
        crashed.faults = .none → crashed.files (join root manifestFile) = d₀.files (join root manifestFile) →
        crashed.files (join root eventsFile) = some p →
        ((∃ r, TraceReader.open X root crashed = .ok r ∧ r.events = contained p.length (records X 0 calls)) ↔
          ¬ EndsInside p.length (records X 0 calls)) := by
  obtain ⟨w₀, d₀, hcreate, h₀, -, -⟩ := createWithClock_noFaults hd root (.newWithClock recorderVersion agentArgv startedAt)
  obtain ⟨w, d', hall, h', -, -⟩ := recordAll_noFaults X calls h₀
  refine ⟨w₀, d₀, w, d', hcreate, hall, ?_⟩
  intro log p crashed hlog hp hf hm hev
  rw [h'.log] at hlog
  cases hlog
  rw [h₀.manifestFile] at hm
  have hopen := open_of_manifest hX hf hm rfl hev
  obtain ⟨herr, hok⟩ := readEvents_prefix hX hp
  constructor
  · rintro ⟨r, hr, -⟩ hin
    obtain ⟨e, he⟩ := herr hin
    rw [hopen, he] at hr
    cases hr
  · intro hin
    have := hok hin
    refine ⟨_, by rw [hopen, this], rfl⟩

theorem open_crashed_iff_sample :
    ∃ w₀ d₀ w d', TraceWriter.createWithClock ['t'] (.newWithClock ['1'] [] ['0']) emptyDisk = (.ok w₀, d₀) ∧
      w₀.recordAll (.plain sampleDigests) sampleCalls d₀ = (.ok (), w, d') ∧
      ∀ (log p : Bytes) (crashed : Disk), d'.files (join ['t'] eventsFile) = some log → p <+: log →
        crashed.faults = .none → crashed.files (join ['t'] manifestFile) = d₀.files (join ['t'] manifestFile) →
        crashed.files (join ['t'] eventsFile) = some p →
        ((∃ r, TraceReader.open (.plain sampleDigests) ['t'] crashed = .ok r ∧
            r.events = contained p.length (records (.plain sampleDigests) 0 sampleCalls)) ↔
          ¬ EndsInside p.length (records (.plain sampleDigests) 0 sampleCalls)) :=
  open_crashed_iff (readsText_plain sampleDigests) rfl ['t'] ['1'] [] ['0'] sampleCalls

/-- A crash after the first byte of the first line: the trace does not open. -/
theorem open_crashed_fails :
    ∃ w₀ d₀ w d' log crashed, TraceWriter.createWithClock ['t'] (.newWithClock ['1'] [] ['0']) emptyDisk = (.ok w₀, d₀) ∧
      w₀.recordAll (.plain sampleDigests) sampleCalls d₀ = (.ok (), w, d') ∧
      d'.files (join ['t'] eventsFile) = some log ∧ [0x7B] <+: log ∧
      crashed.faults = .none ∧ crashed.files (join ['t'] manifestFile) = d₀.files (join ['t'] manifestFile) ∧
      crashed.files (join ['t'] eventsFile) = some [0x7B] ∧
      ∃ e, TraceReader.open (.plain sampleDigests) ['t'] crashed = .error e := by
  obtain ⟨w₀, d₀, hcreate, h₀, -, -⟩ := createWithClock_noFaults (d := emptyDisk) rfl ['t'] (.newWithClock ['1'] [] ['0'])
  obtain ⟨w, d', hall, h', -, -⟩ := recordAll_noFaults (.plain sampleDigests) sampleCalls h₀
  obtain ⟨r, recs, hrecs⟩ : ∃ r recs, [] ++ records (.plain sampleDigests) 0 sampleCalls = r :: recs := ⟨_, _, rfl⟩
  have hbrace : [0x7B] <+: utf8 r.text := by
    rw [EventRecord.text_eq]
    exact List.prefix_append [0x7B] _
  have hlog : utf8 r.text <+: logBytes (r :: recs) := List.prefix_append_of_prefix (List.prefix_append ..)
  have hmanifest : d'.files (join ['t'] manifestFile) = d₀.files (join ['t'] manifestFile) :=
    h'.manifestFile.trans h₀.manifestFile.symm
  refine ⟨w₀, d₀, w, d', _, d'.set (join ['t'] eventsFile) [0x7B], hcreate, hall, h'.log, ?_, h'.noFaults, ?_, ?_, ?_⟩
  · rw [List.length_nil, hrecs]
    exact hbrace.trans hlog
  · rw [Disk.set_files, Function.update_of_ne (eventsPath_ne_manifestPath _).symm, hmanifest]
  · rw [Disk.set_files, Function.update_self]
  · obtain ⟨e, he⟩ := readEvents_cut (readsText_plain sampleDigests) hbrace (one_lt_textLength r) (by decide)
    refine ⟨e, ?_⟩
    have hm : (d'.set (join ['t'] eventsFile) [0x7B]).files (join ['t'] manifestFile)
        = some (Manifest.newWithClock ['1'] [] ['0']).toVecPretty := by
      rw [Disk.set_files, Function.update_of_ne (eventsPath_ne_manifestPath _).symm, h'.manifestFile]
    have hf : (d'.set (join ['t'] eventsFile) [0x7B]).faults = .none := h'.noFaults
    have hlog : (d'.set (join ['t'] eventsFile) [0x7B]).files (join ['t'] eventsFile) = some [0x7B] := by
      rw [Disk.set_files, Function.update_self]
    rw [open_of_manifest (readsText_plain sampleDigests) hf hm rfl hlog, he]

end AcpCore.Trace
