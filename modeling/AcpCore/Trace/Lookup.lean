import AcpCore.Trace.Store
import AcpCore.Wire.Instance

/-!
# Looking a blob up

Which file `TraceReader.loadBlob` touches, for a record with any text as its hash.

## The model

`TraceReader.lookup` is `load_blob` with the paths it tests or reads. A lookup is safe
when it does not panic and touches only paths of the form
`<root>/blobs/<two hexadecimal digits>/<hexadecimal digits>` (`BlobForm`).

## What is proved

* `lookup_fst` — looking up is loading;
* `lookup_cases` — a lookup ends without touching a file, or panics, or touches one path;
* `blobForm_join_iff` — when that path has the form of a blob's;
* **`lookup_safe_iff`** — a lookup is safe exactly when the hash is too short or not one,
  or of hexadecimal digits, or spells out the absolute path of a blob; wherever the trace
  is, exactly in the first cases.
-/

namespace AcpCore.Trace

open AcpCore.Text AcpCore.Wire

/-! ### Where a lookup goes -/

/-- A hexadecimal digit. -/
def HexDigit (c : Char) : Prop := (Json.hexVal c).isSome

instance (c : Char) : Decidable (HexDigit c) := inferInstanceAs (Decidable (_ = true))

/-- A path of the form `<root>/blobs/<two hexadecimal digits>/<hexadecimal digits>`. -/
def BlobForm (root p : Str) : Prop :=
  ∃ sub name : Str, sub.length = 2 ∧ (∀ c ∈ sub ++ name, HexDigit c) ∧
    p = join root blobsDir ++ '/' :: (sub ++ '/' :: name)

/-- A hash that is none, or too short, or whose text is hexadecimal digits. -/
def Hexadecimal (hash : Str) : Prop :=
  ∀ s, hash = blake3Prefix ++ s → 2 ≤ (utf8 s).length → ∀ c ∈ s, HexDigit c

/-- A hash that spells out the absolute path of a blob, from the slash after its first two bytes or from its first
byte on. -/
def SpellsOut (root hash : Str) : Prop :=
  ∃ a b, hash = blake3Prefix ++ (a ++ b) ∧ (utf8 a).length = 2 ∧
    (b.head? = some '/' ∧ BlobForm root b ∨
      a.head? = some '/' ∧ b.head? ≠ some '/' ∧ BlobForm root (joinBase a ++ b))

variable (X : Crates)

/-- `TraceReader::load_blob`, and the paths it tests or reads, in order. -/
def TraceReader.lookup (r : TraceReader) (d : Disk) (rec : EventRecord) : Except (Abort TraceError) Bytes × List Str :=
  if blake3Prefix.isPrefixOf rec.hash = false then (.error (.error (.danglingBlob rec.hash)), [])
  else
    let hex := rec.hash.drop blake3Prefix.length
    if (utf8 hex).length < 2 then (.error (.error (.danglingBlob rec.hash)), [])
    else
      match splitAtByte 2 hex with
      | none => (.error .panic, [])
      | some (subdir, fileName) =>
        let path := join (join (join r.root blobsDir) subdir) fileName
        if d.isFile path = false then (.error (.error (.danglingBlob rec.hash)), [path])
        else
          match d.read path with
          | .error _ => (.error (.error .io), [path, path])
          | .ok bytes =>
            match Frame.parse X bytes with
            | .error e => (.error (.error (.wire e)), [path, path])
            | .ok frame =>
              let got := blake3Prefix ++ formatBlake3Hex (frame.payloadHash X).1
              if got ≠ rec.hash then (.error (.error (.hashMismatch rec.hash got)), [path, path])
              else (.ok bytes, [path, path])

/-- A lookup does not panic, and touches only files of the trace's own blobs directory. -/
def Safe (r : TraceReader) (d : Disk) (rec : EventRecord) : Prop :=
  (r.lookup X d rec).1 ≠ .error .panic ∧ ∀ p ∈ (r.lookup X d rec).2, BlobForm r.root p

/-- Looking up is loading. -/
theorem lookup_fst (r : TraceReader) (d : Disk) (rec : EventRecord) : (r.lookup X d rec).1 = r.loadBlob X d rec := by
  unfold TraceReader.lookup TraceReader.loadBlob
  by_cases hpre : blake3Prefix.isPrefixOf rec.hash = false
  · rw [if_pos hpre, if_pos hpre]
  by_cases hlen : (utf8 (rec.hash.drop blake3Prefix.length)).length < 2
  · simp only [if_neg hpre, if_pos hlen]
  simp only [if_neg hpre, if_neg hlen]
  cases splitAtByte 2 (rec.hash.drop blake3Prefix.length) with
  | none => rfl
  | some p =>
    simp only
    by_cases hfile : d.isFile (join (join (join r.root blobsDir) p.1) p.2) = false
    · rw [if_pos hfile, if_pos hfile]
    rw [if_neg hfile, if_neg hfile]
    cases d.read (join (join (join r.root blobsDir) p.1) p.2) with
    | error e => rfl
    | ok bytes =>
      simp only
      cases Frame.parse X bytes with
      | error e => rfl
      | ok frame =>
        simp only
        split_ifs <;> rfl

/-- **What a lookup does**: nothing, with a hash that is none or too short; or it panics, with one that is cut inside
a character; or it touches one path. -/
theorem lookup_cases (r : TraceReader) (d : Disk) (rec : EventRecord) :
    (∃ e, r.lookup X d rec = (.error (.error e), []) ∧ ∀ s, rec.hash = blake3Prefix ++ s → (utf8 s).length < 2) ∨
      ∃ s, rec.hash = blake3Prefix ++ s ∧ 2 ≤ (utf8 s).length ∧
        (r.lookup X d rec = (.error .panic, []) ∧ (∀ a b, s = a ++ b → (utf8 a).length ≠ 2) ∨
          ∃ a b path, s = a ++ b ∧ (utf8 a).length = 2 ∧ path = join (join (join r.root blobsDir) a) b ∧
            (r.lookup X d rec).1 ≠ .error .panic ∧ path ∈ (r.lookup X d rec).2 ∧
            ∀ p ∈ (r.lookup X d rec).2, p = path) := by
  unfold TraceReader.lookup
  by_cases hpre : blake3Prefix.isPrefixOf rec.hash = false
  · rw [if_pos hpre]
    refine .inl ⟨_, rfl, ?_⟩
    intro s hs
    rw [hs, ← Bool.not_eq_true, List.isPrefixOf_iff_prefix] at hpre
    exact absurd (List.prefix_append _ _) hpre
  obtain ⟨s, hs⟩ := List.isPrefixOf_iff_prefix.mp (Bool.eq_true_of_not_eq_false hpre)
  have hdrop : rec.hash.drop blake3Prefix.length = s := by rw [← hs, List.drop_left]
  rw [if_neg hpre, hdrop]
  simp only
  by_cases hlen : (utf8 s).length < 2
  · rw [if_pos hlen]
    refine .inl ⟨_, rfl, ?_⟩
    intro s' hs'
    rw [← hs] at hs'
    rwa [← List.append_cancel_left hs']
  refine .inr ⟨s, hs.symm, Nat.le_of_not_lt hlen, ?_⟩
  rw [if_neg hlen]
  cases hsplit : splitAtByte 2 s with
  | none =>
    refine .inl ⟨rfl, ?_⟩
    intro a b hab ha
    rw [splitAtByte_eq_some_iff.mpr ⟨hab, ha⟩] at hsplit
    cases hsplit
  | some p =>
    obtain ⟨a, b⟩ := p
    obtain ⟨hab, ha⟩ := splitAtByte_eq_some_iff.mp hsplit
    refine .inr ⟨a, b, _, hab, ha, rfl, ?_⟩
    simp only
    by_cases hfile : d.isFile (join (join (join r.root blobsDir) a) b) = false
    · rw [if_pos hfile]
      simp
    rw [if_neg hfile]
    cases d.read (join (join (join r.root blobsDir) a) b) with
    | error e => simp
    | ok bytes =>
      simp only
      cases Frame.parse X bytes with
      | error e => simp
      | ok frame =>
        simp only
        split_ifs <;> simp

/-! ### The form of the path -/

theorem utf8Size_of_hexDigit {c : Char} (h : HexDigit c) : c.utf8Size = 1 := by
  have hle : ∀ m : Char, m.toNat ≤ 127 → c ≤ m → c.utf8Size = 1 := by
    intro m hm hcm
    rw [Char.utf8Size_eq_one_iff, UInt32.le_iff_toNat_le]
    exact le_trans (UInt32.le_iff_toNat_le.mp hcm) hm
  unfold HexDigit Json.hexVal at h
  split_ifs at h with hdigit hlower hupper
  · rw [Char.isDigit, Bool.and_eq_true, decide_eq_true_eq, decide_eq_true_eq] at hdigit
    exact hle '9' (by decide) hdigit.2
  · exact hle 'f' (by decide) hlower.2
  · exact hle 'F' (by decide) hupper.2
  · cases h

theorem ne_slash_of_hexDigit {c : Char} (h : HexDigit c) : c ≠ '/' := by
  rintro rfl
  cases h

theorem head?_ne_slash {s : Str} (h : ∀ c ∈ s, HexDigit c) : s.head? ≠ some '/' :=
  fun hs => ne_slash_of_hexDigit (h _ (List.mem_of_mem_head? hs)) rfl

theorem length_utf8_of_hexDigits {s : Str} (h : ∀ c ∈ s, HexDigit c) : (utf8 s).length = s.length := by
  induction s with
  | nil => rfl
  | cons c s ih =>
    obtain ⟨hc, hs⟩ := List.forall_mem_cons.mp h
    rw [utf8_cons, List.length_append, String.length_utf8EncodeChar, utf8Size_of_hexDigit hc, ih hs, List.length_cons]
    omega

/-- Two bytes are one character or two. -/
theorem eq_of_length_utf8_two {a : Str} (h : (utf8 a).length = 2) :
    (∃ c, a = [c] ∧ c.utf8Size = 2) ∨ ∃ c₁ c₂, a = [c₁, c₂] := by
  obtain _ | ⟨c₁, _ | ⟨c₂, _ | ⟨c₃, s⟩⟩⟩ := a
  · cases h
  · rw [utf8_cons, List.length_append, String.length_utf8EncodeChar] at h
    exact .inl ⟨c₁, rfl, h⟩
  · exact .inr ⟨c₁, c₂, rfl⟩
  · simp only [utf8_cons, List.length_append, String.length_utf8EncodeChar] at h
    have h₁ := c₁.utf8Size_pos
    have h₂ := c₂.utf8Size_pos
    have h₃ := c₃.utf8Size_pos
    omega

theorem joinBase_blobs (root : Str) : joinBase (join root blobsDir) = join root blobsDir ++ ['/'] := by
  have hlast : (join root blobsDir).getLast? = some 's' := by
    rw [join_relative (by decide), List.getLast?_append]
    rfl
  exact joinBase_of_last hlast (by decide)

/-- Parts that are not absolute are appended, each with a slash before it unless there is one. -/
theorem join_join_blobs {root a b : Str} (ha : a.head? ≠ some '/') (hb : b.head? ≠ some '/') :
    join (join (join root blobsDir) a) b = join root blobsDir ++ joinBase ('/' :: a) ++ b := by
  rw [join_relative hb, join_relative ha, joinBase_blobs, List.append_assoc, List.singleton_append, List.append_assoc,
    joinBase, joinBase, List.getLast?_append, List.getLast?_cons]
  split_ifs <;> simp_all

/-- **A path that is joined has the form of a blob's** exactly when it is joined of hexadecimal digits, or one of its
parts is absolute and has that form. -/
theorem blobForm_join_iff {root a b : Str} (ha : (utf8 a).length = 2) :
    BlobForm root (join (join (join root blobsDir) a) b) ↔
      (∀ c ∈ a ++ b, HexDigit c) ∨ b.head? = some '/' ∧ BlobForm root b ∨
        a.head? = some '/' ∧ b.head? ≠ some '/' ∧ BlobForm root (joinBase a ++ b) := by
  by_cases hb : b.head? = some '/'
  · -- the name is absolute: it is the path
    have hhex : ¬ ∀ c ∈ a ++ b, HexDigit c :=
      fun h => head?_ne_slash (fun c hc => h c (List.mem_append_right a hc)) hb
    rw [or_iff_right hhex, join, if_pos hb]
    simp [hb]
  by_cases hslash : a.head? = some '/'
  · -- the directory is absolute: the path begins with it
    have hhex : ¬ ∀ c ∈ a ++ b, HexDigit c :=
      fun h => head?_ne_slash (fun c hc => h c (List.mem_append_left b hc)) hslash
    have hdir : join (join root blobsDir) a = a := by rw [join, if_pos hslash]
    rw [hdir, join_relative hb]
    rw [or_iff_right hhex]
    simp [hb, hslash]
  rw [join_join_blobs hslash hb]
  simp only [hb, hslash, false_and, or_false]
  constructor
  · rintro ⟨sub, name, hsub, hhex, hpath⟩
    rw [List.append_assoc, List.append_cancel_left_eq] at hpath
    obtain ⟨x, y, rfl⟩ := List.length_eq_two.mp hsub
    have hx : HexDigit x := hhex x (by simp)
    have hy : HexDigit y := hhex y (by simp)
    -- the first two characters after the slash are digits, so that the directory is these two
    rcases eq_of_length_utf8_two ha with ⟨c, rfl, hc⟩ | ⟨c₁, c₂, rfl⟩
    · have hcx : c = x := by
        unfold joinBase at hpath
        split_ifs at hpath <;> simp_all
      rw [hcx, utf8Size_of_hexDigit hx] at hc
      cases hc
    · by_cases hlast : c₂ = '/'
      · have hcy : '/' = y := by
          rw [joinBase, if_pos (.inr (by simp [hlast]))] at hpath
          simp_all
        exact absurd hcy.symm (ne_slash_of_hexDigit hy)
      · rw [joinBase, if_neg (by simp [hlast])] at hpath
        simp only [List.cons_append, List.nil_append, List.cons.injEq, true_and] at hpath
        obtain ⟨rfl, rfl, rfl⟩ := hpath
        exact hhex
  · intro hhex
    have hlen : a.length = 2 := by
      rw [← length_utf8_of_hexDigits fun c hc => hhex c (List.mem_append_left b hc), ha]
    refine ⟨a, b, hlen, hhex, ?_⟩
    obtain ⟨x, y, rfl⟩ := List.length_eq_two.mp hlen
    have hy : y ≠ '/' := ne_slash_of_hexDigit (hhex y (by simp))
    rw [joinBase, if_neg (by simp [hy])]
    simp

/-! ### Safety -/

/-- Without a leading slash in its directory no absolute path is one of a blob. -/
theorem not_spellsOut_nil (hash : Str) : ¬ SpellsOut [] hash := by
  have hform : ∀ {p : Str}, p.head? = some '/' → ¬ BlobForm [] p := by
    rintro _ hp ⟨sub, name, -, -, rfl⟩
    cases hp
  rintro ⟨a, b, -, -, ⟨hb, hblob⟩ | ⟨ha, -, hblob⟩⟩
  · exact hform hb hblob
  · refine hform ?_ hblob
    obtain _ | ⟨c, a⟩ := a
    · cases ha
    · unfold joinBase
      split_ifs <;> exact ha

/-- A lookup is safe exactly when the hash is hexadecimal, or spells out the path of a blob. -/
theorem safe_iff (r : TraceReader) (d : Disk) (rec : EventRecord) :
    Safe X r d rec ↔ Hexadecimal rec.hash ∨ SpellsOut r.root rec.hash := by
  unfold Safe
  rcases lookup_cases X r d rec with ⟨e, hlookup, hshort⟩ | ⟨s, hs, hlen, ⟨hlookup, hcut⟩ | hpath⟩
  · have hhex : Hexadecimal rec.hash := fun s hs hlen => absurd (hshort s hs) (Nat.not_lt_of_le hlen)
    simp [hlookup, hhex]
  · -- the hash is cut inside a character
    rw [hlookup]
    refine ⟨fun h => absurd rfl h.1, ?_⟩
    rintro (hhex | ⟨a, b, hab, ha, -⟩)
    · have hdigits := hhex s hs hlen
      rw [length_utf8_of_hexDigits hdigits] at hlen
      refine absurd ?_ (hcut _ _ (List.take_append_drop 2 s).symm)
      rw [length_utf8_of_hexDigits fun c hc => hdigits c (List.mem_of_mem_take hc), List.length_take]
      omega
    · rw [hs, List.append_cancel_left_eq] at hab
      exact absurd ha (hcut a b hab)
  · obtain ⟨a, b, path, rfl, ha, rfl, hpanic, hmem, hall⟩ := hpath
    have hform : (∀ p ∈ (r.lookup X d rec).2, BlobForm r.root p) ↔
        BlobForm r.root (join (join (join r.root blobsDir) a) b) := by
      constructor
      · intro h
        exact h _ hmem
      · intro h p hp
        rwa [hall p hp]
    rw [hform, and_iff_right hpanic, blobForm_join_iff ha]
    refine or_congr ?_ ?_
    · constructor
      · intro h s' hs' _
        rw [hs, List.append_cancel_left_eq] at hs'
        rwa [← hs']
      · intro h
        exact h _ hs hlen
    · constructor
      · intro h
        exact ⟨a, b, hs, ha, h⟩
      · rintro ⟨a', b', hs', ha', h⟩
        rw [hs, List.append_cancel_left_eq] at hs'
        have hsplit : splitAtByte 2 (a ++ b) = some (a, b) := splitAtByte_eq_some_iff.mpr ⟨rfl, ha⟩
        rw [hs', splitAtByte_eq_some_iff.mpr ⟨rfl, ha'⟩] at hsplit
        cases hsplit
        exact h

/-- **Blob lookup.** A lookup is safe exactly when the hash is none, or too short, or of hexadecimal digits, or spells
out the absolute path of a blob of the very trace; and it is safe wherever the trace is, and whatever else the disk
holds, exactly when the hash is none, or too short, or of hexadecimal digits. -/
theorem lookup_safe_iff (r : TraceReader) (d : Disk) (rec : EventRecord) :
    (Safe X r d rec ↔ Hexadecimal rec.hash ∨ SpellsOut r.root rec.hash) ∧
      ((∀ root d', Safe X { r with root } d' rec) ↔ Hexadecimal rec.hash) := by
  refine ⟨safe_iff X r d rec, ?_⟩
  constructor
  · intro h
    exact ((safe_iff X _ _ rec).mp (h [] d)).resolve_right (not_spellsOut_nil _)
  · intro h root d'
    exact (safe_iff X _ _ rec).mpr (.inl h)

/-! ### A trace from someone else -/

/-- A record of a hash. -/
def recordOf (hash : Str) : EventRecord := ⟨0, 0, .a2c, .notification, none, none, hash, 0⟩

/-- A hash cut inside its second character. -/
def cutHash : Str := blake3Prefix ++ ['a', 'é']

/-- The path of a file that is not the trace's. -/
def strayPath : Str := ['/', 'e', 't', 'c', '/', 'h', 'o', 's', 't', 's']

/-- A hash of its path. -/
def strayHash : Str := blake3Prefix ++ (['a', 'a'] ++ strayPath)

/-- A disk with a trace of two records of these hashes, and the file. -/
def strayDisk : Disk :=
  ((emptyDisk.set (join ['t'] manifestFile) (Manifest.newWithClock ['1'] [] ['0']).toVecPretty).set
    (join ['t'] eventsFile) (logBytes [recordOf cutHash, recordOf strayHash])).set strayPath [0x31]

/-- The trace is opened; loading its first record panics, and loading the second tests and reads the file. -/
theorem lookup_safe_fails :
    ∃ r, TraceReader.open (.plain []) ['t'] strayDisk = .ok r ∧ r.events = [recordOf cutHash, recordOf strayHash] ∧
      r.loadBlob (.plain []) strayDisk (recordOf cutHash) = .error .panic ∧
      (r.lookup (.plain []) strayDisk (recordOf strayHash)).2 = [strayPath, strayPath] ∧
      ¬ Safe (.plain []) r strayDisk (recordOf cutHash) ∧ ¬ Safe (.plain []) r strayDisk (recordOf strayHash) := by
  have hm : strayDisk.files (join ['t'] manifestFile) = some (Manifest.newWithClock ['1'] [] ['0']).toVecPretty := by
    unfold strayDisk
    rw [Disk.set_files, Function.update_of_ne (by decide), Disk.set_files,
      Function.update_of_ne (eventsPath_ne_manifestPath ['t']).symm, Disk.set_files, Function.update_self]
  have hlog : strayDisk.files (join ['t'] eventsFile) = some (logBytes [recordOf cutHash, recordOf strayHash]) := by
    unfold strayDisk
    rw [Disk.set_files, Function.update_of_ne (by decide), Disk.set_files, Function.update_self]
  refine ⟨_, open_recorded (readsText_plain []) rfl hm rfl hlog, rfl, ?_⟩
  have hpanic : ∀ m events, TraceReader.lookup (.plain []) ⟨['t'], m, events⟩ strayDisk (recordOf cutHash)
      = (.error .panic, []) := fun m events => rfl
  have hstray : ∀ m events, (TraceReader.lookup (.plain []) ⟨['t'], m, events⟩ strayDisk (recordOf strayHash)).2
      = [strayPath, strayPath] := fun m events => rfl
  refine ⟨?_, hstray _ _, fun h => h.1 (congrArg Prod.fst (hpanic _ _)), fun h => ?_⟩
  · rw [← lookup_fst, hpanic]
  · rw [Safe, hstray] at h
    obtain ⟨sub, name, -, -, hpath⟩ := h.2 strayPath (by simp)
    cases hpath

end AcpCore.Trace
