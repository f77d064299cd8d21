import AcpCore.Wire.Instance

/-!
# Classification

What a message is by definition, and what `Frame::parse` makes of a line.

## The model

`Defined` says which objects are requests, notifications and responses, and with
what method and id. An id is well-formed if it is a value `Id` has (`Value.IsId`).
The source first projects the members to their types, so that a member of another
type is as good as none.

## What is proved

* `classified_of_defined` — the source classifies what is defined, and so;
* `Classified.defined`, `wellTyped_of_defined` — and nothing else, exactly where no member
  of another type makes the difference (`WellTyped`);
* **`followsDefinition_iff`** — `Frame::parse` follows the definition on a line
  exactly when the line's object is well-typed in this sense.
-/

namespace AcpCore.Wire

open AcpCore.Text

/-! ### Messages -/

/-- A well-formed id: a value `Id` has. -/
inductive Value.IsId : Value → Prop
  /-- A string. -/
  | string (s : Str) : IsId (.string s)
  /-- `null`. -/
  | null : IsId .null
  /-- An integer that fits `i64`. -/
  | integer (n : I64) : IsId (.number (.ofI64 n))

/-- No `result` and no `error`. -/
def NoOutcome (obj : Map) : Prop := Map.get obj resultKey = none ∧ Map.get obj errorKey = none

/-- The kind, the method and the id of a message. -/
inductive Defined (obj : Map) : Kind → Option Str → Option Id → Prop
  /-- A method and an id. -/
  | request {m : Str} {i : Id} : Map.get obj methodKey = some (.string m) → Map.get obj idKey = some i.toValue →
    NoOutcome obj → Defined obj .request (some m) (some i)
  /-- A method and no id. -/
  | notification {m : Str} : Map.get obj methodKey = some (.string m) → Map.get obj idKey = none → NoOutcome obj →
    Defined obj .notification (some m) none
  /-- No method, and a result or an error; the id is that of its member, if it has one. -/
  | response {id : Option Id} : Map.get obj methodKey = none → Map.get obj idKey = id.map Id.toValue →
    ¬ NoOutcome obj → Defined obj .response none id

variable (X : Crates)

/-- A frame is the message a line holds. -/
structure IsMessage (line : Bytes) (f : Frame) : Prop where
  /-- The line is one line. -/
  newline : 0x0A ∉ line
  /-- It is a message of JSON-RPC 2.0. -/
  message : ∃ obj, X.fromSlice line = some (.object obj) ∧ f.value = .object obj ∧
    Map.get obj jsonrpcKey = some (.string ['2', '.', '0']) ∧ Defined obj f.kind f.method f.id
  /-- The bytes are the line's. -/
  raw : f.raw = line

/-- `Frame::parse` accepts a line exactly when it holds a message, and returns that; what has an id is no
notification. -/
structure FollowsDefinition (line : Bytes) : Prop where
  /-- The frame returned is the message. -/
  parse : ∀ f, Frame.parse X line = .ok f ↔ IsMessage X line f
  /-- No notification has an id. -/
  notification : ∀ f obj, Frame.parse X line = .ok f → f.value = .object obj → (Map.get obj idKey).isSome →
    f.kind ≠ .notification

/-- An id that is ill-formed stands only where a method goes with an outcome, or neither is there; and
a method that is no string only where there is no outcome. -/
structure WellTyped (obj : Map) : Prop where
  /-- Of an id. -/
  id : ∀ v, Map.get obj idKey = some v → ¬ v.IsId →
    ((∃ m, Map.get obj methodKey = some (.string m)) ↔ ¬ NoOutcome obj)
  /-- Of a method. -/
  method : ∀ v, Map.get obj methodKey = some v → v.asStr = none → NoOutcome obj

/-- The source's classification of an object. -/
def Classified (obj : Map) (kind : Kind) (method : Option Str) (id : Option Id) : Prop :=
  (Map.get obj methodKey).bind Value.asStr = method ∧ (Map.get obj idKey).bind Id.fromValue = id ∧
    classify method id (Map.containsKey obj resultKey || Map.containsKey obj errorKey) = some kind

/-! ### Members -/

theorem asStr_eq_some {v : Value} {s : Str} (h : v.asStr = some s) : v = .string s := by
  cases v with
  | string t => cases h; rfl
  | null | bool | number | array | object => cases h

theorem isId_of_fromValue {v : Value} {i : Id} (h : Id.fromValue v = some i) : v.IsId := by
  rw [← Id.toValue_of_fromValue h]
  cases i with
  | num n => exact .integer n
  | str s => exact .string s
  | null => exact .null

theorem isId_toValue (i : Id) : i.toValue.IsId := isId_of_fromValue (Id.fromValue_toValue i)

theorem fromValue_of_isId {v : Value} (h : v.IsId) : ∃ i, Id.fromValue v = some i := by
  cases h with
  | string s => exact ⟨.str s, rfl⟩
  | null => exact ⟨.null, rfl⟩
  | integer n => exact ⟨.num n, Id.fromValue_toValue (.num n)⟩

theorem outcome_eq_false_iff {obj : Map} :
    (Map.containsKey obj resultKey || Map.containsKey obj errorKey) = false ↔ NoOutcome obj := by
  simp [Map.containsKey, NoOutcome]

theorem outcome_eq_true_iff {obj : Map} :
    (Map.containsKey obj resultKey || Map.containsKey obj errorKey) = true ↔ ¬ NoOutcome obj := by
  rw [← outcome_eq_false_iff, Bool.not_eq_false]

/-! ### The definition and the source -/

variable {obj : Map} {kind : Kind} {method : Option Str} {id : Option Id}

/-- What is defined is classified so. -/
theorem classified_of_defined (h : Defined obj kind method id) : Classified obj kind method id := by
  cases h with
  | request hm hi ho =>
    refine ⟨by rw [hm]; rfl, by rw [hi, Option.bind_some, Id.fromValue_toValue], ?_⟩
    rw [outcome_eq_false_iff.mpr ho]
    rfl
  | notification hm hi ho =>
    refine ⟨by rw [hm]; rfl, by rw [hi]; rfl, ?_⟩
    rw [outcome_eq_false_iff.mpr ho]
    rfl
  | response hm hi ho =>
    refine ⟨by rw [hm]; rfl, ?_, ?_⟩
    · rw [hi]
      cases id with
      | none => rfl
      | some i => exact Id.fromValue_toValue i
    · rw [outcome_eq_true_iff.mpr ho]
      rfl

/-- An id that is read off is the member; where none is, there is no member or it is ill-formed. -/
theorem get_id (h : (Map.get obj idKey).bind Id.fromValue = id) :
    Map.get obj idKey = id.map Id.toValue ∨ id = none ∧ ∃ v, Map.get obj idKey = some v ∧ ¬ v.IsId := by
  cases hv : Map.get obj idKey with
  | none =>
    rw [hv] at h
    subst h
    exact .inl rfl
  | some v =>
    rw [hv, Option.bind_some] at h
    cases id with
    | none =>
      refine .inr ⟨rfl, v, rfl, fun hid => ?_⟩
      obtain ⟨i, hi⟩ := fromValue_of_isId hid
      rw [h] at hi
      cases hi
    | some i => exact .inl (by rw [Option.map_some, Id.toValue_of_fromValue h])

/-- So of a method. -/
theorem get_method (h : (Map.get obj methodKey).bind Value.asStr = method) :
    Map.get obj methodKey = method.map Value.string ∨
      method = none ∧ ∃ v, Map.get obj methodKey = some v ∧ v.asStr = none := by
  cases hv : Map.get obj methodKey with
  | none =>
    rw [hv] at h
    subst h
    exact .inl rfl
  | some v =>
    rw [hv, Option.bind_some] at h
    cases method with
    | none => exact .inr ⟨rfl, v, rfl, h⟩
    | some m => exact .inl (by rw [Option.map_some, asStr_eq_some h])

/-- A method that is no string is as good as none, and so is an ill-formed id. -/
theorem classified_response {v : Option Value} (hm : Map.get obj methodKey = v) (hv : v.bind Value.asStr = none)
    (ho : ¬ NoOutcome obj) : Classified obj .response none ((Map.get obj idKey).bind Id.fromValue) :=
  ⟨by rw [hm, hv], rfl, by rw [outcome_eq_true_iff.mpr ho]; rfl⟩

/-- What is defined is well-typed. -/
theorem wellTyped_of_defined (h : Defined obj kind method id) : WellTyped obj := by
  cases h with
  | @request m i hm hi ho =>
    refine ⟨fun v hv hid => ?_, fun v hv hs => ?_⟩
    · rw [hi] at hv
      cases hv
      exact absurd (isId_toValue i) hid
    · rw [hm] at hv
      cases hv
      cases hs
  | notification hm hi ho =>
    refine ⟨fun v hv => ?_, fun v hv hs => ?_⟩
    · rw [hi] at hv
      cases hv
    · rw [hm] at hv
      cases hv
      cases hs
  | response hm hi ho =>
    refine ⟨fun v hv hid => ?_, fun v hv => ?_⟩
    · rw [hi] at hv
      obtain ⟨i, -, rfl⟩ := Option.map_eq_some_iff.mp hv
      exact absurd (isId_toValue i) hid
    · rw [hm] at hv
      cases hv

/-- What is classified is defined, if it is well-typed. -/
theorem Classified.defined (h : Classified obj kind method id) (hw : WellTyped obj) : Defined obj kind method id := by
  obtain ⟨hm, hi, hkind⟩ := h
  have hmethod := get_method hm
  have hid := get_id hi
  cases ho : Map.containsKey obj resultKey || Map.containsKey obj errorKey with
  | false =>
    have hno := outcome_eq_false_iff.mp ho
    rw [ho] at hkind
    cases method with
    | none => cases hkind
    | some m =>
      have hm : Map.get obj methodKey = some (.string m) := hmethod.resolve_right fun h => by cases h.1
      cases id with
      | some i =>
        cases hkind
        exact .request hm (hid.resolve_right fun h => by cases h.1) hno
      | none =>
        cases hkind
        refine .notification hm (hid.resolve_right ?_) hno
        -- an ill-formed id would need an outcome
        rintro ⟨-, v, hv, hbad⟩
        exact (hw.id v hv hbad).mp ⟨m, hm⟩ hno
  | true =>
    have hout := outcome_eq_true_iff.mp ho
    rw [ho] at hkind
    cases method with
    | some m => cases id <;> cases hkind
    | none =>
      cases hkind
      have hm : Map.get obj methodKey = none := hmethod.resolve_right fun ⟨_, v, hv, hs⟩ => hout (hw.method v hv hs)
      refine .response hm (hid.resolve_right ?_) hout
      -- an ill-formed id would need a method
      rintro ⟨-, v, hv, hbad⟩
      obtain ⟨m, hm'⟩ := (hw.id v hv hbad).mpr hout
      rw [hm] at hm'
      cases hm'

/-- What is not classified is well-typed. -/
theorem wellTyped_of_not_classified (h : ∀ kind method id, ¬ Classified obj kind method id) : WellTyped obj := by
  refine ⟨fun v hv hbad => ⟨?_, fun hout => ?_⟩, fun v hv hs => ?_⟩
  · rintro ⟨m, hm⟩ hno
    have hid : (Map.get obj idKey).bind Id.fromValue = none := by
      rw [hv, Option.bind_some, Option.eq_none_iff_forall_ne_some]
      exact fun i hi => hbad (isId_of_fromValue hi)
    exact h .notification (some m) none ⟨by rw [hm]; rfl, hid, by rw [outcome_eq_false_iff.mpr hno]; rfl⟩
  · by_contra hnone
    refine h _ _ _ (classified_response rfl ?_ hout)
    rw [Option.eq_none_iff_forall_ne_some]
    intro m hm
    obtain ⟨w, hw, hs⟩ := Option.bind_eq_some_iff.mp hm
    exact hnone ⟨m, by rw [hw, asStr_eq_some hs]⟩
  · by_contra hout
    exact h _ _ _ (classified_response hv hs hout)

/-! ### Lines -/

/-- What `Frame::parse` returns of a line, by its object. -/
theorem parse_eq_ok_iff_classified {line : Bytes} {f : Frame} : Frame.parse X line = .ok f ↔
    0x0A ∉ line ∧ (∃ obj, X.fromSlice line = some (.object obj) ∧ f.value = .object obj ∧
      Map.get obj jsonrpcKey = some (.string ['2', '.', '0']) ∧ Classified obj f.kind f.method f.id) ∧ f.raw = line := by
  have hversion : ∀ obj : Map, (Map.get obj jsonrpcKey).bind Value.asStr = some ['2', '.', '0'] ↔
      Map.get obj jsonrpcKey = some (.string ['2', '.', '0']) := by
    intro obj
    constructor
    · intro h
      obtain ⟨v, hv, hs⟩ := Option.bind_eq_some_iff.mp h
      rw [hv, asStr_eq_some hs]
    · intro h
      rw [h]
      rfl
  rw [Frame.parse_eq_ok_iff, envelope_eq_ok_iff]
  constructor
  · rintro ⟨hn, hv, ⟨obj, hobj, hver, hm, hi, hk⟩, hr⟩
    exact ⟨hn, ⟨obj, hobj ▸ hv, hobj, (hversion obj).mp hver, hm, hi, hk⟩, hr⟩
  · rintro ⟨hn, ⟨obj, hv, hobj, hver, hm, hi, hk⟩, hr⟩
    exact ⟨hn, hobj ▸ hv, ⟨obj, hobj, (hversion obj).mpr hver, hm, hi, hk⟩, hr⟩

/-- **Classification.** `Frame::parse` follows the definition of messages on a line exactly when the
line's object, if it is one of JSON-RPC 2.0, is well-typed. -/
theorem followsDefinition_iff (line : Bytes) : FollowsDefinition X line ↔
    (0x0A ∉ line → ∀ obj, X.fromSlice line = some (.object obj) →
      Map.get obj jsonrpcKey = some (.string ['2', '.', '0']) → WellTyped obj) := by
  constructor
  · intro h hn obj hv hver
    by_cases hc : ∃ kind method id, Classified obj kind method id
    · obtain ⟨kind, method, id, hc⟩ := hc
      have hparse := (parse_eq_ok_iff_classified X (f := ⟨kind, method, id, .object obj, X.fromSlice_unique hv, line⟩)).mpr
        ⟨hn, ⟨obj, hv, rfl, hver, hc⟩, rfl⟩
      obtain ⟨-, ⟨obj', -, hobj, -, hdef⟩, -⟩ := (h.parse _).mp hparse
      cases hobj
      exact wellTyped_of_defined hdef
    · push Not at hc
      exact wellTyped_of_not_classified hc
  · intro h
    have hparse : ∀ f, Frame.parse X line = .ok f ↔ IsMessage X line f := by
      intro f
      rw [parse_eq_ok_iff_classified]
      constructor
      · rintro ⟨hn, ⟨obj, hv, hobj, hver, hc⟩, hr⟩
        exact ⟨hn, ⟨obj, hv, hobj, hver, hc.defined (h hn obj hv hver)⟩, hr⟩
      · rintro ⟨hn, ⟨obj, hv, hobj, hver, hd⟩, hr⟩
        exact ⟨hn, ⟨obj, hv, hobj, hver, classified_of_defined hd⟩, hr⟩
    refine ⟨hparse, fun f obj hf hobj hid hkind => ?_⟩
    obtain ⟨-, ⟨obj', -, hobj', -, hdef⟩, -⟩ := (hparse f).mp hf
    rw [hobj] at hobj'
    cases hobj'
    rw [hkind] at hdef
    generalize f.method = method at hdef
    generalize f.id = id at hdef
    cases hdef with
    | notification _ hnone _ => rw [hnone] at hid; cases hid

/-- `{"jsonrpc":"2.0","id":true,"method":"m"}`. -/
def booleanIdTree : List (Str × Json.Tree) := [versionMember, (idKey, .bool true), (methodKey, .str ['m'])]

/-- What it is parsed as. -/
def booleanIdFrame : Frame where
  kind := .notification
  method := some ['m']
  id := none
  value := .object [(jsonrpcKey, .string ['2', '.', '0']), (idKey, .bool true), (methodKey, .string ['m'])]
  value_unique := ⟨by decide, trivial, trivial, trivial, trivial⟩
  raw := utf8 (Json.render (.obj booleanIdTree))

/-- A line with an ill-formed id is parsed, as a notification. -/
theorem followsDefinition_fails :
    Frame.parse (Crates.plain []) (utf8 (Json.render (.obj booleanIdTree))) = .ok booleanIdFrame ∧
      booleanIdFrame.kind = .notification ∧
      ¬ FollowsDefinition (Crates.plain []) (utf8 (Json.render (.obj booleanIdTree))) := by
  have hparse := parse_render_frame [] booleanIdTree (f := booleanIdFrame) rfl rfl rfl
  exact ⟨hparse, rfl, fun h => h.notification _ _ hparse rfl rfl rfl⟩

end AcpCore.Wire
