import AcpCore.Wire.Written

/-!
# The echo agent

The agent the sessions of the tests are recorded with: it answers each frame that has an
id, in order, until one asks it to shut down.

## The model

`serve` is the loop of `run` over what its reader returns; what it writes to its stdout
is the bytes written so far, and writing does not fail. A counter is a `u64`, one more
than the greatest is zero. `Ask` is all the agent looks at in a frame, and `Reply` all
it ever writes.

## What is proved

* `serve_eq` — the loop writes the lines of `replies`, a function of what is asked;
* `parse_reply` — every line is that of a frame;
* **`answered_of_run`** — for every stream, its output is read back as frames, among which
  the responses answer the frames with an id, one each and in order, and the others are
  updates;
* **`sessions_of_run`** — the sessions it opens are numbered as they are opened.
-/

namespace AcpCore.Agent

open AcpCore.Text AcpCore.Wire AcpCore.Json

/-- A `u64`. -/
abbrev U64 := Fin (2 ^ 64)

/-! ### Texts -/

/-- `"2.0"`. -/
def version : Str := ['2', '.', '0']
/-- `"params"`. -/
def paramsKey : Str := ['p', 'a', 'r', 'a', 'm', 's']
/-- `"sessionId"`. -/
def sessionIdKey : Str := ['s', 'e', 's', 's', 'i', 'o', 'n', 'I', 'd']
/-- `"code"`. -/
def codeKey : Str := ['c', 'o', 'd', 'e']
/-- `"message"`. -/
def messageKey : Str := ['m', 'e', 's', 's', 'a', 'g', 'e']
/-- `"protocolVersion"`. -/
def protocolVersionKey : Str := ['p', 'r', 'o', 't', 'o', 'c', 'o', 'l', 'V', 'e', 'r', 's', 'i', 'o', 'n']
/-- `"agentCapabilities"`. -/
def agentCapabilitiesKey : Str :=
  ['a', 'g', 'e', 'n', 't', 'C', 'a', 'p', 'a', 'b', 'i', 'l', 'i', 't', 'i', 'e', 's']
/-- `"update"`. -/
def updateKey : Str := ['u', 'p', 'd', 'a', 't', 'e']
/-- `"kind"`. -/
def kindKey : Str := ['k', 'i', 'n', 'd']
/-- `"content"`. -/
def contentKey : Str := ['c', 'o', 'n', 't', 'e', 'n', 't']
/-- `"type"`. -/
def typeKey : Str := ['t', 'y', 'p', 'e']
/-- `"text"`. -/
def textKey : Str := ['t', 'e', 'x', 't']
/-- `"stopReason"`. -/
def stopReasonKey : Str := ['s', 't', 'o', 'p', 'R', 'e', 'a', 's', 'o', 'n']

/-- `"initialize"`. -/
def initializeMethod : Str := ['i', 'n', 'i', 't', 'i', 'a', 'l', 'i', 'z', 'e']
/-- `"session/new"`. -/
def sessionNewMethod : Str := ['s', 'e', 's', 's', 'i', 'o', 'n', '/', 'n', 'e', 'w']
/-- `"session/prompt"`. -/
def sessionPromptMethod : Str := ['s', 'e', 's', 's', 'i', 'o', 'n', '/', 'p', 'r', 'o', 'm', 'p', 't']
/-- `"session/update"`. -/
def sessionUpdateMethod : Str := ['s', 'e', 's', 's', 'i', 'o', 'n', '/', 'u', 'p', 'd', 'a', 't', 'e']
/-- `"shutdown"`. -/
def shutdownMethod : Str := ['s', 'h', 'u', 't', 'd', 'o', 'w', 'n']

/-- `"agent_message_chunk"`. -/
def agentMessageChunk : Str :=
  ['a', 'g', 'e', 'n', 't', '_', 'm', 'e', 's', 's', 'a', 'g', 'e', '_', 'c', 'h', 'u', 'n', 'k']
/-- `"end_turn"`. -/
def endTurn : Str := ['e', 'n', 'd', '_', 't', 'u', 'r', 'n']
/-- `"sess-?"`. -/
def unknownSession : Str := ['s', 'e', 's', 's', '-', '?']

/-- `format!("sess-{session_count}")`. -/
def sessionName (n : U64) : Str := ['s', 'e', 's', 's', '-'] ++ Nat.toDigits 10 n
/-- `format!("echo #{prompt_count}")`. -/
def echoText (n : U64) : Str := ['e', 'c', 'h', 'o', ' ', '#'] ++ Nat.toDigits 10 n
/-- `format!("method not found: {method}")`. -/
def methodNotFound (method : Str) : Str :=
  ['m', 'e', 't', 'h', 'o', 'd', ' ', 'n', 'o', 't', ' ', 'f', 'o', 'u', 'n', 'd', ':', ' '] ++ method

/-! ### What the agent sends -/

/-- An `i32`. -/
abbrev I32 := { i : ℤ // -2 ^ 31 ≤ i ∧ i < 2 ^ 31 }

/-- A number from an `i32`. -/
def ofI32 (i : I32) : Number := .ofI64 ⟨i.1, by have := i.2; omega, by have := i.2; omega⟩

/-- `-32601`. -/
def notFoundCode : I32 := ⟨-32601, by decide⟩

variable (X : Crates)

/-- `write_envelope`: what is on the stream after. -/
def writeEnvelope (out : Bytes) (env : Value) : Bytes := out ++ (X.toVec env ++ [0x0A])

/-- The envelope of `send_result`. -/
def resultEnvelope (id : Id) (result : Value) : Value :=
  .object [(jsonrpcKey, .string version), (idKey, id.toValue), (resultKey, result)]

/-- `send_result`. -/
def sendResult (out : Bytes) (id : Id) (result : Value) : Bytes := writeEnvelope X out (resultEnvelope id result)

/-- The envelope of `send_error`. -/
def errorEnvelope (id : Id) (code : I32) (message : Str) : Value :=
  .object [(jsonrpcKey, .string version), (idKey, id.toValue),
    (errorKey, .object [(codeKey, .number (ofI32 code)), (messageKey, .string message)])]

/-- `send_error`. -/
def sendError (out : Bytes) (id : Id) (code : I32) (message : Str) : Bytes :=
  writeEnvelope X out (errorEnvelope id code message)

/-- The envelope of `send_notification`. -/
def notificationEnvelope (method : Str) (params : Value) : Value :=
  .object [(jsonrpcKey, .string version), (methodKey, .string method), (paramsKey, params)]

/-- `send_notification`. -/
def sendNotification (out : Bytes) (method : Str) (params : Value) : Bytes :=
  writeEnvelope X out (notificationEnvelope method params)

/-- The result of `initialize`. -/
def initializeResult : Value :=
  .object [(protocolVersionKey, .number (.posInt 1)), (agentCapabilitiesKey, .object [])]

/-- The result of `session/new`. -/
def sessionNewResult (n : U64) : Value := .object [(sessionIdKey, .string (sessionName n))]

/-- The parameters of `session/update`. -/
def updateParams (sessionId : Str) (n : U64) : Value :=
  .object [(sessionIdKey, .string sessionId),
    (updateKey, .object [(kindKey, .string agentMessageChunk),
      (contentKey, .object [(typeKey, .string textKey), (textKey, .string (echoText n))])])]

/-- The result of `session/prompt`. -/
def promptResult : Value := .object [(stopReasonKey, .string endTurn)]

/-- `Value::get` of a name. -/
def get (v : Value) (k : Str) : Option Value := v.asObject.bind fun ms => Map.get ms k

/-- The session a prompt is for. -/
def sessionOf (v : Value) : Str :=
  (((get v paramsKey).bind fun p => get p sessionIdKey).bind Value.asStr).getD unknownSession

/-! ### The loop -/

/-- The loop of `run`, over what the reader returns. -/
def serve : List (Except WireError Frame) → U64 → U64 → Bytes → Except WireError Unit × Bytes
  | [], _, _, out => (.ok (), out)
  | .error e :: _, _, _, out => (.error e, out)
  | .ok frame :: rest, promptCount, sessionCount, out =>
    match frame.id with
    -- notifications are accepted and ignored
    | none => serve rest promptCount sessionCount out
    | some id =>
      let method := frame.method.getD []
      if method = initializeMethod then
        serve rest promptCount sessionCount (sendResult X out id initializeResult)
      else if method = sessionNewMethod then
        let sessionCount := sessionCount + 1
        serve rest promptCount sessionCount (sendResult X out id (sessionNewResult sessionCount))
      else if method = sessionPromptMethod then
        let promptCount := promptCount + 1
        let out := sendNotification X out sessionUpdateMethod (updateParams (sessionOf frame.value) promptCount)
        serve rest promptCount sessionCount (sendResult X out id promptResult)
      else if method = shutdownMethod then (.ok (), sendResult X out id .null)
      else serve rest promptCount sessionCount (sendError X out id notFoundCode (methodNotFound method))

/-- `run`: the outcome, and what is written to stdout. -/
def run (input : Bytes) : Except WireError Unit × Bytes := serve X ((FrameReader.new input).results X) 0 0 []

/-! ### What it is asked and what it replies -/

/-- What the agent looks at in a frame that has an id. -/
structure Ask where
  /-- The id. -/
  id : Id
  /-- The method, or nothing. -/
  method : Str
  /-- The session a prompt is for. -/
  sessionId : Str
  deriving DecidableEq

/-- What the agent is asked, up to the first error of its reader and the first request to shut down. -/
def asks : List (Except WireError Frame) → List Ask
  | [] => []
  | .error _ :: _ => []
  | .ok frame :: rest =>
    match frame.id with
    | none => asks rest
    | some id =>
      if frame.method.getD [] = shutdownMethod then [⟨id, shutdownMethod, sessionOf frame.value⟩]
      else ⟨id, frame.method.getD [], sessionOf frame.value⟩ :: asks rest

/-- What the agent may write. -/
inductive Reply where
  /-- The result of `initialize`. -/
  | initialized (id : Id)
  /-- The result of `session/new`. -/
  | session (id : Id) (n : U64)
  /-- A `session/update`. -/
  | update (sessionId : Str) (n : U64)
  /-- The result of `session/prompt`. -/
  | ended (id : Id)
  /-- The result of `shutdown`. -/
  | stopped (id : Id)
  /-- The error of any other method. -/
  | unknown (id : Id) (method : Str)

/-- What the agent replies, the counters being what they are. -/
def replies : U64 → U64 → List Ask → List Reply
  | _, _, [] => []
  | prompts, sessions, a :: rest =>
    if a.method = initializeMethod then .initialized a.id :: replies prompts sessions rest
    else if a.method = sessionNewMethod then .session a.id (sessions + 1) :: replies prompts (sessions + 1) rest
    else if a.method = sessionPromptMethod then
      .update a.sessionId (prompts + 1) :: .ended a.id :: replies (prompts + 1) sessions rest
    else if a.method = shutdownMethod then .stopped a.id :: replies prompts sessions rest
    else .unknown a.id a.method :: replies prompts sessions rest

namespace Reply

/-- The envelope of a reply. -/
def toValue : Reply → Value
  | initialized id => resultEnvelope id initializeResult
  | session id n => resultEnvelope id (sessionNewResult n)
  | update sessionId n => notificationEnvelope sessionUpdateMethod (updateParams sessionId n)
  | ended id => resultEnvelope id promptResult
  | stopped id => resultEnvelope id .null
  | unknown id method => errorEnvelope id notFoundCode (methodNotFound method)

/-- The id of a response. -/
def id : Reply → Option Id
  | initialized id => some id
  | session id _ => some id
  | update _ _ => none
  | ended id => some id
  | stopped id => some id
  | unknown id _ => some id

/-- The method of an update. -/
def method : Reply → Option Str
  | update _ _ => some sessionUpdateMethod
  | _ => none

/-- All but an update are responses. -/
def kind : Reply → Kind
  | update _ _ => .notification
  | _ => .response

end Reply

/-- **The loop writes the lines of the replies** to what it is asked. -/
theorem serve_eq (results : List (Except WireError Frame)) (prompts sessions : U64) (out : Bytes) :
    (serve X results prompts sessions out).2
      = out ++ Lines.joinLines 0x0A ((replies prompts sessions (asks results)).map fun r => X.toVec r.toValue) := by
  induction results generalizing prompts sessions out with
  | nil => simp [serve, asks, replies]
  | cons result rest ih =>
    cases result with
    | error e => simp [serve, asks, replies]
    | ok frame =>
      rw [serve, asks]
      cases hid : frame.id with
      | none => exact ih ..
      | some id =>
        simp only
        by_cases hstop : frame.method.getD [] = shutdownMethod
        · have h₁ : shutdownMethod ≠ initializeMethod := by decide
          have h₂ : shutdownMethod ≠ sessionNewMethod := by decide
          have h₃ : shutdownMethod ≠ sessionPromptMethod := by decide
          simp [hstop, h₁, h₂, h₃, replies, sendResult, writeEnvelope, Reply.toValue, Lines.joinLines_cons]
        · simp only [if_neg hstop, replies]
          split_ifs
          · rw [ih]
            simp [sendResult, writeEnvelope, Reply.toValue, Lines.joinLines_cons]
          · rw [ih]
            simp [sendResult, writeEnvelope, Reply.toValue, Lines.joinLines_cons]
          · rw [ih]
            simp [sendResult, sendNotification, writeEnvelope, Reply.toValue, Lines.joinLines_cons]
          · rw [ih]
            simp [sendError, writeEnvelope, Reply.toValue, Lines.joinLines_cons]

/-- It fails where its reader does before it is asked to shut down. -/
theorem serve_outcome (results : List (Except WireError Frame)) (prompts sessions : U64) (out : Bytes) :
    (serve X results prompts sessions out).1 = .ok () ∨
      ∃ e, .error e ∈ results ∧ (serve X results prompts sessions out).1 = .error e := by
  induction results generalizing prompts sessions out with
  | nil => exact .inl rfl
  | cons result rest ih =>
    have ih : ∀ prompts sessions out, (serve X rest prompts sessions out).1 = .ok () ∨
        ∃ e, .error e ∈ result :: rest ∧ (serve X rest prompts sessions out).1 = .error e := fun prompts sessions out =>
      (ih prompts sessions out).imp id fun ⟨e, he, h⟩ => ⟨e, List.mem_cons_of_mem _ he, h⟩
    cases result with
    | error e => exact .inr ⟨e, List.mem_cons_self, rfl⟩
    | ok frame =>
      rw [serve]
      cases frame.id with
      | none => exact ih ..
      | some id =>
        simp only
        split_ifs
        · exact ih ..
        · exact ih ..
        · exact ih ..
        · exact .inl rfl
        · exact ih ..

/-! ### The lines it writes -/

namespace Reply

theorem unique_id (i : Id) : i.toValue.Unique := by cases i <;> trivial

/-- No envelope has a name twice. -/
theorem unique (r : Reply) : r.toValue.Unique := by
  cases r <;>
    simp [toValue, resultEnvelope, errorEnvelope, notificationEnvelope, initializeResult, sessionNewResult, updateParams,
      promptResult, Value.Unique, UniqueMembers, unique_id] <;> decide

/-- Every number in an envelope is an integer. -/
theorem integers (r : Reply) : ∀ n ∈ r.toValue.numbers, n.isInteger = true := by
  have hofI64 : ∀ i, (Number.ofI64 i).isInteger = true := by
    rintro ⟨n | n, h⟩ <;> rfl
  have hid : ∀ (i : Id), ∀ n ∈ i.toValue.numbers, n.isInteger = true := by
    rintro (i | s | -) n hn
    · cases List.mem_singleton.mp hn
      exact hofI64 i
    · cases hn
    · cases hn
  intro n hn
  cases r <;>
    simp only [toValue, resultEnvelope, errorEnvelope, notificationEnvelope, initializeResult, sessionNewResult,
      updateParams, promptResult, Value.numbers, numbersOfMembers, List.nil_append, List.append_nil, List.mem_append,
      List.mem_singleton, List.not_mem_nil] at hn
  case initialized id =>
    rcases hn with hn | rfl
    · exact hid id n hn
    · rfl
  case session id _ => exact hid id n hn
  case ended id => exact hid id n hn
  case stopped id => exact hid id n hn
  case unknown id _ =>
    rcases hn with hn | rfl
    · exact hid id n hn
    · exact hofI64 _

/-- No envelope is nested deeply. -/
theorem depth_toTree (r : Reply) : (X.toTree r.toValue).depth < 128 := by
  have hid : ∀ i : Id, (X.toTree i.toValue).depth = 0 := by rintro (i | s | -) <;> rfl
  cases r <;>
    simp [toValue, resultEnvelope, errorEnvelope, notificationEnvelope, initializeResult, sessionNewResult, updateParams,
      promptResult, Crates.toTree, Crates.toTreeMembers, Tree.depth, depthMembers, hid]

/-- An envelope is one of a frame. -/
theorem envelope_toValue (r : Reply) : envelope r.toValue = .ok (r.kind, r.method, r.id) := by
  have hid : ∀ i : Id, Id.fromValue i.toValue = some i := Id.fromValue_toValue
  cases r <;>
    simp [toValue, resultEnvelope, errorEnvelope, notificationEnvelope, envelope_eq_ok_iff, Map.get, Map.containsKey,
      Value.asStr, classify, kind, method, Reply.id, version, hid, jsonrpcKey, idKey, methodKey, resultKey, errorKey,
      paramsKey]

/-- The frame of a reply. -/
def frame (r : Reply) : Frame where
  kind := r.kind
  method := r.method
  id := r.id
  value := r.toValue
  value_unique := r.unique
  raw := X.toVec r.toValue

end Reply

variable {X} {num : Literal → Option Number}

/-- **Every line** the agent writes is that of a frame. -/
theorem parse_reply (hX : X.ReadsValues num) (hint : ∀ l n, Number.ofLiteral l = some n → num l = some n) (r : Reply) :
    Frame.parse X (r.frame X).raw = .ok (r.frame X) := by
  have hread : X.fromSlice (X.toVec r.toValue) = some r.toValue :=
    fromSlice_toVec hX r.unique (fun n hn => hint _ _ (ofLiteral_printNumber X (r.integers n hn))) (r.depth_toTree X)
  exact parse_toVec hread rfl r.envelope_toValue

/-- Its output is read back as the frames of its replies. -/
theorem results_of_run (hX : X.ReadsValues num) (hint : ∀ l n, Number.ofLiteral l = some n → num l = some n)
    (hws : X.Whitespace) (input : Bytes) :
    (FrameReader.new (run X input).2).results X
      = ((replies 0 0 (asks ((FrameReader.new input).results X))).map (Reply.frame X)).map .ok := by
  rw [run, serve_eq, List.nil_append]
  refine Eq.trans (congrArg (fun b => (FrameReader.new (Lines.joinLines 0x0A b)).results X) ?_)
    (FrameReader.results_of_last hws fun f hf => ?_)
  · rw [List.map_map]
    rfl
  · obtain ⟨r, -, rfl⟩ := List.mem_map.mp hf
    exact ⟨parse_reply hX hint r, (control_toVec r.toValue).2⟩

/-! ### Whole runs -/

/-- The responses are to what is asked. -/
theorem responses_replies (prompts sessions : U64) (as : List Ask) :
    ((replies prompts sessions as).filter (·.kind = .response)).map Reply.id = as.map fun a => some a.id := by
  induction as generalizing prompts sessions with
  | nil => rfl
  | cons a as ih =>
    rw [replies]
    split_ifs
    · exact congrArg (some a.id :: ·) (ih ..)
    · exact congrArg (some a.id :: ·) (ih ..)
    · exact congrArg (some a.id :: ·) (ih ..)
    · exact congrArg (some a.id :: ·) (ih ..)
    · exact congrArg (some a.id :: ·) (ih ..)

/-- **The agent answers.** Whatever it is sent, its output is read back as frames: the responses answer the frames that
have an id, up to the first line that is no frame and the first request to shut down, one each, in order and under
their ids, and the others are updates. It fails only where its reader does. -/
theorem answered_of_run (hX : X.ReadsValues num) (hint : ∀ l n, Number.ofLiteral l = some n → num l = some n)
    (hws : X.Whitespace) (input : Bytes) :
    ∃ frames : List Frame, (run X input).2 = Lines.joinLines 0x0A (frames.map Frame.raw) ∧
      (FrameReader.new (run X input).2).results X = frames.map .ok ∧
      ((frames.filter (·.kind = .response)).map Frame.id
        = (asks ((FrameReader.new input).results X)).map fun a => some a.id) ∧
      (∀ f ∈ frames, f.kind = .response ∨ f.kind = .notification ∧ f.method = some sessionUpdateMethod) ∧
      ((run X input).1 = .ok () ∨ ∃ e, .error e ∈ (FrameReader.new input).results X ∧ (run X input).1 = .error e) := by
  refine ⟨(replies 0 0 (asks ((FrameReader.new input).results X))).map (Reply.frame X), ?_,
    results_of_run hX hint hws input, ?_, ?_, serve_outcome ..⟩
  · rw [run, serve_eq, List.nil_append, List.map_map]
    rfl
  · rw [List.filter_map, List.map_map]
    exact responses_replies ..
  · intro f hf
    obtain ⟨r, -, rfl⟩ := List.mem_map.mp hf
    cases r with
    | update sessionId n => exact .inr ⟨rfl, rfl⟩
    | initialized | session | ended | stopped | unknown => exact .inl rfl

/-! ### The sessions it opens -/

/-- The name of a session that a frame says is opened. -/
def sessionOpened (v : Value) : Option Str := ((get v resultKey).bind fun r => get r sessionIdKey).bind Value.asStr

/-- The sessions opened by what is written. -/
def sessionsOpened (X : Crates) (out : Bytes) : List Str :=
  ((FrameReader.new out).results X).filterMap fun r => r.toOption.bind fun f => sessionOpened f.value

/-- What is opened is numbered from the counter on. -/
theorem sessions_replies (prompts : U64) (n : ℕ) (as : List Ask) :
    (replies prompts (Fin.ofNat _ n) as).filterMap (fun r => sessionOpened r.toValue)
      = (List.range' (n + 1) (as.countP (·.method = sessionNewMethod))).map fun i => sessionName (Fin.ofNat _ i) := by
  induction as generalizing prompts n with
  | nil => rfl
  | cons a as ih =>
    rw [replies]
    split_ifs with h₁ h₂ h₃ h₄
    · have hne : a.method ≠ sessionNewMethod := by rw [h₁]; decide
      rw [List.countP_cons_of_neg (by simpa using hne), ← ih]
      rfl
    · have hcount : Fin.ofNat (2 ^ 64) n + 1 = Fin.ofNat (2 ^ 64) (n + 1) := Fin.ofNat_add ..
      rw [List.countP_cons_of_pos (by simpa using h₂), List.range'_succ, List.map_cons, hcount]
      exact congrArg (sessionName _ :: ·) (ih prompts (n + 1))
    · rw [List.countP_cons_of_neg (by simpa using h₂), ← ih]
      rfl
    · rw [List.countP_cons_of_neg (by simpa using h₂), ← ih]
      rfl
    · rw [List.countP_cons_of_neg (by simpa using h₂), ← ih]
      rfl

/-- Numbers below `2 ^ 64` have names of their own. -/
theorem sessionName_injective : Function.Injective sessionName := by
  intro m n h
  have hdigits : Nat.toDigits 10 m = Nat.toDigits 10 n := List.append_cancel_left h
  exact Fin.ext (natLit_injective (Subtype.ext hdigits))

theorem sessionsOpened_run (hX : X.ReadsValues num) (hint : ∀ l n, Number.ofLiteral l = some n → num l = some n)
    (hws : X.Whitespace) (input : Bytes) :
    sessionsOpened X (run X input).2
      = (List.range' 1 ((asks ((FrameReader.new input).results X)).countP (·.method = sessionNewMethod))).map
        fun i => sessionName (Fin.ofNat _ i) := by
  rw [sessionsOpened, results_of_run hX hint hws, List.filterMap_map, List.filterMap_map]
  exact sessions_replies 0 0 _

/-- **Sessions are numbered as they are opened**: the sessions its responses name are `sess-1`, `sess-2` and so on, as
many as it is asked to open, and no two are named alike as long as these are no more than `2 ^ 64`. -/
theorem sessions_of_run (hX : X.ReadsValues num) (hint : ∀ l n, Number.ofLiteral l = some n → num l = some n)
    (hws : X.Whitespace) (input : Bytes) :
    sessionsOpened X (run X input).2
      = (List.range' 1 ((asks ((FrameReader.new input).results X)).countP (·.method = sessionNewMethod))).map
        (fun i => sessionName (Fin.ofNat _ i)) ∧
    ((asks ((FrameReader.new input).results X)).countP (·.method = sessionNewMethod) ≤ 2 ^ 64 →
      (sessionsOpened X (run X input).2).Nodup) := by
  have hopened := sessionsOpened_run hX hint hws input
  refine ⟨hopened, fun hcount => ?_⟩
  rw [hopened]
  refine List.Nodup.map_on (fun i hi j hj h => ?_) List.nodup_range'
  rw [List.mem_range'_1] at hi hj
  have hmod : i % 2 ^ 64 = j % 2 ^ 64 := congrArg Fin.val (sessionName_injective h)
  omega

/-! ### A sample run -/

/-- The envelope of a client's call, for the first session. -/
def sampleCallEnvelope (n : Fin (2 ^ 63)) (method : Str) : Value :=
  .object [(jsonrpcKey, .string version), (idKey, (sampleId n).toValue), (methodKey, .string method),
    (paramsKey, .object [(sessionIdKey, .string (sessionName 1))])]

/-- A client's call. -/
def sampleCall (n : Fin (2 ^ 63)) (method : Str) : Frame where
  kind := .request
  method := some method
  id := some (sampleId n)
  value := sampleCallEnvelope n method
  value_unique := by
    refine ⟨?_, trivial, trivial, trivial, ⟨?_, trivial, trivial⟩, trivial⟩
    · show [jsonrpcKey, idKey, methodKey, paramsKey].Nodup
      decide
    · show [sessionIdKey].Nodup
      decide
  raw := (Crates.plain []).toVec (sampleCallEnvelope n method)

theorem parse_sampleCall (n : Fin (2 ^ 63)) (method : Str) :
    Frame.parse (.plain []) (sampleCall n method).raw = .ok (sampleCall n method) := by
  have hread : (Crates.plain []).fromSlice (sampleCall n method).raw = some (sampleCall n method).value := by
    refine fromSlice_toVec (readsValues_plain []) (sampleCall n method).value_unique (fun k hk => ?_) ?_
    · cases List.mem_singleton.mp hk
      exact ofLiteral_printNumber _ rfl
    · exact (by decide : (1 : ℕ) + 1 < 128)
  refine parse_toVec hread rfl ?_
  show envelope (sampleCallEnvelope n method) = .ok (.request, some method, some (sampleId n))
  rw [sampleCallEnvelope]
  simp [envelope_eq_ok_iff, Map.get, Map.containsKey, Value.asStr, classify, version, Id.fromValue_toValue, jsonrpcKey, idKey,
    methodKey, paramsKey, resultKey, errorKey]

/-- A client opens a session, prompts it and shuts the agent down. -/
def sampleFrames : List Frame := [sampleCall 1 sessionNewMethod, sampleCall 2 sessionPromptMethod, sampleCall 3 shutdownMethod]

/-- What it sends. -/
def sampleInput : Bytes := Lines.joinLines 0x0A (sampleFrames.map Frame.raw)

theorem results_sampleInput : (FrameReader.new sampleInput).results (.plain []) = sampleFrames.map .ok := by
  refine FrameReader.results_of_last (whitespace_plain []) fun f hf => ?_
  have hcall : ∃ n method, f = sampleCall n method := by
    simp only [sampleFrames, List.mem_cons, List.not_mem_nil, or_false] at hf
    rcases hf with rfl | rfl | rfl <;> exact ⟨_, _, rfl⟩
  obtain ⟨n, method, rfl⟩ := hcall
  exact ⟨parse_sampleCall n method, (control_toVec _).2⟩

/-- What it is replied. -/
def sampleReplies : List Reply :=
  [.session (sampleId 1) 1, .update (sessionName 1) 1, .ended (sampleId 2), .stopped (sampleId 3)]

/-- The prompt is answered with an update and its result. -/
theorem answered_of_run_sample :
    ∃ frames : List Frame, (run (.plain []) sampleInput).2 = Lines.joinLines 0x0A (frames.map Frame.raw) ∧
      frames = sampleReplies.map (Reply.frame (.plain [])) ∧
      (frames.filter (·.kind = .response)).map Frame.id
        = [some (sampleId 1), some (sampleId 2), some (sampleId 3)] := by
  obtain ⟨frames, hout, hread, hresponses, -⟩ := answered_of_run (readsValues_plain []) (fun _ _ h => h)
    (whitespace_plain []) sampleInput
  rw [results_of_run (readsValues_plain []) (fun _ _ h => h) (whitespace_plain []), results_sampleInput] at hread
  rw [results_sampleInput] at hresponses
  have hframes : frames = sampleReplies.map (Reply.frame (.plain [])) :=
    (List.map_injective_iff.mpr (fun _ _ h => Except.ok.inj h) hread).symm
  exact ⟨frames, hout, hframes, hresponses⟩

/-- One session is opened. -/
theorem sessions_of_run_sample :
    sessionsOpened (.plain []) (run (.plain []) sampleInput).2 = [sessionName 1] ∧
      (sessionsOpened (.plain []) (run (.plain []) sampleInput).2).Nodup := by
  obtain ⟨hopened, hnodup⟩ := sessions_of_run (readsValues_plain []) (fun _ _ h => h) (whitespace_plain []) sampleInput
  rw [results_sampleInput] at hopened hnodup
  have hcount : (asks (sampleFrames.map .ok)).countP (·.method = sessionNewMethod) = 1 := by decide
  rw [hcount] at hopened hnodup
  exact ⟨hopened, hnodup (by decide)⟩

end AcpCore.Agent
