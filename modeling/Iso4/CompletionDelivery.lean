/-
How a completion reaches the host: `send_completion` of `crates/core/src/v8/instance.rs`
over `ConnLink` of `crates/server/src/session.rs`.

* `piecesOf` — a completion's encoding, with the numbers it casts to 32 bits told apart;
* `pieces_measured` — no number cast is more than the bytes of the frame;
* `substitute_fits` — the minimal completion is carried whatever the link says;
* `completion_delivered` — exactly one frame is accepted, and no length in it has wrapped.

The link here refuses a frame for its size and for nothing else.
-/
import Mathlib.Data.String.Basic
import Iso4.Lib.Counts
import Iso4.Outbox
import Iso4.RuntimePayloads

namespace Iso4

open Wire

namespace Delivery

open Ipc Ipc.RuntimeWriter

/-! ### The message and its frame -/

inductive CompletionMsg where
  | result (completion : Ipc.RunCompletion)
  | runComplete (report : Ipc.GraceReport)

def CompletionMsg.messageType : CompletionMsg → RustToTsMessageType
  | .result _ => .result
  | .runComplete _ => .runComplete

def CompletionMsg.payload (slotAllowance runId : UInt32) : CompletionMsg → Blob
  | .result completion => encodeRunCompletionPayload slotAllowance runId completion
  | .runComplete report => encodeRunCompletePayload runId report

/-- The frame `ConnLink::send` hands to the outbox; `slotAllowance` is the runtime's at that
moment. -/
def CompletionMsg.frame (slotAllowance runId : UInt32) (msg : CompletionMsg) : OutMsg :=
  ⟨msg.messageType, msg.payload slotAllowance runId, []⟩

/-! ### The link -/

inductive LinkError where
  | tooLarge (detail : String)
  | closed (detail : String)

/-- A link whose only refusal is for size, with the text it gives. -/
structure SizeLink where
  detail : OutMsg → String
  /-- A text is shorter than the address space. -/
  detail_lt : ∀ m, (utf8 (detail m)).length < 2 ^ 64

def SizeLink.send (link : SizeLink) (m : OutMsg) : Except LinkError Unit :=
  match payloadLen m with
  | .ok _ => .ok ()
  | .error _ => .error (.tooLarge (link.detail m))

/-- `ConnLink::send` over an outbox that is neither dead nor stalled. -/
def connSend (m : OutMsg) : Except LinkError Unit :=
  match payloadLen m with
  | .ok _ => .ok ()
  | .error (.invalidInput message) => .error (.tooLarge message)
  | .error (.brokenPipe reason) => .error (.closed reason)
  | .error (.timedOut reason) => .error (.closed reason)

/-! ### Sending a completion -/

/-- `RunError::Internal(message).to_payload()`. -/
def internalPayload (message : String) : RunErrorPayload where
  code := "ERR_INTERNAL"
  name := "Error"
  message := message
  stack := none
  fields := none
  reset := none
  prefixStage := false
  cause := none

/-- `RunFailurePayload::bare`. -/
def bare (error : RunErrorPayload) : RunFailurePayload where
  error := error
  stdout := []
  stderr := []
  durationMs := 0
  wallTimeMs := 0
  cpuTimeMs := 0
  bridgeCalls := []
  heapUsedBytes := none

def tooLargeText (detail : String) : String :=
  "the run's result was too large to send to the host (" ++ detail ++
    "). A thrown error's message, stack and properties " ++
    "are reported verbatim, so a very large one cannot be delivered."

/-- The minimal completion in the place of one the link refused. -/
def substitute (detail : String) : CompletionMsg → CompletionMsg
  | .result _ => .result (.failure (bare (internalPayload (tooLargeText detail))))
  | .runComplete report => .runComplete
      { status := report.status
        durationMs := 0
        wallTimeMs := 0
        cpuTimeMs := 0
        stdout := []
        stderr := []
        bridgeCalls := []
        error := some ("Error",
          "the grace report was too large to send; its telemetry was dropped") }

/-- `send_completion`: the frames the link accepts.  The allowance is read again for the
substitute. -/
def sendCompletion (link : SizeLink) (slotAllowance slotAllowance' runId : UInt32)
    (msg : CompletionMsg) : List OutMsg :=
  match link.send (msg.frame slotAllowance runId) with
  | .ok () => [msg.frame slotAllowance runId]
  | .error (.tooLarge detail) =>
    let minimal := (substitute detail msg).frame slotAllowance' runId
    match link.send minimal with
    | .ok () => [minimal]
    | .error _ => []
  | .error (.closed _) => []

/-! ### The numbers an encoding casts -/

def stringPieces (s : String) : List Piece := [.count (utf8 s).length, .raw (utf8 s)]

def stringListPieces (items : List String) : List Piece :=
  .count items.length :: items.flatMap stringPieces

def valueBlobPieces (blob : Blob) : List Piece := [.count blob.length, .raw blob]

def optionalPieces {α : Type} (pieces : α → List Piece) : Option α → List Piece
  | some a => .raw [1] :: pieces a
  | none => [.raw [0]]

def recordPieces (r : BridgeCallRecord) : List Piece :=
  stringPieces r.name ++ [.raw (encodeF64 r.startMs ++ (encodeF64 r.durationMs ++
    (encodeU32 r.argBytes ++ (encodeU32 r.responseBytes ++ (encodeU32 r.callId ++
      [outcomeByte r.outcome])))))]

def recordsPieces (records : List BridgeCallRecord) : List Piece :=
  .count records.length :: records.flatMap recordPieces

def stackPieces : Option String → List Piece :=
  optionalPieces fun s => stringPieces (clampErrorText s)

def causePieces (cause : RunErrorPayload) : List Piece :=
  stringPieces cause.code ++ (stringPieces cause.name ++
    (stringPieces (clampErrorText cause.message) ++ stackPieces cause.stack))

def errorPieces (error : RunErrorPayload) : List Piece :=
  stringPieces error.code ++ (stringPieces error.name ++
    (stringPieces (clampErrorText error.message) ++ (stackPieces error.stack ++
      (optionalPieces valueBlobPieces (keptFields error.fields) ++
        (optionalPieces (fun info => [.raw (encodeResetInfo info)]) error.reset ++
          ([.raw (encodeBool error.prefixStage)] ++ optionalPieces causePieces error.cause))))))

/-- Console lines, durations and bridge calls, as success and failure report them. -/
def telemetryPieces (t : RunTelemetry) : List Piece :=
  stringListPieces t.stdout ++ (stringListPieces t.stderr ++
    ([.raw (encodeF64 t.durationMs ++ (encodeF64 t.wallTimeMs ++ encodeF64 t.cpuTimeMs))] ++
      recordsPieces t.bridgeCalls))

def heapPieces (heapUsedBytes : Option UInt64) : List Piece :=
  optionalPieces (fun n => [.raw (encodeU64 n)]) heapUsedBytes

def completionPieces : Ipc.RunCompletion → List Piece
  | .success s =>
    .raw (encodeBool true ++ [1]) :: (valueBlobPieces s.exports ++
      (stringListPieces s.skippedExports ++ (telemetryPieces s.toRunTelemetry ++
        (heapPieces s.heapUsedBytes ++ [.raw ([s.backgroundFlags] ++ [0])]))))
  | .failure f =>
    .raw (encodeBool false ++ ([0] ++ [1])) :: (errorPieces f.error ++
      (telemetryPieces f.toRunTelemetry ++ heapPieces f.heapUsedBytes))

def reportPieces (report : Ipc.GraceReport) : List Piece :=
  .raw ([statusByte report.status] ++ (encodeF64 report.durationMs ++
    (encodeF64 report.wallTimeMs ++ encodeF64 report.cpuTimeMs))) ::
    (stringListPieces report.stdout ++ (stringListPieces report.stderr ++
      (recordsPieces report.bridgeCalls ++
        optionalPieces (fun e => stringPieces e.1 ++ stringPieces e.2) report.error)))

/-- The encoding of a completion in pieces: every number the encoders cast to 32 bits is a
`count`. -/
def piecesOf (slotAllowance runId : UInt32) : CompletionMsg → List Piece
  | .result completion =>
    .raw (encodeU32 runId ++ encodeU32 slotAllowance) :: completionPieces completion
  | .runComplete report => .raw (encodeU32 runId) :: reportPieces report

/-! ### No number wraps in a frame -/

theorem bytesOf_stringPieces (s : String) : bytesOf (stringPieces s) = encodeString s := by
  simp [stringPieces, encodeString]

theorem bytesOf_stringListPieces (items : List String) :
    bytesOf (stringListPieces items) = encodeStringList items := by
  simp [stringListPieces, encodeStringList, bytesOf_flatMap, bytesOf_stringPieces]

theorem bytesOf_valueBlobPieces (blob : Blob) :
    bytesOf (valueBlobPieces blob) = encodeValueBlob blob := by
  simp [valueBlobPieces, encodeValueBlob]

theorem bytesOf_optionalPieces {α : Type} {pieces : α → List Piece} {encode : α → Blob}
    (h : ∀ a, bytesOf (pieces a) = encode a) (x : Option α) :
    bytesOf (optionalPieces pieces x) = encodeOptional encode x := by
  cases x with
  | none => rfl
  | some a => simp [optionalPieces, encodeOptional, h]

theorem bytesOf_recordsPieces (records : List BridgeCallRecord) :
    bytesOf (recordsPieces records) = encodeBridgeCallRecords records := by
  have hrecord : ∀ r, bytesOf (recordPieces r) = encodeBridgeCallRecord r := by
    intro r
    simp [recordPieces, encodeBridgeCallRecord, bytesOf_stringPieces]
  simp [recordsPieces, encodeBridgeCallRecords, bytesOf_flatMap, hrecord]

theorem bytesOf_stackPieces (stack : Option String) :
    bytesOf (stackPieces stack) = encodeErrorStack stack :=
  bytesOf_optionalPieces (fun s => bytesOf_stringPieces (clampErrorText s)) stack

theorem bytesOf_errorPieces (error : RunErrorPayload) :
    bytesOf (errorPieces error) = encodeRunErrorPayload error := by
  have hcause : ∀ cause, bytesOf (causePieces cause) = encodeErrorCause cause := by
    intro cause
    simp [causePieces, encodeErrorCause, bytesOf_stringPieces, bytesOf_stackPieces]
  have hreset : ∀ info : ResetInfo,
      bytesOf [.raw (encodeResetInfo info)] = encodeResetInfo info := by
    intro info
    simp
  simp only [errorPieces, encodeRunErrorPayload, bytesOf_append, bytesOf_stringPieces,
    bytesOf_stackPieces, bytesOf_optionalPieces bytesOf_valueBlobPieces,
    bytesOf_optionalPieces hreset, bytesOf_optionalPieces hcause, bytesOf_raw, bytesOf_nil,
    List.append_nil]
  rfl

theorem bytesOf_piecesOf (slotAllowance runId : UInt32) (msg : CompletionMsg) :
    bytesOf (piecesOf slotAllowance runId msg) = msg.payload slotAllowance runId := by
  have hheap : ∀ n, bytesOf (heapPieces n) = encodeOptionalU64 n :=
    bytesOf_optionalPieces fun n => by simp
  have herror : ∀ e : Option (String × String),
      bytesOf (optionalPieces (fun e => stringPieces e.1 ++ stringPieces e.2) e) =
        encodeOptional (fun e => encodeString e.1 ++ encodeString e.2) e :=
    bytesOf_optionalPieces fun e => by simp [bytesOf_stringPieces]
  cases msg with
  | result completion =>
    cases completion with
    | success s =>
      simp [piecesOf, completionPieces, telemetryPieces, CompletionMsg.payload,
        encodeRunCompletionPayload, bytesOf_valueBlobPieces, bytesOf_stringListPieces,
        bytesOf_recordsPieces, hheap]
    | failure f =>
      simp [piecesOf, completionPieces, telemetryPieces, CompletionMsg.payload,
        encodeRunCompletionPayload, bytesOf_errorPieces, bytesOf_stringListPieces,
        bytesOf_recordsPieces, hheap]
  | runComplete report =>
    simp [piecesOf, reportPieces, CompletionMsg.payload, encodeRunCompletePayload,
      bytesOf_stringListPieces, bytesOf_recordsPieces, herror]

theorem measured_stringPieces (s : String) : Measured (stringPieces s) :=
  (measured_raw _).counted (by simp)

theorem measured_stringListPieces (items : List String) : Measured (stringListPieces items) := by
  have hpos : ∀ s, 0 < (bytesOf (stringPieces s)).length := by
    intro s
    rw [bytesOf_stringPieces, encodeString, List.length_append, u32be_length]
    omega
  exact Measured.list measured_stringPieces hpos items

theorem measured_valueBlobPieces (blob : Blob) : Measured (valueBlobPieces blob) :=
  (measured_raw _).counted (by simp)

theorem measured_optionalPieces {α : Type} {pieces : α → List Piece}
    (h : ∀ a, Measured (pieces a)) (x : Option α) : Measured (optionalPieces pieces x) := by
  cases x with
  | none => exact measured_raw _
  | some a => exact (measured_raw _).append (h a)

theorem measured_recordsPieces (records : List BridgeCallRecord) :
    Measured (recordsPieces records) := by
  have hrecord : ∀ r, Measured (recordPieces r) := fun r =>
    (measured_stringPieces r.name).append (measured_raw _)
  have hpos : ∀ r, 0 < (bytesOf (recordPieces r)).length := by
    intro r
    rw [recordPieces, bytesOf_append, List.length_append, bytesOf_stringPieces, encodeString,
      List.length_append, u32be_length]
    omega
  exact Measured.list hrecord hpos records

theorem measured_stackPieces (stack : Option String) : Measured (stackPieces stack) :=
  measured_optionalPieces (fun s => measured_stringPieces (clampErrorText s)) stack

theorem measured_errorPieces (error : RunErrorPayload) : Measured (errorPieces error) := by
  have hcause : ∀ cause, Measured (causePieces cause) := fun cause =>
    (measured_stringPieces _).append ((measured_stringPieces _).append
      ((measured_stringPieces _).append (measured_stackPieces _)))
  exact (measured_stringPieces _).append ((measured_stringPieces _).append
    ((measured_stringPieces _).append ((measured_stackPieces _).append
      ((measured_optionalPieces measured_valueBlobPieces _).append
        ((measured_optionalPieces (fun _ => measured_raw _) _).append
          ((measured_raw _).append (measured_optionalPieces hcause _)))))))

theorem measured_telemetryPieces (t : RunTelemetry) : Measured (telemetryPieces t) :=
  (measured_stringListPieces _).append ((measured_stringListPieces _).append
    ((measured_raw _).append (measured_recordsPieces _)))

theorem pieces_measured (slotAllowance runId : UInt32) (msg : CompletionMsg) :
    Measured (piecesOf slotAllowance runId msg) := by
  have hheap : ∀ n, Measured (heapPieces n) := measured_optionalPieces fun _ => measured_raw _
  cases msg with
  | result completion =>
    refine (measured_raw _).append ?_
    cases completion with
    | success s =>
      exact (measured_raw _).append ((measured_valueBlobPieces _).append
        ((measured_stringListPieces _).append ((measured_telemetryPieces _).append
          ((hheap _).append (measured_raw _)))))
    | failure f =>
      exact (measured_raw _).append ((measured_errorPieces _).append
        ((measured_telemetryPieces _).append (hheap _)))
  | runComplete report =>
    exact (measured_raw _).append ((measured_raw _).append ((measured_stringListPieces _).append
      ((measured_stringListPieces _).append ((measured_recordsPieces _).append
        (measured_optionalPieces (fun _ => (measured_stringPieces _).append
          (measured_stringPieces _)) _)))))

/-! ### The substitute fits -/

theorem utf8_length (s : String) : (utf8 s).length = s.utf8ByteSize := rfl

theorem utf8_append (s t : String) : utf8 (s ++ t) = utf8 s ++ utf8 t := by
  simp [utf8]

theorem utf8Len_le (cs : List Char) : String.utf8Len cs ≤ 4 * cs.length := by
  induction cs with
  | nil => simp
  | cons c cs ih =>
    have := c.utf8Size_le_four
    rw [String.utf8Len_cons, List.length_cons]
    omega

/-- A number of the machine takes twenty digits at most. -/
theorem utf8_toString_le {n : Nat} (h : n < 10 ^ 20) : (utf8 (toString n)).length ≤ 80 := by
  have hdigits : n.repr.length ≤ 20 := (Nat.length_repr_le_iff (by omega)).mpr h
  have hbytes := utf8Len_le n.repr.toList
  rw [String.length_toList] at hbytes
  rw [utf8_length, ← String.ofList_toList (s := toString n), String.utf8ByteSize_ofList]
  show String.utf8Len n.repr.toList ≤ 80
  omega

theorem utf8Len_charsWithin (room : Nat) (cs : List Char) :
    String.utf8Len (charsWithin room cs) ≤ room := by
  induction cs generalizing room with
  | nil => simp [charsWithin]
  | cons c cs ih =>
    unfold charsWithin
    split
    · have := ih (room - c.utf8Size)
      rw [String.utf8Len_cons]
      omega
    · simp

/-- A text that crosses is cut to its bound, and what is appended to it is short. -/
theorem clampErrorText_le {text : String} (h : (utf8 text).length < 10 ^ 20) :
    (utf8 (clampErrorText text)).length ≤ maxErrorTextBytes + 200 := by
  unfold clampErrorText
  split
  · omega
  · have hkept := utf8Len_charsWithin maxErrorTextBytes text.toList
    have hnumber := utf8_toString_le h
    have hopen : (utf8 "… [truncated by iso4: ").length = 24 := by decide
    have hclose : (utf8 " bytes total]").length = 13 := by decide
    have hofList : (utf8 (String.ofList (charsWithin maxErrorTextBytes text.toList))).length =
        String.utf8Len (charsWithin maxErrorTextBytes text.toList) := by
      rw [utf8_length, String.utf8ByteSize_ofList]
    simp only [utf8_append, List.length_append]
    omega

/-- The ceiling check passes exactly the frames within the limit. -/
theorem payloadLen_ok_iff (m : OutMsg) :
    (∃ n, payloadLen m = .ok n) ↔ m.len + 1 ≤ defaultMaxFrameLength := by
  have hlimit : defaultMaxFrameLength = 67108864 := rfl
  unfold payloadLen tryU32
  by_cases hlen : m.len + 1 < 2 ^ 32
  · have htotal : m.len < 2 ^ 32 := by omega
    simp only [htotal, hlen, if_true, Option.bind_some]
    split
    · simp
      omega
    · simp
      omega
  · have hnone : ((if m.len < 2 ^ 32 then some m.len else none).bind fun total =>
        if total + 1 < 2 ^ 32 then some (total + 1) else none) = none := by
      split
      · exact if_neg hlen
      · rfl
    rw [hnone]
    simp
    omega

theorem SizeLink.send_ok {link : SizeLink} {m : OutMsg}
    (h : m.len + 1 ≤ defaultMaxFrameLength) : link.send m = .ok () := by
  obtain ⟨n, hn⟩ := (payloadLen_ok_iff m).mpr h
  rw [SizeLink.send, hn]

theorem SizeLink.send_tooLarge {link : SizeLink} {m : OutMsg}
    (h : ¬ m.len + 1 ≤ defaultMaxFrameLength) :
    link.send m = .error (.tooLarge (link.detail m)) := by
  unfold SizeLink.send
  cases hlen : payloadLen m with
  | ok n => exact absurd ((payloadLen_ok_iff m).mp ⟨n, hlen⟩) h
  | error e => rfl

theorem frame_len (slotAllowance runId : UInt32) (msg : CompletionMsg) :
    (msg.frame slotAllowance runId).len = (msg.payload slotAllowance runId).length := by
  simp [CompletionMsg.frame, OutMsg.len]

/-- A text between fixed ones. -/
theorem utf8_between_le {before middle after : String} (detail : String)
    (hbefore : (utf8 before).length ≤ 100) (hmiddle : (utf8 middle).length ≤ 100)
    (hafter : (utf8 after).length ≤ 100) :
    (utf8 (before ++ detail ++ middle ++ after)).length ≤ (utf8 detail).length + 300 := by
  simp only [utf8_append, List.length_append]
  omega

theorem tooLargeText_le (detail : String) :
    (utf8 (tooLargeText detail)).length ≤ (utf8 detail).length + 300 :=
  utf8_between_le detail (by decide +kernel) (by decide +kernel) (by decide +kernel)

/-- Whatever text the link gives, the minimal completion is within the limit. -/
theorem substitute_fits {detail : String} (h : (utf8 detail).length < 2 ^ 64)
    (slotAllowance runId : UInt32) (msg : CompletionMsg) :
    ((substitute detail msg).frame slotAllowance runId).len + 1 ≤ defaultMaxFrameLength := by
  have hlimit : defaultMaxFrameLength = 67108864 := rfl
  have hname : (utf8 "Error").length = 5 := by decide
  rw [frame_len]
  cases msg with
  | result completion =>
    have hcap : maxErrorTextBytes = 65536 := rfl
    have hcode : (utf8 "ERR_INTERNAL").length = 12 := by decide
    have hlong := tooLargeText_le detail
    have hmessage : (utf8 (clampErrorText (tooLargeText detail))).length ≤ 65736 :=
      clampErrorText_le (by omega)
    simp [substitute, CompletionMsg.payload, encodeRunCompletionPayload, bare, internalPayload,
      encodeRunErrorPayload, encodeString, encodeErrorStack, encodeOptional, keptFields,
      encodeOptionalValueBlob, encodeBool, encodeStringList, encodeBridgeCallRecords,
      encodeOptionalU64, encodeU32, encodeF64, hname, hcode]
    omega
  | runComplete report =>
    have hmessage :
        (utf8 "the grace report was too large to send; its telemetry was dropped").length = 65 := by
      decide +kernel
    simp [substitute, CompletionMsg.payload, encodeRunCompletePayload, encodeU32, encodeF64,
      encodeStringList, encodeBridgeCallRecords, encodeOptional, encodeString, hname, hmessage]
    omega

/-! ### Delivery -/

/-- The substitute is a frame of the same kind. -/
theorem substitute_messageType (detail : String) (msg : CompletionMsg) :
    (substitute detail msg).messageType = msg.messageType := by
  cases msg <;> rfl

/-- In a frame within the limit every number cast to 32 bits fits them. -/
theorem counts_fit {slotAllowance runId : UInt32} {msg : CompletionMsg}
    (h : (msg.frame slotAllowance runId).len + 1 ≤ defaultMaxFrameLength) :
    ∀ n ∈ countsOf (piecesOf slotAllowance runId msg), n < 2 ^ 32 := by
  intro n hn
  have hlimit : defaultMaxFrameLength = 67108864 := rfl
  have hle := pieces_measured slotAllowance runId msg n hn
  rw [bytesOf_piecesOf, ← frame_len] at hle
  omega

/-- The ceiling check refuses with a short text, and as an invalid input. -/
theorem payloadLen_error {m : OutMsg} {e : SendError} (h : payloadLen m = .error e) :
    ∃ message, e = .invalidInput message ∧ (utf8 message).length < 2 ^ 64 := by
  unfold payloadLen at h
  split at h
  · obtain rfl := Except.error.inj h
    exact ⟨_, rfl, by decide⟩
  · rename_i n hn
    split at h
    · obtain rfl := Except.error.inj h
      refine ⟨_, rfl, ?_⟩
      have hlt : n < 2 ^ 32 := by
        obtain ⟨total, -, htotal⟩ := Option.bind_eq_some_iff.mp hn
        unfold tryU32 at htotal
        split at htotal
        · rename_i hlt
          obtain rfl := Option.some.inj htotal
          exact hlt
        · cases htotal
      have hnumber := utf8_toString_le (n := n) (by omega)
      have hlimit : (utf8 (toString defaultMaxFrameLength)).length ≤ 80 :=
        utf8_toString_le (by decide)
      have hle := utf8_between_le (toString n) (by decide : (utf8 "frame length ").length ≤ 100)
        (by decide : (utf8 " exceeds max frame length ").length ≤ 100)
        (hlimit.trans (by omega))
      exact Nat.lt_of_le_of_lt hle (by omega)
    · cases h

/-- The link of a connection is one that refuses for size only. -/
def connLink : SizeLink where
  detail m :=
    match payloadLen m with
    | .error (.invalidInput message) => message
    | _ => ""
  detail_lt m := by
    cases hlen : payloadLen m with
    | ok n =>
      show (utf8 "").length < 2 ^ 64
      decide
    | error e =>
      obtain ⟨message, rfl, hlt⟩ := payloadLen_error hlen
      exact hlt

theorem connLink_send (m : OutMsg) : connLink.send m = connSend m := by
  unfold SizeLink.send connSend connLink
  cases hlen : payloadLen m with
  | ok n => rfl
  | error e =>
    obtain ⟨message, rfl, -⟩ := payloadLen_error hlen
    simp [hlen]

/-- For every completion and every link that refuses for size only: exactly one frame is accepted,
of the completion's kind and for its run; it is the completion's own when that is within the frame
limit, else the minimal one; and no number its encoding casts to 32 bits has wrapped. -/
theorem completion_delivered (link : SizeLink) (slotAllowance slotAllowance' runId : UInt32)
    (msg : CompletionMsg) :
    ∃ (sent : CompletionMsg) (allowance : UInt32),
      sendCompletion link slotAllowance slotAllowance' runId msg = [sent.frame allowance runId] ∧
      sent.messageType = msg.messageType ∧
      ((msg.frame slotAllowance runId).len + 1 ≤ defaultMaxFrameLength →
        sent = msg ∧ allowance = slotAllowance) ∧
      (¬ (msg.frame slotAllowance runId).len + 1 ≤ defaultMaxFrameLength →
        sent = substitute (link.detail (msg.frame slotAllowance runId)) msg ∧
          (sent.frame allowance runId).len + 1 ≤ defaultMaxFrameLength) ∧
      sent.payload allowance runId = bytesOf (piecesOf allowance runId sent) ∧
      ∀ n ∈ countsOf (piecesOf allowance runId sent), n < 2 ^ 32 := by
  by_cases hfits : (msg.frame slotAllowance runId).len + 1 ≤ defaultMaxFrameLength
  · refine ⟨msg, slotAllowance, ?_, rfl, fun _ => ⟨rfl, rfl⟩, fun h => absurd hfits h,
      (bytesOf_piecesOf _ _ _).symm, counts_fit hfits⟩
    rw [sendCompletion, SizeLink.send_ok hfits]
  · have hminimal := substitute_fits (link.detail_lt (msg.frame slotAllowance runId))
      slotAllowance' runId msg
    refine ⟨_, slotAllowance', ?_, substitute_messageType _ msg, fun h => absurd h hfits,
      fun _ => ⟨rfl, hminimal⟩, (bytesOf_piecesOf _ _ _).symm, counts_fit hminimal⟩
    simp only [sendCompletion, SizeLink.send_tooLarge hfits, SizeLink.send_ok hminimal]

end Delivery

end Iso4
