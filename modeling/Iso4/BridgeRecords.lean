/-
The bridge-call records of a run, and the frames that carry them to the host:
`BridgeCallLog` of `crates/core/src/v8/bridge.rs`, the early `Result` of
`build_output_and_maybe_grace`, `finish_grace` and `conclude_run`.

* `history` — what the records of a run are: an attempt each, answered by the first
  response that comes after it was sent;
* `BridgeCallLog.Tracks` — a log keeps the history of its events;
* `recordsDelivered_iff` — when the host receives every attempt once and in order;
* `bridge_records` — the records of a run.

An attempt is logged when the runtime blocks it or has sent its frame.  Milliseconds
are exact rationals, where the source has doubles.
-/
import Mathlib.Data.List.AList
import Mathlib.Data.List.Induction
import Mathlib.Data.Rat.Floor
import Mathlib.Algebra.Order.Round
import Iso4.Lib.Execution
import Iso4.Core
import Iso4.RuntimePayloads

namespace Iso4

namespace Bridge

open Ipc (BridgeCallOutcome)

/-! ### The log -/

/-- `round_micro`. -/
def roundMicro (ms : ℚ) : ℚ := round (ms * 1000) / 1000

/-- How long a call that started at `startMs` has taken by `nowMs`. -/
def tookMs (startMs nowMs : ℚ) : ℚ := roundMicro (max (nowMs - startMs) 0)

structure BridgeCallRecord where
  name : String
  startMs : ℚ
  durationMs : ℚ
  argBytes : UInt32
  responseBytes : UInt32
  callId : UInt32
  outcome : BridgeCallOutcome
  deriving DecidableEq

namespace BridgeCallRecord

def blocked (name : String) (startMs : ℚ) (argBytes : UInt32) : BridgeCallRecord where
  name := name
  startMs := startMs
  durationMs := 0
  argBytes := argBytes
  responseBytes := 0
  callId := 4294967295
  outcome := .blocked

def sent (callId : UInt32) (name : String) (startMs : ℚ) (argBytes : UInt32) :
    BridgeCallRecord where
  name := name
  startMs := startMs
  durationMs := 0
  argBytes := argBytes
  responseBytes := 0
  callId := callId
  outcome := .unanswered

/-- The record of a call whose response has arrived. -/
def answered (r : BridgeCallRecord) (nowMs : ℚ) (ok : Bool) (responseBytes : UInt32) :
    BridgeCallRecord :=
  { r with
    durationMs := tookMs r.startMs nowMs
    outcome := if ok then .ok else .error
    responseBytes := responseBytes }

/-- The record of a call in flight, as a snapshot reports it. -/
def stamped (nowMs : ℚ) (r : BridgeCallRecord) : BridgeCallRecord :=
  { r with durationMs := tookMs r.startMs nowMs }

end BridgeCallRecord

/-- `in_flight` leads from a call id to the record's index. -/
structure BridgeCallLog where
  records : List BridgeCallRecord
  inFlight : AList fun _ : UInt32 => Nat

namespace BridgeCallLog

def empty : BridgeCallLog := ⟨[], ∅⟩

def recordBlocked (log : BridgeCallLog) (name : String) (startMs : ℚ) (argBytes : UInt32) :
    BridgeCallLog :=
  { log with records := log.records ++ [.blocked name startMs argBytes] }

def recordSent (log : BridgeCallLog) (callId : UInt32) (name : String) (startMs : ℚ)
    (argBytes : UInt32) : BridgeCallLog :=
  let records := log.records ++ [.sent callId name startMs argBytes]
  { records := records, inFlight := log.inFlight.insert callId (records.length - 1) }

def settle (log : BridgeCallLog) (callId : UInt32) (nowMs : ℚ) (ok : Bool)
    (responseBytes : UInt32) : BridgeCallLog :=
  match log.inFlight.lookup callId with
  | none => log
  | some idx =>
    { records := log.records.modify idx fun r => r.answered nowMs ok responseBytes
      inFlight := log.inFlight.erase callId }

/-- `for idx in in_flight.values() { records[idx] … }`. -/
def stampAt (nowMs : ℚ) : List Nat → List BridgeCallRecord → List BridgeCallRecord
  | [], records => records
  | idx :: rest, records => stampAt nowMs rest (records.modify idx (.stamped nowMs))

def inFlightValues (log : BridgeCallLog) : List Nat := log.inFlight.entries.map Sigma.snd

def snapshot (log : BridgeCallLog) (nowMs : ℚ) : List BridgeCallRecord :=
  let records := log.records
  stampAt nowMs log.inFlightValues records

def finalize (log : BridgeCallLog) (nowMs : ℚ) : List BridgeCallRecord × BridgeCallLog :=
  let log := { log with records := stampAt nowMs log.inFlightValues log.records }
  (log.records, empty)

end BridgeCallLog

/-! ### A run -/

inductive BridgeEvent where
  | blocked (name : String) (startMs : ℚ) (argBytes : UInt32)
  | sent (callId : UInt32) (name : String) (startMs : ℚ) (argBytes : UInt32)
  | response (callId : UInt32) (nowMs : ℚ) (ok : Bool) (responseBytes : UInt32)
  /-- The run's value is settled and work is left; `answer` is the link's to the early
  `Result`. -/
  | earlyResult (nowMs : ℚ) (answer : SendResult)
  deriving DecidableEq

/-- What the grace phase remembers of its beginning. -/
structure GraceRecords where
  earlyResultSent : Bool
  runRecordCount : Nat

inductive RecordFrame where
  | result (bridgeCalls : List BridgeCallRecord)
  | runComplete (bridgeCalls : List BridgeCallRecord)
  deriving DecidableEq

def RecordFrame.bridgeCalls : RecordFrame → List BridgeCallRecord
  | .result bridgeCalls => bridgeCalls
  | .runComplete bridgeCalls => bridgeCalls

/-- The minimal frame that replaces one too large to send. -/
def RecordFrame.minimal : RecordFrame → RecordFrame
  | .result _ => .result []
  | .runComplete _ => .runComplete []

/-- `received` are the frames that reached the host. -/
structure BridgeRun where
  log : BridgeCallLog
  grace : Option GraceRecords
  received : List RecordFrame

/-- How a run ends: whether with a value, the instants of `finish_grace` and of
`conclude_run`, and the link's answer to the completion. -/
structure BridgeEnding where
  ok : Bool
  graceMs : ℚ
  nowMs : ℚ
  answer : SendResult

namespace BridgeRun

def start : BridgeRun := ⟨.empty, none, []⟩

/-- The snapshot of `build_output_and_maybe_grace`; a run in its grace phase does not come
there again. -/
def earlyResult (s : BridgeRun) (nowMs : ℚ) (answer : SendResult) : BridgeRun :=
  match s.grace with
  | some _ => s
  | none =>
    let runRecords := s.log.snapshot nowMs
    { s with
      grace := some ⟨answer = .ok, runRecords.length⟩
      received := if answer = .ok then s.received ++ [.result runRecords] else s.received }

def step (s : BridgeRun) : BridgeEvent → BridgeRun
  | .blocked name startMs argBytes => { s with log := s.log.recordBlocked name startMs argBytes }
  | .sent callId name startMs argBytes =>
    { s with log := s.log.recordSent callId name startMs argBytes }
  | .response callId nowMs ok responseBytes =>
    { s with log := s.log.settle callId nowMs ok responseBytes }
  | .earlyResult nowMs answer => s.earlyResult nowMs answer

/-- The grace-only records of `finish_grace`. -/
def finishGrace (s : BridgeRun) (g : GraceRecords) (nowMs : ℚ) : List BridgeCallRecord :=
  (s.log.snapshot nowMs).drop g.runRecordCount

/-- `completion_message` on what `conclude_run` makes of the result. -/
def completion (s : BridgeRun) (e : BridgeEnding) : RecordFrame :=
  let records := (s.log.finalize e.nowMs).1
  match e.ok, s.grace with
  | true, some g =>
    if g.earlyResultSent then .runComplete (s.finishGrace g e.graceMs) else .result records
  | true, none => .result records
  | false, _ => .result records

/-- The frames the host has at the end of the run, `send_completion` included. -/
def conclude (s : BridgeRun) (e : BridgeEnding) : List RecordFrame :=
  match e.answer with
  | .ok => s.received ++ [s.completion e]
  | .tooLarge => s.received ++ [(s.completion e).minimal]
  | .closed => s.received

def run (events : List BridgeEvent) : BridgeRun := Execution.exec step start events

end BridgeRun

/-! ### The history of a run -/

/-- The first response to a call: its instant, whether it is a value, and its bytes. -/
def firstResponse (callId : UInt32) : List BridgeEvent → Option (ℚ × Bool × UInt32)
  | [] => none
  | .response id nowMs ok responseBytes :: rest =>
    if id = callId then some (nowMs, ok, responseBytes) else firstResponse callId rest
  | .blocked .. :: rest | .sent .. :: rest | .earlyResult .. :: rest => firstResponse callId rest

def BridgeCallRecord.settled (r : BridgeCallRecord) :
    Option (ℚ × Bool × UInt32) → BridgeCallRecord
  | none => r
  | some (nowMs, ok, responseBytes) => r.answered nowMs ok responseBytes

/-- One record an attempt, in order; a sent call's carries the first response after it. -/
def history : List BridgeEvent → List BridgeCallRecord
  | [] => []
  | .blocked name startMs argBytes :: rest => .blocked name startMs argBytes :: history rest
  | .sent callId name startMs argBytes :: rest =>
    (BridgeCallRecord.sent callId name startMs argBytes).settled (firstResponse callId rest) ::
      history rest
  | .response .. :: rest | .earlyResult .. :: rest => history rest

/-- A record as a snapshot reports it. -/
def BridgeCallRecord.reported (nowMs : ℚ) (r : BridgeCallRecord) : BridgeCallRecord :=
  if r.outcome = .unanswered then r.stamped nowMs else r

/-- What a response makes of a record. -/
def BridgeCallRecord.after (events : List BridgeEvent) (r : BridgeCallRecord) :
    BridgeCallRecord :=
  if r.outcome = .unanswered then r.settled (firstResponse r.callId events) else r

/-- What is fixed about a record when it is logged. -/
structure Attempt where
  name : String
  startMs : ℚ
  argBytes : UInt32
  callId : UInt32
  deriving DecidableEq

def BridgeCallRecord.attempt (r : BridgeCallRecord) : Attempt :=
  ⟨r.name, r.startMs, r.argBytes, r.callId⟩

def BridgeEvent.attempt : BridgeEvent → Option Attempt
  | .blocked name startMs argBytes => some ⟨name, startMs, argBytes, 4294967295⟩
  | .sent callId name startMs argBytes => some ⟨name, startMs, argBytes, callId⟩
  | .response .. | .earlyResult .. => none

def attempts (events : List BridgeEvent) : List Attempt := events.filterMap BridgeEvent.attempt

def BridgeEvent.sentId : BridgeEvent → Option UInt32
  | .sent callId _ _ _ => some callId
  | .blocked .. | .response .. | .earlyResult .. => none

/-- The ids of the calls sent. -/
def sentIds (events : List BridgeEvent) : List UInt32 := events.filterMap BridgeEvent.sentId

section History

variable {events later : List BridgeEvent}

open BridgeCallRecord

theorem answered_outcome (r : BridgeCallRecord) (nowMs : ℚ) (ok : Bool) (responseBytes : UInt32) :
    (r.answered nowMs ok responseBytes).outcome ≠ .unanswered := by
  cases ok <;> simp [answered]

theorem firstResponse_append (callId : UInt32) (events later : List BridgeEvent) :
    firstResponse callId (events ++ later) =
      (firstResponse callId events).or (firstResponse callId later) := by
  induction events with
  | nil => simp [firstResponse]
  | cons e events ih =>
    cases e with
    | response id nowMs ok responseBytes =>
      by_cases hid : id = callId
      · simp [firstResponse, hid]
      · simpa [firstResponse, hid] using ih
    | blocked => simpa [firstResponse] using ih
    | sent => simpa [firstResponse] using ih
    | earlyResult => simpa [firstResponse] using ih

theorem firstResponse_mem {callId : UInt32} {p : ℚ × Bool × UInt32}
    (h : firstResponse callId events = some p) :
    .response callId p.1 p.2.1 p.2.2 ∈ events := by
  induction events with
  | nil => simp [firstResponse] at h
  | cons e events ih =>
    cases e with
    | response id nowMs ok responseBytes =>
      by_cases hid : id = callId
      · simp only [firstResponse, hid, if_true, Option.some.injEq] at h
        subst h
        rw [hid]
        exact List.mem_cons_self
      · simp only [firstResponse, hid, if_false] at h
        exact List.mem_cons_of_mem _ (ih h)
    | blocked => exact List.mem_cons_of_mem _ (ih h)
    | sent => exact List.mem_cons_of_mem _ (ih h)
    | earlyResult => exact List.mem_cons_of_mem _ (ih h)

/-- What comes later settles the records that are still open and adds its own. -/
theorem history_append (events later : List BridgeEvent) :
    history (events ++ later) = (history events).map (after later) ++ history later := by
  induction events with
  | nil => simp [history]
  | cons e events ih =>
    cases e with
    | blocked name startMs argBytes => simpa [history, after, blocked] using ih
    | response => simpa [history] using ih
    | earlyResult => simpa [history] using ih
    | sent callId name startMs argBytes =>
      have hhead : (sent callId name startMs argBytes).settled
            (firstResponse callId (events ++ later)) =
          after later ((sent callId name startMs argBytes).settled
            (firstResponse callId events)) := by
        rw [firstResponse_append]
        cases firstResponse callId events with
        | none => simp [settled, after, sent]
        | some p => simp [settled, after, answered_outcome]
      simp [history, hhead, ih]

theorem attempt_settled (r : BridgeCallRecord) (p : Option (ℚ × Bool × UInt32)) :
    (r.settled p).attempt = r.attempt := by
  cases p with
  | none => rfl
  | some p => rfl

theorem attempt_reported (nowMs : ℚ) (r : BridgeCallRecord) :
    (r.reported nowMs).attempt = r.attempt := by
  unfold reported
  split
  · rfl
  · rfl

@[simp] theorem attempts_nil : attempts [] = [] := rfl

theorem attempts_cons (e : BridgeEvent) (events : List BridgeEvent) :
    attempts (e :: events) = e.attempt.toList ++ attempts events := by
  cases h : e.attempt with
  | none => simp [attempts, List.filterMap_cons_none h]
  | some a => simp [attempts, List.filterMap_cons_some h]

theorem attempts_append (events later : List BridgeEvent) :
    attempts (events ++ later) = attempts events ++ attempts later :=
  List.filterMap_append

theorem sentIds_cons (e : BridgeEvent) (events : List BridgeEvent) :
    sentIds (e :: events) = e.sentId.toList ++ sentIds events := by
  cases h : e.sentId with
  | none => simp [sentIds, List.filterMap_cons_none h]
  | some a => simp [sentIds, List.filterMap_cons_some h]

theorem sentIds_append (events later : List BridgeEvent) :
    sentIds (events ++ later) = sentIds events ++ sentIds later :=
  List.filterMap_append

theorem history_attempts (events : List BridgeEvent) :
    (history events).map attempt = attempts events := by
  induction events with
  | nil => rfl
  | cons e events ih =>
    rw [attempts_cons, ← ih]
    cases e with
    | blocked => rfl
    | sent callId name startMs argBytes =>
      simp only [history, List.map_cons, attempt_settled]
      rfl
    | response => rfl
    | earlyResult => rfl

theorem history_length (events : List BridgeEvent) :
    (history events).length = (attempts events).length := by
  rw [← history_attempts, List.length_map]

/-- An open record is a sent call's. -/
theorem sentIds_of_unanswered {r : BridgeCallRecord} (hr : r ∈ history events)
    (hopen : r.outcome = .unanswered) : r.callId ∈ sentIds events := by
  induction events with
  | nil => simp [history] at hr
  | cons e events ih =>
    rw [sentIds_cons, List.mem_append]
    cases e with
    | blocked name startMs argBytes =>
      rcases List.mem_cons.mp hr with rfl | hr
      · simp [blocked] at hopen
      · exact Or.inr (ih hr)
    | sent callId name startMs argBytes =>
      rcases List.mem_cons.mp hr with rfl | hr
      · have hid := congrArg Attempt.callId
          (attempt_settled (sent callId name startMs argBytes) (firstResponse callId events))
        simp only [attempt, sent] at hid
        exact Or.inl (by simp [BridgeEvent.sentId, sent, hid])
      · exact Or.inr (ih hr)
    | response => exact Or.inr (ih hr)
    | earlyResult => exact Or.inr (ih hr)

end History

/-! ### A log keeps the history -/

namespace BridgeCallLog

open BridgeCallRecord

theorem getElem?_stampAt (nowMs : ℚ) (idxs : List Nat) (records : List BridgeCallRecord)
    (j : Nat) :
    (stampAt nowMs idxs records)[j]? =
      if j ∈ idxs then records[j]?.map (stamped nowMs) else records[j]? := by
  induction idxs generalizing records with
  | nil => simp [stampAt]
  | cons idx rest ih =>
    rw [stampAt, ih, List.getElem?_modify]
    by_cases hj : idx = j
    · subst hj
      -- a second stamp at the same instant changes nothing
      cases records[idx]? <;> simp [stamped]
    · simp [hj, Ne.symm hj]

/-- The records are the history of the events, and the side map leads to the open ones. -/
structure Tracks (log : BridgeCallLog) (events : List BridgeEvent) : Prop where
  records : log.records = history events
  inFlight : ∀ id i, log.inFlight.lookup id = some i ↔
    ∃ r, log.records[i]? = some r ∧ r.callId = id ∧ r.outcome = .unanswered

theorem empty_tracks : empty.Tracks [] where
  records := rfl
  inFlight id i := by simp [empty]

variable {log : BridgeCallLog} {events : List BridgeEvent}

theorem Tracks.mem_inFlightValues (h : log.Tracks events) (i : Nat) :
    i ∈ log.inFlightValues ↔ ∃ r, log.records[i]? = some r ∧ r.outcome = .unanswered := by
  rw [inFlightValues, List.mem_map]
  constructor
  · rintro ⟨⟨id, j⟩, hmem, rfl⟩
    obtain ⟨r, hr, -, hopen⟩ := (h.inFlight id j).mp (AList.mem_lookup_iff.mpr hmem)
    exact ⟨r, hr, hopen⟩
  · rintro ⟨r, hr, hopen⟩
    have hlookup := (h.inFlight r.callId i).mpr ⟨r, hr, rfl, hopen⟩
    exact ⟨⟨r.callId, i⟩, AList.mem_lookup_iff.mp hlookup, rfl⟩

/-- A snapshot stamps the open records. -/
theorem Tracks.snapshot (h : log.Tracks events) (nowMs : ℚ) :
    log.snapshot nowMs = (history events).map (reported nowMs) := by
  apply List.ext_getElem?
  intro j
  rw [BridgeCallLog.snapshot, getElem?_stampAt, List.getElem?_map, ← h.records]
  cases hr : log.records[j]? with
  | none => simp
  | some r =>
    have hiff : j ∈ log.inFlightValues ↔ r.outcome = .unanswered := by
      rw [h.mem_inFlightValues, hr]
      simp
    by_cases hopen : r.outcome = .unanswered
    · simp [hiff, hopen, reported]
    · simp [hiff, hopen, reported]

/-- Where no event can answer a call, the history only grows. -/
theorem history_snoc (e : BridgeEvent) (hquiet : ∀ id, firstResponse id [e] = none) :
    history (events ++ [e]) = history events ++ history [e] := by
  have hafter : ∀ r : BridgeCallRecord, r.after [e] = r := by
    intro r
    simp [after, hquiet, settled]
  rw [history_append, List.map_congr_left fun r _ => hafter r]
  simp

theorem getElem?_snoc {records : List BridgeCallRecord} {a r : BridgeCallRecord} {i : Nat} :
    (records ++ [a])[i]? = some r ↔ records[i]? = some r ∨ i = records.length ∧ r = a := by
  rw [List.getElem?_append]
  split
  · have hne : i ≠ records.length := by omega
    simp [hne]
  · have hnone : records[i]? = none := List.getElem?_eq_none (by omega)
    rw [hnone, List.getElem?_singleton]
    constructor
    · intro h
      split at h
      · exact Or.inr ⟨by omega, (Option.some.inj h).symm⟩
      · simp at h
    · intro h
      obtain h | ⟨hi, rfl⟩ := h
      · simp at h
      · simp [hi]

theorem Tracks.recordBlocked (h : log.Tracks events) (name : String) (startMs : ℚ)
    (argBytes : UInt32) :
    (log.recordBlocked name startMs argBytes).Tracks
      (events ++ [.blocked name startMs argBytes]) where
  records := by
    rw [history_snoc _ fun id => rfl, ← h.records]
    rfl
  inFlight id i := by
    show log.inFlight.lookup id = some i ↔ ∃ r, (log.records ++ [_])[i]? = some r ∧ _
    rw [h.inFlight]
    constructor
    · rintro ⟨r, hr, hid, hopen⟩
      exact ⟨r, getElem?_snoc.mpr (Or.inl hr), hid, hopen⟩
    · rintro ⟨r, hr, hid, hopen⟩
      obtain hr | ⟨-, rfl⟩ := getElem?_snoc.mp hr
      · exact ⟨r, hr, hid, hopen⟩
      · simp [blocked] at hopen

/-- No record of a call that was never sent is open. -/
theorem Tracks.not_open (h : log.Tracks events) {id : UInt32} (hid : id ∉ sentIds events)
    {i : Nat} {r : BridgeCallRecord} (hr : log.records[i]? = some r)
    (hopen : r.outcome = .unanswered) : r.callId ≠ id := by
  rintro rfl
  rw [h.records] at hr
  exact hid (sentIds_of_unanswered (List.mem_of_getElem? hr) hopen)

theorem Tracks.recordSent (h : log.Tracks events) {callId : UInt32}
    (hnew : callId ∉ sentIds events) (name : String) (startMs : ℚ) (argBytes : UInt32) :
    (log.recordSent callId name startMs argBytes).Tracks
      (events ++ [.sent callId name startMs argBytes]) where
  records := by
    rw [history_snoc _ fun id => rfl, ← h.records]
    rfl
  inFlight id i := by
    have hlast : (log.records ++ [sent callId name startMs argBytes]).length - 1 =
        log.records.length := by simp
    show (log.inFlight.insert callId _).lookup id = some i ↔
      ∃ r, (log.records ++ [_])[i]? = some r ∧ _
    rw [hlast]
    by_cases hid : id = callId
    · subst hid
      rw [AList.lookup_insert]
      constructor
      · intro hi
        obtain rfl := Option.some.inj hi
        exact ⟨_, getElem?_snoc.mpr (Or.inr ⟨rfl, rfl⟩), rfl, rfl⟩
      · rintro ⟨r, hr, hcall, hopen⟩
        obtain hr | ⟨rfl, -⟩ := getElem?_snoc.mp hr
        · exact absurd hcall (h.not_open hnew hr hopen)
        · rfl
    · rw [AList.lookup_insert_ne hid, h.inFlight]
      constructor
      · rintro ⟨r, hr, hcall, hopen⟩
        exact ⟨r, getElem?_snoc.mpr (Or.inl hr), hcall, hopen⟩
      · rintro ⟨r, hr, hcall, hopen⟩
        obtain hr | ⟨-, rfl⟩ := getElem?_snoc.mp hr
        · exact ⟨r, hr, hcall, hopen⟩
        · exact absurd hcall.symm hid

/-- A response settles the open record of its call, and no other. -/
theorem after_response (callId : UInt32) (nowMs : ℚ) (ok : Bool) (responseBytes : UInt32)
    (r : BridgeCallRecord) :
    r.after [.response callId nowMs ok responseBytes] =
      if r.callId = callId ∧ r.outcome = .unanswered then r.answered nowMs ok responseBytes
      else r := by
  by_cases hopen : r.outcome = .unanswered
  · by_cases hid : r.callId = callId
    · simp [after, hopen, firstResponse, hid, settled]
    · simp [after, firstResponse, hid, Ne.symm hid, settled]
  · simp [after, hopen]

theorem Tracks.getElem?_settle (h : log.Tracks events) (callId : UInt32) (nowMs : ℚ) (ok : Bool)
    (responseBytes : UInt32) (i : Nat) :
    (log.settle callId nowMs ok responseBytes).records[i]? =
      log.records[i]?.map (after [.response callId nowMs ok responseBytes]) := by
  have hmap : (log.inFlight.lookup callId = some i ↔
      ∃ r, log.records[i]? = some r ∧ r.callId = callId ∧ r.outcome = .unanswered) :=
    h.inFlight callId i
  have hrecords : (log.settle callId nowMs ok responseBytes).records[i]? =
      log.records[i]?.map fun r =>
        if log.inFlight.lookup callId = some i then r.answered nowMs ok responseBytes else r := by
    unfold settle
    cases hlookup : log.inFlight.lookup callId with
    | none => simp
    | some idx =>
      show (log.records.modify idx _)[i]? = _
      rw [List.getElem?_modify]
      by_cases hi : idx = i
      · simp [hi]
      · simp [hi]
  rw [hrecords]
  cases hr : log.records[i]? with
  | none => rfl
  | some r =>
    have hiff : log.inFlight.lookup callId = some i ↔
        r.callId = callId ∧ r.outcome = .unanswered := by
      rw [hmap, hr]
      simp
    simp only [Option.map_some, after_response, hiff]

theorem settle_inFlight (log : BridgeCallLog) (callId : UInt32) (nowMs : ℚ) (ok : Bool)
    (responseBytes id : UInt32) :
    (log.settle callId nowMs ok responseBytes).inFlight.lookup id =
      if id = callId then none else log.inFlight.lookup id := by
  unfold settle
  by_cases hid : id = callId
  · subst hid
    cases hlookup : log.inFlight.lookup id with
    | none => simp [hlookup]
    | some idx => simp
  · cases log.inFlight.lookup callId with
    | none => simp [hid]
    | some idx => simp [hid, AList.lookup_erase_ne hid]

theorem Tracks.settle (h : log.Tracks events) (callId : UInt32) (nowMs : ℚ) (ok : Bool)
    (responseBytes : UInt32) :
    (log.settle callId nowMs ok responseBytes).Tracks
      (events ++ [.response callId nowMs ok responseBytes]) where
  records := by
    apply List.ext_getElem?
    intro i
    rw [h.getElem?_settle, history_append, h.records, ← List.getElem?_map]
    simp [history]
  inFlight id i := by
    rw [settle_inFlight, h.getElem?_settle]
    constructor
    · intro hi
      split at hi
      · simp at hi
      · rename_i hid
        obtain ⟨r, hr, hcall, hopen⟩ := (h.inFlight id i).mp hi
        have hne : ¬ (r.callId = callId ∧ r.outcome = .unanswered) := by
          rw [hcall]
          exact fun hboth => hid hboth.1
        refine ⟨r, ?_, hcall, hopen⟩
        rw [hr, Option.map_some, after_response, if_neg hne]
    · rintro ⟨r', hr', hcall, hopen⟩
      obtain ⟨r, hr, rfl⟩ := Option.map_eq_some_iff.mp hr'
      rw [after_response] at hcall hopen
      split at hopen
      · exact absurd hopen (answered_outcome r nowMs ok responseBytes)
      · rename_i hne
        rw [if_neg hne] at hcall
        have hid : id ≠ callId := fun hid => hne ⟨hcall.trans hid, hopen⟩
        rw [if_neg hid]
        exact (h.inFlight id i).mpr ⟨r, hr, hcall, hopen⟩

end BridgeCallLog

/-! ### The frames of a run -/

/-- The events before the early `Result`, its instant and the link's answer. -/
def beforeEarly : List BridgeEvent → Option (List BridgeEvent × ℚ × SendResult)
  | [] => none
  | .earlyResult nowMs answer :: _ => some ([], nowMs, answer)
  | e :: rest => (beforeEarly rest).map fun p => (e :: p.1, p.2)

theorem beforeEarly_split {events : List BridgeEvent} {p : List BridgeEvent × ℚ × SendResult}
    (h : beforeEarly events = some p) :
    ∃ later, events = p.1 ++ .earlyResult p.2.1 p.2.2 :: later := by
  induction events generalizing p with
  | nil => simp [beforeEarly] at h
  | cons e events ih =>
    cases e with
    | earlyResult nowMs answer =>
      obtain rfl := Option.some.inj h
      exact ⟨events, rfl⟩
    | blocked =>
      obtain ⟨q, hq, rfl⟩ := Option.map_eq_some_iff.mp h
      obtain ⟨later, rfl⟩ := ih hq
      exact ⟨later, rfl⟩
    | sent =>
      obtain ⟨q, hq, rfl⟩ := Option.map_eq_some_iff.mp h
      obtain ⟨later, rfl⟩ := ih hq
      exact ⟨later, rfl⟩
    | response =>
      obtain ⟨q, hq, rfl⟩ := Option.map_eq_some_iff.mp h
      obtain ⟨later, rfl⟩ := ih hq
      exact ⟨later, rfl⟩

theorem beforeEarly_append (events later : List BridgeEvent) :
    beforeEarly (events ++ later) = (beforeEarly events).or
      ((beforeEarly later).map fun p => (events ++ p.1, p.2)) := by
  induction events with
  | nil => simp [beforeEarly]
  | cons e events ih =>
    cases e with
    | earlyResult nowMs answer => simp [beforeEarly]
    | blocked =>
      simp only [List.cons_append, beforeEarly, ih]
      cases beforeEarly events <;> cases beforeEarly later <;> simp
    | sent =>
      simp only [List.cons_append, beforeEarly, ih]
      cases beforeEarly events <;> cases beforeEarly later <;> simp
    | response =>
      simp only [List.cons_append, beforeEarly, ih]
      cases beforeEarly events <;> cases beforeEarly later <;> simp

/-- The attempts an early `Result` has carried to the host. -/
def shipped (events : List BridgeEvent) : List Attempt :=
  match beforeEarly events with
  | some (earlier, _, .ok) => attempts earlier
  | _ => []

/-- What a run has told the host by now. -/
structure BridgeRun.Reports (s : BridgeRun) (events : List BridgeEvent) : Prop where
  log : s.log.Tracks events
  grace : s.grace = (beforeEarly events).map fun p => ⟨p.2.2 = .ok, (attempts p.1).length⟩
  received : s.received.flatMap RecordFrame.bridgeCalls =
    match beforeEarly events with
    | some (earlier, nowMs, .ok) => (history earlier).map (.reported nowMs)
    | _ => []

namespace BridgeRun

variable {s : BridgeRun} {events : List BridgeEvent}

theorem start_reports : start.Reports [] where
  log := BridgeCallLog.empty_tracks
  grace := rfl
  received := rfl

/-- An event that is not the early `Result` leaves the split where it was. -/
theorem Reports.logged (h : s.Reports events) (e : BridgeEvent) {log : BridgeCallLog}
    (hlog : log.Tracks (events ++ [e])) (hquiet : beforeEarly [e] = none) :
    Reports { s with log := log } (events ++ [e]) where
  log := hlog
  grace := by
    rw [beforeEarly_append, hquiet]
    simpa using h.grace
  received := by
    rw [beforeEarly_append, hquiet]
    simpa using h.received

theorem tracks_earlyResult {log : BridgeCallLog} (h : log.Tracks events) (nowMs : ℚ)
    (answer : SendResult) : log.Tracks (events ++ [.earlyResult nowMs answer]) where
  records := by
    rw [BridgeCallLog.history_snoc _ fun id => rfl, h.records]
    simp [history]
  inFlight := h.inFlight

theorem Reports.step (h : s.Reports events) (e : BridgeEvent)
    (hids : (sentIds (events ++ [e])).Nodup) : (s.step e).Reports (events ++ [e]) := by
  cases e with
  | blocked name startMs argBytes =>
    exact h.logged _ (h.log.recordBlocked name startMs argBytes) rfl
  | sent callId name startMs argBytes =>
    have hnew : callId ∉ sentIds events := by
      rw [sentIds_append] at hids
      exact fun hmem => (List.nodup_append.mp hids).2.2 callId hmem callId
        (by simp [sentIds_cons, BridgeEvent.sentId]) rfl
    exact h.logged _ (h.log.recordSent hnew name startMs argBytes) rfl
  | response callId nowMs ok responseBytes =>
    exact h.logged _ (h.log.settle callId nowMs ok responseBytes) rfl
  | earlyResult nowMs answer =>
    have hlog := tracks_earlyResult h.log nowMs answer
    show (s.earlyResult nowMs answer).Reports _
    unfold earlyResult
    cases hearly : beforeEarly events with
    | some p =>
      -- the run is in its grace phase
      have hgrace := h.grace
      rw [hearly] at hgrace
      rw [hgrace]
      exact
        { log := hlog
          grace := by rw [beforeEarly_append, hearly]; exact hgrace
          received := by
            rw [beforeEarly_append, hearly]
            have hreceived := h.received
            rw [hearly] at hreceived
            exact hreceived }
    | none =>
      have hgrace := h.grace
      have hreceived := h.received
      rw [hearly] at hgrace hreceived
      have hsplit : beforeEarly (events ++ [.earlyResult nowMs answer]) =
          some (events, nowMs, answer) := by
        rw [beforeEarly_append, hearly]
        simp [beforeEarly]
      rw [hgrace]
      exact
        { log := hlog
          grace := by
            rw [hsplit, h.log.snapshot]
            simp [history_length]
          received := by
            rw [hsplit]
            cases answer with
            | ok => simp [hreceived, h.log.snapshot, RecordFrame.bridgeCalls]
            | tooLarge => simpa using hreceived
            | closed => simpa using hreceived }

theorem run_reports (hids : (sentIds events).Nodup) : (run events).Reports events := by
  induction events using List.reverseRecOn with
  | nil => exact start_reports
  | append_singleton events e ih =>
    have hearlier : (sentIds events).Nodup := by
      rw [sentIds_append] at hids
      exact hids.of_append_left
    rw [run, Execution.exec_append]
    exact (ih hearlier).step e hids

end BridgeRun

/-! ### What the host receives -/

theorem shipped_prefix (events : List BridgeEvent) : shipped events <+: attempts events := by
  unfold shipped
  split
  · rename_i earlier nowMs hearly
    obtain ⟨later, hevents⟩ := beforeEarly_split hearly
    rw [hevents, attempts_append]
    exact List.prefix_append _ _
  · exact List.nil_prefix

/-- The records the host has at the end of a run, frame after frame. -/
def receivedRecords (events : List BridgeEvent) (e : BridgeEnding) : List BridgeCallRecord :=
  ((BridgeRun.run events).conclude e).flatMap RecordFrame.bridgeCalls

/-- The completion is carried as it is, or nothing was attempted since the early `Result`; and
the run is not failed once an early `Result` has told of an attempt. -/
def RecordsDelivered (events : List BridgeEvent) (e : BridgeEnding) : Prop :=
  (e.answer ≠ .ok → attempts events = shipped events) ∧
    (e.answer = .ok → e.ok = false → shipped events = [])

instance (events : List BridgeEvent) (e : BridgeEnding) : Decidable (RecordsDelivered events e) :=
  inferInstanceAs (Decidable (_ ∧ _))

namespace BridgeRun

open BridgeCallRecord

variable {s : BridgeRun} {events : List BridgeEvent}

theorem Reports.snapshot_attempts (h : s.Reports events) (nowMs : ℚ) :
    (s.log.snapshot nowMs).map attempt = attempts events := by
  have hfun : attempt ∘ reported nowMs = attempt := funext fun r => attempt_reported nowMs r
  rw [h.log.snapshot, List.map_map, hfun, history_attempts]

theorem Reports.received_attempts (h : s.Reports events) :
    (s.received.flatMap RecordFrame.bridgeCalls).map attempt = shipped events := by
  rw [h.received, shipped]
  split
  · rename_i earlier nowMs hearly
    have hfun : attempt ∘ reported nowMs = attempt := funext fun r => attempt_reported nowMs r
    rw [List.map_map, hfun, history_attempts]
  · rfl

/-- After an early `Result` that went out, a run that ends with a value reports the attempts
made since; every other completion reports all of them. -/
theorem Reports.completion_attempts (h : s.Reports events) (e : BridgeEnding) :
    (s.completion e).bridgeCalls.map attempt =
      if e.ok then (attempts events).drop (shipped events).length else attempts events := by
  have hall : (s.log.finalize e.nowMs).1.map attempt = attempts events :=
    h.snapshot_attempts e.nowMs
  have hgrace := h.grace
  unfold completion
  cases hok : e.ok with
  | false => simpa [RecordFrame.bridgeCalls] using hall
  | true =>
    rw [hgrace, shipped]
    cases hearly : beforeEarly events with
    | none => simpa [RecordFrame.bridgeCalls] using hall
    | some p =>
      obtain ⟨earlier, nowMs, answer⟩ := p
      cases answer with
      | ok =>
        simp only [Option.map_some, if_true, decide_true, RecordFrame.bridgeCalls, finishGrace]
        rw [List.map_drop, h.snapshot_attempts]
      | tooLarge => simpa [RecordFrame.bridgeCalls] using hall
      | closed => simpa [RecordFrame.bridgeCalls] using hall

end BridgeRun

/-- The host receives every attempt once and in order exactly when the records are delivered. -/
theorem recordsDelivered_iff {events : List BridgeEvent} (hids : (sentIds events).Nodup)
    (e : BridgeEnding) :
    (receivedRecords events e).map BridgeCallRecord.attempt = attempts events ↔
      RecordsDelivered events e := by
  have h := BridgeRun.run_reports hids
  obtain ⟨later, hlater⟩ := shipped_prefix events
  have hminimal : ∀ f : RecordFrame, f.minimal.bridgeCalls = [] := by
    intro f
    cases f <;> rfl
  have hlost : ∀ {answer : SendResult}, answer ≠ .ok →
      (shipped events = attempts events ↔
        (answer ≠ .ok → attempts events = shipped events) ∧
          (answer = .ok → e.ok = false → shipped events = [])) := by
    intro answer hanswer
    constructor
    · intro heq
      exact ⟨fun _ => heq.symm, fun hok => absurd hok hanswer⟩
    · intro hdelivered
      exact (hdelivered.1 hanswer).symm
  unfold receivedRecords BridgeRun.conclude RecordsDelivered
  cases hanswer : e.answer with
  | ok =>
    simp only [List.flatMap_append, List.map_append, h.received_attempts, List.flatMap_cons,
      List.flatMap_nil, List.append_nil, h.completion_attempts]
    cases hok : e.ok with
    | true => simp [← hlater]
    | false => simp
  | tooLarge =>
    simp only [List.flatMap_append, h.received_attempts, List.flatMap_cons, List.flatMap_nil,
      List.append_nil, hminimal]
    exact hlost (by decide)
  | closed =>
    rw [h.received_attempts]
    exact hlost (by decide)

/-! ### Responses -/

section Responses

open BridgeCallRecord

variable {events : List BridgeEvent}

theorem callId_after (later : List BridgeEvent) (r : BridgeCallRecord) :
    (r.after later).callId = r.callId := by
  unfold after
  split
  · exact congrArg Attempt.callId (attempt_settled r _)
  · rfl

/-- A call that was sent and then answered has no open record. -/
theorem not_open_of_response {earlier later : List BridgeEvent} {callId : UInt32} {nowMs : ℚ}
    {ok : Bool} {responseBytes : UInt32} (hsent : callId ∈ sentIds earlier)
    (hids : (sentIds (earlier ++ .response callId nowMs ok responseBytes :: later)).Nodup)
    {r : BridgeCallRecord}
    (hr : r ∈ history (earlier ++ .response callId nowMs ok responseBytes :: later))
    (hid : r.callId = callId) : r.outcome ≠ .unanswered := by
  intro hopen
  rw [history_append, List.mem_append] at hr
  obtain hr | hr := hr
  · -- logged before the response, which settles it
    obtain ⟨r₀, hr₀, rfl⟩ := List.mem_map.mp hr
    rw [callId_after] at hid
    unfold after at hopen
    split at hopen
    · simp only [firstResponse, hid, if_true, settled] at hopen
      exact answered_outcome r₀ nowMs ok responseBytes hopen
    · contradiction
  · -- sent after the response: a second call of that id
    have hagain := sentIds_of_unanswered hr hopen
    rw [sentIds_append] at hids
    exact (List.nodup_append.mp hids).2.2 callId hsent callId (hid ▸ hagain) rfl

/-- An answer in the records is a response among the events. -/
theorem response_of_history {r : BridgeCallRecord} (hr : r ∈ history events) :
    r.outcome = .unanswered ∨ r.outcome = .blocked ∨
      ∃ nowMs ok responseBytes, .response r.callId nowMs ok responseBytes ∈ events := by
  induction events with
  | nil => simp [history] at hr
  | cons e events ih =>
    have hlater : r ∈ history events → r.outcome = .unanswered ∨ r.outcome = .blocked ∨
        ∃ nowMs ok responseBytes, .response r.callId nowMs ok responseBytes ∈ e :: events := by
      intro hr
      obtain hopen | hblocked | ⟨nowMs, ok, responseBytes, hmem⟩ := ih hr
      · exact Or.inl hopen
      · exact Or.inr (Or.inl hblocked)
      · exact Or.inr (Or.inr ⟨nowMs, ok, responseBytes, List.mem_cons_of_mem _ hmem⟩)
    cases e with
    | response => exact hlater hr
    | earlyResult => exact hlater hr
    | blocked name startMs argBytes =>
      obtain rfl | hr := List.mem_cons.mp hr
      · exact Or.inr (Or.inl rfl)
      · exact hlater hr
    | sent callId name startMs argBytes =>
      obtain hhead | hr := List.mem_cons.mp hr
      · cases hfirst : firstResponse callId events with
        | none =>
          rw [hfirst] at hhead
          exact Or.inl (congrArg outcome hhead)
        | some p =>
          have hid : r.callId = callId := by
            rw [hhead]
            exact congrArg Attempt.callId (attempt_settled _ _)
          have hmem := firstResponse_mem hfirst
          rw [← hid] at hmem
          exact Or.inr (Or.inr ⟨_, _, _, List.mem_cons_of_mem _ hmem⟩)
      · exact hlater hr

end Responses

/-! ### The records of a run -/

/-- A response to the call is among the events. -/
def Answered (callId : UInt32) (events : List BridgeEvent) : Prop :=
  ∃ nowMs ok responseBytes, .response callId nowMs ok responseBytes ∈ events

namespace BridgeRun

open BridgeCallRecord

variable {s : BridgeRun} {events : List BridgeEvent}

theorem reported_answered {earlier : List BridgeEvent} (hsub : earlier ⊆ events) {nowMs : ℚ}
    {r : BridgeCallRecord} (hr : r ∈ (history earlier).map (reported nowMs)) :
    r.outcome = .unanswered ∨ r.outcome = .blocked ∨ Answered r.callId events := by
  obtain ⟨r₀, hr₀, rfl⟩ := List.mem_map.mp hr
  have houtcome : (r₀.reported nowMs).outcome = r₀.outcome := by
    unfold reported
    split
    · rfl
    · rfl
  have hid : (r₀.reported nowMs).callId = r₀.callId :=
    congrArg Attempt.callId (attempt_reported nowMs r₀)
  rw [houtcome, hid]
  obtain hopen | hblocked | ⟨t, ok, responseBytes, hmem⟩ := response_of_history hr₀
  · exact Or.inl hopen
  · exact Or.inr (Or.inl hblocked)
  · exact Or.inr (Or.inr ⟨t, ok, responseBytes, hsub hmem⟩)

theorem Reports.snapshot_answered (h : s.Reports events) (nowMs : ℚ) {r : BridgeCallRecord}
    (hr : r ∈ s.log.snapshot nowMs) :
    r.outcome = .unanswered ∨ r.outcome = .blocked ∨ Answered r.callId events := by
  rw [h.log.snapshot] at hr
  exact reported_answered (List.Subset.refl events) hr

theorem Reports.received_answered (h : s.Reports events) {r : BridgeCallRecord}
    (hr : r ∈ s.received.flatMap RecordFrame.bridgeCalls) :
    r.outcome = .unanswered ∨ r.outcome = .blocked ∨ Answered r.callId events := by
  rw [h.received] at hr
  split at hr
  · rename_i earlier nowMs hearly
    obtain ⟨later, hevents⟩ := beforeEarly_split hearly
    refine reported_answered ?_ hr
    rw [hevents]
    exact List.subset_append_left _ _
  · simp at hr

theorem Reports.completion_answered (h : s.Reports events) (e : BridgeEnding)
    {r : BridgeCallRecord} (hr : r ∈ (s.completion e).bridgeCalls) :
    r.outcome = .unanswered ∨ r.outcome = .blocked ∨ Answered r.callId events := by
  unfold completion at hr
  dsimp only at hr
  split at hr
  · split at hr
    · exact h.snapshot_answered e.graceMs (List.mem_of_mem_drop hr)
    · exact h.snapshot_answered e.nowMs hr
  · exact h.snapshot_answered e.nowMs hr
  · exact h.snapshot_answered e.nowMs hr

theorem Reports.conclude_answered (h : s.Reports events) (e : BridgeEnding)
    {r : BridgeCallRecord} (hr : r ∈ (s.conclude e).flatMap RecordFrame.bridgeCalls) :
    r.outcome = .unanswered ∨ r.outcome = .blocked ∨ Answered r.callId events := by
  unfold conclude at hr
  split at hr
  · rw [List.flatMap_append, List.mem_append, List.flatMap_singleton] at hr
    exact hr.elim h.received_answered (h.completion_answered e)
  · rw [List.flatMap_append, List.mem_append, List.flatMap_singleton] at hr
    refine hr.elim h.received_answered fun hr => ?_
    cases hframe : s.completion e with
    | result => simp [hframe, RecordFrame.minimal, RecordFrame.bridgeCalls] at hr
    | runComplete => simp [hframe, RecordFrame.minimal, RecordFrame.bridgeCalls] at hr
  · exact h.received_answered hr

end BridgeRun

/-- For every run whose calls have distinct ids: the host receives each attempt once and in order
exactly when the records are delivered; an answer it is told of was a response; a response changes
the open record of its own call and nothing else; the second response to a call changes nothing; a
call that was never answered is reported unanswered, with the time it has waited; and a snapshot
reads as `finalize` would at that instant. -/
theorem bridge_records (events : List BridgeEvent) (hids : (sentIds events).Nodup) :
    (∀ e : BridgeEnding,
      (receivedRecords events e).map BridgeCallRecord.attempt = attempts events ↔
        RecordsDelivered events e) ∧
    (∀ (e : BridgeEnding), ∀ r ∈ receivedRecords events e,
      r.outcome = .unanswered ∨ r.outcome = .blocked ∨ Answered r.callId events) ∧
    (∀ (callId : UInt32) (nowMs : ℚ) (ok : Bool) (responseBytes : UInt32) (i : Nat),
      ((BridgeRun.run events).log.settle callId nowMs ok responseBytes).records[i]? =
        (BridgeRun.run events).log.records[i]?.map fun r =>
          if r.callId = callId ∧ r.outcome = .unanswered then r.answered nowMs ok responseBytes
          else r) ∧
    (∀ (earlier later : List BridgeEvent) (callId : UInt32) (t : ℚ) (ok : Bool) (n : UInt32),
      events = earlier ++ .response callId t ok n :: later → callId ∈ sentIds earlier →
      ∀ nowMs ok' responseBytes,
        (BridgeRun.run events).log.settle callId nowMs ok' responseBytes =
          (BridgeRun.run events).log) ∧
    (∀ (earlier later : List BridgeEvent) (callId : UInt32) (name : String) (startMs : ℚ)
      (argBytes : UInt32), events = earlier ++ .sent callId name startMs argBytes :: later →
      firstResponse callId later = none → ∀ nowMs,
        ((BridgeRun.run events).log.snapshot nowMs)[(attempts earlier).length]? =
          some ((BridgeCallRecord.sent callId name startMs argBytes).stamped nowMs)) ∧
    ∀ nowMs : ℚ, (BridgeRun.run events).log.snapshot nowMs =
      ((BridgeRun.run events).log.finalize nowMs).1 := by
  have h := BridgeRun.run_reports hids
  refine ⟨recordsDelivered_iff hids, fun e r hr => h.conclude_answered e hr, ?_, ?_, ?_,
    fun nowMs => rfl⟩
  · intro callId nowMs ok responseBytes i
    rw [h.log.getElem?_settle]
    exact congrArg (fun f => Option.map f _)
      (funext (BridgeCallLog.after_response callId nowMs ok responseBytes))
  · intro earlier later callId t ok n hevents hsent nowMs ok' responseBytes
    have hclosed : (BridgeRun.run events).log.inFlight.lookup callId = none := by
      rw [Option.eq_none_iff_forall_ne_some]
      intro i hi
      obtain ⟨r, hr, hid, hopen⟩ := (h.log.inFlight callId i).mp hi
      rw [h.log.records] at hr
      rw [hevents] at hids hr
      exact not_open_of_response hsent hids (List.mem_of_getElem? hr) hid hopen
    unfold BridgeCallLog.settle
    rw [hclosed]
  · intro earlier later callId name startMs argBytes hevents hnone nowMs
    have hindex : (attempts earlier).length = ((history earlier).map
        (BridgeCallRecord.after (.sent callId name startMs argBytes :: later))).length := by
      rw [List.length_map, history_length]
    rw [h.log.snapshot, List.getElem?_map, hevents, history_append, hindex,
      List.getElem?_append_right le_rfl]
    simp [history, hnone, BridgeCallRecord.settled, BridgeCallRecord.reported,
      BridgeCallRecord.sent]

/-- Two calls, one answered before the early `Result` and one after it. -/
theorem bridge_records_two :
    let events : List BridgeEvent :=
      [.sent 1 "fetch" 1 10, .sent 2 "log" 2 20, .response 1 3 true 5, .earlyResult 4 .ok,
        .response 2 5 false 0, .blocked "fetch" 6 0]
    (receivedRecords events ⟨true, 7, 8, .ok⟩).map BridgeCallRecord.attempt = attempts events :=
  ((bridge_records _ (by decide)).1 _).mpr (by decide)

/-- A run that is failed in its grace phase reports its calls a second time. -/
theorem failed_grace_repeats :
    ¬ ∀ (events : List BridgeEvent) (e : BridgeEnding), (sentIds events).Nodup →
      (receivedRecords events e).map BridgeCallRecord.attempt = attempts events := by
  intro h
  have hrepeats := h [.sent 1 "fetch" 1 10, .earlyResult 2 .ok] ⟨false, 3, 3, .ok⟩ (by decide)
  exact absurd hrepeats (by decide)

end Bridge

end Iso4
