/-
What the host decodes of what the runtime encodes.

Every field of the five payloads comes back, error texts cut at their bound; what
the runtime drops or saturates, and what the host reads and drops, is said by the
`decoded` functions.  The router peeks at a payload before anyone decodes it, the
flags of a run at a fixed offset from its end.

* `runtime_to_host_roundtrip` — the payloads and the peeks;
* `fields_lost` — what does not come back: a count beyond 32 bits, oversized error
  properties.
-/
import Iso4.RuntimePayloads

namespace Iso4

open Wire

namespace Ipc

open RuntimeWriter HostReader

/-! ### Fields -/

theorem decodes_readU8 (b : UInt8) : Decodes [b] HostReader.readU8 b := decodes_u8 _ b

theorem decodes_readU32 (n : UInt32) : Decodes (encodeU32 n) HostReader.readU32 n.toNat :=
  decodes_u32 _ n.toNat_lt

theorem decodes_readF64 (x : F64) : Decodes (encodeF64 x) readF64 x := by
  have h : Decodes (encodeF64 x) readF64 (UInt64.ofNat x.toNat) := (decodes_u64 _ x.toNat_lt).fmap _
  rw [UInt64.ofNat_toNat] at h
  exact h

theorem decodes_readU64 {n : UInt64} (h : n.toNat ≤ maxSafeInteger) :
    Decodes (encodeU64 n) readU64 n.toNat := by
  refine (decodes_u64 _ n.toNat_lt).map fun left => ?_
  rw [if_neg (Nat.not_lt.mpr h)]
  rfl

theorem decodes_readBool (b : Bool) : Decodes (encodeBool b) HostReader.readBool b := by
  refine (decodes_u8 _ _).map fun left => ?_
  cases b <;> rfl

theorem decodes_readRawBytes (bs : Blob) : Decodes bs (readRawBytes bs.length) bs := by
  intro _ left
  simp [readRawBytes]

theorem bufferToString_utf8 (s : String) : bufferToString (utf8 s) = s := by
  rw [bufferToString, ofUtf8_utf8]

theorem decodes_readString (s : String) : Decodes (encodeString s) HostReader.readString s := by
  refine Decodes.block (fun h => decodes_u32 _ h) ?_
  refine (decodes_readRawBytes (utf8 s)).map fun left => ?_
  rw [bufferToString_utf8]
  rfl

/-- A list whose entries take a byte or more has a count that fits. -/
theorem decodes_counted {α γ : Type} {write : γ → Blob} {entry : HRead α} {conv : γ → α} {cs : List γ}
    (hpos : ∀ c, 0 < (write c).length) (h : ∀ c ∈ cs, Decodes (write c) entry (conv c)) :
    Decodes (u32be cs.length ++ cs.flatMap write) (HostReader.readU32 >>= Reader.times entry)
      (cs.map conv) := by
  intro hlen
  have hcount : cs.length < 2 ^ 32 := by
    have hle := length_le_flatMap hpos cs
    rw [List.length_append] at hlen
    omega
  exact (decodes_u32 _ hcount).bind (Decodes.times h) hlen

theorem encodeString_pos (s : String) : 0 < (encodeString s).length := by
  rw [encodeString, List.length_append, u32be_length]
  omega

theorem length_le_strings (ss : List String) : ss.length ≤ (ss.flatMap encodeString).length :=
  length_le_flatMap encodeString_pos ss

theorem decodes_readStringList (items : List String) :
    Decodes (encodeStringList items) readStringList items := by
  have h : Decodes (encodeStringList items) readStringList (items.map id) :=
    decodes_counted encodeString_pos fun s _ => decodes_readString s
  rw [List.map_id] at h
  exact h

theorem decodes_optional {α β : Type} {encode : α → Blob} {read : HRead β} {conv : α → β}
    {f : UInt8 → HRead (Option β)} (o : Option α) (h : ∀ a, o = some a → Decodes (encode a) read (conv a))
    (hnone : f 0 = pure none) (hsome : f 1 = read >>= fun b => pure (some b)) :
    Decodes (encodeOptional encode o) (HostReader.readU8 >>= f) (o.map conv) := by
  cases o with
  | none =>
    refine (decodes_readU8 0).map fun left => ?_
    rw [hnone]
    rfl
  | some a =>
    refine (decodes_readU8 1).bind ?_
    rw [hsome]
    exact (h a rfl).map fun _ => rfl

theorem decodes_readOptionalU64 {o : Option UInt64} (h : ∀ n, o = some n → n.toNat ≤ maxSafeInteger) :
    Decodes (encodeOptionalU64 o) readOptionalU64 (o.map UInt64.toNat) :=
  decodes_optional o (fun n hn => decodes_readU64 (h n hn)) rfl rfl

/-! ### Bridge calls -/

/-- A record as the caller sees it; only the client knows which calls it dropped. -/
def BridgeCallRecord.entry (droppedCallIds : List Nat) (r : BridgeCallRecord) : BridgeCallEntry where
  name := r.name
  startMs := r.startMs
  durationMs := r.durationMs
  argBytes := r.argBytes.toNat
  responseBytes := r.responseBytes.toNat
  reason := match r.outcome with
    | .ok => none
    | .blocked => some .blocked
    | .error => some .error
    | .unanswered => some (if r.callId.toNat ∈ droppedCallIds then .dropped else .unanswered)

theorem decodes_readBridgeCallRecord (droppedCallIds : List Nat) (r : BridgeCallRecord) :
    Decodes (encodeBridgeCallRecord r) (readBridgeCallRecord droppedCallIds) (r.entry droppedCallIds) := by
  refine (decodes_readString _).bind ?_
  refine (decodes_readF64 _).bind ?_
  refine (decodes_readF64 _).bind ?_
  refine (decodes_readU32 _).bind ?_
  refine (decodes_readU32 _).bind ?_
  refine (decodes_readU32 _).bind ?_
  refine (decodes_readU8 _).map fun left => ?_
  unfold BridgeCallRecord.entry
  cases r.outcome <;> rfl

theorem decodes_readBridgeCallRecords (droppedCallIds : List Nat) (records : List BridgeCallRecord) :
    Decodes (encodeBridgeCallRecords records) (readBridgeCallRecords droppedCallIds)
      (records.map (BridgeCallRecord.entry droppedCallIds)) := by
  refine decodes_counted (fun r => ?_) fun r _ => decodes_readBridgeCallRecord droppedCallIds r
  rw [encodeBridgeCallRecord, List.length_append]
  exact Nat.lt_of_lt_of_le (encodeString_pos r.name) (Nat.le_add_right _ _)

def RunTelemetry.decoded (droppedCallIds : List Nat) (t : RunTelemetry) : DecodedTelemetry where
  stdout := t.stdout
  stderr := t.stderr
  durationMs := t.durationMs
  wallTimeMs := t.wallTimeMs
  cpuTimeMs := t.cpuTimeMs
  bridgeCalls := t.bridgeCalls.map (BridgeCallRecord.entry droppedCallIds)

/-! ### Errors -/

/-- Code, name, message and stack of an error, the last two cut. -/
def RunErrorPayload.text (e : RunErrorPayload) : ErrorText where
  code := e.code
  name := e.name
  message := clampErrorText e.message
  stack := e.stack.map clampErrorText

theorem decodes_readErrorText (e : RunErrorPayload) : Decodes (encodeErrorCause e) readErrorText e.text := by
  refine (decodes_readString _).bind ?_
  refine (decodes_readString _).bind ?_
  refine (decodes_readString _).bind ?_
  unfold RunErrorPayload.text
  cases e.stack with
  | none => exact (decodes_readU8 0).map fun _ => rfl
  | some s =>
    refine (decodes_readU8 1).bind ?_
    exact (decodes_readString (clampErrorText s)).map fun _ => rfl

theorem decodes_readErrorCause (o : Option RunErrorPayload) :
    Decodes (encodeOptional encodeErrorCause o) readErrorCause (o.map RunErrorPayload.text) :=
  decodes_optional o (fun e _ => decodes_readErrorText e) rfl rfl

/-- The cause table of the host undoes `resetCauseByte`. -/
theorem resetCauses_byte (cause : ResetCause) : resetCauses[(resetCauseByte cause).toNat]? = some cause := by
  cases cause <;> rfl

def ResetInfo.decoded (info : ResetInfo) : ResetCause × Nat := (info.cause, info.culpritRunId.toNat)

theorem decodes_readResetInfo (o : Option ResetInfo) :
    Decodes (encodeOptional encodeResetInfo o) readResetInfo (o.map ResetInfo.decoded) := by
  cases o with
  | none => exact (decodes_readU8 0).map fun _ => rfl
  | some info =>
    refine (decodes_readU8 1).bind ?_
    refine (decodes_readU8 (resetCauseByte info.cause)).bind ?_
    rw [resetCauses_byte]
    exact (decodes_readU32 info.culpritRunId).map fun _ => rfl

theorem decodes_readPrefixStage (b : Bool) : Decodes (encodeBool b) readPrefixStage b := by
  refine (decodes_readU8 _).map fun left => ?_
  cases b <;> rfl

section Values

variable {V : Type} {codec : ValueCodec V}

theorem decodes_readValueBlob {blob : Blob} {v : V} (h : codec.deserializeValue blob = .ok v) :
    Decodes (encodeValueBlob blob) (HostReader.readValueBlob codec) (v, blob.length) := by
  refine Decodes.block (fun h => decodes_u32 _ h) ?_
  refine (decodes_readRawBytes blob).map fun left => ?_
  show (codec.deserializeValue blob >>= fun v => Except.ok (v, left)) >>= _ = _
  rw [h]
  rfl

/-- The blob, when there is one, deserializes to the value. -/
def ValueCodec.Gives (codec : ValueCodec V) : Option Blob → Option V → Prop :=
  Option.Rel fun blob v => codec.deserializeValue blob = .ok v

theorem decodes_readOptionalValueBlob {blob : Option Blob} {v : Option V} (h : codec.Gives blob v) :
    Decodes (encodeOptionalValueBlob blob) (HostReader.readOptionalValueBlob codec) v := by
  cases h with
  | none => exact (decodes_readU8 0).map fun _ => rfl
  | some hv =>
    refine (decodes_readU8 1).bind ?_
    exact (decodes_readValueBlob hv).map fun _ => rfl

/-! ### Completions -/

/-- What the caller gets of the error of a run. -/
def RunErrorPayload.decoded (e : RunErrorPayload) (fields : Option V) : DecodedError V where
  toErrorText := e.text
  fields := fields
  reset := e.reset.map ResetInfo.decoded
  prefixStage := e.prefixStage

/-- The value of a success, as what the run carried. -/
def RunSuccessPayload.value (s : RunSuccessPayload) (kind : ResultKind) (v : V) : RunValue V :=
  match kind with
  | .call => .value v
  | .exports => .exports v s.skippedExports

theorem runValue_of_object {kind : ResultKind} {v : V} (s : RunSuccessPayload)
    (h : kind = .exports → codec.kind v = .object) :
    runValue codec kind v s.skippedExports = .ok (s.value kind v) := by
  cases kind with
  | call => rfl
  | exports =>
    rw [runValue, exportsBlobToExports, h rfl]
    rfl

/-- The heap figure is a number the host can hold. -/
def HeapFits (heapUsedBytes : Option UInt64) : Prop :=
  ∀ n, heapUsedBytes = some n → n.toNat ≤ maxSafeInteger

def RunSuccessPayload.decoded (s : RunSuccessPayload) (kind : ResultKind) (droppedCallIds : List Nat)
    (v : V) : RunResult V :=
  .completed (s.value kind v) (s.toRunTelemetry.decoded droppedCallIds) (s.heapUsedBytes.map UInt64.toNat)

def RunFailurePayload.decoded (f : RunFailurePayload) (droppedCallIds : List Nat) (fields : Option V) :
    RunResult V :=
  .failed (f.error.decoded fields) (f.error.cause.map RunErrorPayload.text)
    (f.toRunTelemetry.decoded droppedCallIds) (f.heapUsedBytes.map UInt64.toNat)

theorem decodesAll_success {kind : ResultKind} {droppedCallIds : List Nat} {v : V}
    (slotAllowance runId : UInt32) (s : RunSuccessPayload)
    (hvalue : codec.deserializeValue s.exports = .ok v)
    (hkind : kind = .exports → codec.kind v = .object) (hheap : HeapFits s.heapUsedBytes) :
    DecodesAll (encodeRunCompletionPayload slotAllowance runId (.success s))
      (readRunCompletion codec kind droppedCallIds)
      ⟨runId.toNat, slotAllowance.toNat, s.backgroundFlags.toNat, s.decoded kind droppedCallIds v⟩ := by
  refine (decodes_readU32 _).bind_all ?_
  refine (decodes_readU32 _).bind_all ?_
  refine (decodes_readBool true).bind_all ?_
  refine (decodes_readU8 1).bind_all ?_
  refine (decodes_readValueBlob hvalue).bind_all ?_
  refine (decodes_readStringList _).bind_all ?_
  refine (decodes_readStringList _).bind_all ?_
  refine (decodes_readStringList _).bind_all ?_
  refine (decodes_readF64 _).bind_all ?_
  refine (decodes_readF64 _).bind_all ?_
  refine (decodes_readF64 _).bind_all ?_
  refine (decodes_readBridgeCallRecords _ _).bind_all ?_
  refine (decodes_readOptionalU64 hheap).bind_all ?_
  refine (decodes_readU8 _).bind_all ?_
  refine (decodes_readU8 0).last ?_
  show (runValue codec kind v s.skippedExports >>= fun x => Except.ok (x, [])) >>= _ = _
  rw [runValue_of_object s hkind]
  rfl

/-- An error begins with the four texts that cross of its cause. -/
theorem encodeRunErrorPayload_append (e : RunErrorPayload) (rest : Blob) :
    encodeRunErrorPayload e ++ rest =
      encodeErrorCause e ++ (encodeOptionalValueBlob (keptFields e.fields) ++
        (encodeOptional encodeResetInfo e.reset ++ (encodeBool e.prefixStage ++
          (encodeOptional encodeErrorCause e.cause ++ rest)))) := by
  simp only [encodeRunErrorPayload, encodeErrorCause, List.append_assoc]

theorem decodesAll_failure {kind : ResultKind} {droppedCallIds : List Nat} {fields : Option V}
    (slotAllowance runId : UInt32) (f : RunFailurePayload)
    (hfields : codec.Gives (keptFields f.error.fields) fields) (hheap : HeapFits f.heapUsedBytes) :
    DecodesAll (encodeRunCompletionPayload slotAllowance runId (.failure f))
      (readRunCompletion codec kind droppedCallIds)
      ⟨runId.toNat, slotAllowance.toNat, 0, f.decoded droppedCallIds fields⟩ := by
  refine (decodes_readU32 _).bind_all ?_
  refine (decodes_readU32 _).bind_all ?_
  refine (decodes_readBool false).bind_all ?_
  refine (decodes_readU8 0).bind_all ?_
  refine (decodes_readU8 1).bind_all ?_
  rw [encodeRunErrorPayload_append]
  refine (decodes_readErrorText _).bind_all ?_
  refine (decodes_readOptionalValueBlob hfields).bind_all ?_
  refine (decodes_readResetInfo _).bind_all ?_
  refine (decodes_readPrefixStage _).bind_all ?_
  refine (decodes_readErrorCause _).bind_all ?_
  refine (decodes_readStringList _).bind_all ?_
  refine (decodes_readStringList _).bind_all ?_
  refine (decodes_readF64 _).bind_all ?_
  refine (decodes_readF64 _).bind_all ?_
  refine (decodes_readF64 _).bind_all ?_
  refine (decodes_readBridgeCallRecords _ _).bind_all ?_
  exact (decodes_readOptionalU64 hheap).last rfl

/-! ### The other payloads -/

def GraceReport.decoded (r : GraceReport) (droppedCallIds : List Nat) (runId : UInt32) :
    DecodedRunComplete where
  toDecodedTelemetry := r.toRunTelemetry.decoded droppedCallIds
  runId := runId.toNat
  status := r.status
  error := r.error

theorem decodes_readGraceError (o : Option (String × String)) :
    Decodes (encodeOptional (fun e => encodeString e.1 ++ encodeString e.2) o) readGraceError o := by
  cases o with
  | none => exact (decodes_readU8 0).map fun _ => rfl
  | some e =>
    refine (decodes_readU8 1).bind ?_
    refine (decodes_readString e.1).bind ?_
    exact (decodes_readString e.2).map fun _ => rfl

theorem decodesAll_runComplete (droppedCallIds : List Nat) (runId : UInt32) (r : GraceReport) :
    DecodesAll (encodeRunCompletePayload runId r) (readRunComplete droppedCallIds)
      (r.decoded droppedCallIds runId) := by
  have hstatus : graceStatuses[(statusByte r.status).toNat]? = some r.status := by
    cases r.status <;> rfl
  refine (decodes_readU32 _).bind_all ?_
  refine (decodes_readU8 _).bind_all ?_
  rw [hstatus]
  refine (decodes_readF64 _).bind_all ?_
  refine (decodes_readF64 _).bind_all ?_
  refine (decodes_readF64 _).bind_all ?_
  refine (decodes_readStringList _).bind_all ?_
  refine (decodes_readStringList _).bind_all ?_
  refine (decodes_readBridgeCallRecords _ _).bind_all ?_
  exact (decodes_readGraceError _).last rfl

theorem decodes_encodeCount (n : UInt64) :
    Decodes (encodeCount n) HostReader.readU32 (saturated n) := by
  refine decodes_u32 _ ?_
  unfold saturated
  omega

/-- The figures of a snapshot, counts saturated. -/
def RegistryStats.decoded (s : RegistryStats) : RuntimeStatsPayload where
  oneoffRunning := saturated s.oneoffRunning
  warmBusy := saturated s.warmBusy
  warmRuns := saturated s.warmRuns
  warmIdle := saturated s.warmIdle
  idleHeapBytes := s.idleHeapBytes.toNat
  warmBudgetBytes := s.warmBudgetBytes.toNat
  rssBytes := s.rssBytes.toNat
  usageBytes := s.usageBytes.toNat
  hardLineBytes := s.hardLineBytes.toNat
  underPressure := s.underPressure
  prefixes := s.perPrefix.map fun p => (p.1, saturated p.2.1, saturated p.2.2)

/-- The byte figures are numbers the host can hold. -/
structure RegistryStats.Fits (s : RegistryStats) : Prop where
  idleHeapBytes : s.idleHeapBytes.toNat ≤ maxSafeInteger
  warmBudgetBytes : s.warmBudgetBytes.toNat ≤ maxSafeInteger
  rssBytes : s.rssBytes.toNat ≤ maxSafeInteger
  usageBytes : s.usageBytes.toNat ≤ maxSafeInteger
  hardLineBytes : s.hardLineBytes.toNat ≤ maxSafeInteger

theorem decodes_prefixStats (p : String × UInt64 × UInt64) :
    Decodes (encodePrefixStats p) readPrefixStats (p.1, saturated p.2.1, saturated p.2.2) := by
  refine (decodes_readString _).bind ?_
  refine (decodes_encodeCount _).bind ?_
  exact (decodes_encodeCount _).map fun _ => rfl

/-- A count that the payload bears out is not saturated. -/
theorem decodesAll_prefixes {b : RuntimeStatsPayload}
    {f : List (String × Nat × Nat) → HRead RuntimeStatsPayload} (ps : List (String × UInt64 × UInt64))
    (hf : f (ps.map fun p => (p.1, saturated p.2.1, saturated p.2.2)) [] = .ok (b, [])) :
    DecodesAll (u32be (min ps.length (2 ^ 32 - 1)) ++ ps.flatMap encodePrefixStats)
      (HostReader.readU32 >>= fun count => Reader.times readPrefixStats count >>= f) b := by
  intro hlen
  have hle : ps.length ≤ (ps.flatMap encodePrefixStats).length := by
    refine length_le_flatMap (fun p => ?_) ps
    rw [encodePrefixStats, List.length_append]
    exact Nat.lt_of_lt_of_le (encodeString_pos p.1) (Nat.le_add_right _ _)
  have hcount : ps.length < 2 ^ 32 := by
    rw [List.length_append] at hlen
    omega
  rw [Nat.min_eq_left (by omega)] at hlen ⊢
  refine (decodes_u32 _ hcount).bind_all ?_ hlen
  exact (Decodes.times fun p _ => decodes_prefixStats p).last hf

theorem decodesAll_stats {s : RegistryStats} (h : s.Fits) :
    DecodesAll (encodeStatsPayload s) readStats s.decoded := by
  refine (decodes_encodeCount _).bind_all ?_
  refine (decodes_encodeCount _).bind_all ?_
  refine (decodes_encodeCount _).bind_all ?_
  refine (decodes_encodeCount _).bind_all ?_
  refine (decodes_readU64 h.idleHeapBytes).bind_all ?_
  refine (decodes_readU64 h.warmBudgetBytes).bind_all ?_
  refine (decodes_readU64 h.rssBytes).bind_all ?_
  refine (decodes_readU64 h.usageBytes).bind_all ?_
  refine (decodes_readU64 h.hardLineBytes).bind_all ?_
  refine (decodes_readBool _).bind_all ?_
  exact decodesAll_prefixes _ rfl

theorem decodesAll_precompiled (codec : ValueCodec V) (requestId : UInt32) (prefixId : String)
    (error : Option RunErrorPayload) :
    ∃ bytes, encodePrecompileResultPayload requestId (some prefixId) error = some bytes ∧
      DecodesAll bytes (readPrecompileResult codec) (.ok requestId.toNat prefixId) := by
  refine ⟨_, rfl, ?_⟩
  refine (decodes_readU32 _).bind_all ?_
  refine (decodes_readBool true).bind_all ?_
  refine (decodes_readU8 1).bind_all ?_
  refine (decodes_readString _).bind_all ?_
  exact (decodes_readU8 0).last rfl

theorem decodesAll_precompileFailed {fields : Option V} (requestId : UInt32) (e : RunErrorPayload)
    (hfields : codec.Gives (keptFields e.fields) fields) :
    ∃ bytes, encodePrecompileResultPayload requestId none (some e) = some bytes ∧
      DecodesAll bytes (readPrecompileResult codec) (.failed requestId.toNat e.text) := by
  refine ⟨_, rfl, ?_⟩
  refine (decodes_readU32 _).bind_all ?_
  refine (decodes_readBool false).bind_all ?_
  refine (decodes_readU8 0).bind_all ?_
  refine (decodes_readU8 1).bind_all ?_
  have happend := encodeRunErrorPayload_append e []
  simp only [List.append_nil] at happend
  rw [happend]
  refine (decodes_readErrorText _).bind_all ?_
  refine (decodes_readOptionalValueBlob hfields).bind_all ?_
  refine (decodes_readResetInfo _).bind_all ?_
  refine (decodes_readPrefixStage _).bind_all ?_
  exact (decodes_readErrorCause _).last rfl

/-! ### Bridge calls and their targets -/

/-- The wire form of a specifier and a path: the handler-map key. -/
def importKey (specifier : String) (path : List String) : Blob :=
  encodeString specifier ++ encodeStringList path

/-- The key of the client is the wire form of the runtime. -/
theorem encodeImportKey_of_fits {specifier : String} {path : List String}
    (hspecifier : (utf8 specifier).length < 2 ^ 32) (hcount : path.length < 2 ^ 32)
    (hsegments : ∀ s ∈ path, (utf8 s).length < 2 ^ 32) :
    encodeImportKey specifier path = some (importKey specifier path) := by
  have hstring : ∀ s, (utf8 s).length < 2 ^ 32 → PayloadWriter.writeString s = some (encodeString s) := by
    intro s hs
    rw [PayloadWriter.writeString, writeU32_fits hs]
    rfl
  have hlist : ∀ ss : List String, (∀ s ∈ ss, (utf8 s).length < 2 ^ 32) →
      Written.concat (ss.map PayloadWriter.writeString) = some (ss.flatMap encodeString) := by
    intro ss hss
    induction ss with
    | nil => rfl
    | cons s ss ih =>
      rw [List.map_cons, Written.concat, hstring s (hss s List.mem_cons_self),
        ih fun t ht => hss t (List.mem_cons_of_mem _ ht), List.flatMap_cons]
      rfl
  rw [encodeImportKey, hstring specifier hspecifier, hlist path hsegments, writeU32_fits hcount]
  rfl

theorem length_of_mem_strings {s : String} {ss : List String} (h : s ∈ ss) :
    (utf8 s).length + 4 ≤ (ss.flatMap encodeString).length := by
  induction ss with
  | nil => exact absurd h List.not_mem_nil
  | cons t ss ih =>
    rw [List.flatMap_cons, List.length_append, encodeString, List.length_append, u32be_length]
    rcases List.mem_cons.mp h with rfl | h
    · omega
    · have hle := ih h
      omega

theorem encodeImportKey_eq {specifier : String} {path : List String}
    (h : (importKey specifier path).length < 2 ^ 32) :
    encodeImportKey specifier path = some (importKey specifier path) := by
  have hle := length_le_strings path
  rw [importKey, encodeString, encodeStringList, List.length_append, List.length_append,
    List.length_append] at h
  refine encodeImportKey_of_fits (by omega) (by omega) fun s hs => ?_
  have hs' := length_of_mem_strings hs
  omega

theorem decodes_skipString (s : String) : Decodes (encodeString s) skipString () := by
  refine Decodes.block (fun h => decodes_u32 _ h) ?_
  exact (decodes_readRawBytes (utf8 s)).fmap fun _ => ()

theorem decodes_readImportKey (specifier : String) (path : List String) :
    Decodes (importKey specifier path) readImportKey (importKey specifier path) := by
  have hskip : Decodes (importKey specifier path) skipImportKey () := by
    refine (decodes_skipString specifier).bind ?_
    intro hlen
    have hle := length_le_strings path
    have hcount : path.length < 2 ^ 32 := by
      rw [encodeStringList, List.length_append] at hlen
      omega
    refine (decodes_u32 _ hcount).bind ?_ hlen
    have htimes : Decodes (path.flatMap encodeString) (Reader.times skipString path.length)
        (path.map fun _ => ()) := Decodes.times fun s _ => decodes_skipString s
    exact htimes.map fun _ => rfl
  intro hlen left
  show (skipImportKey (importKey specifier path ++ left) >>= _) = _
  rw [hskip hlen]
  simp [Bind.bind, Except.bind]

theorem decodeImportKey_importKey {specifier : String} {path : List String}
    (h : (importKey specifier path).length < 2 ^ 32) :
    decodeImportKey (importKey specifier path) = .ok (specifier, path) := by
  refine DecodesAll.run ?_ h
  refine (decodes_readString specifier).bind_all ?_
  exact (decodes_readStringList path).last rfl

def BridgeTarget.decoded : BridgeTarget → DecodedTarget
  | .global name => .global name
  | .import specifier path => .importKey (importKey specifier path)

theorem decodes_target (target : BridgeTarget) {f : DecodedTarget → HRead (BridgeCallInfo V)}
    {rest : Blob} {c : BridgeCallInfo V} (hf : DecodesAll rest (f target.decoded) c) :
    DecodesAll (encodeBridgeTarget target ++ rest)
      (HostReader.readU8 >>= fun targetKind =>
        if targetKind ≠ 0 ∧ targetKind ≠ 1 then
          Reader.fail (.error ("invalid bridge targetKind: " ++ toString targetKind.toNat))
        else readTarget targetKind >>= f) c := by
  cases target with
  | global name =>
    show DecodesAll ([0] ++ (([0] ++ encodeString name) ++ rest)) _ _
    refine (decodes_readU8 0).bind_all ?_
    have hread : Decodes ([0] ++ encodeString name) (readTarget 0) (.global name) := by
      refine (decodes_readU8 0).bind ?_
      exact (decodes_readString name).map fun _ => rfl
    exact hread.bind_all hf
  | «import» specifier path =>
    show DecodesAll ([1] ++ (([1] ++ importKey specifier path) ++ rest)) _ _
    refine (decodes_readU8 1).bind_all ?_
    have hread : Decodes ([1] ++ importKey specifier path) (readTarget 1)
        (.importKey (importKey specifier path)) := by
      refine (decodes_readU8 1).bind ?_
      exact (decodes_readImportKey specifier path).map fun _ => rfl
    exact hread.bind_all hf

/-- The header, and the arguments behind it. -/
theorem decodesAll_bridgeCall {args : Blob} {v : V} {argsBlobLen : UInt32} (runId callId : UInt32)
    (target : BridgeTarget) (hargs : args.length = argsBlobLen.toNat)
    (hvalue : codec.deserializeValue args = .ok v) (hkind : codec.kind v = .array)
    (hdense : codec.dense v args.length = true) :
    DecodesAll (encodeBridgeCallHeader runId callId target argsBlobLen ++ args) (readBridgeCall codec)
      ⟨runId.toNat, callId.toNat, target.decoded, v⟩ := by
  simp only [encodeBridgeCallHeader, List.append_assoc]
  refine (decodes_readU32 _).bind_all ?_
  refine (decodes_readU32 _).bind_all ?_
  refine decodes_target target ?_
  have hslot : encodeU32 argsBlobLen ++ args = encodeValueBlob args := by
    rw [encodeU32, encodeValueBlob, hargs]
  rw [hslot]
  refine (decodes_readValueBlob hvalue).last ?_
  show (checkArgs codec v args.length >>= fun x => Except.ok (x, [])) >>= _ = _
  rw [checkArgs, hkind, hdense]
  rfl

end Values

/-! ### What the peeks see -/

theorem peekU32_of_readU32 {left rest : Blob} {n : Nat} (h : HostReader.readU32 left = .ok (n, rest)) :
    peekU32 0 left = some n ∧ ∀ k, peekU32 (k + 4) left = peekU32 k rest := by
  obtain ⟨a, b, c, d, rfl, rfl⟩ := u32_ok h
  exact ⟨rfl, fun _ => rfl⟩

theorem trims_readU8 : Trims HostReader.readU8 := trims_u8 _

theorem trims_readU32 : Trims HostReader.readU32 := trims_u32 _

theorem trims_readF64 : Trims readF64 := (trims_u64 _).fmap _

theorem trims_readU64 : Trims readU64 := (trims_u64 _).bind fun n => (trims_fail _).ite (trims_pure n)

theorem trims_readOptionalU64 : Trims readOptionalU64 :=
  trims_readU8.bind fun _ => (trims_pure none).ite (trims_readU64.bind fun n => trims_pure (some n))

theorem trims_readRawBytes (len : Nat) : Trims (readRawBytes len) := by
  intro left a rest h
  unfold readRawBytes at h
  split at h
  · cases h
  · cases h
    exact List.drop_suffix len left

theorem trims_readString : Trims HostReader.readString :=
  trims_readU32.bind fun len => (trims_readRawBytes len).bind fun _ => trims_pure _

theorem trims_readStringList : Trims readStringList :=
  trims_readU32.bind fun count => trims_readString.times count

theorem trims_outcomeReason (droppedCallIds : List Nat) (callId : Nat) (outcome : UInt8) :
    Trims (outcomeReason droppedCallIds callId outcome) := by
  unfold outcomeReason
  split
  · exact trims_pure _
  · exact trims_pure _
  · exact trims_pure _
  · exact trims_pure _
  · exact trims_fail _

theorem trims_readBridgeCallRecord (droppedCallIds : List Nat) :
    Trims (readBridgeCallRecord droppedCallIds) :=
  trims_readString.bind fun _ => trims_readF64.bind fun _ => trims_readF64.bind fun _ =>
    trims_readU32.bind fun _ => trims_readU32.bind fun _ => trims_readU32.bind fun _ =>
      trims_readU8.bind fun _ => (trims_outcomeReason _ _ _).bind fun _ => trims_pure _

theorem trims_readBridgeCallRecords (droppedCallIds : List Nat) :
    Trims (readBridgeCallRecords droppedCallIds) :=
  trims_readU32.bind fun count => (trims_readBridgeCallRecord droppedCallIds).times count

section Peeks

variable {V : Type} {codec : ValueCodec V}

theorem trims_readValueBlob : Trims (HostReader.readValueBlob codec) :=
  trims_readU32.bind fun len => (trims_readRawBytes len).bind fun bytes =>
    (trims_lift (codec.deserializeValue bytes)).bind fun _ => trims_pure _

theorem readU8_ok {left rest : Blob} {b : UInt8} (h : HostReader.readU8 left = .ok (b, rest)) :
    left = b :: rest := by
  match left, h with
  | _ :: _, h =>
    cases h
    rfl

theorem readBool_ok {left rest : Blob} {ok : Bool} (h : HostReader.readBool left = .ok (ok, rest)) :
    ∃ b : UInt8, left = b :: rest ∧ ok = decide (b = 1) := by
  obtain ⟨b, mid, hb, hok⟩ := Reader.bind_ok h
  split at hok
  · cases hok
  · cases hok
    exact ⟨b, readU8_ok hb, rfl⟩

theorem assertDone_ok {left rest : Blob} {u : Unit} (h : HostReader.assertDone left = .ok (u, rest)) :
    left = [] := by
  match left, h with
  | [], _ => rfl

/-- The last two bytes of a success are its flags and an absence byte. -/
theorem closes_readSuccess (kind : ResultKind) (droppedCallIds : List Nat) (runId slotAllowance : Nat) :
    Closes (readSuccess codec kind droppedCallIds runId slotAllowance) fun d bs =>
      ∃ flags absent : UInt8, bs = [flags, absent] ∧ d.backgroundFlags = flags.toNat := by
  refine Closes.bind trims_readU8 fun _ => ?_
  split
  · intro left d rest h
    cases h
  · refine Closes.bind trims_readValueBlob fun _ => ?_
    refine Closes.bind trims_readStringList fun _ => ?_
    refine Closes.bind trims_readStringList fun _ => ?_
    refine Closes.bind trims_readStringList fun _ => ?_
    refine Closes.bind trims_readF64 fun _ => ?_
    refine Closes.bind trims_readF64 fun _ => ?_
    refine Closes.bind trims_readF64 fun _ => ?_
    refine Closes.bind (trims_readBridgeCallRecords _) fun _ => ?_
    refine Closes.bind trims_readOptionalU64 fun _ => ?_
    intro left d rest h
    obtain ⟨flags, mid, hflags, h⟩ := Reader.bind_ok h
    obtain ⟨absent, last, habsent, h⟩ := Reader.bind_ok h
    obtain ⟨u, done, hdone, h⟩ := Reader.bind_ok h
    obtain ⟨v, left', -, h⟩ := Reader.bind_ok h
    cases h
    obtain rfl := readU8_ok hflags
    obtain rfl := readU8_ok habsent
    obtain rfl := assertDone_ok hdone
    exact ⟨[flags, absent], List.suffix_refl _, flags, absent, rfl, rfl⟩

theorem yields_readSuccess (kind : ResultKind) (droppedCallIds : List Nat) (runId slotAllowance : Nat) :
    Yields (readSuccess codec kind droppedCallIds runId slotAllowance) fun d =>
      d.runId = runId ∧ d.slotAllowance = slotAllowance := by
  refine Yields.bind fun _ => Yields.ite (yields_fail _) ?_
  refine Yields.bind fun _ => Yields.bind fun _ => Yields.bind fun _ => Yields.bind fun _ => ?_
  refine Yields.bind fun _ => Yields.bind fun _ => Yields.bind fun _ => Yields.bind fun _ => ?_
  refine Yields.bind fun _ => Yields.bind fun _ => Yields.bind fun _ => Yields.bind fun _ => ?_
  exact Yields.bind fun _ => yields_pure ⟨rfl, rfl⟩

/-- A failure has no flags. -/
theorem yields_readFailure (droppedCallIds : List Nat) (runId slotAllowance : Nat) :
    Yields (readFailure codec droppedCallIds runId slotAllowance) fun d =>
      (d.runId = runId ∧ d.slotAllowance = slotAllowance) ∧ d.backgroundFlags = 0 := by
  refine Yields.bind fun _ => Yields.bind fun _ => Yields.ite (yields_fail _) ?_
  refine Yields.bind fun _ => Yields.bind fun _ => Yields.bind fun _ => Yields.bind fun _ => ?_
  refine Yields.bind fun _ => Yields.bind fun _ => Yields.bind fun _ => Yields.bind fun _ => ?_
  refine Yields.bind fun _ => Yields.bind fun _ => Yields.bind fun _ => Yields.bind fun _ => ?_
  exact Yields.bind fun _ => yields_pure ⟨⟨rfl, rfl⟩, rfl⟩

theorem getD_last_two (pre : Blob) (x y : UInt8) :
    (pre ++ [x, y]).getD ((pre ++ [x, y]).length - 2) 0 = x := by
  have hlen : (pre ++ [x, y]).length - 2 = pre.length := by simp
  rw [hlen]
  simp

/-- The peeks of a completion that decodes see its first two fields and its
flags. -/
theorem peeks_of_runCompletion {buf : Blob} {kind : ResultKind} {droppedCallIds : List Nat}
    {d : DecodedRunCompletion V} (h : decodeRunCompletionPayload codec buf kind droppedCallIds = .ok d) :
    peekRunCompletionRunId buf = some d.runId ∧ peekRunCompletionSlotAllowance buf = d.slotAllowance ∧
      peekRunCompletionBackgroundFlags buf = d.backgroundFlags := by
  obtain ⟨rest, h⟩ := Reader.run_ok h
  obtain ⟨runId, body, hrun, h⟩ := Reader.bind_ok h
  obtain ⟨slotAllowance, body, hslots, h⟩ := Reader.bind_ok h
  obtain ⟨ok, body, hok, h⟩ := Reader.bind_ok h
  obtain ⟨a, b, c, d', rfl, rfl⟩ := u32_ok hrun
  obtain ⟨e, f, g, i, rfl, rfl⟩ := u32_ok hslots
  obtain ⟨okByte, rfl, rfl⟩ := readBool_ok hok
  cases hone : decide (okByte = 1) with
  | true =>
    rw [hone] at h
    obtain ⟨hid, hallowed⟩ := yields_readSuccess _ _ _ _ _ _ _ h
    obtain ⟨bs, ⟨pre, rfl⟩, flags, absent, rfl, hflags⟩ := closes_readSuccess _ _ _ _ _ _ _ h
    refine ⟨congrArg some hid.symm, hallowed.symm, ?_⟩
    rw [hflags, of_decide_eq_true hone, peekRunCompletionBackgroundFlags,
      if_neg (by simp only [List.length_cons, List.length_append]; omega)]
    have hflag : (a :: b :: c :: d' :: e :: f :: g :: i :: 1 :: (pre ++ [flags, absent])).getD
        ((a :: b :: c :: d' :: e :: f :: g :: i :: 1 :: (pre ++ [flags, absent])).length - 2) 0 =
          flags := by
      have hcons : a :: b :: c :: d' :: e :: f :: g :: i :: 1 :: (pre ++ [flags, absent]) =
          (a :: b :: c :: d' :: e :: f :: g :: i :: 1 :: pre) ++ [flags, absent] := rfl
      rw [hcons]
      exact getD_last_two _ _ _
    rw [hflag]
    rfl
  | false =>
    rw [hone] at h
    obtain ⟨⟨hid, hallowed⟩, hflags⟩ := yields_readFailure _ _ _ _ _ _ h
    refine ⟨congrArg some hid.symm, hallowed.symm, ?_⟩
    rw [hflags, peekRunCompletionBackgroundFlags]
    split
    · rfl
    · exact if_neg fun hb => of_decide_eq_false hone (Option.some.inj hb)

theorem peek_of_precompileResult {buf : Blob} {r : PrecompileResult}
    (h : decodePrecompileResultPayload codec buf = .ok r) :
    peekPrecompileResultRequestId buf = some r.requestId := by
  obtain ⟨rest, h⟩ := Reader.run_ok h
  obtain ⟨requestId, body, hid, h⟩ := Reader.bind_ok h
  have hyields : Yields (HostReader.readBool >>= fun ok =>
      if ok then readPrecompileSuccess requestId else readPrecompileFailure codec requestId)
      fun r => r.requestId = requestId := by
    refine Yields.bind fun _ => Yields.ite ?_ ?_
    · refine Yields.bind fun _ => Yields.ite (yields_fail _) ?_
      exact Yields.bind fun _ => Yields.bind fun _ => Yields.bind fun _ => yields_pure rfl
    · refine Yields.bind fun _ => Yields.bind fun _ => Yields.ite (yields_fail _) ?_
      refine Yields.bind fun _ => Yields.bind fun _ => Yields.bind fun _ => ?_
      exact Yields.bind fun _ => Yields.bind fun _ => Yields.bind fun _ => yields_pure rfl
  rw [hyields _ _ _ h]
  exact (peekU32_of_readU32 hid).1

theorem peeks_of_bridgeCall {buf : Blob} {c : BridgeCallInfo V}
    (h : decodeBridgeCallPayload codec buf = .ok c) :
    peekBridgeCallRunId buf = some c.runId ∧ peekBridgeCallId buf = some c.callId := by
  obtain ⟨rest, h⟩ := Reader.run_ok h
  obtain ⟨runId, body, hrun, h⟩ := Reader.bind_ok h
  obtain ⟨callId, body', hcall, h⟩ := Reader.bind_ok h
  obtain ⟨targetKind, left, -, h⟩ := Reader.bind_ok h
  have hyields : Yields (if targetKind ≠ 0 ∧ targetKind ≠ 1 then
      Reader.fail (.error ("invalid bridge targetKind: " ++ toString targetKind.toNat))
      else readTarget targetKind >>= fun target => HostReader.readValueBlob codec >>= fun p =>
        StateT.lift (checkArgs codec p.1 p.2) >>= fun args =>
          pure (⟨runId, callId, target, args⟩ : BridgeCallInfo V))
      fun c => c.runId = runId ∧ c.callId = callId := by
    refine Yields.ite (yields_fail _) ?_
    exact Yields.bind fun _ => Yields.bind fun _ => Yields.bind fun _ => yields_pure ⟨rfl, rfl⟩
  obtain ⟨hr, hc⟩ := hyields _ _ _ h
  obtain ⟨hpeek, hskip⟩ := peekU32_of_readU32 hrun
  refine ⟨hpeek.trans (congrArg some hr.symm), ?_⟩
  rw [peekBridgeCallId, hskip 0, (peekU32_of_readU32 hcall).1, hc]

end Peeks

/-- The host decodes what the runtime encodes: every field of a completion, a grace
report, a snapshot, a precompile result and a bridge call, with error texts cut,
oversized error properties dropped and counts saturated; and the peeks of the
router see the fields that the decoders see. -/
theorem runtime_to_host_roundtrip {V : Type} (codec : ValueCodec V) :
    (∀ (slotAllowance runId : UInt32) (s : RunSuccessPayload) (kind : ResultKind)
        (droppedCallIds : List Nat) (v : V),
      codec.deserializeValue s.exports = .ok v → (kind = .exports → codec.kind v = .object) →
      HeapFits s.heapUsedBytes →
      (encodeRunCompletionPayload slotAllowance runId (.success s)).length < 2 ^ 32 →
      decodeRunCompletionPayload codec (encodeRunCompletionPayload slotAllowance runId (.success s)) kind
          droppedCallIds =
        .ok ⟨runId.toNat, slotAllowance.toNat, s.backgroundFlags.toNat,
          s.decoded kind droppedCallIds v⟩) ∧
    (∀ (slotAllowance runId : UInt32) (f : RunFailurePayload) (kind : ResultKind)
        (droppedCallIds : List Nat) (fields : Option V),
      codec.Gives (keptFields f.error.fields) fields → HeapFits f.heapUsedBytes →
      (encodeRunCompletionPayload slotAllowance runId (.failure f)).length < 2 ^ 32 →
      decodeRunCompletionPayload codec (encodeRunCompletionPayload slotAllowance runId (.failure f)) kind
          droppedCallIds =
        .ok ⟨runId.toNat, slotAllowance.toNat, 0, f.decoded droppedCallIds fields⟩) ∧
    (∀ (runId : UInt32) (r : GraceReport) (droppedCallIds : List Nat),
      (encodeRunCompletePayload runId r).length < 2 ^ 32 →
      decodeRunCompletePayload (encodeRunCompletePayload runId r) droppedCallIds =
        .ok (r.decoded droppedCallIds runId)) ∧
    (∀ s : RegistryStats, s.Fits → (encodeStatsPayload s).length < 2 ^ 32 →
      decodeStatsPayload (encodeStatsPayload s) = .ok s.decoded) ∧
    (∀ (requestId : UInt32) (prefixId : String) (error : Option RunErrorPayload),
      ∃ bytes, encodePrecompileResultPayload requestId (some prefixId) error = some bytes ∧
        (bytes.length < 2 ^ 32 →
          decodePrecompileResultPayload codec bytes = .ok (.ok requestId.toNat prefixId))) ∧
    (∀ (requestId : UInt32) (e : RunErrorPayload) (fields : Option V),
      codec.Gives (keptFields e.fields) fields →
      ∃ bytes, encodePrecompileResultPayload requestId none (some e) = some bytes ∧
        (bytes.length < 2 ^ 32 →
          decodePrecompileResultPayload codec bytes = .ok (.failed requestId.toNat e.text))) ∧
    (∀ (runId callId argsBlobLen : UInt32) (target : BridgeTarget) (args : Blob) (v : V),
      args.length = argsBlobLen.toNat → codec.deserializeValue args = .ok v →
      codec.kind v = .array → codec.dense v args.length = true →
      (encodeBridgeCallHeader runId callId target argsBlobLen ++ args).length < 2 ^ 32 →
      decodeBridgeCallPayload codec (encodeBridgeCallHeader runId callId target argsBlobLen ++ args) =
        .ok ⟨runId.toNat, callId.toNat, target.decoded, v⟩) ∧
    (∀ (specifier : String) (path : List String), (importKey specifier path).length < 2 ^ 32 →
      encodeImportKey specifier path = some (importKey specifier path) ∧
        decodeImportKey (importKey specifier path) = .ok (specifier, path)) ∧
    (∀ (buf : Blob) (kind : ResultKind) (droppedCallIds : List Nat) (d : DecodedRunCompletion V),
      decodeRunCompletionPayload codec buf kind droppedCallIds = .ok d →
      peekRunCompletionRunId buf = some d.runId ∧ peekRunCompletionSlotAllowance buf = d.slotAllowance ∧
        peekRunCompletionBackgroundFlags buf = d.backgroundFlags) ∧
    (∀ (buf : Blob) (c : BridgeCallInfo V), decodeBridgeCallPayload codec buf = .ok c →
      peekBridgeCallRunId buf = some c.runId ∧ peekBridgeCallId buf = some c.callId) ∧
    ∀ (buf : Blob) (r : PrecompileResult), decodePrecompileResultPayload codec buf = .ok r →
      peekPrecompileResultRequestId buf = some r.requestId := by
  refine ⟨?_, ?_, ?_, ?_, ?_, ?_, ?_, ?_, ?_, ?_, ?_⟩
  · intro slotAllowance runId s kind droppedCallIds v hvalue hkind hheap hlen
    exact (decodesAll_success slotAllowance runId s hvalue hkind hheap).run hlen
  · intro slotAllowance runId f kind droppedCallIds fields hfields hheap hlen
    exact (decodesAll_failure slotAllowance runId f hfields hheap).run hlen
  · intro runId r droppedCallIds hlen
    exact (decodesAll_runComplete droppedCallIds runId r).run hlen
  · intro s hs hlen
    exact (decodesAll_stats hs).run hlen
  · intro requestId prefixId error
    obtain ⟨bytes, hbytes, hread⟩ := decodesAll_precompiled codec requestId prefixId error
    exact ⟨bytes, hbytes, hread.run⟩
  · intro requestId e fields hfields
    obtain ⟨bytes, hbytes, hread⟩ := decodesAll_precompileFailed requestId e hfields
    exact ⟨bytes, hbytes, hread.run⟩
  · intro runId callId argsBlobLen target args v hargs hvalue hkind hdense hlen
    exact (decodesAll_bridgeCall runId callId target hargs hvalue hkind hdense).run hlen
  · exact fun specifier path hlen => ⟨encodeImportKey_eq hlen, decodeImportKey_importKey hlen⟩
  · exact fun buf kind droppedCallIds d => peeks_of_runCompletion
  · exact fun buf c => peeks_of_bridgeCall
  · exact fun buf r => peek_of_precompileResult

/-- A codec that keeps the blob, as an object. -/
def blobCodec : ValueCodec Blob where
  deserializeValue := .ok
  kind _ := .object
  dense _ _ := true

/-- A run with a clamped stack, a reset and a prefix cause. -/
def sampleFailure : RunFailurePayload where
  stdout := ["a line"]
  stderr := []
  durationMs := 0
  wallTimeMs := 0
  cpuTimeMs := 0
  bridgeCalls := [⟨"fetch", 0, 0, 1, 2, 3, .unanswered⟩]
  heapUsedBytes := some 5
  error :=
    { code := "ERR_PREFIX_BROKEN", name := "Error", message := "boom", stack := some "at f",
      fields := some [1], reset := some ⟨.wall, 9⟩, prefixStage := true,
      cause := some
        { code := "ERR_RUNTIME", name := "Error", message := "first", stack := none, fields := none,
          reset := none, prefixStage := true, cause := none } }

theorem roundtrip_sampleFailure :
    decodeRunCompletionPayload blobCodec (encodeRunCompletionPayload 4 7 (.failure sampleFailure)) .call
      [3] = .ok ⟨7, 4, 0, sampleFailure.decoded [3] (some [1])⟩ :=
  (runtime_to_host_roundtrip blobCodec).2.1 4 7 sampleFailure .call [3] (some [1])
    (Option.Rel.some rfl) (by intro n hn; cases hn; decide) (by decide +kernel)

/-- A snapshot with more one-off runs than 32 bits count. -/
def crowdedStats : RegistryStats where
  oneoffRunning := 4294967296
  warmBusy := 0
  warmRuns := 0
  warmIdle := 0
  idleHeapBytes := 0
  perPrefix := []
  warmBudgetBytes := 0
  rssBytes := 0
  usageBytes := 0
  hardLineBytes := 0
  underPressure := false

/-- A failure whose error properties are over the bound. -/
def bulkyFailure : RunFailurePayload where
  stdout := []
  stderr := []
  durationMs := 0
  wallTimeMs := 0
  cpuTimeMs := 0
  bridgeCalls := []
  heapUsedBytes := none
  error :=
    { code := "", name := "", message := "", stack := none,
      fields := some (List.replicate (maxErrorFieldsBytes + 1) 0), reset := none, prefixStage := false,
      cause := none }

/-- Not every field comes back: a count saturates, and oversized error properties
are dropped. -/
theorem fields_lost :
    (¬ ∀ s : RegistryStats, s.Fits → ∃ d, decodeStatsPayload (encodeStatsPayload s) = .ok d ∧
      d.oneoffRunning = s.oneoffRunning.toNat) ∧
    ¬ ∀ f : RunFailurePayload, ∃ error cause telemetry heap,
      decodeRunCompletionPayload blobCodec (encodeRunCompletionPayload 0 1 (.failure f)) .call [] =
        .ok ⟨1, 0, 0, .failed error cause telemetry heap⟩ ∧ error.fields = f.error.fields := by
  constructor
  · intro h
    have hfits : crowdedStats.Fits := by constructor <;> decide
    obtain ⟨d, hd, hcount⟩ := h crowdedStats hfits
    rw [decodeStatsPayload, (decodesAll_stats hfits).run (by decide)] at hd
    cases hd
    exact absurd hcount (by decide)
  · intro h
    obtain ⟨error, cause, telemetry, heap, hd, hfields⟩ := h bulkyFailure
    have hkept : keptFields bulkyFailure.error.fields = none := by
      simp [keptFields, bulkyFailure]
    have hgives : blobCodec.Gives (keptFields bulkyFailure.error.fields) none := by
      rw [hkept]
      exact Option.Rel.none
    have hlen : (encodeRunCompletionPayload 0 1 (.failure bulkyFailure)).length < 2 ^ 32 := by
      rw [encodeRunCompletionPayload, encodeRunErrorPayload, hkept]
      decide
    have hheap : HeapFits bulkyFailure.heapUsedBytes := nofun
    rw [decodeRunCompletionPayload, (decodesAll_failure 0 1 bulkyFailure hgives hheap).run hlen] at hd
    cases hd
    cases hfields

end Ipc

end Iso4
