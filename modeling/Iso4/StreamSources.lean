/-
The body sources of one run on the host: registration, descriptors and pumps
(`packages/iso4-sandbox/src/web-codec.ts`, `client.ts`).

A value that is sent to the sandbox may hold several bodies; each one that outgrows
the probe registers a source while the value is being serialized.  The frame that
carries the descriptors is written when serialization is over, and once it is
written the pumps of all sources registered so far are started.  Handlers of one
run do this concurrently on one registry.

* `descriptor_first` — no stream data before its descriptor, in runs where no
  other serialization holds registered sources when pumps are started;
* `data_before_descriptor` — a concurrent response starts the pump too early.
-/
import Iso4.InCredit

namespace Iso4

/-! ### The registry -/

/-- `STREAM_PROBE_BYTES`. -/
def streamProbeBytes : Nat := 64 * 1024

/-- A frame the host writes for the run; descriptors are the stream ids in its
payload. -/
inductive HostFrame where
  /-- `Run` or `PrefixRun`. -/
  | request (ids : List Nat)
  /-- `BridgeResponse` with a value. -/
  | response (callId : Nat) (ids : List Nat)
  /-- `BridgeResponse` with an error. -/
  | refusal (callId : Nat)
  | stream (id : Nat) (frame : ToRuntime)
  deriving DecidableEq

def HostFrame.descriptors : HostFrame → List Nat
  | .request ids => ids
  | .response _ ids => ids
  | _ => []

/-- Where the answer to a bridge call stands.  `ids` are the sources that its value
registered. -/
inductive CallPhase where
  | idle
  | serializing (ids : List Nat)
  /-- Serialization threw; the registered sources stay. -/
  | failed (ids : List Nat)
  /-- The response is written, the write has not resolved. -/
  | sending (ids : List Nat)
  | answered
  deriving DecidableEq

/-- The sources of a value whose frame is not written. -/
def CallPhase.pending : CallPhase → List Nat
  | .serializing ids => ids
  | .failed ids => ids
  | _ => []

structure StreamRun where
  nextId : Nat
  sources : Nat → Option HostSource
  newIds : List Nat
  calls : Nat → CallPhase
  /-- The write of the request has not resolved. -/
  requestSending : Bool
  wire : List HostFrame
  /-- The run is in the client's table. -/
  live : Bool

inductive StreamRunOp where
  | requestWritten
  /-- A handler resolved; its value is serialized. -/
  | serialize (callId : Nat)
  /-- A body of the value has been probed. -/
  | probed (callId : Nat) (chunks : List (List UInt8))
  | serialized (callId : Nat)
  | serializeThrew (callId : Nat)
  | handlerRejected (callId : Nat)
  | responseWritten (callId : Nat)
  | readResolves (id : Nat) (r : ReaderResult)
  | writeResolves (id : Nat)
  /-- A frame of the runtime for a stream. -/
  | receive (id : Nat) (m : ToHost)
  /-- The final frame of the run, or a teardown. -/
  | finished

namespace StreamRun

/-- `register`. -/
def register (st : StreamRun) (chunks : List (List UInt8)) : StreamRun :=
  { st with
    nextId := st.nextId + 1
    sources := Function.update st.sources st.nextId (some ⟨chunks, 0, .idle, false, true⟩)
    newIds := st.newIds ++ [st.nextId] }

/-- `releaseAll`. -/
def releaseAll (st : StreamRun) : StreamRun :=
  { st with sources := fun id => (st.sources id).map HostSource.release, newIds := [] }

def setCall (st : StreamRun) (callId : Nat) (phase : CallPhase) : StreamRun :=
  { st with calls := Function.update st.calls callId phase }

def write (st : StreamRun) (frame : HostFrame) : StreamRun := { st with wire := st.wire ++ [frame] }

/-- Act on a source and write the frames it sends. -/
def onSource (st : StreamRun) (id : Nat) (f : HostSource → HostSource × List ToRuntime) : StreamRun :=
  match st.sources id with
  | none => st
  | some s =>
    { st with sources := Function.update st.sources id (some (f s).1)
              wire := st.wire ++ (f s).2.map (.stream id) }

/-- Seed the credit of a source and start its pump. -/
def activateSource (s : HostSource) : HostSource × List ToRuntime :=
  if s.registered then { s with credit := streamCreditWindowBytes }.pumpStream else (s, [])

/-- `activateStreams`: the pumps of everything registered since the last time. -/
def activateStreams (st : StreamRun) : StreamRun :=
  st.newIds.foldl (fun st id => st.onSource id activateSource) { st with newIds := [] }

/-- The descriptor of the stream has been written. -/
def Described (st : StreamRun) (id : Nat) : Prop := ∃ f ∈ st.wire, id ∈ f.descriptors

instance (st : StreamRun) (id : Nat) : Decidable (st.Described id) :=
  inferInstanceAs (Decidable (∃ f ∈ st.wire, id ∈ f.descriptors))

/-- The request is written with the sources of its arguments. -/
def launch (args : List (List (List UInt8))) : StreamRun :=
  let st : StreamRun := args.foldl register ⟨1, fun _ => none, [], fun _ => .idle, true, [], true⟩
  st.write (.request st.newIds)

def step (st : StreamRun) : StreamRunOp → StreamRun
  | .requestWritten =>
    if st.requestSending then { st with requestSending := false }.activateStreams else st
  | .serialize callId =>
    match st.calls callId with
    | .idle => st.setCall callId (.serializing [])
    | _ => st
  | .probed callId chunks =>
    match st.calls callId with
    | .serializing ids =>
      -- A body within the probe goes inline.
      if streamProbeBytes < (chunks.map List.length).sum then
        (st.register chunks).setCall callId (.serializing (ids ++ [st.nextId]))
      else st
    | _ => st
  | .serialized callId =>
    match st.calls callId with
    | .serializing ids => (st.write (.response callId ids)).setCall callId (.sending ids)
    | _ => st
  | .serializeThrew callId =>
    match st.calls callId with
    | .serializing ids => (st.write (.refusal callId)).setCall callId (.failed ids)
    | _ => st
  | .handlerRejected callId =>
    match st.calls callId with
    | .idle => (st.write (.refusal callId)).setCall callId .answered
    | _ => st
  | .responseWritten callId =>
    match st.calls callId with
    | .sending _ =>
      let st := st.setCall callId .answered
      if st.live then st.activateStreams else st.releaseAll
    | _ => st
  | .readResolves id r =>
    st.onSource id fun s => if s.pump = .reading then s.readResolves r else (s, [])
  | .writeResolves id => st.onSource id fun s => if s.pump = .writing then s.loop else (s, [])
  -- The runtime knows a stream from its descriptor.
  | .receive id m => if st.Described id ∧ st.live then st.onSource id (·.receive m) else st
  | .finished => { st.releaseAll with live := false }

/-! ### Descriptors come first -/

/-- Every stream frame comes after a frame with its descriptor. -/
def Ordered (wire : List HostFrame) : Prop :=
  ∀ before id f after, wire = before ++ .stream id f :: after → ∃ g ∈ before, id ∈ g.descriptors

theorem Ordered.append {wire new : List HostFrame} (h : Ordered wire)
    (hnew : ∀ id f, .stream id f ∈ new → ∃ g ∈ wire, id ∈ g.descriptors) : Ordered (wire ++ new) := by
  intro before id f after he
  rcases List.append_eq_append_iff.mp he with ⟨as, rfl, htail⟩ | ⟨bs, hwire, hnew'⟩
  · obtain ⟨g, hg, hid⟩ := hnew id f (by rw [htail]; simp)
    exact ⟨g, List.mem_append_left _ hg, hid⟩
  · rcases List.cons_eq_append_iff.mp hnew' with ⟨rfl, hnew'⟩ | ⟨bs', rfl, -⟩
    · obtain ⟨g, hg, hid⟩ := hnew id f (by rw [← List.nil_append new, ← hnew']; simp)
      rw [List.append_nil] at hwire
      exact ⟨g, hwire ▸ hg, hid⟩
    · exact h before id f bs' hwire

theorem ordered_descriptors {wire : List HostFrame} (h : ∀ id f, .stream id f ∉ wire) : Ordered wire := by
  intro before id f after he
  exact absurd (by rw [he]; simp) (h id f)

/-- A source whose descriptor is not written has not been pumped, and belongs to a
value whose frame is not written. -/
structure Inv (st : StreamRun) : Prop where
  fresh : ∀ id s, st.sources id = some s → id < st.nextId
  quiet : ∀ id s, st.sources id = some s → st.Described id ∨ s.pump = .idle
  owned : ∀ id s, st.sources id = some s → st.Described id ∨ ∃ c, id ∈ (st.calls c).pending
  ordered : Ordered st.wire

theorem Described.mono {st st' : StreamRun} {id : Nat} (hw : st.wire <+: st'.wire)
    (h : st.Described id) : st'.Described id := by
  obtain ⟨f, hf, hid⟩ := h
  exact ⟨f, hw.subset hf, hid⟩

theorem onSource_calls (st : StreamRun) (id : Nat) (f : HostSource → HostSource × List ToRuntime) :
    (st.onSource id f).calls = st.calls := by
  unfold onSource
  split <;> rfl

theorem onSource_described (st : StreamRun) (id : Nat) (f : HostSource → HostSource × List ToRuntime)
    (n : Nat) (h : st.Described n) : (st.onSource id f).Described n := by
  refine h.mono ?_
  unfold onSource
  split
  · exact List.prefix_rfl
  · exact List.prefix_append _ _

theorem onSource_none {st : StreamRun} {n : Nat} (id : Nat)
    (f : HostSource → HostSource × List ToRuntime) (hn : st.sources n = none) :
    (st.onSource id f).sources n = none := by
  unfold onSource
  split
  · exact hn
  · next s hs =>
    have hne : n ≠ id := by
      rintro rfl
      rw [hn] at hs
      cases hs
    simp [Function.update_of_ne hne, hn]

/-- Acting on a source with a descriptor, or not acting. -/
theorem Inv.onSource {st : StreamRun} {id : Nat} {f : HostSource → HostSource × List ToRuntime}
    (h : st.Inv) (hf : ∀ s, st.sources id = some s → st.Described id ∨ f s = (s, [])) :
    (st.onSource id f).Inv := by
  cases hs : st.sources id with
  | none =>
    have heq : st.onSource id f = st := by simp [StreamRun.onSource, hs]
    rw [heq]
    exact h
  | some s =>
    rcases hf s hs with hd | hnone
    · have heq : st.onSource id f = { st with
          sources := Function.update st.sources id (some (f s).1)
          wire := st.wire ++ (f s).2.map (.stream id) } := by
        simp [StreamRun.onSource, hs]
      have hmono : ∀ n, st.Described n → (st.onSource id f).Described n :=
        onSource_described st id f
      rw [heq] at hmono ⊢
      refine ⟨?_, ?_, ?_, ?_⟩
      · intro n t ht
        by_cases hn : n = id
        · subst hn
          exact h.fresh n s hs
        · exact h.fresh n t (by simpa [Function.update_of_ne hn] using ht)
      · intro n t ht
        by_cases hn : n = id
        · subst hn
          exact .inl (hmono n hd)
        · exact (h.quiet n t (by simpa [Function.update_of_ne hn] using ht)).imp_left (hmono n)
      · intro n t ht
        by_cases hn : n = id
        · subst hn
          exact .inl (hmono n hd)
        · exact (h.owned n t (by simpa [Function.update_of_ne hn] using ht)).imp_left (hmono n)
      · refine h.ordered.append fun n g hg => ?_
        obtain ⟨_, _, hinj⟩ := List.mem_map.mp hg
        obtain ⟨rfl, -⟩ := HostFrame.stream.inj hinj
        exact hd
    · have heq : st.onSource id f = st := by
        simp only [StreamRun.onSource, hs, hnone, List.map_nil, List.append_nil]
        rw [← hs, Function.update_eq_self]
      rw [heq]
      exact h

/-- With every source described, any of them may be started. -/
theorem Inv.activateAll {st : StreamRun} (ids : List Nat) (h : st.Inv)
    (hall : ∀ id s, st.sources id = some s → st.Described id) :
    (ids.foldl (fun st id => st.onSource id activateSource) st).Inv := by
  induction ids generalizing st with
  | nil => exact h
  | cons id ids ih =>
    refine ih (h.onSource fun s hs => .inl (hall id s hs)) ?_
    intro n t ht
    refine onSource_described st id activateSource n ?_
    cases hn : st.sources n with
    | some s => exact hall n s hn
    | none =>
      rw [onSource_none id activateSource hn] at ht
      cases ht

/-- A step that leaves the sources alone and writes no stream frame. -/
theorem Inv.frame {st st' : StreamRun} (h : st.Inv) (hsources : st'.sources = st.sources)
    (hnext : st.nextId ≤ st'.nextId) {new : List HostFrame} (hwire : st'.wire = st.wire ++ new)
    (hnew : ∀ id f, .stream id f ∉ new)
    (hcalls : ∀ id c, id ∈ (st.calls c).pending →
      st'.Described id ∨ ∃ c', id ∈ (st'.calls c').pending) : st'.Inv := by
  have hmono : ∀ n, st.Described n → st'.Described n :=
    fun n hd => hd.mono (by rw [hwire]; exact List.prefix_append _ _)
  refine ⟨?_, ?_, ?_, ?_⟩
  · intro id s hs
    rw [hsources] at hs
    exact Nat.lt_of_lt_of_le (h.fresh id s hs) hnext
  · intro id s hs
    rw [hsources] at hs
    exact (h.quiet id s hs).imp_left (hmono id)
  · intro id s hs
    rw [hsources] at hs
    rcases h.owned id s hs with hd | ⟨c, hc⟩
    · exact .inl (hmono id hd)
    · exact hcalls id c hc
  · rw [hwire]
    exact h.ordered.append fun id f hf => absurd hf (hnew id f)

/-- Moving a call on, when its pending sources stay pending or are described. -/
theorem pending_setCall {st st' : StreamRun} {callId : Nat} {phase : CallPhase}
    (hcalls : st'.calls = Function.update st.calls callId phase)
    (hphase : ∀ id ∈ (st.calls callId).pending, st'.Described id ∨ id ∈ phase.pending) :
    ∀ id c, id ∈ (st.calls c).pending → st'.Described id ∨ ∃ c', id ∈ (st'.calls c').pending := by
  intro id c hc
  rw [hcalls]
  by_cases hcc : c = callId
  · subst hcc
    refine (hphase id hc).imp_right fun hp => ⟨c, ?_⟩
    rwa [Function.update_self]
  · exact .inr ⟨c, by rwa [Function.update_of_ne hcc]⟩

theorem Inv.releaseAll {st : StreamRun} (h : st.Inv) : st.releaseAll.Inv := by
  have hsource : ∀ id s, st.releaseAll.sources id = some s →
      ∃ s₀, st.sources id = some s₀ ∧ s.pump = s₀.pump := by
    intro id s hs
    obtain ⟨s₀, hs₀, rfl⟩ := Option.map_eq_some_iff.mp hs
    refine ⟨s₀, hs₀, ?_⟩
    unfold HostSource.release
    split <;> rfl
  refine ⟨?_, ?_, ?_, h.ordered⟩
  · intro id s hs
    obtain ⟨s₀, hs₀, -⟩ := hsource id s hs
    exact h.fresh id s₀ hs₀
  · intro id s hs
    obtain ⟨s₀, hs₀, hp⟩ := hsource id s hs
    rw [hp]
    exact h.quiet id s₀ hs₀
  · intro id s hs
    obtain ⟨s₀, hs₀, -⟩ := hsource id s hs
    exact h.owned id s₀ hs₀

/-- Starting pumps while no unwritten value holds sources. -/
theorem Inv.activateStreams {st : StreamRun} (h : st.Inv) (hidle : ∀ c, (st.calls c).pending = []) :
    st.activateStreams.Inv := by
  have hinv : Inv { st with newIds := [] } := ⟨h.fresh, h.quiet, h.owned, h.ordered⟩
  refine hinv.activateAll st.newIds fun id s hs => ?_
  rcases h.owned id s hs with hd | ⟨c, hc⟩
  · exact hd
  · rw [hidle c] at hc
    cases hc

/-- A registered source belongs to its value. -/
theorem Inv.register {st : StreamRun} {callId : Nat} {ids : List Nat} (h : st.Inv)
    (hcall : st.calls callId = .serializing ids) (chunks : List (List UInt8)) :
    ((st.register chunks).setCall callId (.serializing (ids ++ [st.nextId]))).Inv := by
  have hmoved : ∀ id c, id ∈ (st.calls c).pending →
      ∃ c', id ∈ (Function.update st.calls callId (.serializing (ids ++ [st.nextId])) c').pending := by
    intro id c hc
    by_cases hcc : c = callId
    · subst hcc
      refine ⟨c, ?_⟩
      rw [hcall] at hc
      rw [Function.update_self]
      exact List.mem_append_left _ hc
    · exact ⟨c, by rwa [Function.update_of_ne hcc]⟩
  have hold : ∀ id s, id ≠ st.nextId →
      ((st.register chunks).setCall callId (.serializing (ids ++ [st.nextId]))).sources id = some s →
      st.sources id = some s := by
    intro id s hne hs
    simpa [StreamRun.register, setCall, Function.update_of_ne hne] using hs
  refine ⟨?_, ?_, ?_, h.ordered⟩
  · intro id s hs
    by_cases hid : id = st.nextId
    · subst hid
      exact Nat.lt_succ_self _
    · exact Nat.lt_succ_of_lt (h.fresh id s (hold id s hid hs))
  · intro id s hs
    by_cases hid : id = st.nextId
    · subst hid
      obtain rfl : _ = s := by simpa [StreamRun.register, setCall] using hs
      exact .inr rfl
    · exact h.quiet id s (hold id s hid hs)
  · intro id s hs
    by_cases hid : id = st.nextId
    · subst hid
      refine .inr ⟨callId, ?_⟩
      show _ ∈ (Function.update st.calls callId _ callId).pending
      rw [Function.update_self]
      exact List.mem_append_right _ (List.mem_singleton_self _)
    · rcases h.owned id s (hold id s hid hs) with hd | ⟨c, hc⟩
      · exact .inl hd
      · exact .inr (hmoved id c hc)

/-- When pumps are started, no other value of the run holds registered sources whose
frame is not written: none is being serialized, and none failed to. -/
def Settled (st : StreamRun) : StreamRunOp → Prop
  | .requestWritten => ∀ c, (st.calls c).pending = []
  | .responseWritten _ => st.live = true → ∀ c, (st.calls c).pending = []
  | _ => True

theorem inv_step {st : StreamRun} (op : StreamRunOp) (h : st.Inv) (hop : st.Settled op) :
    (st.step op).Inv := by
  cases op with
  | requestWritten =>
    simp only [step]
    split
    · have hinv : Inv { st with requestSending := false } := ⟨h.fresh, h.quiet, h.owned, h.ordered⟩
      exact hinv.activateStreams hop
    · exact h
  | serialize callId =>
    simp only [step]
    split
    · next hcall =>
      refine h.frame rfl (Nat.le_refl _) (List.append_nil _).symm (by simp)
        (pending_setCall rfl ?_)
      rw [hcall]
      simp [CallPhase.pending]
    · exact h
  | probed callId chunks =>
    simp only [step]
    split
    · next ids hcall =>
      split
      · exact h.register hcall chunks
      · exact h
    · exact h
  | serialized callId =>
    simp only [step]
    split
    · next ids hcall =>
      refine h.frame rfl (Nat.le_refl _) rfl (by simp) (pending_setCall rfl ?_)
      intro id hid
      rw [hcall] at hid
      exact .inl ⟨.response callId ids, by simp [write, setCall], hid⟩
    · exact h
  | serializeThrew callId =>
    simp only [step]
    split
    · next ids hcall =>
      refine h.frame rfl (Nat.le_refl _) rfl (by simp) (pending_setCall rfl ?_)
      intro id hid
      rw [hcall] at hid
      exact .inr hid
    · exact h
  | handlerRejected callId =>
    simp only [step]
    split
    · next hcall =>
      refine h.frame rfl (Nat.le_refl _) rfl (by simp) (pending_setCall rfl ?_)
      rw [hcall]
      simp [CallPhase.pending]
    · exact h
  | responseWritten callId =>
    simp only [step]
    split
    · next ids hcall =>
      have hinv : (st.setCall callId .answered).Inv := by
        refine h.frame rfl (Nat.le_refl _) (List.append_nil _).symm (by simp) (pending_setCall rfl ?_)
        rw [hcall]
        simp [CallPhase.pending]
      split
      · next hlive =>
        refine hinv.activateStreams fun c => ?_
        by_cases hc : c = callId
        · subst hc
          simp [setCall, CallPhase.pending]
        · simpa [setCall, Function.update_of_ne hc] using hop hlive c
      · exact hinv.releaseAll
    · exact h
  | readResolves id r =>
    refine h.onSource fun s hs => (h.quiet id s hs).imp_right fun hidle => ?_
    simp [hidle]
  | writeResolves id =>
    refine h.onSource fun s hs => (h.quiet id s hs).imp_right fun hidle => ?_
    simp [hidle]
  | receive id m =>
    simp only [step]
    split
    · next hd => exact h.onSource fun s _ => .inl hd.1
    · exact h
  | finished =>
    have hinv := h.releaseAll
    exact ⟨hinv.fresh, hinv.quiet, hinv.owned, hinv.ordered⟩

/-- Before the request is written: every source is new and quiet. -/
structure Gathered (st : StreamRun) : Prop where
  sources : ∀ id s, st.sources id = some s → id < st.nextId ∧ s.pump = .idle ∧ id ∈ st.newIds
  wire : st.wire = []

theorem Gathered.register {st : StreamRun} (h : st.Gathered) (chunks : List (List UInt8)) :
    (st.register chunks).Gathered := by
  refine ⟨?_, h.wire⟩
  intro id s hs
  by_cases hid : id = st.nextId
  · subst hid
    obtain rfl : _ = s := by simpa [StreamRun.register] using hs
    exact ⟨Nat.lt_succ_self _, rfl, List.mem_append_right _ (List.mem_singleton_self _)⟩
  · obtain ⟨hlt, hp, hnew⟩ := h.sources id s (by
      simpa [StreamRun.register, Function.update_of_ne hid] using hs)
    exact ⟨Nat.lt_succ_of_lt hlt, hp, List.mem_append_left _ hnew⟩

theorem Gathered.foldl {st : StreamRun} (h : st.Gathered) (args : List (List (List UInt8))) :
    (args.foldl StreamRun.register st).Gathered := by
  induction args generalizing st with
  | nil => exact h
  | cons chunks args ih => exact ih (h.register chunks)

theorem inv_launch (args : List (List (List UInt8))) : (launch args).Inv := by
  have hg : (args.foldl StreamRun.register
      ⟨1, fun _ => none, [], fun _ => .idle, true, [], true⟩).Gathered :=
    Gathered.foldl ⟨by simp, rfl⟩ args
  have hd : ∀ id s, (launch args).sources id = some s → (launch args).Described id := by
    intro id s hs
    exact ⟨.request _, List.mem_append_right _ (List.mem_singleton_self _), (hg.sources id s hs).2.2⟩
  refine ⟨fun id s hs => (hg.sources id s hs).1, fun id s hs => .inl (hd id s hs),
    fun id s hs => .inl (hd id s hs), ordered_descriptors ?_⟩
  intro id f hf
  simp [launch, write, hg.wire] at hf

open Execution

/-- In every run in which, whenever pumps are started, no other value holds
registered sources without its frame, the host writes no data of a stream before its
descriptor. -/
theorem descriptor_first (args : List (List (List UInt8))) (ops : List StreamRunOp)
    (h : Along step Settled (launch args) ops) : Ordered (exec step (launch args) ops).wire :=
  (h.invariant (I := Inv) (fun _ op hinv hop => inv_step op hinv hop) (inv_launch args)).ordered

/-- A body over the probe is registered. -/
theorem step_probed {st : StreamRun} {callId : Nat} {ids : List Nat} {chunks : List (List UInt8)}
    (hcall : st.calls callId = .serializing ids)
    (hprobe : streamProbeBytes < (chunks.map List.length).sum) :
    st.step (.probed callId chunks) =
      (st.register chunks).setCall callId (.serializing (ids ++ [st.nextId])) := by
  simp only [step, hcall]
  exact if_pos hprobe

/-- A chunk over the probe. -/
theorem exists_probed : ∃ chunk : List UInt8, streamProbeBytes < ([chunk].map List.length).sum := by
  refine ⟨List.replicate 65537 0, ?_⟩
  rw [List.map_singleton, List.length_replicate, List.sum_singleton]
  decide

/-- A run with one streamed response. -/
theorem descriptor_first_oneResponse :
    ∃ chunk : List UInt8, streamProbeBytes < ([chunk].map List.length).sum ∧
      Ordered (exec step (launch []) [.requestWritten, .serialize 1, .probed 1 [chunk], .serialized 1,
        .responseWritten 1]).wire := by
  obtain ⟨chunk, hprobe⟩ := exists_probed
  refine ⟨chunk, hprobe, descriptor_first [] _ ⟨fun _ => rfl, trivial, trivial, trivial, ?_, trivial⟩⟩
  rw [step_probed rfl hprobe]
  intro _ c
  by_cases hc : c = 1
  · subst hc
    rfl
  · simp [step, launch, write, setCall, register, activateStreams, hc, CallPhase.pending]

/-- Two handlers answer at once: the first has registered a body and is still
serializing when the write of the second resolves. -/
theorem data_before_descriptor :
    ¬ ∀ (args : List (List (List UInt8))) (ops : List StreamRunOp),
      Ordered (exec step (launch args) ops).wire := by
  intro h
  obtain ⟨chunk, hprobe⟩ := exists_probed
  have hrun := h [] [.requestWritten, .serialize 1, .serialize 2, .probed 1 [chunk], .serialized 2,
    .responseWritten 2]
  rw [exec_cons, exec_cons, exec_cons, exec_cons, step_probed rfl hprobe] at hrun
  obtain ⟨g, hg, hid⟩ := hrun [.request [], .response 2 []] 1 (.chunk _) [] rfl
  simp only [List.mem_cons, List.not_mem_nil, or_false] at hg
  rcases hg with rfl | rfl <;> simp [HostFrame.descriptors] at hid

end StreamRun

end Iso4
