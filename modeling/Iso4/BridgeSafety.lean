/-
Every bridge call is settled by an answer to itself.

A call's id is given out once, so the frame that reaches the host, the handler that is
started for it, the response that is written and the promise that is settled are all of the
same call, whatever the order of the parties' steps, and also when the run's id has gone to a
newer run by the time a response arrives.

* `BridgeWorld.Sound` — what holds in every state, with one lemma for each thing a step does;
* `BridgeWorld.step_sound` — each step keeps it while the ids have not wrapped;
* `BridgeWorld.step_extends` — calls are only added, or settled while a run waits for them.
-/
import Iso4.BridgeCalls
import Iso4.RunMoves

namespace Iso4

/-! ### What holds of every call -/

open BridgeCalls Wire Ipc

namespace BridgeWorld

variable {w : BridgeWorld}

/-- The run made a call with the frame. -/
def Made (w : BridgeWorld) (run : Nat) (frame : CallFrame) : Prop :=
  ∃ (n : Nat) (state : CallState), w.calls[n]? = some ⟨run, frame, state⟩

/-- The host wrote the answer for the call with the id. -/
def Answered (w : BridgeWorld) (callId : UInt32) (answer : CallAnswer) : Prop :=
  ∃ s ∈ w.served, s.frame.callId = callId ∧ answer ∈ s.written

/-- A frame to the host with its content. -/
def Carries (w : BridgeWorld) (f : RuntimeFrame) : Option CallFrame → Prop
  | none => True
  | some frame => ∃ id run, f = .tagged id run ∧ w.Made run frame

/-- A frame to the runtime with its content. -/
def Brings (w : BridgeWorld) (f : RunWire) : Option ResponseFrame → Prop
  | none => True
  | some r => ∃ s ∈ w.served, r.callId = s.frame.callId ∧ r.answer ∈ s.written ∧
      ∃ id, f = .tagged id s.run ∧ w.conn.idOf s.run = some id

def sentIds (contents : List (Option CallFrame)) : List UInt32 :=
  contents.filterMap fun content => content.map CallFrame.callId

def servedIds (served : List HostedCall) : List UInt32 := served.map fun s => s.frame.callId

/-- The ids of the calls the host has seen or will see. -/
def shown (w : BridgeWorld) : List UInt32 := sentIds w.toHost ++ servedIds w.served

/-- The run has been taken up at the runtime. -/
def Begun (w : BridgeWorld) (run : Nat) : Prop :=
  ∃ stage, w.conn.stageOf run = some stage ∧ stage ≠ .requested

/-- What a run has of its calls is right. -/
structure Holds (w : BridgeWorld) (run : Nat) (g : Guest) : Prop where
  entered : g.entered ≠ [] → w.Begun run
  events : ∀ r, ChannelEvent.response r ∈ g.events → w.Answered r.callId r.answer
  resolvers : ∀ (id : UInt32) (n : Nat), g.resolvers.lookup id = some n →
    ∃ frame, w.calls[n]? = some ⟨run, frame, .pending⟩ ∧ frame.callId = id

structure Sound (w : BridgeWorld) : Prop where
  fresh : w.conn.Fresh
  routed : w.conn.Routed
  /-- Ids are given out in order. -/
  ids : ∀ (n : Nat) (call : Call), w.calls[n]? = some call → call.frame.callId = UInt32.ofNat n
  begun : ∀ run frame, w.Made run frame → w.Begun run
  toHost : List.Forall₂ w.Carries w.conn.toHost w.toHost
  toRuntime : List.Forall₂ w.Brings w.conn.toRuntime w.toRuntime
  /-- No call is shown to the host twice. -/
  once : w.shown.Nodup
  served : ∀ s ∈ w.served, w.Made s.run s.frame
  guests : ∀ run g, w.guests[run]? = some g → w.Holds run g
  settled : ∀ (n run : Nat) (frame : CallFrame) (a : CallAnswer), w.calls[n]? = some ⟨run, frame, .settled a⟩ →
    ∃ s ∈ w.served, s.run = run ∧ s.frame = frame ∧ a ∈ s.written

theorem Sound.new : Sound .new where
  fresh := .new
  routed := fun _ _ h => by cases h
  ids := fun _ _ h => by cases h
  begun := fun _ _ h => by
    obtain ⟨_, _, h⟩ := h
    cases h
  toHost := .nil
  toRuntime := .nil
  once := List.nodup_nil
  served := fun _ h => absurd h List.not_mem_nil
  guests := fun _ _ h => by cases h
  settled := fun _ _ _ _ h => by cases h

/-! ### Steps of the connection -/

/-- The contents stay beside the frames. -/
theorem forall₂_sent {α β : Type*} {R : α → β → Prop} {q q' : List α} {contents : List β} {b : β}
    (h : List.Forall₂ R q contents) (hsent : ∃ fs, q' = q ++ fs ∧ ∀ f ∈ fs, R f b) :
    List.Forall₂ R q' (contents ++ List.replicate (q'.length - q.length) b) := by
  obtain ⟨fs, rfl, hfs⟩ := hsent
  rw [List.length_append, Nat.add_sub_cancel_left]
  refine List.rel_append h ?_
  clear h
  induction fs with
  | nil => exact .nil
  | cons f fs ih => exact .cons (hfs f List.mem_cons_self) (ih fun g hg => hfs g (List.mem_cons_of_mem f hg))

theorem forall₂_mem {α β : Type*} {R : α → β → Prop} {q : List α} {contents : List β}
    (h : List.Forall₂ R q contents) {b : β} (hb : b ∈ contents) : ∃ a ∈ q, R a b := by
  induction h with
  | nil => cases hb
  | cons hab _ ih =>
    obtain rfl | hb := List.mem_cons.mp hb
    · exact ⟨_, List.mem_cons_self, hab⟩
    · obtain ⟨a, ha, hR⟩ := ih hb
      exact ⟨a, List.mem_cons_of_mem _ ha, hR⟩

theorem Brings.moves {f : RunWire} {content : Option ResponseFrame} (h : w.Brings f content)
    {w' : BridgeWorld} (hconn : w.conn.Moves w'.conn) (hserved : w'.served = w.served) :
    w'.Brings f content := by
  cases content with
  | none => trivial
  | some r =>
    obtain ⟨s, hs, hcall, hanswer, id, hf, hid⟩ := h
    exact ⟨s, hserved ▸ hs, hcall, hanswer, id, hf, hconn.ids _ _ hid⟩

theorem Running.begun {run : Nat} (h : w.Running run) : w.Begun run := by
  obtain ⟨early, hstage⟩ := h
  exact ⟨_, hstage, RunStage.noConfusion⟩

theorem Begun.moves {run : Nat} (h : w.Begun run) {w' : BridgeWorld} (hconn : w.conn.Moves w'.conn) :
    w'.Begun run := by
  obtain ⟨stage, hstage, hne⟩ := h
  exact hconn.begun run stage hstage hne

/-- The connection goes on, with the contents of its frames. -/
theorem Sound.conn (h : w.Sound) {conn : RunWorld} {toHost : List (Option CallFrame)}
    {toRuntime : List (Option ResponseFrame)} (hfresh : conn.Fresh) (hrouted : conn.Routed)
    (hmoves : w.conn.Moves conn) (hup : List.Forall₂ w.Carries conn.toHost toHost)
    (hdown : List.Forall₂ (Brings { w with conn }) conn.toRuntime toRuntime)
    (honce : (sentIds toHost ++ servedIds w.served).Nodup) :
    Sound { w with conn, toHost, toRuntime } where
  fresh := hfresh
  routed := hrouted
  ids := h.ids
  begun := fun run frame hmade => (h.begun run frame hmade).moves hmoves
  toHost := hup
  toRuntime := hdown
  once := honce
  served := h.served
  guests := by
    intro run g hg
    obtain ⟨hentered, hevents, hresolvers⟩ := h.guests run g hg
    exact ⟨fun hne => (hentered hne).moves hmoves, hevents, hresolvers⟩
  settled := h.settled

theorem Sound.brings (h : w.Sound) {conn : RunWorld} (hmoves : w.conn.Moves conn) :
    List.Forall₂ (Brings { w with conn }) w.conn.toRuntime w.toRuntime :=
  h.toRuntime.imp fun _ _ hb => hb.moves hmoves rfl

theorem sentIds_replicate_none (contents : List (Option CallFrame)) (n : Nat) :
    sentIds (contents ++ List.replicate n none) = sentIds contents := by
  rw [sentIds, List.filterMap_append, List.filterMap_replicate_of_none rfl, List.append_nil, sentIds]

/-- Frames that are not about a call. -/
theorem Sound.plain (h : w.Sound) {e : RunIdStep} (hroute : e ≠ .route) (hreceive : ∀ taken, e ≠ .receive taken) :
    Sound (w.onConn e none none) := by
  have hmoves := RunWorld.step_moves h.fresh e
  have hsends := w.conn.step_sends hroute hreceive
  refine h.conn (RunWorld.step_fresh e h.fresh) (RunWorld.step_routed h.fresh h.routed e) hmoves ?_ ?_ ?_
  · obtain ⟨fs, hfs⟩ := hsends.toHost
    exact forall₂_sent h.toHost ⟨fs, hfs, fun _ _ => trivial⟩
  · obtain ⟨fs, hfs⟩ := hsends.toRuntime
    exact forall₂_sent (h.brings hmoves) ⟨fs, hfs, fun _ _ => trivial⟩
  · rw [sentIds_replicate_none]
    exact h.once

/-- The frame of a call is sent. -/
theorem onConn_runSends {run : Nat} (hrun : w.Running run) (frame : CallFrame) : ∃ id,
    w.onConn (.runSends run) (some frame) none =
      { w with
        conn := w.conn.step (.runSends run)
        toHost := w.toHost ++ [some frame] } ∧
    w.conn.step (.runSends run) = { w.conn with toHost := w.conn.toHost ++ [.tagged id run] } := by
  obtain ⟨early, hstage⟩ := hrun
  obtain ⟨r, hget, hr⟩ := Option.map_eq_some_iff.mp hstage
  have hstep : w.conn.step (.runSends run) =
      { w.conn with toHost := w.conn.toHost ++ [.tagged r.runId run] } := by
    dsimp only [RunWorld.step]
    rw [hget]
    dsimp only [Option.elim_some, RunWorld.runStep]
    rw [hr]
  refine ⟨r.runId, ?_, hstep⟩
  unfold onConn
  rw [hstep]
  simp

/-- A response is written, unless the connection is torn down. -/
theorem respond_cases (w : BridgeWorld) (run : Nat) (callId : UInt32) (a : CallAnswer) :
    w.respond run callId a = w ∧ (w.conn.closed = true ∨ w.conn.idOf run = none) ∨
    ∃ id, w.conn.closed = false ∧ w.conn.idOf run = some id ∧
      w.respond run callId a =
        { w with
          conn := { w.conn with toRuntime := w.conn.toRuntime ++ [.tagged id run] }
          toRuntime := w.toRuntime ++ [some ⟨callId, a⟩] } := by
  have hsame : w.conn.step (.hostWrites run) = w.conn → w.respond run callId a = w := by
    intro hstep
    unfold respond onConn
    rw [hstep]
    simp
  cases hclosed : w.conn.closed with
  | true =>
    refine Or.inl ⟨hsame ?_, Or.inl rfl⟩
    dsimp only [RunWorld.step, RunWorld.onHost]
    rw [if_pos hclosed]
  | false =>
    have hopen : w.conn.step (.hostWrites run) =
        (w.conn.started[run]?).elim w.conn fun r => w.conn.runStep run r (.hostWrites run) := by
      dsimp only [RunWorld.step, RunWorld.onHost]
      rw [if_neg (hclosed ▸ Bool.false_ne_true)]
    cases hget : w.conn.started[run]? with
    | none =>
      refine Or.inl ⟨hsame ?_, Or.inr ?_⟩
      · rw [hopen, hget]
        rfl
      · rw [RunWorld.idOf, hget]
        rfl
    | some r =>
      refine Or.inr ⟨r.runId, rfl, RunWorld.idOf_of_get hget, ?_⟩
      unfold respond onConn
      rw [hopen, hget]
      simp [RunWorld.runStep]

theorem Sound.respond (h : w.Sound) {run : Nat} {callId : UInt32} {a : CallAnswer}
    (hserved : ∃ s ∈ w.served, s.run = run ∧ s.frame.callId = callId ∧ a ∈ s.written) :
    Sound (w.respond run callId a) := by
  obtain ⟨hw, -⟩ | ⟨id, hopen, hid, hw⟩ := w.respond_cases run callId a
  · rw [hw]
    exact h
  · rw [hw]
    have hmoves := RunWorld.step_moves h.fresh (.hostWrites run)
    have hstep : w.conn.step (.hostWrites run) =
        { w.conn with toRuntime := w.conn.toRuntime ++ [.tagged id run] } := congrArg BridgeWorld.conn hw
    rw [hstep] at hmoves
    refine h.conn (hstep ▸ RunWorld.step_fresh (.hostWrites run) h.fresh)
      (hstep ▸ RunWorld.step_routed h.fresh h.routed (.hostWrites run)) hmoves h.toHost ?_ h.once
    refine List.rel_append (h.brings hmoves) (.cons ?_ .nil)
    obtain ⟨s, hs, rfl, rfl, ha⟩ := hserved
    exact ⟨s, hs, rfl, ha, id, rfl, hid⟩

/-! ### The guests -/

theorem Sound.setGuest (h : w.Sound) {run : Nat} {f : Guest → Guest}
    (hf : ∀ g, w.guests[run]? = some g → w.Holds run g → w.Holds run (f g)) : Sound (w.setGuest run f) where
  fresh := h.fresh
  routed := h.routed
  ids := h.ids
  begun := h.begun
  toHost := h.toHost
  toRuntime := h.toRuntime
  once := h.once
  served := h.served
  guests := by
    intro i g hg
    have hholds : w.Holds i g := by
      by_cases heq : run = i
      · subst heq
        rw [BridgeWorld.setGuest, List.getElem?_modify_eq] at hg
        obtain ⟨g', hg', rfl⟩ := Option.map_eq_some_iff.mp hg
        exact hf g' hg' (h.guests run g' hg')
      · rw [BridgeWorld.setGuest, List.getElem?_modify_ne _ _ heq] at hg
        exact h.guests i g hg
    exact ⟨hholds.entered, hholds.events, hholds.resolvers⟩
  settled := h.settled

/-- The run has what it had of its calls. -/
theorem Sound.touchGuest (h : w.Sound) (run : Nat) {f : Guest → Guest} (hentered : ∀ g, (f g).entered = g.entered)
    (hevents : ∀ g, (f g).events = g.events) (hresolvers : ∀ g, (f g).resolvers = g.resolvers) :
    Sound (w.setGuest run f) :=
  h.setGuest fun g _ hg => ⟨hentered g ▸ hg.entered, hevents g ▸ hg.events, hresolvers g ▸ hg.resolvers⟩

/-! ### Ids -/

theorem Made.callId {run : Nat} {frame : CallFrame} (h : w.Sound) (hmade : w.Made run frame) :
    ∃ n < w.calls.length, frame.callId = UInt32.ofNat n := by
  obtain ⟨n, state, hget⟩ := hmade
  exact ⟨n, (List.getElem?_eq_some_iff.mp hget).1, h.ids n _ hget⟩

theorem ofNat_inj {m n : Nat} (hm : m < 2 ^ 32) (hn : n < 2 ^ 32) (h : UInt32.ofNat m = UInt32.ofNat n) :
    m = n := by
  have heq := congrArg UInt32.toNat h
  rw [UInt32.toNat_ofNat', UInt32.toNat_ofNat', Nat.mod_eq_of_lt hm, Nat.mod_eq_of_lt hn] at heq
  exact heq

/-- A call is told by its id. -/
theorem Sound.unique (h : w.Sound) (hlen : w.calls.length ≤ 2 ^ 32) {n n' : Nat} {call call' : Call}
    (hget : w.calls[n]? = some call) (hget' : w.calls[n']? = some call')
    (hid : call.frame.callId = call'.frame.callId) : n = n' ∧ call = call' := by
  have hlt := (List.getElem?_eq_some_iff.mp hget).1
  have hlt' := (List.getElem?_eq_some_iff.mp hget').1
  rw [h.ids n call hget, h.ids n' call' hget'] at hid
  have heq := ofNat_inj (by omega) (by omega) hid
  subst heq
  rw [hget] at hget'
  exact ⟨rfl, Option.some.inj hget'⟩

/-- The ids the host knows have been given out. -/
theorem Sound.shown_lt (h : w.Sound) {id : UInt32} (hid : id ∈ w.shown) :
    ∃ n < w.calls.length, id = UInt32.ofNat n := by
  rcases List.mem_append.mp hid with hid | hid
  · obtain ⟨content, hmem, hcontent⟩ := List.mem_filterMap.mp hid
    obtain ⟨frame, rfl, rfl⟩ := Option.map_eq_some_iff.mp hcontent
    obtain ⟨f, -, id, run, -, hmade⟩ := forall₂_mem h.toHost hmem
    exact hmade.callId h
  · obtain ⟨s, hs, rfl⟩ := List.mem_map.mp hid
    exact (h.served s hs).callId h

/-! ### Calls -/

/-- The calls of a later state: only those in `P` may have another state. -/
def Extends (w w' : BridgeWorld) (P : Nat → Prop) : Prop :=
  ∀ (n : Nat) (call : Call), w.calls[n]? = some call →
    ∃ state, w'.calls[n]? = some { call with state } ∧ (state = call.state ∨ P n)

theorem Made.extends {w' : BridgeWorld} {P : Nat → Prop} {run : Nat} {frame : CallFrame} (h : w.Made run frame)
    (hcalls : w.Extends w' P) : w'.Made run frame := by
  obtain ⟨n, state, hget⟩ := h
  obtain ⟨state', hget', -⟩ := hcalls n _ hget
  exact ⟨n, state', hget'⟩

theorem Carries.extends {w' : BridgeWorld} {P : Nat → Prop} {f : RuntimeFrame} {content : Option CallFrame}
    (h : w.Carries f content) (hcalls : w.Extends w' P) : w'.Carries f content := by
  cases content with
  | none => trivial
  | some frame =>
    obtain ⟨id, run, hf, hmade⟩ := h
    exact ⟨id, run, hf, hmade.extends hcalls⟩

theorem logCall_extends (w : BridgeWorld) (run : Nat) (frame : CallFrame) (state : CallState)
    (P : Nat → Prop) : w.Extends (w.logCall run frame state) P := by
  intro n call hget
  have hlt := (List.getElem?_eq_some_iff.mp hget).1
  exact ⟨call.state, (List.getElem?_append_left hlt).trans hget, Or.inl rfl⟩

theorem logCall_get (w : BridgeWorld) (run : Nat) (frame : CallFrame) (state : CallState) :
    (w.logCall run frame state).calls[w.calls.length]? = some ⟨run, frame, state⟩ := by
  rw [logCall, List.getElem?_append_right (le_refl _), Nat.sub_self]
  rfl

theorem logCall_cases {run : Nat} {frame : CallFrame} {state : CallState} {n : Nat} {call : Call}
    (h : (w.logCall run frame state).calls[n]? = some call) :
    w.calls[n]? = some call ∨ n = w.calls.length ∧ call = ⟨run, frame, state⟩ := by
  rcases lt_or_ge n w.calls.length with hlt | hge
  · exact Or.inl ((List.getElem?_append_left hlt).symm.trans h)
  · have hlt := (List.getElem?_eq_some_iff.mp h).1
    rw [logCall, List.length_append, List.length_singleton] at hlt
    have heq : n = w.calls.length := by omega
    subst heq
    rw [logCall_get] at h
    exact Or.inr ⟨rfl, (Option.some.inj h).symm⟩

theorem Sound.logCall (h : w.Sound) {run : Nat} (target : BridgeTarget) (args : Blob) {state : CallState}
    (hrun : w.Begun run) (hstate : ∀ a, state ≠ .settled a) : Sound (w.logCall run (w.nextFrame target args) state) where
  fresh := h.fresh
  routed := h.routed
  ids := by
    intro n call hget
    obtain hold | ⟨rfl, rfl⟩ := logCall_cases hget
    · exact h.ids n call hold
    · rfl
  begun := by
    rintro i frame ⟨n, st, hget⟩
    obtain hold | ⟨rfl, heq⟩ := logCall_cases hget
    · exact h.begun i frame ⟨n, st, hold⟩
    · cases heq
      exact hrun
  toHost := h.toHost.imp fun _ _ hf => hf.extends (logCall_extends w _ _ _ fun _ => False)
  toRuntime := h.toRuntime.imp fun _ _ hf => hf.moves (.refl _) rfl
  once := h.once
  served := fun s hs => (h.served s hs).extends (logCall_extends w _ _ _ fun _ => False)
  guests := by
    intro i g hg
    refine ⟨(h.guests i g hg).entered, (h.guests i g hg).events, fun id n hlookup => ?_⟩
    obtain ⟨frame, hget, hid⟩ := (h.guests i g hg).resolvers id n hlookup
    exact ⟨frame, (List.getElem?_append_left (List.getElem?_eq_some_iff.mp hget).1).trans hget, hid⟩
  settled := by
    intro n i frame a hget
    obtain hold | ⟨-, heq⟩ := logCall_cases hget
    · exact h.settled n i frame a hold
    · cases heq
      exact absurd rfl (hstate a)

/-- The frame of the newest call is sent. -/
theorem Sound.sendCall (h : w.Sound) {run : Nat} (hrun : w.Running run) {frame : CallFrame}
    (hmade : w.Made run frame) (hnew : frame.callId ∉ w.shown) :
    Sound (w.onConn (.runSends run) (some frame) none) := by
  obtain ⟨id, hw, hstep⟩ := onConn_runSends hrun frame
  rw [hw]
  have hmoves := RunWorld.step_moves h.fresh (.runSends run)
  refine h.conn (RunWorld.step_fresh _ h.fresh) (RunWorld.step_routed h.fresh h.routed _) hmoves ?_ ?_ ?_
  · rw [hstep]
    exact List.rel_append h.toHost (.cons ⟨id, run, rfl, hmade⟩ .nil)
  · have hbrings := h.brings hmoves
    rw [hstep] at hbrings ⊢
    exact hbrings
  · have hids : sentIds (w.toHost ++ [some frame]) = sentIds w.toHost ++ [frame.callId] :=
      List.filterMap_append
    rw [hids, List.append_assoc, List.singleton_append]
    exact List.nodup_middle.mpr (List.nodup_cons.mpr ⟨hnew, h.once⟩)

theorem settleCall_get {n m : Nat} {a : CallAnswer} {call : Call} (h : (w.settleCall n a).calls[m]? = some call) :
    w.calls[m]? = some call ∧ n ≠ m ∨
      n = m ∧ ∃ old, w.calls[m]? = some old ∧ call = { old with state := .settled a } := by
  by_cases heq : n = m
  · subst heq
    rw [settleCall, List.getElem?_modify_eq] at h
    obtain ⟨old, hold, rfl⟩ := Option.map_eq_some_iff.mp h
    exact Or.inr ⟨rfl, old, hold, rfl⟩
  · rw [settleCall, List.getElem?_modify_ne _ _ heq] at h
    exact Or.inl ⟨h, heq⟩

theorem settleCall_extends (w : BridgeWorld) (n : Nat) (a : CallAnswer) :
    w.Extends (w.settleCall n a) fun m => n = m := by
  intro m call hget
  by_cases heq : n = m
  · subst heq
    refine ⟨.settled a, ?_, Or.inr rfl⟩
    rw [settleCall, List.getElem?_modify_eq, hget]
    rfl
  · refine ⟨call.state, ?_, Or.inl rfl⟩
    rw [settleCall, List.getElem?_modify_ne _ _ heq]
    exact hget

/-- A call is settled by an answer to it; no run waits for it any longer. -/
theorem Sound.settleCall (h : w.Sound) {n run : Nat} {frame : CallFrame} {state : CallState} {a : CallAnswer}
    (hget : w.calls[n]? = some ⟨run, frame, state⟩)
    (hserved : ∃ s ∈ w.served, s.run = run ∧ s.frame = frame ∧ a ∈ s.written)
    (hwaits : ∀ (i : Nat) (g : Guest), w.guests[i]? = some g → ∀ id, g.resolvers.lookup id ≠ some n) :
    Sound (w.settleCall n a) where
  fresh := h.fresh
  routed := h.routed
  ids := by
    intro m call hm
    obtain ⟨hold, -⟩ | ⟨rfl, old, hold, rfl⟩ := settleCall_get hm
    · exact h.ids m call hold
    · exact h.ids n old hold
  begun := by
    rintro i fr ⟨m, st, hm⟩
    obtain ⟨hold, -⟩ | ⟨rfl, old, hold, heq⟩ := settleCall_get hm
    · exact h.begun i fr ⟨m, st, hold⟩
    · cases heq
      exact h.begun _ _ ⟨n, _, hold⟩
  toHost := h.toHost.imp fun _ _ hf => hf.extends (settleCall_extends w n a)
  toRuntime := h.toRuntime.imp fun _ _ hf => hf.moves (.refl _) rfl
  once := h.once
  served := fun s hs => (h.served s hs).extends (settleCall_extends w n a)
  guests := by
    intro i g hg
    refine ⟨(h.guests i g hg).entered, (h.guests i g hg).events, fun id m hlookup => ?_⟩
    obtain ⟨fr, hm, hid⟩ := (h.guests i g hg).resolvers id m hlookup
    refine ⟨fr, ?_, hid⟩
    have hne : n ≠ m := by
      rintro rfl
      exact hwaits i g hg id hlookup
    rw [BridgeWorld.settleCall, List.getElem?_modify_ne _ _ hne]
    exact hm
  settled := by
    intro m i fr b hm
    obtain ⟨hold, -⟩ | ⟨rfl, old, hold, heq⟩ := settleCall_get hm
    · exact h.settled m i fr b hold
    · cases heq
      rw [hget] at hold
      cases hold
      exact hserved

/-! ### The host -/

/-- What a change leaves of every entry it leaves of the list. -/
theorem map_modify_same {α β : Type*} {f : α → α} {k : α → β} (h : ∀ a, k (f a) = k a) (l : List α) (i : Nat) :
    (l.modify i f).map k = l.map k := by
  refine List.ext_getElem? fun j => ?_
  rw [List.getElem?_map, List.getElem?_map]
  by_cases heq : i = j
  · subst heq
    rw [List.getElem?_modify_eq]
    exact (Option.map_map _ _ _).trans (congrArg (fun k => Option.map k l[i]?) (funext h))
  · rw [List.getElem?_modify_ne _ _ heq]

/-- What the host has made of a call is more, with what it wrote. -/
def Serves (w w' : BridgeWorld) : Prop :=
  ∀ s ∈ w.served, ∃ s' ∈ w'.served, s'.run = s.run ∧ s'.frame = s.frame ∧ ∀ a ∈ s.written, a ∈ s'.written

theorem Brings.serves {w' : BridgeWorld} {f : RunWire} {content : Option ResponseFrame}
    (h : w.Brings f content) (hconn : w'.conn = w.conn) (hserves : w.Serves w') : w'.Brings f content := by
  cases content with
  | none => trivial
  | some r =>
    obtain ⟨s, hs, hcall, hanswer, id, hf, hid⟩ := h
    obtain ⟨s', hs', hrun, hframe, hwritten⟩ := hserves s hs
    exact ⟨s', hs', hframe ▸ hcall, hwritten _ hanswer, id, hrun ▸ hf, by rw [hconn, hrun]; exact hid⟩

/-- The host goes on with the calls it has. -/
theorem Sound.serves (h : w.Sound) {served : List HostedCall} (hserves : w.Serves { w with served })
    (honce : (sentIds w.toHost ++ servedIds served).Nodup) (hmade : ∀ s ∈ served, w.Made s.run s.frame) :
    Sound { w with served } where
  fresh := h.fresh
  routed := h.routed
  ids := h.ids
  begun := h.begun
  toHost := h.toHost
  toRuntime := h.toRuntime.imp fun _ _ hf => hf.serves rfl hserves
  once := honce
  served := hmade
  guests := by
    intro i g hg
    refine ⟨(h.guests i g hg).entered, fun r hr => ?_, (h.guests i g hg).resolvers⟩
    obtain ⟨s, hs, hid, ha⟩ := (h.guests i g hg).events r hr
    obtain ⟨s', hs', -, hframe, hwritten⟩ := hserves s hs
    exact ⟨s', hs', hframe ▸ hid, hwritten _ ha⟩
  settled := by
    intro n i frame a hget
    obtain ⟨s, hs, hrun, hframe, ha⟩ := h.settled n i frame a hget
    obtain ⟨s', hs', hrun', hframe', hwritten⟩ := hserves s hs
    exact ⟨s', hs', hrun'.trans hrun, hframe'.trans hframe, hwritten a ha⟩

/-- The host takes up a call it did not know. -/
theorem Sound.serve (h : w.Sound) {run : Nat} {frame : CallFrame} (phase : HandlerPhase)
    (hmade : w.Made run frame) (hnew : frame.callId ∉ w.shown) : Sound (w.serve run frame phase) := by
  refine h.serves (fun s hs => ⟨s, List.mem_append_left _ hs, rfl, rfl, fun _ ha => ha⟩) ?_ ?_
  · have hids : servedIds (w.served ++ [⟨run, frame, phase⟩]) = servedIds w.served ++ [frame.callId] :=
      List.map_append
    rw [hids, ← List.append_assoc]
    refine List.nodup_append.mpr ⟨h.once, List.nodup_singleton _, ?_⟩
    rintro a ha b hb rfl
    rw [List.mem_singleton.mp hb] at ha
    exact hnew ha
  · intro s hs
    rcases List.mem_append.mp hs with hs | hs
    · exact h.served s hs
    · rw [List.mem_singleton.mp hs]
      exact hmade

theorem setPhase_mem {i : Nat} {s t : HostedCall} (hs : w.served[i]? = some s) (phase : HandlerPhase)
    (ht : t ∈ w.served) : t ∈ (w.setPhase i phase).served ∨ t = s := by
  obtain ⟨j, hj⟩ := List.mem_iff_getElem?.mp ht
  by_cases heq : i = j
  · subst heq
    rw [hs] at hj
    exact Or.inr (Option.some.inj hj).symm
  · refine Or.inl (List.mem_of_getElem? (i := j) ?_)
    rw [setPhase, List.getElem?_modify_ne _ _ heq]
    exact hj

theorem setPhase_self {i : Nat} {s : HostedCall} (hs : w.served[i]? = some s) (phase : HandlerPhase) :
    HostedCall.mk s.run s.frame phase ∈ (w.setPhase i phase).served := by
  refine List.mem_of_getElem? (i := i) ?_
  rw [setPhase, List.getElem?_modify_eq, hs]
  rfl

theorem Sound.setPhase (h : w.Sound) {i : Nat} {s : HostedCall} (hs : w.served[i]? = some s) (phase : HandlerPhase)
    (hwritten : ∀ a ∈ s.written, a ∈ (HostedCall.mk s.run s.frame phase).written) :
    Sound (w.setPhase i phase) := by
  refine h.serves (fun t ht => ?_) ?_ fun t ht => ?_
  · rcases setPhase_mem hs phase ht with ht' | rfl
    · exact ⟨t, ht', rfl, rfl, fun _ ha => ha⟩
    · exact ⟨_, setPhase_self hs phase, rfl, rfl, hwritten⟩
  · have hids : servedIds (w.setPhase i phase).served = servedIds w.served := by
      refine map_modify_same ?_ _ i
      exact fun _ => rfl
    show (sentIds w.toHost ++ servedIds (w.setPhase i phase).served).Nodup
    rw [hids]
    exact h.once
  · obtain ⟨j, hj⟩ := List.mem_iff_getElem?.mp ht
    by_cases heq : i = j
    · subst heq
      rw [List.getElem?_modify_eq, hs] at hj
      cases hj
      exact h.served s (List.mem_of_getElem? hs)
    · rw [List.getElem?_modify_ne _ _ heq] at hj
      exact h.served t (List.mem_of_getElem? hj)

/-! ### The operations -/

theorem Extends.same {w' : BridgeWorld} {P : Nat → Prop} (h : w'.calls = w.calls) : w.Extends w' P := by
  intro n call hget
  exact ⟨call.state, h ▸ hget, Or.inl rfl⟩

theorem Extends.length_le {w' : BridgeWorld} {P : Nat → Prop} (h : w.Extends w' P) : w.calls.length ≤ w'.calls.length := by
  by_contra hlt
  obtain ⟨state, hget, -⟩ := h w'.calls.length _ (List.getElem?_eq_getElem (by omega))
  have := (List.getElem?_eq_some_iff.mp hget).1
  omega

theorem leave_extends (w : BridgeWorld) (run : Nat) (g : Guest) (argsBlob : Except RunError Blob)
    (killed : Bool) (link : Option String) (P : Nat → Prop) :
    w.Extends (w.leave run g argsBlob killed link) P := by
  unfold leave
  split
  · exact .same rfl
  · exact .same rfl
  · dsimp only
    split
    · exact logCall_extends w _ _ _ P
    · split
      · exact logCall_extends w _ _ _ P
      · split
        · exact logCall_extends w _ _ _ P
        · exact logCall_extends w _ _ _ P

/-- What a run has but for its events and its signals. -/
def own (g : Guest) : Nat × Nat × List BridgeTarget × Option RunError × Bool × AList fun _ : UInt32 => Nat :=
  (g.maxBridgeCalls, g.callCount, g.entered, g.bridgeError, g.failed, g.resolvers)

/-- The guests have made no step. -/
structure Leaves (w w' : BridgeWorld) : Prop where
  calls : w'.calls = w.calls
  guests : w'.guests.map own = w.guests.map own

theorem Leaves.refl (w : BridgeWorld) : w.Leaves w := ⟨rfl, rfl⟩

theorem Leaves.trans {w' w'' : BridgeWorld} (h : w.Leaves w') (h' : w'.Leaves w'') : w.Leaves w'' :=
  ⟨h'.calls.trans h.calls, h'.guests.trans h.guests⟩

theorem Leaves.setGuest {w' : BridgeWorld} (h : w.Leaves w') (run : Nat) {f : Guest → Guest}
    (hf : ∀ g, own (f g) = own g) : w.Leaves (w'.setGuest run f) :=
  ⟨h.calls, (map_modify_same hf _ _).trans h.guests⟩

theorem dispatch_leaves (w : BridgeWorld) (run : Nat) (g : Guest) (frame : CallFrame) (decoding : Option String) :
    w.Leaves (w.dispatch run g frame decoding) := by
  unfold dispatch
  split
  · have hserved : w.Leaves (w.serve run frame .dropped) := ⟨rfl, rfl⟩
    exact hserved.setGuest run fun _ => rfl
  · split
    · exact ⟨rfl, rfl⟩
    · split <;> exact ⟨rfl, rfl⟩

theorem route_leaves (w : BridgeWorld) (decoding : Option String) : w.Leaves (w.route decoding) := by
  unfold route
  split
  · exact .refl w
  · split
    next f rest content contents _ _ =>
      have hpop : w.Leaves { w with conn := w.conn.step .route, toHost := contents } := ⟨rfl, rfl⟩
      dsimp only
      split
      · split
        · exact hpop
        next entry _ =>
          cases w.guests[entry.run]? with
          | none => exact hpop
          | some g => exact hpop.trans (dispatch_leaves _ _ g _ decoding)
      · exact hpop
    · exact .refl w

theorem answer_leaves (w : BridgeWorld) (i : Nat) (s : HostedCall) (a : CallAnswer) (failure : BridgeErrorPayload) :
    w.Leaves (w.answer i s a failure) := by
  unfold answer
  dsimp only
  split
  · exact ⟨rfl, rfl⟩
  · split
    · exact ⟨rfl, rfl⟩
    · split <;> exact ⟨rfl, rfl⟩

theorem receive_leaves (w : BridgeWorld) (taken : Bool) : w.Leaves (w.receive taken) := by
  unfold receive
  split
  next f rest content contents _ _ =>
    have htaken : w.Leaves { w.onConn (.receive taken) none none with toRuntime := contents } := ⟨rfl, rfl⟩
    dsimp only
    split
    · split
      · exact htaken
      · exact htaken.setGuest _ fun _ => rfl
    · exact htaken
  · exact .refl w

/-- What holds after a step: the guests make four of them, the others leave them as they are. -/
theorem step_keeps {P : BridgeWorld → Prop} (hleaves : ∀ w', w.Leaves w' → P w')
    (hstart : ∀ encodes guest, P (w.begin encodes guest))
    (henter : ∀ run g bound functionArg target, w.guests[run]? = some g →
      P (w.enter run g bound functionArg target))
    (hleave : ∀ run g argsBlob killed link, w.guests[run]? = some g → P (w.leave run g argsBlob killed link))
    (htake : ∀ run g materialises, w.guests[run]? = some g → P (w.takeEvent run g materialises))
    (op : BridgeOp) : P (w.step op) := by
  have hserved : ∀ (i : Nat) (f : HostedCall → BridgeWorld), (∀ s, w.Leaves (f s)) →
      P ((w.served[i]?).elim w f) := by
    intro i f hf
    cases w.served[i]? with
    | none => exact hleaves w (.refl w)
    | some s => exact hleaves _ (hf s)
  have hguest : ∀ (run : Nat) (f : Guest → BridgeWorld), (∀ g, w.guests[run]? = some g → P (f g)) →
      P ((w.guests[run]?).elim w f) := by
    intro run f hf
    cases hg : w.guests[run]? with
    | none => exact hleaves w (.refl w)
    | some g => exact hf g hg
  cases op with
  | start encodes guest => exact hstart encodes guest
  | abort run => exact hleaves _ ((Leaves.refl w).setGuest run fun _ => rfl)
  | enter run bound functionArg target => exact hguest run _ fun g => henter run g bound functionArg target
  | leave run argsBlob killed link => exact hguest run _ fun g => hleave run g argsBlob killed link
  | route decoding => exact hleaves _ (route_leaves w decoding)
  | settle i a =>
    refine hserved i _ fun s => ?_
    split <;> exact ⟨rfl, rfl⟩
  | answer i failure =>
    refine hserved i _ fun s => ?_
    split
    · exact answer_leaves w i s _ failure
    · exact .refl w
  | answerAgain i failure =>
    refine hserved i _ fun s => ?_
    split <;> exact ⟨rfl, rfl⟩
  | receive taken => exact hleaves _ (receive_leaves w taken)
  | takeEvent run materialises => exact hguest run _ fun g => htake run g materialises
  | other e =>
    refine hleaves _ ?_
    dsimp only [step]
    split <;> exact ⟨rfl, rfl⟩

theorem settle_extends (w : BridgeWorld) (run : Nat) (g : Guest) (r : ResponseFrame) (materialises : Bool) :
    w.Extends (w.settle run g r materialises) fun n => g.resolvers.lookup r.callId = some n := by
  unfold settle
  split
  · exact .same rfl
  next n hlookup =>
    have hsettled : w.Extends (w.settleCall n r.answer) fun n => g.resolvers.lookup r.callId = some n := by
      intro m call hget
      obtain ⟨state, hget', hstate⟩ := settleCall_extends w n r.answer m call hget
      exact ⟨state, hget', hstate.imp (fun h => h) fun (heq : n = m) => heq ▸ hlookup⟩
    dsimp only
    split
    · split
      · exact hsettled
      · exact .same rfl
    · exact hsettled

theorem takeEvent_extends (w : BridgeWorld) (run : Nat) (g : Guest) (materialises : Bool) :
    w.Extends (w.takeEvent run g materialises) fun n => ∃ id, g.resolvers.lookup id = some n := by
  unfold takeEvent
  cases g.events with
  | nil => exact .same rfl
  | cons e rest =>
    dsimp only
    split
    · cases e with
      | lost => exact .same rfl
      | response r =>
        intro n call hget
        obtain ⟨state, hget', hstate⟩ :=
          settle_extends (w.setGuest run fun g => { g with events := rest }) run g r materialises n call hget
        exact ⟨state, hget', hstate.imp (fun h => h) fun hlookup => ⟨_, hlookup⟩⟩
    · exact .same rfl

/-- A run waits for the call. -/
def Waits (w : BridgeWorld) (n : Nat) : Prop :=
  ∃ (run : Nat) (g : Guest) (id : UInt32), w.guests[run]? = some g ∧ g.resolvers.lookup id = some n

theorem enter_calls (w : BridgeWorld) (run : Nat) (g : Guest) (bound functionArg : Bool)
    (target : Option BridgeTarget) : (w.enter run g bound functionArg target).calls = w.calls := by
  unfold enter
  split
  · rfl
  · split
    · rfl
    · split
      · rfl
      · split <;> rfl

/-- Calls are only added, or settled while a run waits for them. -/
theorem step_extends (w : BridgeWorld) (op : BridgeOp) : w.Extends (w.step op) w.Waits := by
  refine step_keeps (P := fun w' => w.Extends w' w.Waits) ?_ ?_ ?_ ?_ ?_ op
  · exact fun w' h => .same h.calls
  · exact fun encodes guest => .same rfl
  · exact fun run g bound functionArg target _ => .same (enter_calls w run g bound functionArg target)
  · exact fun run g argsBlob killed link _ => leave_extends w run g argsBlob killed link _
  · intro run g materialises hg n call hget
    obtain ⟨state, hget', hstate⟩ := takeEvent_extends w run g materialises n call hget
    exact ⟨state, hget', hstate.imp (fun h => h) fun ⟨id, hlookup⟩ => ⟨run, g, id, hg, hlookup⟩⟩

theorem enter_sound (h : w.Sound) (run : Nat) (g : Guest) (bound functionArg : Bool)
    (target : Option BridgeTarget) : Sound (w.enter run g bound functionArg target) := by
  unfold enter
  split
  · exact h
  next hcall =>
    have hrun : w.Running run := (not_not.mp (not_or.mp hcall).1).1
    split
    · exact h.touchGuest run (fun _ => rfl) (fun _ => rfl) fun _ => rfl
    · split
      · exact h.touchGuest run (fun _ => rfl) (fun _ => rfl) fun _ => rfl
      · split
        · exact h.touchGuest run (fun _ => rfl) (fun _ => rfl) fun _ => rfl
        · exact h.setGuest fun g _ hg => ⟨fun _ => hrun.begun, hg.events, hg.resolvers⟩

/-- The newest call waits for its answer. -/
theorem Sound.await (h : w.Sound) {run n : Nat} {frame : CallFrame}
    (hget : w.calls[n]? = some ⟨run, frame, .pending⟩) (entered : List BridgeTarget) :
    Sound (w.setGuest run fun g =>
      { g with
        entered := entered
        resolvers := g.resolvers.insert frame.callId n }) := by
  refine h.setGuest fun g _ hg =>
    ⟨fun _ => h.begun run frame ⟨n, .pending, hget⟩, hg.events, fun id m hlookup => ?_⟩
  dsimp only at hlookup
  by_cases heq : id = frame.callId
  · subst heq
    rw [AList.lookup_insert] at hlookup
    cases hlookup
    exact ⟨frame, hget, rfl⟩
  · rw [AList.lookup_insert_ne heq] at hlookup
    exact hg.resolvers id m hlookup

/-- An id that was not given out is new to the host. -/
theorem Sound.nextFrame_new (h : w.Sound) (hlen : w.calls.length < 2 ^ 32) (target : BridgeTarget) (args : Blob) :
    (w.nextFrame target args).callId ∉ w.shown := by
  intro hmem
  obtain ⟨n, hn, heq⟩ := h.shown_lt hmem
  have := ofNat_inj (by omega) (by omega) heq
  omega

/-- A call that is not sent. -/
theorem Sound.unsent (h : w.Sound) {run : Nat} (hrun : w.Begun run) (target : BridgeTarget) (args : Blob)
    {f : Guest → Guest} (hevents : ∀ g, (f g).events = g.events)
    (hresolvers : ∀ g, (f g).resolvers = g.resolvers) :
    Sound ((w.logCall run (w.nextFrame target args) .unsent).setGuest run f) := by
  have hlogged : Sound (w.logCall run (w.nextFrame target args) .unsent) :=
    h.logCall target args hrun fun _ heq => CallState.noConfusion heq
  exact hlogged.setGuest fun g _ hg => ⟨fun _ => hrun, hevents g ▸ hg.events, hresolvers g ▸ hg.resolvers⟩

theorem leave_sound (h : w.Sound) {run : Nat} {g : Guest} (hg : w.guests[run]? = some g)
    (argsBlob : Except RunError Blob) (killed : Bool) (link : Option String)
    (hlen : (w.leave run g argsBlob killed link).calls.length ≤ 2 ^ 32) :
    Sound (w.leave run g argsBlob killed link) := by
  unfold leave at hlen ⊢
  cases hentered : g.entered with
  | nil => exact h
  | cons target rest =>
    have hrun : w.Begun run := (h.guests run g hg).entered (hentered ▸ List.cons_ne_nil _ _)
    rw [hentered] at hlen
    cases argsBlob with
    | error e => exact h.setGuest fun g' _ hg' => ⟨fun _ => hrun, hg'.events, hg'.resolvers⟩
    | ok args =>
      dsimp only at hlen ⊢
      split
      · exact h.unsent hrun target args (fun _ => rfl) fun _ => rfl
      next hsmall =>
        rw [if_neg hsmall] at hlen
        split
        · exact h.unsent hrun target args (fun _ => rfl) fun _ => rfl
        next hlive =>
          rw [if_neg hlive] at hlen
          cases link with
          | some e => exact h.unsent hrun target args (fun _ => rfl) fun _ => rfl
          | none =>
            dsimp only at hlen ⊢
            have hlt : w.calls.length < 2 ^ 32 := by
              have heq : (w.calls ++ [(⟨run, w.nextFrame target args, .pending⟩ : Call)]).length ≤ 2 ^ 32 := hlen
              rw [List.length_append, List.length_singleton] at heq
              omega
            have hrunning : w.Running run := not_not.mp (not_or.mp (not_or.mp hlive).2).2
            have hget := logCall_get w run (w.nextFrame target args) .pending
            have hlogged : Sound (w.logCall run (w.nextFrame target args) .pending) :=
              h.logCall target args hrun fun _ heq => CallState.noConfusion heq
            have hsent := hlogged.sendCall hrunning ⟨_, _, hget⟩ (h.nextFrame_new hlt target args)
            exact hsent.await hget rest

/-- The next frame is taken off the way to the host. -/
theorem Sound.pop (h : w.Sound) (hopen : w.conn.closed = false) {f : RuntimeFrame} {rest : List RuntimeFrame}
    {content : Option CallFrame} {contents : List (Option CallFrame)} (hqueue : w.conn.toHost = f :: rest)
    (hcontents : w.toHost = content :: contents) :
    Sound { w with conn := w.conn.step .route, toHost := contents } := by
  have hmoves := RunWorld.step_moves h.fresh .route
  obtain ⟨hhost, hruntime⟩ := RunWorld.route_queues hqueue hopen
  have hup := h.toHost
  have honce := h.once
  rw [hqueue, hcontents] at hup
  rw [shown, hcontents] at honce
  refine h.conn (RunWorld.step_fresh _ h.fresh) (RunWorld.step_routed h.fresh h.routed _) hmoves ?_ ?_ ?_
  · rw [hhost]
    exact (List.forall₂_cons.mp hup).2
  · rw [hruntime]
    exact h.brings hmoves
  · refine honce.sublist (List.Sublist.append_right ?_ _)
    exact (List.sublist_cons_self content contents).filterMap _

theorem dispatch_sound (h : w.Sound) {run : Nat} {frame : CallFrame} (hmade : w.Made run frame)
    (hnew : frame.callId ∉ w.shown) (g : Guest) (decoding : Option String) :
    Sound (w.dispatch run g frame decoding) := by
  have hrefused : ∀ error, Sound (w.refuse run frame error) := fun error =>
    (h.serve (.refused error) hmade hnew).respond
      ⟨⟨run, frame, .refused error⟩, List.mem_append_right _ (List.mem_singleton.mpr rfl), rfl, rfl,
        List.mem_singleton.mpr rfl⟩
  unfold dispatch
  split
  · exact (h.serve .dropped hmade hnew).touchGuest run (fun _ => rfl) (fun _ => rfl) fun _ => rfl
  · cases decoding with
    | some message => exact hrefused _
    | none =>
      dsimp only
      split
      · exact h.serve .running hmade hnew
      · exact hrefused _

/-- The router takes a frame; a call goes to the dispatcher of the run that made it. -/
inductive Routing (w : BridgeWorld) (decoding : Option String) : BridgeWorld → Prop where
  | idle : Routing w decoding w
  | other (f : RuntimeFrame) (rest : List RuntimeFrame) (contents : List (Option CallFrame))
      (hqueue : w.conn.toHost = f :: rest) (hcontents : w.toHost = none :: contents)
      (hopen : w.conn.closed = false) :
      Routing w decoding { w with conn := w.conn.step .route, toHost := contents }
  | strange (run : Nat) (frame : CallFrame) (f : RuntimeFrame) (rest : List RuntimeFrame)
      (contents : List (Option CallFrame)) (hqueue : w.conn.toHost = f :: rest)
      (hcontents : w.toHost = some frame :: contents) (hopen : w.conn.closed = false)
      (hmade : w.Made run frame) (hguest : w.guests[run]? = none) :
      Routing w decoding { w with conn := w.conn.step .route, toHost := contents }
  | call (run : Nat) (frame : CallFrame) (f : RuntimeFrame) (rest : List RuntimeFrame)
      (contents : List (Option CallFrame)) (hqueue : w.conn.toHost = f :: rest)
      (hcontents : w.toHost = some frame :: contents) (hopen : w.conn.closed = false)
      (hmade : w.Made run frame) (g : Guest) (hguest : w.guests[run]? = some g) :
      Routing w decoding
        (dispatch { w with conn := w.conn.step .route, toHost := contents } run g frame decoding)

theorem route_routing (h : w.Sound) (decoding : Option String) : w.Routing decoding (w.route decoding) := by
  unfold route
  split
  · exact .idle
  next hclosed =>
    have hopen : w.conn.closed = false := eq_false_of_ne_true hclosed
    have hup := h.toHost
    split
    next f rest content contents hqueue hcontents =>
      rw [hqueue, hcontents] at hup
      obtain ⟨hcarries, -⟩ := List.forall₂_cons.mp hup
      cases content with
      | none =>
        cases f <;> exact .other _ rest contents hqueue hcontents hopen
      | some frame =>
        obtain ⟨id, run, rfl, hmade⟩ := hcarries
        have hmem : RuntimeFrame.tagged id run ∈ w.conn.toHost := by
          rw [hqueue]
          exact List.mem_cons_self
        -- the entry is of the run that made the call
        obtain ⟨entry, hlookup, hentry⟩ := h.fresh.known _ hmem
        change w.conn.runs.lookup id = some entry at hlookup
        change entry.run = run at hentry
        dsimp only
        rw [hlookup]
        dsimp only
        rw [hentry]
        cases hguest : w.guests[run]? with
        | none => exact .strange run frame _ rest contents hqueue hcontents hopen hmade hguest
        | some g => exact .call run frame _ rest contents hqueue hcontents hopen hmade g hguest
    · exact .idle

theorem route_sound (h : w.Sound) (decoding : Option String) : Sound (w.route decoding) := by
  have hrouting := route_routing h decoding
  generalize w.route decoding = w' at hrouting ⊢
  cases hrouting with
  | idle => exact h
  | other f rest contents hqueue hcontents hopen => exact h.pop hopen hqueue hcontents
  | strange run frame f rest contents hqueue hcontents hopen => exact h.pop hopen hqueue hcontents
  | call run frame f rest contents hqueue hcontents hopen hmade g hguest =>
    have honce := h.once
    rw [shown, hcontents] at honce
    exact dispatch_sound (h.pop hopen hqueue hcontents) hmade (List.nodup_cons.mp honce).1 g decoding

/-- What the handler of a call wrote is written. -/
theorem Sound.write (h : w.Sound) {i : Nat} {s : HostedCall} (hs : w.served[i]? = some s) {written : List CallAnswer}
    (hwritten : ∀ a ∈ s.written, a ∈ written) {a : CallAnswer} (ha : a ∈ written) :
    Sound ((w.setPhase i (.answered written)).respond s.run s.frame.callId a) := by
  exact (h.setPhase hs (.answered written) hwritten).respond
    ⟨⟨s.run, s.frame, .answered written⟩, setPhase_self hs _, rfl, rfl, ha⟩

theorem answer_sound (h : w.Sound) {i : Nat} {s : HostedCall} (hs : w.served[i]? = some s) {a : CallAnswer}
    (hphase : s.phase = .settled a) (failure : BridgeErrorPayload) : Sound (w.answer i s a failure) := by
  have hnone : ∀ {written : List CallAnswer}, ∀ b ∈ s.written, b ∈ written := by
    intro written b hb
    rw [HostedCall.written, hphase] at hb
    exact absurd hb List.not_mem_nil
  unfold answer
  dsimp only
  split
  · exact h.write hs hnone (List.mem_singleton.mpr rfl)
  · split
    · exact h.write hs hnone (List.mem_singleton.mpr rfl)
    · split
      · exact (h.setPhase hs (.answered []) hnone).plain RunIdStep.noConfusion fun _ => RunIdStep.noConfusion
      · exact h.setPhase hs (.answered []) hnone

/-- The demux has taken a frame. -/
def received (w : BridgeWorld) (taken : Bool) (contents : List (Option ResponseFrame)) : BridgeWorld :=
  { w.onConn (.receive taken) none none with toRuntime := contents }

/-- The demux takes a frame; a response goes to the run that has the id of its call's run. -/
inductive Receiving (w : BridgeWorld) (taken : Bool) : BridgeWorld → Prop where
  | idle : Receiving w taken w
  | other (f : RunWire) (rest : List RunWire) (contents : List (Option ResponseFrame))
      (hqueue : w.conn.toRuntime = f :: rest) (hcontents : w.toRuntime = none :: contents) :
      Receiving w taken (w.received taken contents)
  | astray (r : ResponseFrame) (s : HostedCall) (id : Nat) (f : RunWire) (rest : List RunWire)
      (contents : List (Option ResponseFrame)) (hqueue : w.conn.toRuntime = f :: rest)
      (hcontents : w.toRuntime = some r :: contents) (hs : s ∈ w.served) (hcall : r.callId = s.frame.callId)
      (ha : r.answer ∈ s.written) (hid : w.conn.idOf s.run = some id) (hroute : w.conn.routes.lookup id = none) :
      Receiving w taken (w.received taken contents)
  | response (r : ResponseFrame) (s : HostedCall) (id owner : Nat) (f : RunWire) (rest : List RunWire)
      (contents : List (Option ResponseFrame)) (hqueue : w.conn.toRuntime = f :: rest)
      (hcontents : w.toRuntime = some r :: contents) (hs : s ∈ w.served) (hcall : r.callId = s.frame.callId)
      (ha : r.answer ∈ s.written) (hid : w.conn.idOf s.run = some id)
      (hroute : w.conn.routes.lookup id = some owner) :
      Receiving w taken ((w.received taken contents).setGuest owner fun g =>
        { g with events := g.events ++ [if g.frameCap < r.length id + 1 then .lost else .response r] })

theorem receive_receiving (h : w.Sound) (taken : Bool) : w.Receiving taken (w.receive taken) := by
  have hdown := h.toRuntime
  unfold receive
  split
  next f rest content contents hqueue hcontents =>
    rw [hqueue, hcontents] at hdown
    obtain ⟨hbrings, -⟩ := List.forall₂_cons.mp hdown
    cases content with
    | none =>
      cases f <;> exact .other _ rest contents hqueue hcontents
    | some r =>
      obtain ⟨s, hs, hcall, ha, id, rfl, hid⟩ := hbrings
      dsimp only
      cases hroute : w.conn.routes.lookup id with
      | none => exact .astray r s id _ rest contents hqueue hcontents hs hcall ha hid hroute
      | some owner => exact .response r s id owner _ rest contents hqueue hcontents hs hcall ha hid hroute
  · exact .idle

theorem Sound.received (h : w.Sound) (taken : Bool) {f : RunWire} {rest : List RunWire}
    {content : Option ResponseFrame} {contents : List (Option ResponseFrame)}
    (hqueue : w.conn.toRuntime = f :: rest) (hcontents : w.toRuntime = content :: contents) :
    Sound (w.received taken contents) := by
  have hmoves := RunWorld.step_moves h.fresh (.receive taken)
  obtain ⟨hruntime, fs, hhost⟩ := RunWorld.receive_sends hqueue taken
  have hdown := h.toRuntime
  rw [hqueue, hcontents] at hdown
  show Sound
    { w with
      conn := w.conn.step (.receive taken)
      toHost := w.toHost ++
        List.replicate ((w.conn.step (.receive taken)).toHost.length - w.conn.toHost.length) none
      toRuntime := contents }
  refine h.conn (RunWorld.step_fresh _ h.fresh) (RunWorld.step_routed h.fresh h.routed _) hmoves ?_ ?_ ?_
  · exact forall₂_sent h.toHost ⟨fs, hhost, fun _ _ => trivial⟩
  · rw [hruntime]
    exact (List.forall₂_cons.mp hdown).2.imp fun _ _ hb => hb.moves hmoves rfl
  · rw [sentIds_replicate_none]
    exact h.once

theorem receive_sound (h : w.Sound) (taken : Bool) : Sound (w.receive taken) := by
  have hreceiving := receive_receiving h taken
  generalize w.receive taken = w' at hreceiving ⊢
  cases hreceiving with
  | idle => exact h
  | other f rest contents hqueue hcontents => exact h.received taken hqueue hcontents
  | astray r s id f rest contents hqueue hcontents => exact h.received taken hqueue hcontents
  | response r s id owner f rest contents hqueue hcontents hs hcall ha hid hroute =>
    refine (h.received taken hqueue hcontents).setGuest fun g _ hg => ⟨hg.entered, fun r' hr' => ?_, hg.resolvers⟩
    rcases List.mem_append.mp hr' with hr' | hr'
    · exact hg.events r' hr'
    · split at hr'
      · cases List.mem_singleton.mp hr'
      · cases List.mem_singleton.mp hr'
        exact ⟨s, hs, hcall.symm, ha⟩

theorem settle_sound (h : w.Sound) (hlen : w.calls.length ≤ 2 ^ 32) {run : Nat} {g g' : Guest}
    (hg : w.guests[run]? = some g') (hsame : g'.resolvers = g.resolvers) {r : ResponseFrame}
    (hanswered : w.Answered r.callId r.answer)
    (materialises : Bool) : Sound (w.settle run g r materialises) := by
  unfold settle
  cases hlookup : g.resolvers.lookup r.callId with
  | none => exact h
  | some n =>
    obtain ⟨frame, hget, hframe⟩ := (h.guests run g' hg).resolvers r.callId n (hsame ▸ hlookup)
    have herased : Sound (w.setGuest run fun g => { g with resolvers := g.resolvers.erase r.callId }) := by
      refine h.setGuest fun g _ hg => ⟨hg.entered, hg.events, fun id m hm => ?_⟩
      dsimp only at hm
      have hne : id ≠ r.callId := by
        rintro rfl
        rw [AList.lookup_erase] at hm
        cases hm
      rw [AList.lookup_erase_ne hne] at hm
      exact hg.resolvers id m hm
    -- the answer is to this call: another one with its id would be the same call
    have hserved : ∃ s ∈ w.served, s.run = run ∧ s.frame = frame ∧ r.answer ∈ s.written := by
      obtain ⟨s, hs, hid, ha⟩ := hanswered
      obtain ⟨m, state, hmade⟩ := h.served s hs
      obtain ⟨-, heq⟩ := h.unique hlen hmade hget (hid.trans hframe.symm)
      cases heq
      exact ⟨s, hs, rfl, rfl, ha⟩
    have hwaits : ∀ (i : Nat) (g : Guest),
        (w.setGuest run fun g => { g with resolvers := g.resolvers.erase r.callId }).guests[i]? = some g →
        ∀ id, g.resolvers.lookup id ≠ some n := by
      intro i g₁ hg₁ id hid
      obtain ⟨frame', hget', hframe'⟩ := (herased.guests i g₁ hg₁).resolvers id n hid
      change w.calls[n]? = some ⟨i, frame', .pending⟩ at hget'
      rw [hget] at hget'
      cases hget'
      rw [BridgeWorld.setGuest, List.getElem?_modify_eq, hg] at hg₁
      cases hg₁
      dsimp only at hid
      rw [← hframe', hframe, AList.lookup_erase] at hid
      cases hid
    have hsettled := herased.settleCall hget hserved hwaits
    dsimp only
    split
    · split
      · exact hsettled
      · exact herased.touchGuest run (fun _ => rfl) (fun _ => rfl) fun _ => rfl
    · exact hsettled

/-- The next event is taken off the run's channel. -/
theorem Sound.takeFirst (h : w.Sound) {run : Nat} {g : Guest} (hg : w.guests[run]? = some g) {e : ChannelEvent}
    {rest : List ChannelEvent} (hevents : g.events = e :: rest) :
    Sound (w.setGuest run fun g => { g with events := rest }) := by
  refine h.setGuest fun g' hg' hholds => ⟨hholds.entered, fun r hr => ?_, hholds.resolvers⟩
  rw [hg] at hg'
  cases hg'
  exact hholds.events r (hevents ▸ List.mem_cons_of_mem e hr)

theorem takeEvent_sound (h : w.Sound) (hlen : w.calls.length ≤ 2 ^ 32) {run : Nat} {g : Guest}
    (hg : w.guests[run]? = some g) (materialises : Bool) : Sound (w.takeEvent run g materialises) := by
  unfold takeEvent
  cases hevents : g.events with
  | nil => exact h
  | cons e rest =>
    have hrest := h.takeFirst hg hevents
    dsimp only
    split
    · cases e with
      | lost => exact hrest.touchGuest run (fun _ => rfl) (fun _ => rfl) fun _ => rfl
      | response r =>
        have hanswered := (h.guests run g hg).events r (hevents ▸ List.mem_cons_self)
        have hg' : (w.setGuest run fun g => { g with events := rest }).guests[run]? =
            some { g with events := rest } := by
          rw [BridgeWorld.setGuest, List.getElem?_modify_eq, hg]
          rfl
        exact settle_sound hrest hlen hg' rfl hanswered materialises
    · exact hrest

theorem begin_sound (h : w.Sound) (encodes : Bool) (guest : Guest) : Sound (w.begin encodes guest) := by
  have hplain := h.plain (e := .start encodes) RunIdStep.noConfusion fun _ => RunIdStep.noConfusion
  refine ⟨hplain.fresh, hplain.routed, hplain.ids, hplain.begun, hplain.toHost, hplain.toRuntime, hplain.once,
    hplain.served, fun run g hg => ?_, hplain.settled⟩
  have hholds : BridgeWorld.Holds (w.onConn (.start encodes) none none) run g := by
    rcases lt_or_ge run w.guests.length with hlt | hge
    · exact hplain.guests run g ((List.getElem?_append_left hlt).symm.trans hg)
    · have hnew := List.mem_of_getElem? ((List.getElem?_append_right hge).symm.trans hg)
      rw [List.eq_of_mem_replicate hnew]
      exact ⟨fun hne => absurd rfl hne, fun _ hr => absurd hr List.not_mem_nil, fun _ _ hl => by cases hl⟩
  exact ⟨hholds.entered, hholds.events, hholds.resolvers⟩

theorem step_sound (h : w.Sound) (op : BridgeOp) (hlen : (w.step op).calls.length ≤ 2 ^ 32) :
    Sound (w.step op) := by
  cases op with
  | start encodes guest => exact begin_sound h encodes guest
  | abort run => exact h.touchGuest run (fun _ => rfl) (fun _ => rfl) fun _ => rfl
  | enter run bound functionArg target =>
    dsimp only [step]
    cases w.guests[run]? with
    | none => exact h
    | some g => exact enter_sound h run g bound functionArg target
  | leave run argsBlob killed link =>
    dsimp only [step] at hlen ⊢
    cases hg : w.guests[run]? with
    | none => exact h
    | some g =>
      rw [hg] at hlen
      exact leave_sound h hg argsBlob killed link hlen
  | route decoding => exact route_sound h decoding
  | settle i a =>
    dsimp only [step]
    cases hs : w.served[i]? with
    | none => exact h
    | some s =>
      dsimp only [Option.elim_some]
      split
      next hphase =>
        refine h.setPhase hs _ fun b hb => ?_
        rw [HostedCall.written, hphase] at hb
        exact hb
      · exact h
  | answer i failure =>
    dsimp only [step]
    cases hs : w.served[i]? with
    | none => exact h
    | some s =>
      dsimp only [Option.elim_some]
      split
      next a hphase => exact answer_sound h hs hphase failure
      · exact h
  | answerAgain i failure =>
    dsimp only [step]
    cases hs : w.served[i]? with
    | none => exact h
    | some s =>
      dsimp only [Option.elim_some]
      split
      next a hphase =>
        refine h.write hs (fun b hb => ?_) (List.mem_append_right _ (List.mem_singleton.mpr rfl))
        rw [HostedCall.written, hphase] at hb
        exact List.mem_append_left _ hb
      · exact h
  | receive taken => exact receive_sound h taken
  | takeEvent run materialises =>
    dsimp only [step]
    cases hg : w.guests[run]? with
    | none => exact h
    | some g =>
      exact takeEvent_sound h (le_trans (step_extends w _).length_le hlen) hg materialises
  | other e =>
    dsimp only [step]
    split
    next hplain =>
      refine h.plain ?_ ?_
      · rintro rfl
        cases hplain
      · rintro taken rfl
        cases hplain
    · exact h

end BridgeWorld

end Iso4
