/-
What turn code can do to the world around it.

`Turn.Frame t t'` holds between the states before and after any turn code: the
clock only advances, the channel and the history only grow, and a parked run
changes only the way guest JS of another run's turn can change it — a promise
of its own settles, a bridge error is recorded, a stream is read, or its timers
change, which marks it touched (`LiveRun.Rides`).

* `run_frame` — every program of turn operations respects the frame;
* `LiveRun.Rides.nextDeadline_eq` — an untouched run keeps its deadline.
-/
import Iso4.InstanceLoop

namespace Iso4

open Program

/-! ### Parked runs -/

theorem OutTable.isOpen_iff {st : OutTable} :
    st.isOpen = true ↔ ∃ id s, st.streams.lookup id = some s ∧ s.done = false := by
  rw [OutTable.isOpen, List.any_eq_true]
  constructor
  · rintro ⟨⟨id, s⟩, hmem, hs⟩
    exact ⟨id, s, AList.mem_lookup_iff.mpr hmem, by simpa using hs⟩
  · rintro ⟨id, s, hl, hs⟩
    exact ⟨⟨id, s⟩, AList.mem_lookup_iff.mp hl, by simpa using hs⟩

/-- What the idle deadline depends on. -/
def OutTable.idle (st : OutTable) : Bool × Nat := (st.isOpen, st.lastActivity)

/-- Changing a stream without ending it does not move the idle deadline. -/
theorem RunCallState.idle_modifyOut {id : Nat} {f : OutStream → OutStream} {e : RunCallState}
    (hf : ∀ s, (f s).done = s.done) :
    (e.modifyOut id f).outStreams.map OutTable.idle = e.outStreams.map OutTable.idle := by
  cases hst : e.outStreams with
  | none => simp [modifyOut, mapOut, hst]
  | some st =>
    simp only [modifyOut, mapOut, hst, Option.map_some, Option.some.injEq]
    cases hl : st.streams.lookup id with
    | none => simp
    | some s =>
      simp only [OutTable.idle, Prod.mk.injEq, and_true]
      rw [Bool.eq_iff_iff, OutTable.isOpen_iff, OutTable.isOpen_iff]
      constructor
      · rintro ⟨i, s', hl', hs'⟩
        by_cases hi : i = id
        · subst hi
          rw [AList.lookup_insert, Option.some.injEq] at hl'
          subst hl'
          exact ⟨i, s, hl, by rw [← hf s]; exact hs'⟩
        · rw [AList.lookup_insert_ne hi] at hl'
          exact ⟨i, s', hl', hs'⟩
      · rintro ⟨i, s', hl', hs'⟩
        by_cases hi : i = id
        · subst hi
          rw [hl, Option.some.injEq] at hl'
          subst hl'
          exact ⟨i, f s, AList.lookup_insert _, by rw [hf s]; exact hs'⟩
        · exact ⟨i, s', by rw [AList.lookup_insert_ne hi]; exact hl', hs'⟩

/-- What guest JS of another run's turn can change of a parked run, its timers
apart. -/
structure RunState.Drift (rs rs' : RunState) : Prop where
  counted : rs'.counted = rs.counted
  parkedAt : rs'.parkedAt = rs.parkedAt
  phase : rs'.phase = rs.phase ∨ ∃ st callPending rootIsCallResult,
    rs.phase = .settling .pending callPending rootIsCallResult ∧
      rs'.phase = .settling st callPending rootIsCallResult
  idle : rs'.entry.outStreams.map OutTable.idle = rs.entry.outStreams.map OutTable.idle

namespace RunState.Drift

variable {rs rs' rs'' : RunState}

theorem refl (rs : RunState) : Drift rs rs := ⟨rfl, rfl, Or.inl rfl, rfl⟩

theorem trans (h : Drift rs rs') (h' : Drift rs' rs'') : Drift rs rs'' where
  counted := h'.counted.trans h.counted
  parkedAt := h'.parkedAt.trans h.parkedAt
  phase := by
    rcases h.phase with e | ⟨st, cp, ric, e, e'⟩
    · rw [← e]
      exact h'.phase
    · right
      rcases h'.phase with e'' | ⟨st', cp', ric', e₁, e₂⟩
      · exact ⟨st, cp, ric, e, e''.trans e'⟩
      · rw [e'] at e₁
        obtain ⟨-, rfl, rfl⟩ := RunPhase.settling.inj e₁
        exact ⟨st', cp, ric, e, e₂⟩
  idle := h'.idle.trans h.idle

theorem isGrace (h : Drift rs rs') : rs'.phase.isGrace = rs.phase.isGrace := by
  rcases h.phase with e | ⟨st, cp, ric, e, e'⟩
  · rw [e]
  · rw [e, e']
    rfl

/-- A parked run in its post-Result phase keeps it as it is. -/
theorem grace {g : GraceState} (h : Drift rs rs') : rs'.phase = .grace g ↔ rs.phase = .grace g := by
  rcases h.phase with e | ⟨st, cp, ric, e, e'⟩
  · rw [e]
  · rw [e, e']
    simp

/-- Outside the phase and the timers only the entry's other parts changed. -/
theorem ofEntry (f : RunCallState → RunCallState)
    (hf : (f rs.entry).outStreams.map OutTable.idle = rs.entry.outStreams.map OutTable.idle) :
    Drift rs (rs.onEntry f) := ⟨rfl, rfl, Or.inl rfl, hf⟩

end RunState.Drift

/-- A parked run before and after turn code of another run, which marked the
runs in `touched`. -/
structure LiveRun.Rides (touched : List Nat) (l l' : LiveRun) : Prop where
  job : l'.job = l.job
  drift : RunState.Drift l.rs l'.rs
  timers : l'.rs.entry.timers = l.rs.entry.timers ∨ l.token ∈ touched

namespace LiveRun.Rides

variable {touched touched' : List Nat} {l l' l'' : LiveRun}

theorem refl (touched : List Nat) (l : LiveRun) : Rides touched l l :=
  ⟨rfl, RunState.Drift.refl _, Or.inl rfl⟩

theorem token (h : Rides touched l l') : l'.token = l.token := by
  rw [LiveRun.token, h.job, LiveRun.token]

theorem mono (h : Rides touched l l') (hsub : touched ⊆ touched') : Rides touched' l l' :=
  ⟨h.job, h.drift, h.timers.imp_right fun ht => hsub ht⟩

theorem trans (h : Rides touched l l') (h' : Rides touched l' l'') : Rides touched l l'' where
  job := h'.job.trans h.job
  drift := h.drift.trans h'.drift
  timers := by
    rcases h.timers with e | ht
    · rcases h'.timers with e' | ht'
      · exact Or.inl (e'.trans e)
      · exact Or.inr (h.token ▸ ht')
    · exact Or.inr ht

theorem outIdleDeadline_eq (h : Rides touched l l') : l'.outIdleDeadline = l.outIdleDeadline := by
  have hi := h.drift.idle
  unfold LiveRun.outIdleDeadline
  cases h1 : l'.rs.entry.outStreams <;> cases h2 : l.rs.entry.outStreams <;>
    simp_all [OutTable.idle]

theorem outStreamsOpen_eq (h : Rides touched l l') : l'.outStreamsOpen = l.outStreamsOpen := by
  have hi := h.drift.idle
  unfold LiveRun.outStreamsOpen
  cases h1 : l'.rs.entry.outStreams <;> cases h2 : l.rs.entry.outStreams <;>
    simp_all [OutTable.idle]

theorem graceWallInstant_eq (h : Rides touched l l') : l'.graceWallInstant = l.graceWallInstant := by
  unfold LiveRun.graceWallInstant
  rcases h.drift.phase with e | ⟨st, cp, ric, e, e'⟩
  · rw [e, h.drift.parkedAt]
  · rw [e, e']

theorem deadlineInstant_eq (h : Rides touched l l') : l'.deadlineInstant = l.deadlineInstant := by
  unfold LiveRun.deadlineInstant
  rw [h.graceWallInstant_eq, h.outIdleDeadline_eq, h.drift.parkedAt, h.drift.counted, h.job]
  rcases h.drift.phase with e | ⟨st, cp, ric, e, e'⟩
  · rw [e]
  · rw [e, e']

/-- An untouched run keeps its deadline. -/
theorem nextDeadline_eq (h : Rides touched l l') (ht : l.token ∉ touched) :
    l'.nextDeadline = l.nextDeadline := by
  unfold LiveRun.nextDeadline LiveRun.earliestTimer
  rw [h.deadlineInstant_eq, h.timers.resolve_right ht]

end LiveRun.Rides

/-! ### The frame of turn code -/

/-- What turn code notes in the history. -/
def Event.ofTurn : Event → Bool
  | .arrived _ _ => true
  | .sent _ _ => true
  | .dropped _ _ => true
  | _ => false

namespace Core

/-- The frame on the shared world. -/
structure Frame (c c' : Core) : Prop where
  clock : c.clock ≤ c'.clock
  /-- Jobs arrive under tokens never seen before. -/
  queue : ∃ new, c'.queue = c.queue ++ new ∧ c'.seen.Perm (jobTokens new ++ c.seen) ∧
    (c.seen.Nodup → c'.seen.Nodup)
  touched : c.touched <:+ c'.touched
  log : ∃ new, c'.log = new ++ c.log ∧ ∀ e ∈ new, e.ofTurn = true
  live : List.Forall₂ (LiveRun.Rides c'.touched) c.live c'.live

end Core

theorem forall₂_rides_refl (touched : List Nat) (ls : List LiveRun) :
    List.Forall₂ (LiveRun.Rides touched) ls ls := by
  induction ls with
  | nil => exact .nil
  | cons l ls ih => exact .cons (LiveRun.Rides.refl _ _) ih

theorem forall₂_rides_mono {touched touched' : List Nat} {ls ls' : List LiveRun}
    (h : List.Forall₂ (LiveRun.Rides touched) ls ls') (hsub : touched ⊆ touched') :
    List.Forall₂ (LiveRun.Rides touched') ls ls' :=
  h.imp fun _ _ hr => hr.mono hsub

theorem forall₂_rides_trans {touched : List Nat} {ls ls' ls'' : List LiveRun}
    (h : List.Forall₂ (LiveRun.Rides touched) ls ls')
    (h' : List.Forall₂ (LiveRun.Rides touched) ls' ls'') :
    List.Forall₂ (LiveRun.Rides touched) ls ls'' := by
  induction h generalizing ls'' with
  | nil =>
    cases h'
    exact .nil
  | cons hr _ ih =>
    cases h' with
    | cons hr' hs' => exact .cons (hr.trans hr') (ih hs')

/-- Changing one parked run by its token. -/
theorem forall₂_rides_map {touched : List Nat} {token : Nat} {f : RunState → RunState}
    (ls : List LiveRun)
    (hf : ∀ l : LiveRun, l.token = token → LiveRun.Rides touched l { l with rs := f l.rs }) :
    List.Forall₂ (LiveRun.Rides touched) ls
      (ls.map fun l => if l.token = token then { l with rs := f l.rs } else l) := by
  rw [List.forall₂_map_right_iff]
  refine List.forall₂_same.mpr fun l _ => ?_
  by_cases hl : l.token = token
  · rw [if_pos hl]
    exact hf l hl
  · rw [if_neg hl]
    exact LiveRun.Rides.refl _ _

namespace Core.Frame

variable {c c' c'' : Core}

theorem refl (c : Core) : Frame c c where
  clock := Nat.le_refl _
  queue := ⟨[], (List.append_nil _).symm, List.Perm.refl _, id⟩
  touched := List.suffix_refl _
  log := ⟨[], rfl, fun _ he => absurd he List.not_mem_nil⟩
  live := forall₂_rides_refl _ _

theorem trans (h : Frame c c') (h' : Frame c' c'') : Frame c c'' where
  clock := h.clock.trans h'.clock
  queue := by
    obtain ⟨new, e, hp, hn⟩ := h.queue
    obtain ⟨new', e', hp', hn'⟩ := h'.queue
    refine ⟨new ++ new', by rw [e', e, List.append_assoc], ?_, fun hs => hn' (hn hs)⟩
    refine hp'.trans ((hp.append_left _).trans ?_)
    rw [jobTokens, jobTokens, jobTokens, List.filterMap_append, ← List.append_assoc]
    exact List.perm_append_comm.append_right _
  touched := h.touched.trans h'.touched
  log := by
    obtain ⟨new, e, hn⟩ := h.log
    obtain ⟨new', e', hn'⟩ := h'.log
    refine ⟨new' ++ new, by rw [e', e, List.append_assoc], ?_⟩
    intro ev hev
    rcases List.mem_append.mp hev with hev | hev
    · exact hn' ev hev
    · exact hn ev hev
  live := forall₂_rides_trans (forall₂_rides_mono h.live h'.touched.subset) h'.live

/-- What keeps the channel, the history and the parked runs is in the frame. -/
theorem of_eq (hclock : c.clock ≤ c'.clock) (hqueue : c'.queue = c.queue) (hseen : c'.seen = c.seen)
    (htouched : c'.touched = c.touched) (hlog : c'.log = c.log) (hlive : c'.live = c.live) :
    Frame c c' where
  clock := hclock
  queue := ⟨[], by rw [hqueue, List.append_nil], by rw [hseen]; rfl, by rw [hseen]; exact id⟩
  touched := htouched ▸ List.suffix_refl _
  log := ⟨[], hlog, fun _ he => absurd he List.not_mem_nil⟩
  live := hlive ▸ forall₂_rides_refl _ _

theorem note {e : Event} (he : e.ofTurn = true) (c : Core) : Frame c (c.note e) :=
  { refl c with log := ⟨[e], rfl, fun _ he' => (List.mem_singleton.mp he') ▸ he⟩ }

theorem arrive (c : Core) (token : Nat) (event : RunEvent) (lag : Nat) :
    Frame c (c.arrive token event lag) := by
  cases event with
  | job j =>
    rw [Core.arrive]
    by_cases hs : j.token ∈ c.seen
    · rw [if_pos hs]
      exact refl c
    · rw [if_neg hs]
      exact
        { clock := Nat.le_refl _
          queue := ⟨[_], rfl, List.Perm.refl _, fun hn => List.nodup_cons.mpr ⟨hs, hn⟩⟩
          touched := List.suffix_refl _
          log := ⟨[], rfl, fun _ he => absurd he List.not_mem_nil⟩
          live := forall₂_rides_refl _ _ }
  | host m =>
    rw [Core.arrive]
    by_cases hs : token ∈ c.seen
    · rw [if_pos hs]
      exact
        { clock := Nat.le_refl _
          queue := ⟨[_], rfl, List.Perm.refl _, id⟩
          touched := List.suffix_refl _
          log := ⟨[_], rfl, fun _ he => (List.mem_singleton.mp he) ▸ rfl⟩
          live := forall₂_rides_refl _ _ }
    · rw [if_neg hs]
      exact refl c
  | retire =>
    exact
      { clock := Nat.le_refl _
        queue := ⟨[_], rfl, List.Perm.refl _, id⟩
        touched := List.suffix_refl _
        log := ⟨[], rfl, fun _ he => absurd he List.not_mem_nil⟩
        live := forall₂_rides_refl _ _ }

theorem passAll (c : Core) (ps : List Passing) : Frame c (c.passAll ps) := by
  induction ps generalizing c with
  | nil => exact refl c
  | cons p ps ih =>
    refine trans ?_ (ih (c.passOne p))
    cases p with
    | pass d => exact of_eq (Nat.le_add_right _ _) rfl rfl rfl rfl rfl
    | arrive token event lag => exact arrive c token event lag

theorem popClock (c : Core) : Frame c c.popClock := of_eq (Nat.le_refl _) rfl rfl rfl rfl rfl

theorem popFire (c : Core) : Frame c c.popFire := of_eq (Nat.le_refl _) rfl rfl rfl rfl rfl

theorem popSlice (c : Core) : Frame c c.popSlice := of_eq (Nat.le_refl _) rfl rfl rfl rfl rfl

theorem popGetter (c : Core) : Frame c c.popGetter := of_eq (Nat.le_refl _) rfl rfl rfl rfl rfl

theorem popSend (c : Core) : Frame c c.popSend := of_eq (Nat.le_refl _) rfl rfl rfl rfl rfl

theorem now (c : Core) : Frame c c.now.2 := trans (popClock c) (passAll _ _)

theorem kill (c : Core) (r : TerminationReason) : Frame c (c.kill r) :=
  of_eq (Nat.le_refl _) rfl rfl rfl rfl rfl

theorem fire (c : Core) (r : TerminationReason) : Frame c (c.fire r) := by
  unfold Core.fire
  split
  · exact kill c r
  · exact refl c

theorem race (c : Core) : Frame c c.race := by
  unfold Core.race
  split
  · exact trans (popFire c) (fire _ _)
  · exact popFire c

theorem readReason (c : Core) : Frame c c.readReason.2 :=
  trans (race c) (of_eq (Nat.le_refl _) rfl rfl rfl rfl rfl)

theorem disarm (c : Core) : Frame c c.disarm :=
  trans (race c) (of_eq (Nat.le_refl _) rfl rfl rfl rfl rfl)

theorem send (c : Core) (token : Nat) (msg : Outbound) : Frame c (c.send token msg).2 := by
  refine trans (popSend c) (note ?_ _)
  split <;> rfl

end Core.Frame

namespace Turn

/-- The frame of turn code: on the world, and the owner's identity. -/
structure Frame (t t' : Turn) : Prop where
  core : Core.Frame t.toCore t'.toCore
  job : t'.owner.job = t.owner.job

namespace Frame

variable {t t' t'' : Turn}

theorem refl (t : Turn) : Frame t t := ⟨Core.Frame.refl _, rfl⟩

theorem trans (h : Frame t t') (h' : Frame t' t'') : Frame t t'' :=
  ⟨h.core.trans h'.core, h'.job.trans h.job⟩

theorem token (h : Frame t t') : t'.owner.token = t.owner.token := by
  rw [LiveRun.token, h.job, LiveRun.token]

theorem onCore {f : Core → Core} (hf : Core.Frame t.toCore (f t.toCore)) : Frame t (t.onCore f) :=
  ⟨hf, rfl⟩

theorem asking {α : Type} {f : Core → α × Core} (hf : Core.Frame t.toCore (f t.toCore).2) :
    Frame t (t.asking f).2 := ⟨hf, rfl⟩

/-- Acting on the owner alone. -/
theorem owner (hc : t'.toCore = t.toCore) (hj : t'.owner.job = t.owner.job) : Frame t t' :=
  ⟨hc ▸ Core.Frame.refl _, hj⟩

/-- Drift of the run with this token. -/
theorem onRun (token : Nat) {f : RunState → RunState} (hf : ∀ rs, RunState.Drift rs (f rs))
    (ht : ∀ rs, (f rs).entry.timers = rs.entry.timers) : Frame t (t.onRun token f) := by
  unfold Turn.onRun
  by_cases he : token = t.owner.token
  · rw [if_pos he]
    exact owner rfl rfl
  · rw [if_neg he]
    refine ⟨{ Core.Frame.refl t.toCore with live := ?_ }, rfl⟩
    exact forall₂_rides_map _ fun l _ => ⟨rfl, hf l.rs, Or.inl (ht l.rs)⟩

theorem sendFor (t : Turn) (l : LiveRun) (msg : Outbound) : Frame t (t.sendFor l msg).2 := by
  unfold Turn.sendFor
  split
  · exact asking (Core.Frame.send _ _ _)
  · exact refl t

theorem fatalBridgeError (t : Turn) (token : Nat) (e : RunError) :
    Frame t (t.fatalBridgeError token e) := by
  refine trans (onRun (f := recordBridgeError e) token ?_ fun _ => rfl) (onCore ?_)
  · exact fun _ => ⟨rfl, rfl, Or.inl rfl, rfl⟩
  · exact Core.Frame.of_eq (Nat.le_refl _) rfl rfl rfl rfl rfl

theorem putStream (t : Turn) (token id : Nat) (st : StreamState) :
    Frame t (t.putStream token id st) :=
  onRun token (fun _ => ⟨rfl, rfl, Or.inl rfl, rfl⟩) fun _ => rfl

theorem putTimers (t : Turn) (token : Nat) (timers : TimerTable) :
    Frame t (t.putTimers token timers) := by
  unfold Turn.putTimers Turn.onRun
  by_cases he : token = t.owner.token
  · rw [if_pos he]
    exact ⟨{ Core.Frame.refl t.toCore with
      touched := List.suffix_cons _ _, live := forall₂_rides_refl _ _ }, rfl⟩
  · rw [if_neg he]
    refine ⟨{ Core.Frame.refl t.toCore with touched := List.suffix_cons _ _, live := ?_ }, rfl⟩
    refine forall₂_rides_map (f := withTimers timers) _ fun l hl => ⟨rfl, ?_, Or.inr ?_⟩
    · exact ⟨rfl, rfl, Or.inl rfl, rfl⟩
    · rw [hl]
      exact List.mem_cons_self

theorem bridgeGlobalCallback (t : Turn) (l : LiveRun) (callId : Nat) :
    Frame t (t.bridgeGlobalCallback l callId) := by
  unfold Turn.bridgeGlobalCallback
  split
  · exact refl t
  · split
    · exact refl t
    · have hs := sendFor t l (.bridgeCall callId)
      split
      · next heq =>
        rw [heq] at hs
        exact trans hs (onRun _ (fun _ => ⟨rfl, rfl, Or.inl rfl, rfl⟩) fun _ => rfl)
      · next heq =>
        rw [heq] at hs
        exact trans hs (fatalBridgeError _ _ _)

theorem streamReadCallback (t : Turn) (l : LiveRun) (id : Nat) :
    Frame t (t.streamReadCallback l id) := by
  unfold Turn.streamReadCallback
  split
  · exact refl t
  · split
    · split
      · exact putStream _ _ _ _
      · exact trans (putStream _ _ _ _) (sendFor _ _ _)
    · split
      · exact refl t
      · exact putStream _ _ _ _

theorem streamCancelCallback (t : Turn) (l : LiveRun) (id : Nat) :
    Frame t (t.streamCancelCallback l id) := by
  unfold Turn.streamCancelCallback
  split
  · exact refl t
  · split
    · exact trans (putStream _ _ _ _) (sendFor _ _ _)
    · exact putStream _ _ _ _

theorem settleRoot_drift (rs : RunState) (st : PromiseState) :
    RunState.Drift rs (Turn.settleRoot rs st) := by
  unfold Turn.settleRoot
  split
  · next cp ric h => exact ⟨rfl, rfl, Or.inr ⟨st, cp, ric, h, rfl⟩, rfl⟩
  · exact RunState.Drift.refl rs

theorem settleRoot_timers (rs : RunState) (st : PromiseState) :
    (Turn.settleRoot rs st).entry.timers = rs.entry.timers := by
  unfold Turn.settleRoot
  split <;> rfl

theorem act (t : Turn) (a : GuestAct) : Frame t (t.act a) := by
  cases a with
  | elapse ps => exact onCore (f := fun c => c.passAll ps) (Core.Frame.passAll _ _)
  | fire r => exact onCore (f := fun c => c.fire r) (Core.Frame.fire _ _)
  | kill r => exact onCore (f := fun c => c.kill r) (Core.Frame.kill _ _)
  | settleRoot token st =>
    exact onRun token (fun rs => settleRoot_drift rs st) fun rs => settleRoot_timers rs st
  | settleWait token i st =>
    exact onRun token (fun rs => RunState.Drift.ofEntry _ rfl) fun rs => rfl
  | settlePull token id st =>
    exact onRun token
      (fun rs => RunState.Drift.ofEntry _ (RunCallState.idle_modifyOut fun s => rfl)) fun rs => rfl
  | waitUntil rider st =>
    refine onRun (f := registerWait st) _ (fun rs => RunState.Drift.ofEntry _ ?_) fun rs => ?_
    · split <;> rfl
    · unfold registerWait RunState.onEntry
      dsimp only
      split <;> rfl
  | setTimeout rider leadMs =>
    change Frame t (t.setTimeoutCallback _ _)
    unfold Turn.setTimeoutCallback
    split
    · exact refl t
    · exact putTimers _ _ _
  | clearTimeout rider id =>
    change Frame t (t.clearTimeoutCallback _ _)
    unfold Turn.clearTimeoutCallback
    split
    · exact refl t
    · exact putTimers _ _ _
  | bridgeCall rider callId => exact bridgeGlobalCallback _ _ _
  | fatalBridge rider e => exact fatalBridgeError _ _ _
  | streamRead rider id => exact streamReadCallback _ _ _
  | streamCancel rider id => exact streamCancelCallback _ _ _
  | hydrate id =>
    exact owner rfl rfl
  | registerOut =>
    change Frame t t.registerOutStream
    unfold Turn.registerOutStream
    split
    · exact refl t
    · exact owner rfl rfl

theorem actAll (t : Turn) (acts : List GuestAct) : Frame t (t.actAll acts) := by
  induction acts generalizing t with
  | nil => exact refl t
  | cons a acts ih =>
    rw [Turn.actAll]
    split
    · exact refl t
    · exact trans (act t a) (ih _)

theorem js (t : Turn) : Frame t t.js.2 :=
  trans (onCore (Core.Frame.popSlice _)) (actAll _ _)

theorem read (t : Turn) : Frame t t.read.2 :=
  trans (onCore (Core.Frame.popGetter _)) (actAll _ _)

theorem arm (t : Turn) : Frame t t.arm := by
  unfold Turn.arm
  split
  · exact onCore (Core.Frame.of_eq (Nat.le_refl _) rfl rfl rfl rfl rfl)
  · split
    · refine onCore (Core.Frame.trans (Core.Frame.now _) ?_)
      exact Core.Frame.of_eq (Nat.le_refl _) rfl rfl rfl rfl rfl
    · exact onCore (Core.Frame.of_eq (Nat.le_refl _) rfl rfl rfl rfl rfl)

theorem sendEarlyResult (t : Turn) (exports : Nat) (hasGrace hasStreams : Bool) :
    Frame t (t.sendEarlyResult exports hasGrace hasStreams).2 := by
  unfold Turn.sendEarlyResult
  split
  · exact asking (f := fun c => c.send _ _) (Core.Frame.send _ _ _)
  · exact refl t

theorem freezeCounted (t : Turn) : Frame t t.freezeCounted := by
  have h : Frame t { (t.asking Core.now).2 with owner := t.owner } := asking (Core.Frame.now _)
  exact (h.trans (owner rfl rfl)).trans (trans (asking (Core.Frame.now _)) (owner rfl rfl))

theorem beginGrace (t : Turn) (exports : Nat) (hasGrace hasStreams : Bool) :
    Frame t (t.beginGrace exports hasGrace hasStreams) := by
  have h := trans (freezeCounted t) (sendEarlyResult _ exports hasGrace hasStreams)
  exact h.trans (trans (asking (Core.Frame.now _)) (owner rfl rfl))

theorem handle (γ : Type) (o : Op γ) (t : Turn) : Frame t (Turn.handle γ o t).2 := by
  cases o with
  | now => exact asking (Core.Frame.now _)
  | reason => exact asking (Core.Frame.readReason _)
  | resetReason => exact onCore (Core.Frame.of_eq (Nat.le_refl _) rfl rfl rfl rfl rfl)
  | terminating => exact asking (Core.Frame.of_eq (Nat.le_refl _) rfl rfl rfl rfl rfl)
  | cancelTerminate => exact onCore (Core.Frame.of_eq (Nat.le_refl _) rfl rfl rfl rfl rfl)
  | arm => exact arm t
  | disarm => exact onCore (Core.Frame.disarm _)
  | js => exact js t
  | read => exact read t
  | resultStreamMode on =>
    exact ⟨Core.Frame.of_eq (Nat.le_refl _) rfl rfl rfl rfl rfl, rfl⟩
  | self => exact refl t
  | entry f => exact owner rfl rfl
  | resolved callId => exact owner rfl rfl
  | root st callPending rootIsCallResult => exact owner rfl rfl
  | graceStatus s => exact owner rfl rfl
  | graceError e => exact owner rfl rfl
  | beginGrace exports hasGrace hasStreams => exact beginGrace _ _ _ _
  | send msg => exact sendFor _ _ _

end Frame

/-- Every program of turn operations respects the frame. -/
theorem run_frame {α : Type} (p : TurnM α) (t : Turn) : Frame t (p.run handle t).2 :=
  Prog.run_rel Frame.refl Frame.trans Frame.handle p t

end Turn

theorem Core.runTurn_frame {α : Type} (c : Core) (l : LiveRun) (p : TurnM α) :
    Core.Frame c (c.runTurn l p).2.toCore := (Turn.run_frame p { toCore := c, owner := l }).core

theorem Core.runTurn_job {α : Type} (c : Core) (l : LiveRun) (p : TurnM α) :
    (c.runTurn l p).2.owner.job = l.job := (Turn.run_frame p { toCore := c, owner := l }).job

/-! ### Bookkeeping without JS -/

/-- Frames of a run in progress: everything but its completions. -/
def Outbound.IsFrame : Outbound → Prop
  | .result _ => False
  | .runComplete _ => False
  | _ => True

/-- The operations of bookkeeping: no JS runs and no guard is involved. -/
def Op.Quiet : ∀ γ : Type, Op γ → Prop
  | _, .now => True
  | _, .self => True
  | _, .entry _ => True
  | _, .graceStatus _ => True
  | _, .graceError _ => True
  | _, .send msg => msg.IsFrame
  | _, _ => False

/-- What bookkeeping leaves alone. -/
structure Core.Still (c c' : Core) : Prop where
  live : c'.live = c.live
  touched : c'.touched = c.touched
  reason : c'.reason = c.reason
  lastRead : c'.lastRead = c.lastRead
  bareTerminate : c'.bareTerminate = c.bareTerminate
  terminating : c'.terminating = c.terminating
  armed : c'.armed = c.armed

namespace Core.Still

variable {c c' c'' : Core}

theorem refl (c : Core) : Still c c := ⟨rfl, rfl, rfl, rfl, rfl, rfl, rfl⟩

theorem trans (h : Still c c') (h' : Still c' c'') : Still c c'' where
  live := h'.live.trans h.live
  touched := h'.touched.trans h.touched
  reason := h'.reason.trans h.reason
  lastRead := h'.lastRead.trans h.lastRead
  bareTerminate := h'.bareTerminate.trans h.bareTerminate
  terminating := h'.terminating.trans h.terminating
  armed := h'.armed.trans h.armed

theorem arrive (c : Core) (token : Nat) (event : RunEvent) (lag : Nat) :
    Still c (c.arrive token event lag) := by
  cases event with
  | job j =>
    rw [Core.arrive]
    split
    · exact refl c
    · exact ⟨rfl, rfl, rfl, rfl, rfl, rfl, rfl⟩
  | host m =>
    rw [Core.arrive]
    split
    · exact ⟨rfl, rfl, rfl, rfl, rfl, rfl, rfl⟩
    · exact refl c
  | retire => exact ⟨rfl, rfl, rfl, rfl, rfl, rfl, rfl⟩

theorem passAll (c : Core) (ps : List Passing) : Still c (c.passAll ps) := by
  induction ps generalizing c with
  | nil => exact refl c
  | cons p ps ih =>
    refine trans ?_ (ih (c.passOne p))
    cases p with
    | pass d => exact ⟨rfl, rfl, rfl, rfl, rfl, rfl, rfl⟩
    | arrive token event lag => exact arrive c token event lag

theorem now (c : Core) : Still c c.now.2 := by
  have hpop : Still c c.popClock := ⟨rfl, rfl, rfl, rfl, rfl, rfl, rfl⟩
  exact hpop.trans (passAll _ _)

theorem send (c : Core) (token : Nat) (msg : Outbound) : Still c (c.send token msg).2 :=
  ⟨rfl, rfl, rfl, rfl, rfl, rfl, rfl⟩

theorem note (c : Core) (e : Event) : Still c (c.note e) := ⟨rfl, rfl, rfl, rfl, rfl, rfl, rfl⟩

theorem sendCompletion (c : Core) (token : Nat) (msg : Outbound) :
    Still c (c.sendCompletion token msg) := by
  rw [Core.sendCompletion]
  split
  · exact (send c token msg).trans (send _ _ _)
  · exact send c token msg

theorem finishJob (c : Core) (job : CallJob) (result : RunResult) (tainted failed : Bool) :
    Still c (c.finishJob job result tainted failed) := by
  have hc := note c (.concluded job.token result)
  rw [Core.finishJob]
  dsimp only
  split
  · exact ((hc.trans (note _ _)).trans (note _ _)).trans (sendCompletion _ _ _)
  · exact hc.trans (note _ _)

theorem sendFor (t : Turn) (l : LiveRun) (msg : Outbound) :
    Still t.toCore (t.sendFor l msg).2.toCore := by
  unfold Turn.sendFor
  split
  · exact send _ _ _
  · exact refl _

theorem handle (γ : Type) (o : Op γ) (t : Turn) (ho : Op.Quiet γ o) :
    Still t.toCore (Turn.handle γ o t).2.toCore := by
  cases o with
  | now => exact now _
  | self => exact refl _
  | entry f => exact refl _
  | graceStatus s => exact refl _
  | graceError e => exact refl _
  | send msg => exact sendFor _ _ _
  | _ => exact ho.elim

end Core.Still

/-- Bookkeeping code leaves the parked runs and the reason cell alone. -/
theorem Core.runTurn_still {α : Type} {p : TurnM α} (hp : p.Uses Op.Quiet) (c : Core)
    (l : LiveRun) : Core.Still c (c.runTurn l p).2.toCore :=
  hp.run_rel (R := fun t t' : Turn => Core.Still t.toCore t'.toCore) (fun _ => .refl _) .trans
    Core.Still.handle { toCore := c, owner := l }

namespace TurnM

open Prog

theorem quiet_closeEach (ids : List Nat) : (closeEach ids).Uses Op.Quiet := by
  induction ids with
  | nil => exact Uses.pure _
  | cons id ids ih =>
    refine Uses.bind ?_ fun _ => ih
    refine Uses.bind (Uses.perform trivial) fun _ => ?_
    exact Uses.bind (Uses.perform trivial) fun _ => Uses.pure _

theorem quiet_closeOutStreams : closeOutStreams.Uses Op.Quiet :=
  Uses.bind (Uses.perform trivial) fun _ => quiet_closeEach _

theorem quiet_finishPostPhase : finishPostPhase.Uses Op.Quiet :=
  Uses.bind quiet_closeOutStreams fun _ =>
    Uses.bind (Uses.perform trivial) fun _ => Uses.pure _

theorem quiet_boundaryDeadline : boundaryDeadline.Uses Op.Quiet := by
  refine Uses.bind (Uses.perform trivial) fun l => ?_
  split
  · exact Uses.bind quiet_finishPostPhase fun _ => Uses.pure _
  · exact Uses.pure _

theorem quiet_boundaryClose : boundaryClose.Uses Op.Quiet := by
  refine Uses.bind (Uses.perform trivial) fun l => ?_
  split
  · refine Uses.bind (Uses.perform trivial) fun _ => ?_
    exact Uses.bind quiet_finishPostPhase fun _ => Uses.pure _
  · exact Uses.pure _

theorem quiet_concludeGraceWall : concludeGraceWall.Uses Op.Quiet := by
  refine Uses.bind (Uses.perform trivial) fun _ => ?_
  refine Uses.bind (Uses.perform trivial) fun l => Uses.ite ?_ ?_
  · exact fun _ => Uses.pure _
  · exact fun _ => Uses.bind quiet_finishPostPhase fun _ => Uses.pure _

theorem quiet_cancelPumping (ids : List Nat) : (Core.cancelPumping ids).Uses Op.Quiet := by
  induction ids with
  | nil => exact Uses.pure _
  | cons id ids ih => exact Uses.bind (Uses.perform trivial) fun _ => ih

theorem quiet_closeStreams : Core.closeStreams.Uses Op.Quiet := by
  refine Uses.bind (Uses.perform trivial) fun l => ?_
  refine Uses.bind (Uses.perform trivial) fun _ => ?_
  exact Uses.bind (quiet_cancelPumping _) fun _ => quiet_closeOutStreams

end TurnM

end Iso4
