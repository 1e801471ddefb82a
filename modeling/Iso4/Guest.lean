/-
What guest JS can do to the runs of its instance, act by act.

* `Turn.act_runs` — an act changes the run it is addressed to, or the turn
  owner, in one of the ways of `RunState.Change`;
* `Turn.acts_handle` — turn code leaves the clocks of its run alone, and its
  phase up to the settlement of the root, where it does not switch phases.
-/
import Iso4.Frame

namespace Iso4

open Program

/-! ### The runs -/

/-- What guest JS leaves alone of a run in its own turn: the clocks, and the
phase up to the settlement of its root. -/
structure RunState.Acts (rs rs' : RunState) : Prop where
  start : rs'.start = rs.start
  counted : rs'.counted = rs.counted
  parkedAt : rs'.parkedAt = rs.parkedAt
  turnEntered : rs'.turnEntered = rs.turnEntered
  phase : rs'.phase = rs.phase ∨ ∃ st callPending rootIsCallResult,
    rs.phase = .settling .pending callPending rootIsCallResult ∧
      rs'.phase = .settling st callPending rootIsCallResult

namespace RunState.Acts

variable {rs rs' rs'' : RunState}

theorem refl (rs : RunState) : Acts rs rs := ⟨rfl, rfl, rfl, rfl, Or.inl rfl⟩

theorem trans (h : Acts rs rs') (h' : Acts rs' rs'') : Acts rs rs'' where
  start := h'.start.trans h.start
  counted := h'.counted.trans h.counted
  parkedAt := h'.parkedAt.trans h.parkedAt
  turnEntered := h'.turnEntered.trans h.turnEntered
  phase := by
    rcases h.phase with e | ⟨st, cp, ric, e, e'⟩
    · rw [← e]
      exact h'.phase
    · right
      rcases h'.phase with e'' | ⟨st', cp', ric', e₁, e₂⟩
      · exact ⟨st, cp, ric, e, e''.trans e'⟩
      · rw [e'] at e₁
        obtain ⟨-, rfl, rfl⟩ := RunPhase.settling.inj e₁
        exact ⟨st', cp, ric, e, e₂⟩

theorem isGrace (h : Acts rs rs') : rs'.phase.isGrace = rs.phase.isGrace := by
  rcases h.phase with e | ⟨st, cp, ric, e, e'⟩
  · rw [e]
  · rw [e, e']
    rfl

/-- The post-Result phase stays as it is. -/
theorem grace {g : GraceState} (h : Acts rs rs') (hg : rs.phase = .grace g) :
    rs'.phase = .grace g := by
  rcases h.phase with e | ⟨st, cp, ric, e, -⟩
  · rw [e, hg]
  · rw [hg] at e
    cases e

end RunState.Acts

/-- What one act of guest JS can make of a run's state. -/
inductive RunState.Change : GuestAct → RunState → RunState → Prop where
  | root {token st rs} : Change (.settleRoot token st) rs (Turn.settleRoot rs st)
  | wait {token i st rs} : Change (.settleWait token i st) rs (Turn.settleWait rs i st)
  | pull {token id st rs} : Change (.settlePull token id st) rs (Turn.settlePull rs id st)
  | register {rider st rs} : Change (.waitUntil rider st) rs (Turn.registerWait st rs)
  | setTimers {rider leadMs timers rs} :
    Change (.setTimeout rider leadMs) rs (Turn.withTimers timers rs)
  | clearTimers {rider id timers rs} :
    Change (.clearTimeout rider id) rs (Turn.withTimers timers rs)
  | called {rider callId rs} :
    Change (.bridgeCall rider callId) rs { rs with resolvers := callId :: rs.resolvers }
  | callFailed {rider callId e rs} :
    Change (.bridgeCall rider callId) rs (Turn.recordBridgeError e rs)
  | violated {rider e rs} : Change (.fatalBridge rider e) rs (Turn.recordBridgeError e rs)
  | streamRead {rider id f rs} :
    Change (.streamRead rider id) rs (rs.onEntry (RunCallState.mapStreams f))
  | streamCancel {rider id f rs} :
    Change (.streamCancel rider id) rs (rs.onEntry (RunCallState.mapStreams f))
  | hydrate {id f rs} : Change (.hydrate id) rs (rs.onEntry (RunCallState.mapStreams f))
  | out {f rs} : Change .registerOut rs (rs.onEntry (RunCallState.mapOut f))

theorem RunState.Change.acts {a : GuestAct} {rs rs' : RunState} (h : Change a rs rs') :
    Acts rs rs' := by
  cases h with
  | root =>
    unfold Turn.settleRoot
    split
    · next cp ric h => exact ⟨rfl, rfl, rfl, rfl, Or.inr ⟨_, cp, ric, h, rfl⟩⟩
    · exact Acts.refl _
  | _ => exact ⟨rfl, rfl, rfl, rfl, Or.inl rfl⟩

/-- The run an act is addressed to, unless it falls to the turn owner. -/
def GuestAct.target : GuestAct → Option Nat
  | .settleRoot token _ => some token
  | .settleWait token _ _ => some token
  | .settlePull token _ _ => some token
  | .waitUntil rider _ => some rider
  | .setTimeout rider _ => some rider
  | .clearTimeout rider _ => some rider
  | .bridgeCall rider _ => some rider
  | .fatalBridge rider _ => some rider
  | .streamRead rider _ => some rider
  | .streamCancel rider _ => some rider
  | _ => none

/-- A parked run through one act: unchanged, or the act was for it. -/
def LiveRun.ActedOn (a : GuestAct) (l l' : LiveRun) : Prop :=
  l' = l ∨ (l'.job = l.job ∧ a.target = some l.token ∧ RunState.Change a l.rs l'.rs)

/-- A parked run whose bridge error stays as it is. -/
structure LiveRun.SameError (l l' : LiveRun) : Prop where
  bridgeError : l'.rs.bridgeError = l.rs.bridgeError
  isGrace : l'.rs.phase.isGrace = l.rs.phase.isGrace

theorem LiveRun.SameError.refl (l : LiveRun) : SameError l l := ⟨rfl, rfl⟩

namespace Turn

/-- The effect of one act on the runs. -/
structure ActsBy (a : GuestAct) (t t' : Turn) : Prop where
  job : t'.owner.job = t.owner.job
  owner : t'.owner.rs = t.owner.rs ∨ RunState.Change a t.owner.rs t'.owner.rs
  live : List.Forall₂ (LiveRun.ActedOn a) t.live t'.live
  /-- Recording a bridge error comes with a bare terminate. -/
  bare : t'.bareTerminate = true ∨ (t'.bareTerminate = t.bareTerminate ∧
    List.Forall₂ LiveRun.SameError t.live t'.live)

namespace ActsBy

variable {a : GuestAct} {t t' t'' : Turn}

theorem still (ho : t'.owner = t.owner) (hl : t'.live = t.live)
    (hb : t'.bareTerminate = t.bareTerminate) : ActsBy a t t' where
  job := by rw [ho]
  owner := Or.inl (by rw [ho])
  live := by
    rw [hl]
    exact List.forall₂_same.mpr fun _ _ => Or.inl rfl
  bare := by
    rw [hl]
    exact Or.inr ⟨hb, List.forall₂_same.mpr fun _ _ => .refl _⟩

theorem forall₂_map_token {R : LiveRun → LiveRun → Prop} {token : Nat} {f : RunState → RunState}
    {ls : List LiveRun} (hrefl : ∀ l, R l l)
    (hf : ∀ l : LiveRun, l.token = token → R l { l with rs := f l.rs }) :
    List.Forall₂ R ls (ls.map fun l => if l.token = token then { l with rs := f l.rs } else l) := by
  rw [List.forall₂_map_right_iff]
  refine List.forall₂_same.mpr fun l _ => ?_
  by_cases hl : l.token = token
  · rw [if_pos hl]
    exact hf l hl
  · rw [if_neg hl]
    exact hrefl l

/-- The act changes the run it is addressed to, its bridge error apart. -/
theorem onRun {token : Nat} {f : RunState → RunState}
    (ha : token = t.owner.token ∨ a.target = some token) (hf : ∀ rs, RunState.Change a rs (f rs))
    (hb : ∀ rs, (f rs).bridgeError = rs.bridgeError) : ActsBy a t (t.onRun token f) := by
  unfold Turn.onRun
  by_cases he : token = t.owner.token
  · rw [if_pos he]
    exact ⟨rfl, Or.inr (hf _), List.forall₂_same.mpr fun _ _ => Or.inl rfl,
      Or.inr ⟨rfl, List.forall₂_same.mpr fun _ _ => .refl _⟩⟩
  · rw [if_neg he]
    refine ⟨rfl, Or.inl rfl, forall₂_map_token (fun _ => Or.inl rfl) fun l hl => ?_,
      Or.inr ⟨rfl, forall₂_map_token (fun _ => .refl _) fun l _ => ⟨hb l.rs, (hf l.rs).acts.isGrace⟩⟩⟩
    exact Or.inr ⟨rfl, by rw [hl]; exact ha.resolve_left he, hf _⟩

/-- The act records a bridge error of the run it is addressed to. -/
theorem fatal {token : Nat} {e : RunError} (ha : token = t.owner.token ∨ a.target = some token)
    (hf : ∀ rs, RunState.Change a rs (recordBridgeError e rs)) :
    ActsBy a t (t.fatalBridgeError token e) := by
  unfold Turn.fatalBridgeError Turn.onRun
  by_cases he : token = t.owner.token
  · rw [if_pos he]
    exact ⟨rfl, Or.inr (hf _), List.forall₂_same.mpr fun _ _ => Or.inl rfl, Or.inl rfl⟩
  · rw [if_neg he]
    refine ⟨rfl, Or.inl rfl, forall₂_map_token (f := recordBridgeError e) (fun _ => Or.inl rfl)
      fun l hl => ?_, Or.inl rfl⟩
    exact Or.inr ⟨rfl, by rw [hl]; exact ha.resolve_left he, hf _⟩

theorem after (ho : t'.owner = t.owner) (hl : t'.live = t.live)
    (hb : t'.bareTerminate = t.bareTerminate) (h : ActsBy a t' t'') : ActsBy a t t'' where
  job := h.job.trans (by rw [ho])
  owner := by
    rw [← ho]
    exact h.owner
  live := by
    rw [← hl]
    exact h.live
  bare := by
    rw [← hl, ← hb]
    exact h.bare

theorem before (h : ActsBy a t t') (ho : t''.owner = t'.owner) (hl : t''.live = t'.live)
    (hb : t''.bareTerminate = t'.bareTerminate) : ActsBy a t t'' where
  job := by
    rw [ho]
    exact h.job
  owner := by
    rw [ho]
    exact h.owner
  live := by
    rw [hl]
    exact h.live
  bare := by
    rw [hl, hb]
    exact h.bare

end ActsBy

theorem owner_sendFor (t : Turn) (l : LiveRun) (msg : Outbound) :
    (t.sendFor l msg).2.owner = t.owner := by
  unfold Turn.sendFor
  split <;> rfl

/-- Sending after an act. -/
theorem ActsBy.sent {a : GuestAct} {t t' : Turn} (h : ActsBy a t t') (l : LiveRun) (msg : Outbound) :
    ActsBy a t (t'.sendFor l msg).2 :=
  h.before (owner_sendFor _ _ _) (Core.Still.sendFor _ _ _).live
    (Core.Still.sendFor _ _ _).bareTerminate

/-- A callback attributes to the turn owner or to the live rider. -/
theorem attributed_token (t : Turn) (rider : Nat) :
    (t.attributed rider).token = t.owner.token ∨ (t.attributed rider).token = rider := by
  unfold Turn.attributed Turn.run?
  split
  · exact Or.inl rfl
  · cases h : t.live.find? fun l => l.token = rider with
    | none => exact Or.inl rfl
    | some l => exact Or.inr (by simpa using List.find?_some h)

theorem act_runs (t : Turn) (a : GuestAct) : ActsBy a t (t.act a) := by
  have hrider : ∀ {rider : Nat}, a.target = some rider →
      (t.attributed rider).token = t.owner.token ∨
        a.target = some (t.attributed rider).token := by
    intro rider ha
    rcases attributed_token t rider with h | h
    · exact Or.inl h
    · exact Or.inr (by rw [h, ha])
  cases a with
  | elapse ps =>
    exact ActsBy.still rfl (Core.Still.passAll t.toCore ps).live
      (Core.Still.passAll t.toCore ps).bareTerminate
  | fire r =>
    have hfire : (t.toCore.fire r).live = t.live ∧
        (t.toCore.fire r).bareTerminate = t.bareTerminate := by
      unfold Core.fire
      split <;> exact ⟨rfl, rfl⟩
    exact ActsBy.still rfl hfire.1 hfire.2
  | kill r => exact ActsBy.still rfl rfl rfl
  | settleRoot token st =>
    refine ActsBy.onRun (Or.inr rfl) (fun _ => .root) fun rs => ?_
    unfold Turn.settleRoot
    split <;> rfl
  | settleWait token i st => exact ActsBy.onRun (Or.inr rfl) (fun _ => .wait) fun _ => rfl
  | settlePull token id st => exact ActsBy.onRun (Or.inr rfl) (fun _ => .pull) fun _ => rfl
  | waitUntil rider st => exact ActsBy.onRun (hrider rfl) (fun _ => .register) fun _ => rfl
  | setTimeout rider leadMs =>
    change ActsBy _ t (t.setTimeoutCallback _ _)
    unfold Turn.setTimeoutCallback
    split
    · exact ActsBy.still rfl rfl rfl
    · next timers _ =>
      exact (ActsBy.onRun (f := withTimers timers) (hrider rfl) (fun _ => .setTimers)
        fun _ => rfl).before rfl rfl rfl
  | clearTimeout rider id =>
    change ActsBy _ t (t.clearTimeoutCallback _ _)
    unfold Turn.clearTimeoutCallback
    split
    · exact ActsBy.still rfl rfl rfl
    · next timers _ =>
      exact (ActsBy.onRun (f := withTimers timers) (hrider rfl) (fun _ => .clearTimers)
        fun _ => rfl).before rfl rfl rfl
  | bridgeCall rider callId =>
    change ActsBy _ t (t.bridgeGlobalCallback _ _)
    unfold Turn.bridgeGlobalCallback
    split
    · exact ActsBy.still rfl rfl rfl
    · split
      · exact ActsBy.still rfl rfl rfl
      · have ho := owner_sendFor t (t.attributed rider) (.bridgeCall callId)
        have hs := Core.Still.sendFor t (t.attributed rider) (.bridgeCall callId)
        split
        · next heq =>
          rw [heq] at ho hs
          refine ActsBy.after ho hs.live hs.bareTerminate
            (ActsBy.onRun ?_ (fun _ => .called) fun _ => rfl)
          rw [ho]
          exact hrider rfl
        · next heq =>
          rw [heq] at ho hs
          refine ActsBy.after ho hs.live hs.bareTerminate (ActsBy.fatal ?_ fun _ => .callFailed)
          rw [ho]
          exact hrider rfl
  | fatalBridge rider e => exact ActsBy.fatal (hrider rfl) fun _ => .violated
  | streamRead rider id =>
    change ActsBy _ t (t.streamReadCallback _ _)
    unfold Turn.streamReadCallback
    split
    · exact ActsBy.still rfl rfl rfl
    · split
      · split
        · exact ActsBy.onRun (hrider rfl) (fun _ => .streamRead) fun _ => rfl
        · exact (ActsBy.onRun (hrider rfl) (fun _ => .streamRead) fun _ => rfl).sent _ _
      · split
        · exact ActsBy.still rfl rfl rfl
        · exact ActsBy.onRun (hrider rfl) (fun _ => .streamRead) fun _ => rfl
  | streamCancel rider id =>
    change ActsBy _ t (t.streamCancelCallback _ _)
    unfold Turn.streamCancelCallback
    split
    · exact ActsBy.still rfl rfl rfl
    · split
      · exact (ActsBy.onRun (hrider rfl) (fun _ => .streamCancel) fun _ => rfl).sent _ _
      · exact ActsBy.onRun (hrider rfl) (fun _ => .streamCancel) fun _ => rfl
  | hydrate id =>
    exact ⟨rfl, Or.inr .hydrate, List.forall₂_same.mpr fun _ _ => Or.inl rfl,
      Or.inr ⟨rfl, List.forall₂_same.mpr fun _ _ => .refl _⟩⟩
  | registerOut =>
    change ActsBy _ t t.registerOutStream
    unfold Turn.registerOutStream
    split
    · exact ActsBy.still rfl rfl rfl
    · exact ⟨rfl, Or.inr .out, List.forall₂_same.mpr fun _ _ => Or.inl rfl,
        Or.inr ⟨rfl, List.forall₂_same.mpr fun _ _ => .refl _⟩⟩

theorem ActsBy.tokens {a : GuestAct} {t t' : Turn} (h : ActsBy a t t') :
    t'.live.map LiveRun.token = t.live.map LiveRun.token := by
  obtain ⟨-, -, hl, -⟩ := h
  generalize t.live = ls, t'.live = ls' at hl ⊢
  induction hl with
  | nil => rfl
  | cons hr _ ih =>
    rw [List.map_cons, List.map_cons, ih]
    rcases hr with rfl | ⟨hj, -⟩
    · rfl
    · rw [LiveRun.token, hj, LiveRun.token]

theorem acts_act (t : Turn) (a : GuestAct) : RunState.Acts t.owner.rs (t.act a).owner.rs := by
  rcases (act_runs t a).owner with h | h
  · rw [h]
    exact RunState.Acts.refl _
  · exact h.acts

theorem acts_actAll (t : Turn) (acts : List GuestAct) :
    RunState.Acts t.owner.rs (t.actAll acts).owner.rs := by
  induction acts generalizing t with
  | nil => exact RunState.Acts.refl _
  | cons a acts ih =>
    rw [Turn.actAll]
    split
    · exact RunState.Acts.refl _
    · exact (acts_act t a).trans (ih _)

theorem owner_arm (t : Turn) : t.arm.owner = t.owner := by
  unfold Turn.arm
  split
  · rfl
  · split <;> rfl

end Turn

/-- The operations that leave the phase to the guest and the reason cell to
its writers, and send no completion. -/
def Op.Plain : ∀ γ : Type, Op γ → Prop
  | _, .root _ _ _ => False
  | _, .graceStatus _ => False
  | _, .graceError _ => False
  | _, .beginGrace _ _ _ => False
  | _, .resetReason => False
  | _, .send msg => msg.IsFrame
  | _, _ => True

/-- The operations of the post-Result phase. -/
def Op.Post : ∀ γ : Type, Op γ → Prop
  | _, .graceStatus _ => True
  | _, .graceError _ => True
  | _, o => Op.Plain _ o

/-- Every operation but the reset of a raced fire. -/
def Op.Steady : ∀ γ : Type, Op γ → Prop
  | _, .resetReason => False
  | _, _ => True

theorem Op.Plain.post {γ : Type} {o : Op γ} (h : Op.Plain γ o) : Op.Post γ o := by
  cases o <;> first | exact h | exact trivial

theorem Op.Post.steady {γ : Type} {o : Op γ} (h : Op.Post γ o) : Op.Steady γ o := by
  cases o <;> first | exact h | exact trivial

theorem Op.Plain.steady {γ : Type} {o : Op γ} (h : Op.Plain γ o) : Op.Steady γ o := h.post.steady

theorem Turn.acts_handle (γ : Type) (o : Op γ) (t : Turn) (ho : Op.Plain γ o) :
    RunState.Acts t.owner.rs (Turn.handle γ o t).2.owner.rs := by
  cases o with
  | root st callPending rootIsCallResult => exact ho.elim
  | graceStatus s => exact ho.elim
  | graceError e => exact ho.elim
  | beginGrace exports hasGrace hasStreams => exact ho.elim
  | resetReason => exact ho.elim
  | arm =>
    change RunState.Acts _ t.arm.owner.rs
    rw [owner_arm]
    exact RunState.Acts.refl _
  | js => exact acts_actAll (t.onCore Core.popSlice) _
  | read => exact acts_actAll (t.onCore Core.popGetter) _
  | entry f => exact ⟨rfl, rfl, rfl, rfl, Or.inl rfl⟩
  | resolved callId => exact ⟨rfl, rfl, rfl, rfl, Or.inl rfl⟩
  | send msg =>
    change RunState.Acts _ (t.sendFor _ _).2.owner.rs
    rw [owner_sendFor]
    exact RunState.Acts.refl _
  | _ => exact RunState.Acts.refl _

/-- Whether an operation runs guest JS. -/
def Op.runsJs : ∀ {γ : Type}, Op γ → Bool
  | _, .js => true
  | _, .read => true
  | _, _ => false

namespace Core

theorem race_live (c : Core) : c.race.live = c.live ∧ c.race.bareTerminate = c.bareTerminate := by
  unfold Core.race Core.fire Core.kill
  split
  · split <;> exact ⟨rfl, rfl⟩
  · exact ⟨rfl, rfl⟩

end Core

/-- Without guest JS the parked runs stay as they are, and a bare terminate
stays recorded. -/
theorem Turn.silent_handle (γ : Type) (o : Op γ) (t : Turn) (ho : o.runsJs = false) :
    (Turn.handle γ o t).2.live = t.live ∧
      (Op.Steady γ o → (Turn.handle γ o t).2.bareTerminate = t.bareTerminate) := by
  have hnow := Core.Still.now t.toCore
  cases o with
  | js => cases ho
  | read => cases ho
  | now => exact ⟨hnow.live, fun _ => hnow.bareTerminate⟩
  | reason => exact ⟨(Core.race_live t.toCore).1, fun _ => (Core.race_live t.toCore).2⟩
  | disarm => exact ⟨(Core.race_live t.toCore).1, fun _ => (Core.race_live t.toCore).2⟩
  | resetReason => exact ⟨rfl, fun h => h.elim⟩
  | arm =>
    change t.arm.live = _ ∧ (_ → t.arm.bareTerminate = _)
    unfold Turn.arm
    split
    · exact ⟨rfl, fun _ => rfl⟩
    · split
      · exact ⟨hnow.live, fun _ => hnow.bareTerminate⟩
      · exact ⟨rfl, fun _ => rfl⟩
  | beginGrace exports hasGrace hasStreams =>
    have hfreeze := hnow.trans (Core.Still.now _)
    have hearly : Core.Still t.toCore
        (t.freezeCounted.sendEarlyResult exports hasGrace hasStreams).2.toCore := by
      refine hfreeze.trans ?_
      unfold Turn.sendEarlyResult
      split
      · exact Core.Still.send _ _ _
      · exact Core.Still.refl _
    have hall := hearly.trans (Core.Still.now _)
    exact ⟨hall.live, fun _ => hall.bareTerminate⟩
  | send msg =>
    have hsend := Core.Still.sendFor t t.owner msg
    exact ⟨hsend.live, fun _ => hsend.bareTerminate⟩
  | _ => exact ⟨rfl, fun _ => rfl⟩

theorem RunPhase.isGrace_iff {ph : RunPhase} : ph.isGrace = true ↔ ∃ g, ph = .grace g := by
  cases ph with
  | grace g => exact ⟨fun _ => ⟨g, rfl⟩, fun _ => rfl⟩
  | starting => simp [RunPhase.isGrace]
  | settling root cp ric => simp [RunPhase.isGrace]

namespace Turn

theorem onGrace_phase {t : Turn} {g : GraceState} (hp : t.owner.rs.phase = .grace g)
    (f : GraceState → GraceState) : (t.onGrace f).owner.rs.phase = .grace (f g) := by
  simp only [Turn.onGrace, Turn.onOwner, hp]

theorem onGrace_entry (t : Turn) (f : GraceState → GraceState) :
    (t.onGrace f).owner.rs.entry = t.owner.rs.entry := by
  simp only [Turn.onGrace, Turn.onOwner]
  split <;> rfl

end Turn

end Iso4
