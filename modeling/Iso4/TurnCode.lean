/-
The programs of turn code, by the operations they use.

* `plain_*` — programs that switch no phase and send no completion;
* `post_*` — programs of the post-Result phase;
* `formed_*` — what turn code is made of: a predicate of programs that their formers
  respect holds of every turn, once it holds of the place where a raced fire is
  reset and the post-Result phase begins.
-/
import Iso4.Effects

namespace Iso4

open Program

/-- Every operation but the reset of a raced fire and the switch to the post-Result phase. -/
def Op.Ordinary : ∀ γ : Type, Op γ → Prop
  | _, .resetReason => False
  | _, .beginGrace _ _ _ => False
  | _, .send msg => msg.IsFrame
  | _, _ => True

theorem Op.Post.ordinary {γ : Type} {o : Op γ} (h : Op.Post γ o) : Op.Ordinary γ o := by
  cases o <;> first | exact h | exact trivial

theorem Op.Plain.ordinary {γ : Type} {o : Op γ} (h : Op.Plain γ o) : Op.Ordinary γ o :=
  h.post.ordinary

theorem Op.Ordinary.steady {γ : Type} {o : Op γ} (h : Op.Ordinary γ o) : Op.Steady γ o := by
  cases o <;> first | exact h | exact trivial

/-- Messages are frames, and the flags of an early `Result` say what is left to come. -/
def Op.Flagged : ∀ γ : Type, Op γ → Prop
  | _, .beginGrace _ hasGrace hasStreams => (hasGrace || hasStreams) = true
  | _, .send msg => msg.IsFrame
  | _, _ => True

theorem Op.Ordinary.flagged {γ : Type} {o : Op γ} (h : Op.Ordinary γ o) : Op.Flagged γ o := by
  cases o <;> first | exact h | exact h.elim

theorem Op.Quiet.flagged {γ : Type} {o : Op γ} (h : Op.Quiet γ o) : Op.Flagged γ o := by
  cases o <;> first | exact h | exact h.elim

/-- A relation that frames, flagged early results and every reset of the reason cell respect. -/
theorem Turn.core_handle_flagged {P : Passing → Prop} {R : Core → Core → Prop}
    (hR : Core.Closed P (fun _ => True) R) (hlook : ∀ c : Core, R c { c with lastRead := c.reason })
    (hreset : ∀ c : Core, R c c.resetReason)
    (hearly : ∀ (c : Core) (token exports flags : Nat), flags ≠ 0 →
      R c (c.send token (.result (.success exports flags))).2)
    (γ : Type) (o : Op γ) (t : Turn) (ho : Op.Flagged γ o) (hP : t.script.Passes P) :
    R t.toCore (Turn.handle γ o t).2.toCore := by
  by_cases hpost : Op.Post γ o
  · exact core_handle hR γ o t hpost ⟨trivial, fun _ _ => trivial⟩ hP fun _ => hlook
  · cases o with
    | resetReason => exact hreset _
    | root st callPending rootIsCallResult => exact hR.refl _
    | beginGrace exports hasGrace hasStreams =>
      refine core_beginGrace hR t exports hasGrace hasStreams hP fun c => hearly c _ _ _ ?_
      obtain hleft | hleft := (Bool.or_eq_true _ _).mp ho
      · simp [backgroundFlags, hleft]
      · simp [backgroundFlags, hleft]
    | send msg => exact absurd ho hpost
    | _ => exact absurd trivial hpost

/-! ### Turn code that switches no phase -/

namespace TurnM

open Prog

theorem plain_closeEach (ids : List Nat) : (closeEach ids).Uses Op.Plain := by
  induction ids with
  | nil => exact Uses.pure _
  | cons id ids ih =>
    refine Uses.bind ?_ fun _ => ih
    refine Uses.bind (Uses.perform trivial) fun _ => ?_
    exact Uses.bind (Uses.perform trivial) fun _ => Uses.pure _

theorem plain_finishPostPhase : finishPostPhase.Uses Op.Plain := by
  refine Uses.bind (Uses.bind (Uses.perform trivial) fun _ => plain_closeEach _) fun _ => ?_
  exact Uses.bind (Uses.perform trivial) fun _ => Uses.pure _

theorem plain_endPhase : endPhase.Uses Op.Plain :=
  Uses.bind plain_finishPostPhase fun _ => Uses.pure _

theorem plain_flushStream (id fuel : Nat) : (flushStream id fuel).Uses Op.Plain := by
  induction fuel with
  | zero => exact Uses.pure _
  | succ fuel ih =>
    refine Uses.bind (Uses.perform trivial) fun l => ?_
    split
    · exact Uses.pure _
    · refine Uses.ite (fun _ => Uses.pure _) fun _ => ?_
      refine Uses.bind (Uses.perform trivial) fun r => ?_
      split
      · refine Uses.bind (Uses.perform trivial) fun _ => ?_
        exact Uses.bind ih fun _ => Uses.pure _
      · exact Uses.bind (Uses.perform trivial) fun _ => Uses.pure _

theorem plain_advance (id : Nat) : (advance id).Uses Op.Plain := by
  refine Uses.bind (Uses.perform trivial) fun l => ?_
  refine Uses.bind (plain_flushStream _ _) fun _ => ?_
  exact Uses.bind (Uses.perform trivial) fun _ => Uses.pure _

theorem plain_settleStream (id : Nat) (p : PullState) : (settleStream id p).Uses Op.Plain := by
  unfold settleStream
  split
  · exact Uses.perform trivial
  · exact Uses.bind (Uses.perform trivial) fun _ => Uses.bind (Uses.perform trivial) fun _ => Uses.pure _
  · exact Uses.bind (Uses.perform trivial) fun _ => Uses.bind (Uses.perform trivial) fun _ => Uses.pure _

theorem plain_startPull (id : Nat) (progressed : Bool) : (startPull id progressed).Uses Op.Plain := by
  refine Uses.bind (Uses.perform trivial) fun s => ?_
  split
  · refine Uses.bind (Uses.perform trivial) fun _ => Uses.ite (fun _ => Uses.pure _) fun _ => ?_
    refine Uses.bind (Uses.perform trivial) fun _ => ?_
    refine Uses.bind (Uses.perform trivial) fun _ => Uses.ite (fun _ => Uses.pure _) fun _ => ?_
    exact Uses.bind (plain_settleStream _ _) fun _ => Uses.pure _
  · refine Uses.bind (Uses.perform trivial) fun _ => Uses.ite (fun _ => Uses.pure _) fun _ => ?_
    exact Uses.bind (Uses.perform trivial) fun _ => Uses.pure _

theorem plain_driveOutStream (id : Nat) : (driveOutStream id).Uses Op.Plain := by
  refine Uses.bind (plain_advance _) fun r => ?_
  obtain ⟨progressed, step⟩ := r
  dsimp only
  split
  · exact Uses.pure _
  · exact plain_startPull _ _
  · exact Uses.pure _
  · have hrest : ∀ (p : PullState) (k : Bool × DriveStep → TurnM Bool), (∀ r, (k r).Uses Op.Plain) →
        (settleStream id p >>= fun _ => advance id >>= k).Uses Op.Plain := by
      intro p k hk
      exact Uses.bind (plain_settleStream _ _) fun _ => Uses.bind (plain_advance _) hk
    split
    · refine Uses.bind (Uses.perform trivial) fun _ => hrest _ _ fun r => ?_
      split
      · exact plain_startPull _ _
      · exact Uses.pure _
    · refine hrest _ _ fun r => ?_
      split
      · exact plain_startPull _ _
      · exact Uses.pure _

theorem plain_driveEach (ids : List Nat) (progressed : Bool) :
    (driveEach ids progressed).Uses Op.Plain := by
  induction ids generalizing progressed with
  | nil => exact Uses.pure _
  | cons id ids ih =>
    refine Uses.bind (plain_driveOutStream _) fun _ => ?_
    exact Uses.bind (Uses.perform trivial) fun _ => Uses.ite (fun _ => Uses.pure _) fun _ => ih _

theorem plain_driveRounds (ids : List Nat) (rounds : Nat) :
    (driveRounds ids rounds).Uses Op.Plain := by
  induction rounds with
  | zero => exact Uses.pure _
  | succ rounds ih =>
    refine Uses.bind (plain_driveEach _ _) fun r => ?_
    split
    · refine Uses.bind (Uses.perform trivial) fun _ => ?_
      exact Uses.bind (Uses.perform trivial) fun _ => Uses.ite (fun _ => Uses.pure _) fun _ => ih
    · exact Uses.pure _

theorem plain_driveOutStreams : driveOutStreams.Uses Op.Plain := by
  refine Uses.bind (Uses.perform trivial) fun l => ?_
  split
  · exact Uses.pure _
  · exact Uses.ite (fun _ => Uses.pure _) fun _ => plain_driveRounds _ _

theorem plain_cancelOutStream (id : Nat) (message : String) (notifyHost : Bool) :
    (cancelOutStream id message notifyHost).Uses Op.Plain := by
  refine Uses.bind (Uses.perform trivial) fun l => ?_
  split
  · exact Uses.pure _
  · refine Uses.ite (fun _ => Uses.pure _) fun _ => ?_
    refine Uses.bind (Uses.perform trivial) fun _ => Uses.ite (fun _ => ?_) fun _ => ?_
    · refine Uses.bind (Uses.perform trivial) fun _ => ?_
      exact Uses.bind (Uses.perform trivial) fun _ => Uses.pure _
    · exact Uses.bind (Uses.perform trivial) fun _ => Uses.pure _

theorem plain_cancelEach (message : String) (ids : List Nat) :
    (cancelEach message ids).Uses Op.Plain := by
  induction ids with
  | nil => exact Uses.pure _
  | cons id ids ih =>
    refine Uses.bind (plain_cancelOutStream _ _ _) fun _ => ?_
    exact Uses.bind (Uses.perform trivial) fun _ => Uses.ite (fun _ => Uses.pure _) fun _ => ih

theorem plain_cancelAllOutStreams (message : String) :
    (cancelAllOutStreams message).Uses Op.Plain :=
  Uses.bind (Uses.perform trivial) fun _ => plain_cancelEach _ _

theorem plain_armEntry : armEntry.Uses Op.Plain := by
  refine Uses.bind (Uses.perform trivial) fun l => Uses.bind (Uses.perform trivial) fun _ => ?_
  refine Uses.ite (fun _ => ?_) fun _ => Uses.pure _
  exact Uses.bind (Uses.perform trivial) fun _ => Uses.perform trivial

theorem plain_noteOutCredit (id credit : Nat) : (noteOutCredit id credit).Uses Op.Plain := by
  refine Uses.bind (Uses.perform trivial) fun _ => ?_
  exact Uses.bind (Uses.perform trivial) fun _ => Uses.perform trivial

theorem plain_noteOutActivity : noteOutActivity.Uses Op.Plain :=
  Uses.bind (Uses.perform trivial) fun _ => Uses.perform trivial

theorem plain_deliverStreamFrame (l : LiveRun) (msg : Inbound) :
    (deliverStreamFrame l msg).Uses Op.Plain := by
  unfold deliverStreamFrame
  split
  · split
    · exact Uses.pure _
    · refine Uses.ite (fun _ => Uses.pure _) fun _ => Uses.ite (fun _ => ?_) fun _ => ?_
      · refine Uses.bind (Uses.perform trivial) fun _ => Uses.ite (fun _ => ?_) fun _ => ?_
        · exact Uses.bind (Uses.perform trivial) fun _ => Uses.pure _
        · refine Uses.bind (Uses.perform trivial) fun _ => ?_
          exact Uses.bind (Uses.perform trivial) fun _ => Uses.pure _
      · refine Uses.ite (fun _ => Uses.pure _) fun _ => ?_
        exact Uses.bind (Uses.perform trivial) fun _ => Uses.pure _
  · split
    · exact Uses.pure _
    · refine Uses.bind (Uses.perform trivial) fun _ => Uses.ite (fun _ => ?_) fun _ => ?_
      · exact Uses.bind (Uses.perform trivial) fun _ => Uses.pure _
      · exact Uses.pure _
  · exact Uses.pure _

/-! ### Turn code of the post-Result phase -/

theorem plain_bareTerminated : bareTerminated.Uses Op.Plain := by
  refine Uses.bind (Uses.perform trivial) fun r => ?_
  split
  · exact Uses.pure _
  · exact Uses.perform trivial

theorem plain_terminated : terminated.Uses Op.Plain := by
  refine Uses.bind (Uses.perform trivial) fun r => ?_
  split
  · exact Uses.pure _
  · exact Uses.perform trivial

theorem plain_fail (e : RunError) : (fail e).Uses Op.Plain := Uses.pure _

theorem plain_failOr (e : RunError) : (failOr e).Uses Op.Plain :=
  Uses.bind (Uses.perform trivial) fun _ => plain_fail _

theorem plain_failReason : failReason.Uses Op.Plain :=
  Uses.bind (Uses.perform trivial) fun _ => plain_fail _

theorem plain_classifyThrown : classifyThrown.Uses Op.Plain := by
  refine Uses.bind (Uses.perform trivial) fun r => ?_
  split
  · exact Uses.pure _
  · refine Uses.bind (Uses.perform trivial) fun _ => Uses.ite (fun _ => Uses.pure _) fun _ => ?_
    exact Uses.perform trivial

theorem plain_failThrown : failThrown.Uses Op.Plain := by
  refine Uses.bind (Uses.perform trivial) fun l => ?_
  split
  · exact plain_failOr _
  · refine Uses.bind plain_classifyThrown fun _ => Uses.bind (Uses.perform trivial) fun _ => ?_
    exact plain_failOr _

theorem post_endPhase : endPhase.Uses Op.Post := plain_endPhase.mono fun _ _ => Op.Plain.post

theorem post_finishKilledGrace : finishKilledGrace.Uses Op.Post := by
  refine Uses.bind (Uses.perform trivial) fun r => ?_
  split
  · exact Uses.bind (Uses.perform trivial) fun _ => post_endPhase
  · exact post_endPhase

theorem plain_drainWaits (n i : Nat) (still : List Nat) (e : Option (String × String)) :
    (drainWaits n i still e).Uses Op.Plain := by
  induction n generalizing i still e with
  | zero => exact Uses.pure _
  | succ n ih =>
    refine Uses.bind (Uses.perform trivial) fun l => ?_
    split
    · exact ih _ _ _
    · exact Uses.bind (Uses.perform trivial) fun _ => ih _ _ _
    · exact ih _ _ _

theorem post_decideWaits (still : List Nat) : (decideWaits still).Uses Op.Post := by
  refine Uses.ite (fun _ => ?_) fun _ => ?_
  · refine Uses.bind (Uses.perform trivial) fun l => ?_
    split
    · exact Uses.perform trivial
    · exact Uses.pure _
  · refine Uses.bind (Uses.perform trivial) fun now => Uses.bind (Uses.perform trivial) fun l => ?_
    split
    · exact Uses.ite (fun _ => Uses.perform trivial) fun _ => Uses.pure _
    · exact Uses.pure _

theorem post_concludeDrain (still : List Nat) (e : Option (String × String)) :
    (concludeDrain still e).Uses Op.Post := by
  refine Uses.bind (Uses.perform trivial) fun _ => Uses.bind (Uses.perform trivial) fun r => ?_
  split
  · exact Uses.pure _
  · have hrecord : (recordRejection e).Uses Op.Post := by
      cases e with
      | none => exact Uses.pure _
      | some e => exact Uses.perform trivial
    exact Uses.bind hrecord fun _ => Uses.bind (post_decideWaits _) fun _ => Uses.pure _

theorem post_drainRegistered : drainRegistered.Uses Op.Post := by
  refine Uses.bind (Uses.perform trivial) fun l => Uses.ite (fun _ => Uses.pure _) fun _ => ?_
  refine Uses.bind (Uses.perform trivial) fun _ => Uses.bind (Uses.perform trivial) fun l => ?_
  refine Uses.bind ((plain_drainWaits _ _ _ _).mono fun _ _ => Op.Plain.post) fun _ => ?_
  exact post_concludeDrain _ _

theorem post_graceVerdict : graceVerdict.Uses Op.Post := by
  refine Uses.bind (Uses.perform trivial) fun l => Uses.ite (fun _ => post_endPhase) fun _ => ?_
  refine Uses.ite (fun _ => Uses.ite (fun _ => post_endPhase) fun _ => ?_) fun _ => Uses.pure _
  exact Uses.bind (Uses.perform trivial) fun _ => post_endPhase

theorem post_graceScan : graceScan.Uses Op.Post := by
  refine Uses.bind (Uses.perform trivial) fun _ => Uses.bind (Uses.perform trivial) fun r => ?_
  split
  · exact post_finishKilledGrace
  refine Uses.bind (plain_driveOutStreams.mono fun _ _ => Op.Plain.post) fun _ => ?_
  refine Uses.bind (Uses.perform trivial) fun r => ?_
  split
  · exact post_finishKilledGrace
  refine Uses.bind post_drainRegistered fun _ => ?_
  exact Uses.ite (fun _ => post_finishKilledGrace) fun _ => post_graceVerdict

theorem steady_enterGrace (exports : Nat) (hasGrace hasStreams : Bool) :
    (enterGrace exports hasGrace hasStreams).Uses Op.Steady := by
  refine Uses.bind (Uses.perform trivial) fun _ => Uses.bind (Uses.perform trivial) fun _ => ?_
  refine Uses.bind (post_graceScan.mono fun _ _ => Op.Post.steady) fun _ => ?_
  exact Uses.bind (Uses.perform trivial) fun _ => Uses.pure _

/-! ### Every turn -/

/-- The program keeps `K`. -/
def Keeps (K : Turn → Prop) {α : Type} (p : TurnM α) : Prop := p.Ensures Turn.handle K fun _ => K

/-- A predicate that holds of all turn code, as it does of the place where a raced fire is reset
and the post-Result phase begins. -/
structure Formed (S : ∀ ⦃α : Type⦄, TurnM α → Prop) : Prop where
  pure : ∀ {α : Type} (a : α), S (pure a : TurnM α)
  bind : ∀ {α β : Type} {p : TurnM α} {f : α → TurnM β}, S p → (∀ a, S (f a)) → S (p >>= f)
  op : ∀ {α : Type} {o : Op α}, Op.Ordinary α o → S (perform o)
  build : ∀ exports, S (buildOutputAndMaybeGrace exports)

section Formed

variable {S : ∀ ⦃α : Type⦄, TurnM α → Prop} (hS : Formed S)

include hS

theorem formed_uses {α : Type} {p : TurnM α} (hp : p.Uses Op.Ordinary) : S p := by
  induction p with
  | ret a => exact hS.pure a
  | op o k ih => exact hS.bind (hS.op hp.1) fun b => ih b (hp.2 b)

theorem formed_post {α : Type} {p : TurnM α} (hp : p.Uses Op.Post) : S p :=
  formed_uses hS (hp.mono fun _ _ => Op.Post.ordinary)

theorem formed_plain {α : Type} {p : TurnM α} (hp : p.Uses Op.Plain) : S p :=
  formed_post hS (hp.mono fun _ _ => Op.Plain.post)

theorem formed_serializeCallResult : S (serializeCallResult buildOutputAndMaybeGrace) := by
  refine hS.bind (hS.op trivial) fun r => ?_
  split
  · exact formed_plain hS plain_failReason
  refine hS.bind (hS.op trivial) fun l => hS.bind (hS.op trivial) fun _ => ?_
  refine hS.bind (hS.op trivial) fun s => hS.bind (hS.op trivial) fun _ => ?_
  split
  · exact hS.bind (hS.op trivial) fun l => formed_plain hS (plain_failOr _)
  · exact hS.build _

theorem formed_extractModuleExports : S extractModuleExports := by
  refine hS.bind (hS.op trivial) fun r => ?_
  split
  · exact formed_plain hS plain_failReason
  refine hS.bind (hS.op trivial) fun walk => ?_
  split
  · exact formed_plain hS (plain_failOr _)
  refine hS.bind (hS.op trivial) fun s => ?_
  split
  · refine hS.bind (hS.op trivial) fun r => ?_
    split
    · exact formed_plain hS plain_failReason
    refine hS.bind (hS.op trivial) fun l => ?_
    split
    · exact formed_plain hS (plain_fail _)
    refine hS.bind (hS.op trivial) fun retry => ?_
    split
    · exact formed_plain hS (plain_failOr _)
    · exact hS.build _
  · exact hS.build _

theorem formed_invokeRequestedCall : S invokeRequestedCall := by
  refine hS.bind (hS.op trivial) fun target => ?_
  split
  · exact formed_plain hS (plain_fail _)
  refine hS.bind (hS.op trivial) fun args => ?_
  split
  · exact formed_plain hS (plain_failOr _)
  refine hS.bind (hS.op trivial) fun called => ?_
  split
  · exact formed_plain hS plain_failThrown
  · refine hS.bind (hS.op trivial) fun _ => hS.bind (hS.op trivial) fun r => ?_
    split
    · exact formed_plain hS plain_failReason
    refine hS.bind (hS.op trivial) fun l => ?_
    split
    · exact formed_plain hS (plain_fail _)
    · exact hS.bind (hS.op trivial) fun _ => hS.pure _
  · refine hS.bind (hS.op trivial) fun _ => hS.bind (hS.op trivial) fun l => ?_
    split
    · exact formed_plain hS (plain_failOr _)
    · exact formed_serializeCallResult hS

theorem formed_scanPass {again : TurnM ScanOutcome} (ha : S again) :
    S (scanPass again) := by
  refine hS.bind (hS.op trivial) fun l => ?_
  split
  · exact formed_post hS post_graceScan
  · exact formed_plain hS (plain_fail _)
  · split
    · exact formed_plain hS (plain_failOr _)
    · refine iteInduction (fun _ => formed_plain hS (plain_failOr _)) fun _ => ?_
      exact hS.pure _
  · refine hS.bind (hS.op trivial) fun err => ?_
    split
    · exact formed_plain hS (plain_failOr _)
    · refine hS.bind (hS.op trivial) fun l => ?_
      split
      · exact formed_plain hS (plain_failOr _)
      · refine hS.bind (hS.op trivial) fun _ => hS.bind (hS.op trivial) fun _ => ?_
        exact formed_plain hS (plain_failOr _)
  · refine iteInduction (fun _ => hS.bind (formed_invokeRequestedCall hS) fun o => ?_) fun _ => ?_
    · split
      · exact ha
      · exact hS.pure _
    · exact iteInduction (fun _ => formed_serializeCallResult hS) fun _ =>
        formed_extractModuleExports hS

theorem formed_scan : S scan :=
  formed_scanPass hS (formed_scanPass hS (formed_plain hS (plain_fail _)))

theorem formed_finishTurn (inGrace : Bool) : S (finishTurn inGrace) := by
  refine hS.bind (hS.op trivial) fun r => ?_
  split
  · exact iteInduction (fun _ => formed_post hS post_finishKilledGrace) fun _ =>
      formed_plain hS (plain_fail _)
  refine hS.bind (hS.op trivial) fun l => ?_
  split
  · refine iteInduction (fun _ => ?_) fun _ => formed_plain hS (plain_failOr _)
    exact hS.bind (hS.op trivial) fun _ => formed_post hS post_endPhase
  · exact formed_scan hS

theorem formed_disarming {p : TurnM ScanOutcome} (hp : S p) : S (disarming p) :=
  hS.bind hp fun _ => hS.bind (hS.op trivial) fun _ => hS.pure _

theorem formed_guarded {p : TurnM ScanOutcome} (hp : S p) : S (guarded p) :=
  hS.bind (hS.op trivial) fun _ => formed_disarming hS hp

theorem formed_startTurn : S startTurn := by
  refine hS.bind (hS.op trivial) fun setup => ?_
  split
  · exact formed_plain hS (plain_failOr _)
  refine hS.bind (formed_plain hS plain_armEntry) fun _ => ?_
  refine hS.bind (hS.op trivial) fun l => ?_
  split
  · refine hS.bind (formed_invokeRequestedCall hS) fun o => ?_
    split
    · exact formed_scan hS
    · exact hS.pure _
  · refine hS.bind (hS.op trivial) fun linked => ?_
    split
    · exact formed_plain hS (plain_failOr _)
    refine hS.bind (hS.op trivial) fun evaluated => ?_
    split
    · exact formed_plain hS plain_failThrown
    · exact formed_plain hS (plain_fail _)
    · refine hS.bind (hS.op trivial) fun _ => hS.bind (hS.op trivial) fun r => ?_
      split
      · exact formed_plain hS plain_failReason
      · exact hS.bind (hS.op trivial) fun _ => formed_scan hS

theorem formed_placeholdersThenCall : S Inst.placeholdersThenCall := by
  refine hS.bind (hS.op trivial) fun placeholders => ?_
  split
  · exact hS.bind (hS.op trivial) fun _ => formed_plain hS (plain_failOr _)
  · exact formed_disarming hS (formed_startTurn hS)

theorem formed_frameBody (msg : Inbound) : S (frameBody msg) := by
  refine hS.bind (hS.op trivial) fun l => ?_
  have htail : S (do
      let _ ← perform .js
      finishTurn l.rs.phase.isGrace) :=
    hS.bind (hS.op trivial) fun _ => formed_finishTurn hS _
  split
  · refine iteInduction (fun _ => ?_) fun _ => htail
    refine hS.bind (hS.op trivial) fun _ => hS.bind (hS.op trivial) fun _ => ?_
    split
    · exact formed_plain hS (plain_failOr _)
    · exact htail
  · exact iteInduction (fun _ => formed_post hS post_endPhase) fun _ =>
      formed_plain hS (plain_fail _)
  · exact hS.bind (formed_plain hS (plain_noteOutCredit _ _)) fun _ => htail
  · refine hS.bind (formed_plain hS plain_noteOutActivity) fun _ => ?_
    exact hS.bind (formed_plain hS (plain_cancelOutStream _ _ _)) fun _ => htail
  · refine hS.bind (formed_plain hS (plain_deliverStreamFrame _ _)) fun r => ?_
    split
    · exact formed_plain hS (plain_fail _)
    · exact htail

theorem formed_timerTurn : S timerTurn := by
  refine hS.bind (hS.op trivial) fun l => ?_
  split
  · exact hS.pure _
  refine hS.bind (hS.op trivial) fun _ => formed_guarded hS ?_
  refine hS.bind (hS.op trivial) fun called => ?_
  have htail : S (do
      let _ ← perform .js
      finishTurn l.rs.phase.isGrace) :=
    hS.bind (hS.op trivial) fun _ => formed_finishTurn hS _
  split
  · refine hS.bind (formed_plain hS plain_terminated) fun killed => ?_
    refine iteInduction (fun _ => htail) fun _ => hS.bind (hS.op trivial) fun err => ?_
    refine hS.bind (hS.op trivial) fun r => ?_
    split
    · exact formed_finishTurn hS _
    · refine iteInduction (fun _ => ?_) fun _ => formed_plain hS (plain_fail _)
      exact hS.bind (hS.op trivial) fun _ => formed_post hS post_endPhase
  · exact htail

theorem formed_streamIdleTurn : S streamIdleTurn := by
  refine formed_guarded hS (hS.bind (formed_plain hS (plain_cancelAllOutStreams _)) fun _ => ?_)
  exact hS.bind (hS.op trivial) fun _ => formed_finishTurn hS _

theorem formed_handleLoopEvent (msg : Inbound) : S (handleLoopEvent msg) := by
  unfold handleLoopEvent
  split
  · have hclose : boundaryClose.Uses Op.Ordinary := by
      refine Uses.bind (Uses.perform trivial) fun l => ?_
      split
      · refine Uses.bind (Uses.perform trivial) fun _ => ?_
        exact Uses.bind (plain_finishPostPhase.mono fun _ _ => Op.Plain.ordinary) fun _ => Uses.pure _
      · exact Uses.pure _
    have hlost : connLostStreamTurn.Uses Op.Ordinary := by
      refine Uses.bind (Uses.perform trivial) fun _ => ?_
      refine Uses.bind ((plain_cancelAllOutStreams _).mono fun _ _ => Op.Plain.ordinary) fun _ => ?_
      exact Uses.bind (Uses.perform trivial) fun _ => Uses.perform trivial
    refine formed_uses hS (Uses.bind (Uses.perform trivial) fun l => Uses.ite (fun _ => ?_) fun _ => ?_)
    · exact Uses.bind hlost fun _ => Uses.bind hclose fun _ => Uses.pure _
    · exact Uses.bind hclose fun _ => Uses.pure _
  · exact formed_guarded hS (formed_frameBody hS _)

end Formed

/-- What the operations and the one place with a reset must keep. -/
structure Kept (K : Turn → Prop) : Prop where
  steady : ∀ (γ : Type) (o : Op γ) (t : Turn), Op.Steady γ o → K t → K (Turn.handle γ o t).2
  build : ∀ exports, Keeps K (buildOutputAndMaybeGrace exports)

theorem Kept.formed {K : Turn → Prop} (hK : Kept K) : Formed fun _ p => Keeps K p where
  pure := fun _ _ ht => ht
  bind := fun hp hf => Ensures.bind hp hf
  op := fun ho => Ensures.perform fun t => hK.steady _ _ t ho.steady
  build := hK.build

/-! ### Early results -/

theorem flagged_enterGrace {exports : Nat} {hasGrace hasStreams : Bool}
    (h : (hasGrace || hasStreams) = true) :
    (enterGrace exports hasGrace hasStreams).Uses Op.Flagged := by
  refine Uses.bind (Uses.perform h) fun _ => Uses.bind (Uses.perform trivial) fun _ => ?_
  refine Uses.bind (post_graceScan.mono fun _ _ ho => ho.ordinary.flagged) fun _ => ?_
  exact Uses.bind (Uses.perform trivial) fun _ => Uses.pure _

theorem flagged_completeOrGrace (exports : Nat) (l : LiveRun) :
    (completeOrGrace exports l).Uses Op.Flagged := by
  have hbare : bareTerminated.Uses Op.Flagged :=
    plain_bareTerminated.mono fun _ _ ho => ho.ordinary.flagged
  refine Uses.bind hbare fun bare => Uses.ite (fun _ => ?_) fun _ => ?_
  · exact Uses.bind (Uses.perform trivial) fun _ => Uses.pure _
  refine Uses.ite (fun _ => Uses.pure _) fun hleft => ?_
  -- something is left to come
  have hflags : (!l.rs.entry.waits.isEmpty && decide (l.job.limits.graceMs > 0) ||
      l.outStreamsOpen) = true := by
    rw [Bool.not_eq_true, ← Bool.not_or, Bool.not_eq_false'] at hleft
    exact hleft
  refine Uses.bind (Uses.perform trivial) fun _ => Uses.bind hbare fun bare => ?_
  refine Uses.bind (Uses.perform trivial) fun _ => Uses.ite (fun _ => Uses.pure _) fun _ => ?_
  refine Uses.bind (Uses.perform trivial) fun r => ?_
  split
  · refine Uses.bind (Uses.perform trivial) fun _ => ?_
    exact Uses.ite (fun _ => Uses.pure _) fun _ => Uses.pure _
  · exact flagged_enterGrace hflags

theorem formed_flagged : Formed fun _ p => p.Uses Op.Flagged where
  pure := Uses.pure
  bind := Uses.bind
  op := fun ho => Uses.perform ho.flagged
  build := by
    intro exports
    refine Uses.bind (Uses.perform trivial) fun r => ?_
    split
    · exact (plain_failOr _).mono fun _ _ ho => ho.ordinary.flagged
    refine Uses.bind (Uses.perform trivial) fun l => ?_
    split
    · exact Uses.pure _
    · exact Uses.ite (fun _ => Uses.pure _) fun _ => flagged_completeOrGrace _ _

end TurnM

end Iso4
