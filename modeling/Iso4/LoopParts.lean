/-
The parts of a step of the owner thread.

`Core.Serving J R` says that a relation `R` between worlds is respected by what the loop does
around turn code: reading the clock, noting a turn, taking runs out and parking them, and
finishing a job of which `J` holds.

* `Core.Serving.concludeTurn`, `Core.Serving.dispatchJob` and the lemmas before them — then the
  parts of a step respect it.
-/
import Iso4.Custody
import Iso4.TurnCode

namespace Iso4

open Program

structure Core.Serving (J : CallJob → Prop) (R : Core → Core → Prop) : Prop where
  trans : ∀ {c c' c'' : Core}, R c c' → R c' c'' → R c c''
  /-- What does not show in the relation. -/
  quiet : ∀ {c c' : Core}, c'.clock = c.clock → c'.queue = c.queue → c'.seen = c.seen →
    c'.live = c.live → c'.log = c.log → c'.script = c.script → R c c'
  now : ∀ c : Core, R c c.now.2
  isTerminating : ∀ c : Core, R c c.isTerminating.2
  runTurn : ∀ {α : Type} (c : Core) (l : LiveRun) {p : TurnM α}, p.Uses Op.Flagged →
    R c (c.runTurn l p).2.toCore
  noteTurn : ∀ (c : Core) (l : LiveRun), R c (c.note (.turn l.token l.rs.phase l.rs.counted))
  noteTaint : ∀ (c : Core) (token : Nat), R c (c.note (.tainted token))
  takeRun : ∀ (c : Core) (token : Nat), R c (c.takeRun token)
  park : ∀ (c : Core) (l : LiveRun), J l.job → R c (c.park l)
  finishJob : ∀ (c : Core) (job : CallJob) (result : RunResult) (tainted failed : Bool), J job →
    R c (c.finishJob job result tainted failed)

namespace Core.Serving

variable {J : CallJob → Prop} {R : Core → Core → Prop} (hR : Serving J R)

include hR

theorem refl (c : Core) : R c c := hR.quiet rfl rfl rfl rfl rfl rfl

theorem instanceTainted (c : Core) : R c c.instanceTainted.2 := by
  unfold Core.instanceTainted
  split
  · exact hR.refl c
  · exact hR.isTerminating c

theorem concludeRun (c : Core) (l : LiveRun) (result : RunResult) (tainted : Bool)
    (hl : J l.job) : R c (c.concludeRun l result tainted) := by
  have hclosed := hR.runTurn c l (TurnM.quiet_closeStreams.mono fun _ _ => Op.Quiet.flagged)
  have hcancelled : R c ((c.runTurn l Core.closeStreams).2.toCore.cancelTerminate) :=
    hR.trans hclosed (hR.quiet rfl rfl rfl rfl rfl rfl)
  exact hR.trans hcancelled (hR.finishJob _ _ _ _ _ hl)

theorem parkRun (s : Inst) (l : LiveRun) (hl : J l.job) :
    R s.toCore (s.parkRun l).toCore := hR.park s.toCore l hl

theorem leaveTurn (s : Inst) (l : LiveRun) : R s.toCore (s.leaveTurn l).2.toCore :=
  hR.now s.toCore

theorem leaveThenPark (s : Inst) (l : LiveRun) (hl : J l.job) :
    R s.toCore ((s.leaveTurn l).2.parkRun (s.leaveTurn l).1).toCore := by
  refine hR.trans (hR.leaveTurn s l) (hR.parkRun _ _ ?_)
  exact (LiveRun.job_leaveTurn l _).symm ▸ hl

theorem suspend (s : Inst) (kind : TurnKind) (l : LiveRun) (hl : J l.job) :
    R s.toCore (s.suspend kind l).toCore := by
  cases kind with
  | start => exact hR.parkRun s l hl
  | event queued =>
    unfold Inst.suspend
    dsimp only
    split
    · exact hR.leaveThenPark s l hl
    · refine hR.trans (hR.leaveTurn s l) (hR.park _ _ ?_)
      exact (LiveRun.job_leaveTurn l _).symm ▸ hl
  | swept cutoff next => exact hR.leaveThenPark s l hl

theorem settleOwner (s : Inst) (kind : TurnKind) (l : LiveRun) (o : ScanOutcome) (tainted : Bool)
    (hl : J l.job) : R s.toCore (s.settleOwner kind l o tainted).toCore := by
  cases o with
  | finished result => exact hR.concludeRun _ _ _ _ hl
  | «continue» =>
    unfold Inst.settleOwner
    dsimp only
    split
    · exact hR.concludeRun _ _ _ _ hl
    · exact hR.suspend s kind l hl

theorem drainTouchedTimers (s : Inst) : R s.toCore s.drainTouchedTimers.toCore := by
  rw [Inst.drainTouchedTimers_toCore]
  exact hR.quiet rfl rfl rfl rfl rfl rfl

theorem concludeTurn (s : Inst) (kind : TurnKind) (l : LiveRun) (o : ScanOutcome)
    (hl : J l.job) : R s.toCore (s.concludeTurn kind l o).toCore := by
  have htainted := hR.instanceTainted s.toCore
  unfold Inst.concludeTurn
  split
  · have hnoted := hR.trans htainted (hR.noteTaint s.instanceTainted.2 l.token)
    have hsettled := hR.trans hnoted (hR.settleOwner
      (s.withCore (s.instanceTainted.2.note (.tainted l.token))) kind l o true hl)
    exact hR.trans hsettled (hR.drainTouchedTimers _)
  · have hsettled := hR.trans htainted
      (hR.settleOwner (s.withCore s.instanceTainted.2) kind l o false hl)
    exact hR.trans hsettled (hR.drainTouchedTimers _)

theorem beginTurn (s : Inst) (l : LiveRun) (wokeAt : Nat) :
    R s.toCore (s.beginTurn l wokeAt).2.toCore := by
  have hread := hR.trans (hR.takeRun s.toCore l.token) (hR.now (s.toCore.takeRun l.token))
  exact hR.trans hread (hR.quiet rfl rfl rfl rfl rfl rfl)

theorem runFor {α : Type} {p : TurnM α} (hp : p.Uses Op.Flagged) (s : Inst) (l : LiveRun) :
    R s.toCore (s.runFor l p).2.2.toCore := hR.runTurn _ _ hp

theorem takeTurn {p : TurnM ScanOutcome} (hp : p.Uses Op.Flagged) (s : Inst) (kind : TurnKind)
    (l : LiveRun) : R s.toCore (s.takeTurn kind l p).toCore :=
  hR.trans (hR.noteTurn s.toCore l) (hR.runTurn _ _ hp)

theorem beginThenTake {p : TurnM ScanOutcome} (hp : p.Uses Op.Flagged) (s : Inst)
    (kind : TurnKind) (l : LiveRun) (wokeAt : Nat) :
    R s.toCore ((s.beginTurn l wokeAt).2.takeTurn kind (s.beginTurn l wokeAt).1 p).toCore :=
  hR.trans (hR.beginTurn s l wokeAt) (hR.takeTurn hp _ _ _)

theorem dispatchJob (s : Inst) (j : CallJob) : R s.toCore (s.dispatchJob j).toCore := by
  have hbegun : R s.toCore (s.beginStart j).2.toCore := by
    unfold Inst.beginStart
    dsimp only
    split
    · have hreset : R s.toCore (s.noteTurnOwner j).resetReason := hR.quiet rfl rfl rfl rfl rfl rfl
      exact hR.trans (hR.trans hreset (hR.now _)) (hR.quiet rfl rfl rfl rfl rfl rfl)
    · have hnoted : R s.toCore (s.noteTurnOwner j).toCore := hR.refl _
      exact hR.trans (hR.trans hnoted (hR.now _)) (hR.quiet rfl rfl rfl rfl rfl rfl)
  have hturn := hR.trans hbegun
    (hR.takeTurn (TurnM.formed_placeholdersThenCall TurnM.formed_flagged) (s.beginStart j).2 .start
      (s.beginStart j).1)
  exact hR.trans hturn (hR.leaveTurn
    ((s.beginStart j).2.runTurnOf (s.beginStart j).1 Inst.placeholdersThenCall).2.2
    ((s.beginStart j).2.runTurnOf (s.beginStart j).1 Inst.placeholdersThenCall).2.1)

/-- The waitUntil wall, once its run was entered. -/
theorem sweepWall (s : Inst) (surfaced due : Nat) (l : LiveRun) (hl : J l.job) :
    R (s.actOn l surfaced due).2.toCore (s.sweepWall surfaced due l).toCore := by
  have hrun := hR.runFor (TurnM.quiet_concludeGraceWall.mono fun _ _ => Op.Quiet.flagged)
    (s.actOn l surfaced due).2 (s.actOn l surfaced due).1
  have hjob : J ((s.actOn l surfaced due).2.runFor (s.actOn l surfaced due).1
      TurnM.concludeGraceWall).2.1.job := by
    rw [Inst.runFor_job]
    exact (Inst.beginTurn_job _ l surfaced).symm ▸ hl
  unfold Inst.sweepWall
  dsimp only
  split
  · exact hR.trans hrun (hR.concludeRun _ _ _ _ hjob)
  · exact hR.trans hrun (hR.leaveThenPark _ _ hjob)

/-- The boundary, once its run was entered. -/
theorem sweepBoundary (s : Inst) (due : Nat) (l : LiveRun) (hl : J l.job) :
    R (s.actOn l due due).2.toCore (s.sweepBoundary due l).toCore := by
  have hrun := hR.runFor (TurnM.quiet_boundaryDeadline.mono fun _ _ => Op.Quiet.flagged)
    (s.actOn l due due).2 (s.actOn l due due).1
  refine hR.trans hrun (hR.concludeRun _ _ _ _ ?_)
  rw [Inst.runFor_job]
  exact (Inst.beginTurn_job _ l due).symm ▸ hl

end Core.Serving

namespace Inst

/-! ### The retirement flag and the dropped jobs -/

theorem queueDeadline_retired (s : Inst) (l : LiveRun) :
    (s.queueDeadline l).retired = s.retired := by
  unfold queueDeadline
  split <;> rfl

theorem parkRun_retired (s : Inst) (l : LiveRun) : (s.parkRun l).retired = s.retired :=
  queueDeadline_retired s l

theorem suspend_retired (s : Inst) (kind : TurnKind) (l : LiveRun) :
    (s.suspend kind l).retired = s.retired := by
  cases kind with
  | start => exact parkRun_retired s l
  | event queued =>
    unfold suspend
    dsimp only
    split
    · exact parkRun_retired _ _
    · rfl
  | swept cutoff next => exact parkRun_retired _ _

theorem settleOwner_retired (s : Inst) (kind : TurnKind) (l : LiveRun) (o : ScanOutcome)
    (tainted : Bool) : (s.settleOwner kind l o tainted).retired = s.retired := by
  cases o with
  | finished result => rfl
  | «continue» =>
    unfold settleOwner
    dsimp only
    split
    · rfl
    · exact suspend_retired s kind l

theorem drainTouchedTimers_retired (s : Inst) : s.drainTouchedTimers.retired = s.retired := by
  have hfold : ∀ (tokens : List Nat) (u : Inst),
      (tokens.foldl requeueTouched u).retired = u.retired := by
    intro tokens
    induction tokens with
    | nil => exact fun _ => rfl
    | cons token tokens ih =>
      intro u
      rw [List.foldl_cons, ih]
      unfold requeueTouched
      split
      · exact queueDeadline_retired _ _
      · rfl
  exact hfold s.touched s

theorem sweepWall_retired (s : Inst) (surfaced due : Nat) (l : LiveRun) :
    (s.sweepWall surfaced due l).retired = s.retired := by
  unfold sweepWall
  dsimp only
  split
  · rfl
  · exact parkRun_retired _ _

theorem concludeTurn_retired (s : Inst) (kind : TurnKind) (l : LiveRun) (o : ScanOutcome) :
    (s.concludeTurn kind l o).retired = s.retired := by
  unfold concludeTurn
  split
  · change (drainTouchedTimers _).retired = _
    rw [drainTouchedTimers_retired, settleOwner_retired]
    rfl
  · change (drainTouchedTimers _).retired = _
    rw [drainTouchedTimers_retired, settleOwner_retired]
    rfl

theorem sweepWall_lost (s : Inst) (surfaced due : Nat) (l : LiveRun) :
    (s.sweepWall surfaced due l).lost = s.lost := by
  unfold sweepWall
  dsimp only
  split
  · rfl
  · exact parkRun_lost _ _

end Inst

end Iso4
