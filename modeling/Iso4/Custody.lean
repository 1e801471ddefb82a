/-
Where every job of an instance is.

A job sent to an instance is in its channel, in the hands of the owner thread,
parked, released, or was lost with the channel.  `Inst.Conserved` says that
these places together hold exactly the tokens ever sent, and every step keeps
it (`conserved_exec`): no run is served twice, and its release hook runs at
most once.

The steps are composed of moves: `Core.Moves a b c c'` says that the owner
thread took the tokens `a` out of the shared world and put `b` back in,
while new jobs may have arrived.
-/
import Iso4.Frame
import Iso4.Lib.Execution
import Mathlib.Algebra.Order.Group.Multiset
import Mathlib.Tactic.Abel

namespace Iso4

open Program Execution

/-- The runs whose release hook ran. -/
def releasedTokens (log : List Event) : List Nat :=
  log.filterMap fun e =>
    match e with
    | .released token _ => some token
    | _ => none

theorem releasedTokens_append (l l' : List Event) :
    releasedTokens (l ++ l') = releasedTokens l ++ releasedTokens l' := by
  rw [releasedTokens, List.filterMap_append, releasedTokens, releasedTokens]

theorem jobTokens_append (q q' : List RoutedEvent) :
    jobTokens (q ++ q') = jobTokens q ++ jobTokens q' := by
  rw [jobTokens, List.filterMap_append, jobTokens, jobTokens]

theorem releasedTokens_append_ofTurn {new log : List Event} (h : ∀ e ∈ new, e.ofTurn = true) :
    releasedTokens (new ++ log) = releasedTokens log := by
  have hnil : releasedTokens new = [] := by
    rw [releasedTokens, List.filterMap_eq_nil_iff]
    intro e he
    have := h e he
    cases e <;> simp_all [Event.ofTurn]
  rw [releasedTokens_append, hnil, List.nil_append]

namespace Core

/-- The tokens in the shared world: parked, queued and released. -/
def tokens (c : Core) : Multiset ℕ :=
  (c.live.map LiveRun.token : Multiset ℕ) + (jobTokens c.queue : Multiset ℕ) +
    (releasedTokens c.log : Multiset ℕ)

/-- The owner thread took `a` out of the shared world and put `b` in. -/
structure Moves (a b : Multiset ℕ) (c c' : Core) : Prop where
  tokens : ∃ new : Multiset ℕ, a + c'.tokens = b + c.tokens + new ∧
    (c'.seen : Multiset ℕ) = c.seen + new
  nodup : c.seen.Nodup → c'.seen.Nodup

namespace Moves

variable {a b a' b' : Multiset ℕ} {c c' c'' : Core}

theorem trans (h : Moves a b c c') (h' : Moves a' b' c' c'') : Moves (a + a') (b + b') c c'' where
  tokens := by
    obtain ⟨new, e, hs⟩ := h.tokens
    obtain ⟨new', e', hs'⟩ := h'.tokens
    refine ⟨new + new', ?_, by rw [hs', hs, add_assoc]⟩
    calc a + a' + c''.tokens = a + (a' + c''.tokens) := add_assoc _ _ _
      _ = a + (b' + c'.tokens + new') := by rw [e']
      _ = b' + (a + c'.tokens) + new' := by abel
      _ = b' + (b + c.tokens + new) + new' := by rw [e]
      _ = b + b' + c.tokens + (new + new') := by abel
  nodup := fun hn => h'.nodup (h.nodup hn)

/-- Turn code leaves every token where it is. -/
theorem of_frame (h : Frame c c') : Moves 0 0 c c' where
  tokens := by
    obtain ⟨new, eq, hperm, -⟩ := h.queue
    obtain ⟨newlog, el, hl⟩ := h.log
    have hlive : c'.live.map LiveRun.token = c.live.map LiveRun.token := by
      refine List.ext_getElem (by simpa using h.live.length_eq.symm) fun i h1 h2 => ?_
      rw [List.getElem_map, List.getElem_map]
      exact (h.live.get (by simpa using h2) (by simpa using h1)).token
    refine ⟨(jobTokens new : Multiset ℕ), ?_, ?_⟩
    · rw [zero_add, zero_add, Core.tokens, Core.tokens, hlive, eq, jobTokens_append, el,
        releasedTokens_append_ofTurn hl, ← Multiset.coe_add]
      abel
    · rw [Multiset.coe_eq_coe.mpr hperm, ← Multiset.coe_add, add_comm]
  nodup := by
    obtain ⟨_, _, _, hn⟩ := h.queue
    exact hn

/-- Nothing moves where live runs, channel and releases stay. -/
theorem of_eq (ht : a + c'.tokens = b + c.tokens) (hs : c'.seen = c.seen) : Moves a b c c' :=
  ⟨⟨0, by rw [ht, add_zero], by rw [hs, add_zero]⟩, by rw [hs]; exact id⟩

theorem refl (c : Core) : Moves 0 0 c c := of_eq rfl rfl

/-- What stays in the owner's hands. -/
theorem keep (k : Multiset ℕ) (h : Moves a b c c') : Moves (a + k) (b + k) c c' where
  tokens := by
    obtain ⟨new, e, hs⟩ := h.tokens
    refine ⟨new, ?_, hs⟩
    calc a + k + c'.tokens = k + (a + c'.tokens) := by abel
      _ = k + (b + c.tokens + new) := by rw [e]
      _ = b + k + c.tokens + new := by abel
  nodup := h.nodup

/-- What was taken and put back again. -/
theorem cancel {k : Multiset ℕ} (h : Moves (k + a) (k + b) c c') : Moves a b c c' where
  tokens := by
    obtain ⟨new, e, hs⟩ := h.tokens
    refine ⟨new, add_left_cancel (a := k) ?_, hs⟩
    rw [← add_assoc, e]
    abel
  nodup := h.nodup

theorem putBack {k : Multiset ℕ} (h : Moves k k c c') : Moves 0 0 c c' :=
  cancel (k := k) (by simpa using h)

theorem then_frame (h : Moves a b c c') (h' : Frame c' c'') : Moves a b c c'' := by
  simpa using h.trans (of_frame h')

theorem after_frame (h : Frame c c') (h' : Moves a b c' c'') : Moves a b c c'' := by
  simpa using (of_frame h).trans h'

/-- Parked runs come or go. -/
theorem of_live (hl : a + (c'.live.map LiveRun.token : Multiset ℕ) =
      b + (c.live.map LiveRun.token : Multiset ℕ))
    (hq : c'.queue = c.queue) (hlog : c'.log = c.log) (hs : c'.seen = c.seen) : Moves a b c c' := by
  refine of_eq ?_ hs
  rw [Core.tokens, Core.tokens, hq, hlog, ← add_assoc, ← add_assoc, hl]
  abel

/-- Messages come or go. -/
theorem of_queue (hq : a + (jobTokens c'.queue : Multiset ℕ) = b + (jobTokens c.queue : Multiset ℕ))
    (hl : c'.live = c.live) (hlog : c'.log = c.log) (hs : c'.seen = c.seen) : Moves a b c c' := by
  refine of_eq ?_ hs
  rw [Core.tokens, Core.tokens, hl, hlog]
  calc a + ((c.live.map LiveRun.token : Multiset ℕ) + jobTokens c'.queue + releasedTokens c.log)
      = (c.live.map LiveRun.token : Multiset ℕ) + (a + jobTokens c'.queue) + releasedTokens c.log := by
        abel
    _ = _ := by
        rw [hq]
        abel

/-- Releases are noted. -/
theorem of_log (hlog : a + (releasedTokens c'.log : Multiset ℕ) =
      b + (releasedTokens c.log : Multiset ℕ))
    (hl : c'.live = c.live) (hq : c'.queue = c.queue) (hs : c'.seen = c.seen) : Moves a b c c' := by
  refine of_eq ?_ hs
  rw [Core.tokens, Core.tokens, hl, hq]
  calc a + ((c.live.map LiveRun.token : Multiset ℕ) + jobTokens c.queue + releasedTokens c'.log)
      = (c.live.map LiveRun.token : Multiset ℕ) + jobTokens c.queue + (a + releasedTokens c'.log) := by
        abel
    _ = _ := by
        rw [hlog]
        abel

theorem takeRun {l : LiveRun} (hl : c.findRun l.token = some l) :
    Moves {l.token} 0 c (c.takeRun l.token) := by
  have hperm : (c.live.map LiveRun.token).Perm
      (l.token :: (c.takeRun l.token).live.map LiveRun.token) := by
    have hmem : l ∈ c.live := List.mem_of_find?_eq_some hl
    obtain ⟨r, l₁, l₂, -, hr, e, e'⟩ := List.exists_of_eraseP
      (p := fun r : LiveRun => decide (r.token = l.token)) hmem (by simp)
    rw [Core.takeRun, e', e]
    have hrt : r.token = l.token := by simpa using hr
    rw [List.map_append, List.map_cons, hrt, List.map_append]
    exact List.perm_middle
  refine of_live ?_ rfl rfl rfl
  rw [zero_add, Multiset.coe_eq_coe.mpr hperm, Multiset.singleton_add, Multiset.cons_coe]

theorem park (c : Core) (l : LiveRun) : Moves 0 {l.token} c (c.park l) := by
  refine of_live ?_ rfl rfl rfl
  rw [zero_add, Multiset.singleton_add, Multiset.cons_coe, Core.park, List.map_append]
  exact Multiset.coe_eq_coe.mpr (List.perm_append_singleton _ _)

theorem note {e : Event} (he : releasedTokens [e] = []) (c : Core) : Moves 0 0 c (c.note e) := by
  refine of_log ?_ rfl rfl rfl
  change 0 + ((releasedTokens ([e] ++ c.log) : List ℕ) : Multiset ℕ) = _
  rw [releasedTokens_append, he, List.nil_append]

theorem released (c : Core) (token : Nat) (tainted : Bool) :
    Moves 0 {token} c (c.note (.released token tainted)) := by
  refine of_log ?_ rfl rfl rfl
  rw [zero_add, Multiset.singleton_add, Multiset.cons_coe]
  rfl

theorem sendCompletion (c : Core) (token : Nat) (msg : Outbound) :
    Moves 0 0 c (c.sendCompletion token msg) := by
  unfold Core.sendCompletion
  split
  · exact of_frame ((Frame.send _ _ _).trans (Frame.send _ _ _))
  · exact of_frame (Frame.send _ _ _)

/-- Finishing a job releases it. -/
theorem finishJob (c : Core) (job : CallJob) (result : RunResult) (tainted prefixFailed : Bool) :
    Moves 0 {job.token} c (c.finishJob job result tainted prefixFailed) := by
  have hc : Moves 0 0 c (c.note (.concluded job.token result)) := note rfl c
  unfold Core.finishJob
  dsimp only
  split
  · have hf := hc.trans (note (e := .finished job.token) rfl _)
    simpa using (hf.trans (released _ job.token tainted)).trans (sendCompletion _ _ _)
  · simpa using hc.trans (released _ job.token tainted)

theorem concludeRun (c : Core) (l : LiveRun) (result : RunResult) (tainted : Bool) :
    Moves 0 {l.token} c (c.concludeRun l result tainted) := by
  have hclose := Core.runTurn_frame c l closeStreams
  have hcancel : Frame (c.runTurn l closeStreams).2.toCore
      (c.runTurn l closeStreams).2.toCore.cancelTerminate :=
    Frame.of_eq (Nat.le_refl _) rfl rfl rfl rfl rfl
  exact after_frame (hclose.trans hcancel) (finishJob _ l.job result tainted false)

/-- Taking the head of the channel. -/
theorem receive {e : RoutedEvent} {rest : List RoutedEvent} (hq : c.queue = e :: rest) :
    Moves (jobTokens [e] : Multiset ℕ) 0 c { c with queue := rest } := by
  refine of_queue ?_ rfl rfl rfl
  have hj : jobTokens (e :: rest) = jobTokens [e] ++ jobTokens rest := jobTokens_append [e] rest
  rw [zero_add, hq, hj, ← Multiset.coe_add]

/-- Taking the first parked run. -/
theorem takeFirst {l : LiveRun} {rest : List LiveRun} (hl : c.live = l :: rest) :
    Moves {l.token} 0 c { c with live := rest } := by
  refine of_live ?_ rfl rfl rfl
  rw [zero_add, hl, List.map_cons, Multiset.singleton_add, Multiset.cons_coe]

end Moves

end Core

/-! ### The places of a token -/

def After.tokens : After → Multiset ℕ
  | .dispatch j => {j.token}
  | _ => 0

def TurnKind.tokens : TurnKind → Multiset ℕ
  | .swept _ next => next.tokens
  | _ => 0

/-- The tokens in the owner thread's hands. -/
def Pc.tokens : Pc → Multiset ℕ
  | .create j => {j.token}
  | .sweep _ next => next.tokens
  | .dispatch j => {j.token}
  | .turned kind l _ => {l.token} + kind.tokens
  | _ => 0

theorem After.tokens_pc (next : After) : next.pc.tokens = next.tokens := by
  cases next <;> rfl

theorem TurnKind.tokens_resume (kind : TurnKind) : (Inst.TurnKind.resume kind).tokens = kind.tokens := by
  cases kind <;> rfl

namespace Inst

/-- Every token ever sent here is in exactly one place. -/
structure Conserved (s : Inst) : Prop where
  places : s.pc.tokens + s.tokens + (s.lost : Multiset ℕ) = (s.seen : Multiset ℕ)
  nodup : s.seen.Nodup

/-- What a step moves between the owner's hands, the shared world and the
dropped jobs. -/
def StepMoves (s s' : Inst) : Prop :=
  Core.Moves (s'.pc.tokens + (s'.lost : Multiset ℕ)) (s.pc.tokens + (s.lost : Multiset ℕ))
    s.toCore s'.toCore

theorem Conserved.step {s s' : Inst} (h : Conserved s) (hm : StepMoves s s') : Conserved s' where
  places := by
    obtain ⟨new, e, hs⟩ := hm.tokens
    have e' : s'.pc.tokens + s'.tokens + (s'.lost : Multiset ℕ) =
        s.pc.tokens + s.tokens + (s.lost : Multiset ℕ) + new := by
      calc s'.pc.tokens + s'.tokens + (s'.lost : Multiset ℕ)
          = s'.pc.tokens + (s'.lost : Multiset ℕ) + s'.tokens := by abel
        _ = s.pc.tokens + (s.lost : Multiset ℕ) + s.tokens + new := e
        _ = _ := by abel
    rw [e', hs, h.places]
  nodup := hm.nodup h.nodup

theorem StepMoves.trans {s s' s'' : Inst} (h : StepMoves s s') (h' : StepMoves s' s'') :
    StepMoves s s'' := by
  have hm := Core.Moves.trans h h'
  rw [add_comm (s.pc.tokens + _)] at hm
  exact hm.cancel

/-- A step that drops no job. -/
theorem StepMoves.keep {s s' : Inst} {a b : Multiset ℕ} (h : Core.Moves a b s.toCore s'.toCore)
    (k : Multiset ℕ) (ha : s'.pc.tokens = a + k) (hb : s.pc.tokens = b + k)
    (hl : s'.lost = s.lost) : StepMoves s s' := by
  rw [StepMoves, ha, hb, hl, add_assoc, add_assoc]
  exact h.keep _

/-! ### Each part of a step -/

@[simp] theorem withCore_toCore (s : Inst) (c : Core) : (s.withCore c).toCore = c := rfl

@[simp] theorem queueDeadline_toCore (s : Inst) (l : LiveRun) :
    (s.queueDeadline l).toCore = s.toCore := by
  unfold queueDeadline
  split <;> rfl

@[simp] theorem queueDeadline_pc (s : Inst) (l : LiveRun) : (s.queueDeadline l).pc = s.pc := by
  unfold queueDeadline
  split <;> rfl

@[simp] theorem queueDeadline_lost (s : Inst) (l : LiveRun) : (s.queueDeadline l).lost = s.lost := by
  unfold queueDeadline
  split <;> rfl

theorem requeueTouched_keeps (s : Inst) (tokens : List Nat) :
    (tokens.foldl requeueTouched s).toCore = s.toCore ∧
      (tokens.foldl requeueTouched s).pc = s.pc ∧
      (tokens.foldl requeueTouched s).lost = s.lost := by
  induction tokens generalizing s with
  | nil => exact ⟨rfl, rfl, rfl⟩
  | cons token tokens ih =>
    obtain ⟨h1, h2, h3⟩ := ih (requeueTouched s token)
    have hr : (requeueTouched s token).toCore = s.toCore ∧ (requeueTouched s token).pc = s.pc ∧
        (requeueTouched s token).lost = s.lost := by
      unfold requeueTouched
      split
      · exact ⟨queueDeadline_toCore _ _, queueDeadline_pc _ _, queueDeadline_lost _ _⟩
      · exact ⟨rfl, rfl, rfl⟩
    exact ⟨h1.trans hr.1, h2.trans hr.2.1, h3.trans hr.2.2⟩

theorem drainTouchedTimers_toCore (s : Inst) :
    s.drainTouchedTimers.toCore = { s.toCore with touched := [] } := by
  unfold drainTouchedTimers
  dsimp only
  rw [(requeueTouched_keeps s s.touched).1]

theorem drainTouchedTimers_lost (s : Inst) : s.drainTouchedTimers.lost = s.lost :=
  (requeueTouched_keeps s s.touched).2.2

theorem beginTurn_moves {s : Inst} {l : LiveRun} (hl : s.findRun l.token = some l) (wokeAt : Nat) :
    Core.Moves {l.token} 0 s.toCore (s.beginTurn l wokeAt).2.toCore := by
  refine ((Core.Moves.takeRun hl).then_frame (Core.Frame.now _)).then_frame ?_
  exact Core.Frame.of_eq (Nat.le_refl _) rfl rfl rfl rfl rfl

theorem beginTurn_job (s : Inst) (l : LiveRun) (wokeAt : Nat) :
    (s.beginTurn l wokeAt).1.job = l.job := LiveRun.job_enterTurn _ _ _

theorem beginTurn_token (s : Inst) (l : LiveRun) (wokeAt : Nat) :
    (s.beginTurn l wokeAt).1.token = l.token := LiveRun.token_enterTurn _ _ _

theorem runFor_moves {α : Type} (s : Inst) (l : LiveRun) (p : TurnM α) :
    Core.Moves 0 0 s.toCore (s.runFor l p).2.2.toCore :=
  Core.Moves.of_frame (Core.runTurn_frame _ l p)

theorem runFor_job {α : Type} (s : Inst) (l : LiveRun) (p : TurnM α) :
    (s.runFor l p).2.1.job = l.job := Core.runTurn_job _ l p

theorem runFor_token {α : Type} (s : Inst) (l : LiveRun) (p : TurnM α) :
    (s.runFor l p).2.1.token = l.token := by
  rw [LiveRun.token, runFor_job, LiveRun.token]

theorem actOn_moves {s : Inst} {l : LiveRun} (hl : s.findRun l.token = some l) (wokeAt due : Nat) :
    Core.Moves {l.token} 0 s.toCore (s.actOn l wokeAt due).2.toCore := by
  have hn : Core.Moves 0 0 s.toCore (s.note (.acted l.token due)) := Core.Moves.note rfl _
  have h := hn.trans (beginTurn_moves (s := s.withCore (s.note (.acted l.token due))) hl wokeAt)
  simp only [zero_add] at h
  exact h

theorem actOn_token (s : Inst) (l : LiveRun) (wokeAt due : Nat) :
    (s.actOn l wokeAt due).1.token = l.token := beginTurn_token _ _ _

theorem beginStart_frame (s : Inst) (j : CallJob) :
    Core.Frame s.toCore (s.beginStart j).2.toCore := by
  unfold beginStart
  dsimp only
  generalize hc : (if (s.noteTurnOwner j).live.isEmpty = true then (s.noteTurnOwner j).resetReason
    else (s.noteTurnOwner j).toCore) = c
  have h0 : Core.Frame s.toCore c := by
    rw [← hc]
    split
    · exact Core.Frame.of_eq (Nat.le_refl _) rfl rfl rfl rfl rfl
    · exact Core.Frame.refl _
  refine (h0.trans (Core.Frame.now c)).trans ?_
  exact Core.Frame.of_eq (Nat.le_refl _) rfl rfl rfl rfl rfl

theorem runTurnOf_moves (s : Inst) (l : LiveRun) (p : TurnM ScanOutcome) :
    Core.Moves 0 0 s.toCore (s.runTurnOf l p).2.2.toCore := by
  have hn : Core.Moves 0 0 s.toCore (s.note (.turn l.token l.rs.phase l.rs.counted)) :=
    Core.Moves.note rfl _
  exact hn.then_frame (Core.runTurn_frame _ l p)

theorem runTurnOf_token (s : Inst) (l : LiveRun) (p : TurnM ScanOutcome) :
    (s.runTurnOf l p).2.1.token = l.token := runFor_token _ _ _

theorem takeTurn_moves (s : Inst) (kind : TurnKind) (l : LiveRun) (p : TurnM ScanOutcome) :
    Core.Moves 0 0 s.toCore (s.takeTurn kind l p).toCore := runTurnOf_moves s l p

theorem conclude_moves (s : Inst) (l : LiveRun) (result : RunResult) (tainted : Bool) :
    Core.Moves 0 {l.token} s.toCore (s.conclude l result tainted).toCore :=
  Core.Moves.concludeRun _ _ _ _

theorem takeTurn_tokens (s : Inst) (kind : TurnKind) (l : LiveRun) (p : TurnM ScanOutcome) :
    (s.takeTurn kind l p).pc.tokens = {l.token} + kind.tokens := by
  change {LiveRun.token _} + kind.tokens = _
  rw [runTurnOf_token]

theorem parkRun_moves (s : Inst) (l : LiveRun) :
    Core.Moves 0 {l.token} s.toCore (s.parkRun l).toCore := Core.Moves.park s.toCore l

theorem leaveTurn_moves (s : Inst) (l : LiveRun) :
    Core.Moves 0 0 s.toCore (s.leaveTurn l).2.toCore := Core.Moves.of_frame (Core.Frame.now _)

theorem leaveTurn_token (s : Inst) (l : LiveRun) : (s.leaveTurn l).1.token = l.token :=
  LiveRun.token_leaveTurn _ _

theorem leaveTurn_parkRun_moves (s : Inst) (l : LiveRun) :
    Core.Moves 0 {l.token} s.toCore ((s.leaveTurn l).2.parkRun (s.leaveTurn l).1).toCore := by
  have h := (leaveTurn_moves s l).trans (parkRun_moves _ (s.leaveTurn l).1)
  rw [leaveTurn_token] at h
  simpa using h

theorem suspend_moves (s : Inst) (kind : TurnKind) (l : LiveRun) :
    Core.Moves 0 {l.token} s.toCore (s.suspend kind l).toCore := by
  cases kind with
  | start => exact parkRun_moves s l
  | event queued =>
    unfold suspend
    dsimp only
    split
    · exact leaveTurn_parkRun_moves s l
    · have h := (leaveTurn_moves s l).trans (Core.Moves.park _ (s.leaveTurn l).1)
      rw [leaveTurn_token] at h
      simpa using h
  | swept cutoff next => exact leaveTurn_parkRun_moves s l

theorem settleOwner_moves (s : Inst) (kind : TurnKind) (l : LiveRun) (o : ScanOutcome)
    (tainted : Bool) : Core.Moves 0 {l.token} s.toCore (s.settleOwner kind l o tainted).toCore := by
  cases o with
  | finished result => exact Core.Moves.concludeRun _ _ _ _
  | «continue» =>
    unfold settleOwner
    dsimp only
    split
    · exact Core.Moves.concludeRun _ _ _ _
    · exact suspend_moves s kind l

theorem parkRun_lost (s : Inst) (l : LiveRun) : (s.parkRun l).lost = s.lost :=
  queueDeadline_lost s l

theorem suspend_lost (s : Inst) (kind : TurnKind) (l : LiveRun) :
    (s.suspend kind l).lost = s.lost := by
  cases kind with
  | start => exact parkRun_lost s l
  | event queued =>
    unfold suspend
    dsimp only
    split
    · exact parkRun_lost _ _
    · rfl
  | swept cutoff next => exact parkRun_lost _ _

theorem settleOwner_lost (s : Inst) (kind : TurnKind) (l : LiveRun) (o : ScanOutcome)
    (tainted : Bool) : (s.settleOwner kind l o tainted).lost = s.lost := by
  cases o with
  | finished result => rfl
  | «continue» =>
    unfold settleOwner
    dsimp only
    split
    · rfl
    · exact suspend_lost s kind l

theorem isTerminating_frame (c : Core) : Core.Frame c c.isTerminating.2 :=
  Core.Frame.of_eq (Nat.le_refl _) rfl rfl rfl rfl rfl

theorem instanceTainted_frame (c : Core) : Core.Frame c c.instanceTainted.2 := by
  unfold Core.instanceTainted
  split
  · exact Core.Frame.refl c
  · exact isTerminating_frame c

theorem drain_moves (s : Inst) : Core.Moves 0 0 s.toCore s.drainTouchedTimers.toCore := by
  rw [drainTouchedTimers_toCore]
  exact Core.Moves.of_eq rfl rfl

theorem concludeTurn_moves (s : Inst) (kind : TurnKind) (l : LiveRun) (o : ScanOutcome) :
    Core.Moves 0 {l.token} s.toCore (s.concludeTurn kind l o).toCore := by
  have ht := Core.Moves.of_frame (instanceTainted_frame s.toCore)
  unfold concludeTurn
  split
  · have h := ht.trans (Core.Moves.note (e := .tainted l.token) rfl _)
    have h' := h.trans (settleOwner_moves
      (s.withCore (s.instanceTainted.2.note (.tainted l.token))) kind l o true)
    have h'' := h'.trans (drain_moves _)
    simp only [zero_add, add_zero] at h''
    exact h''
  · have h' := ht.trans (settleOwner_moves (s.withCore s.instanceTainted.2) kind l o false)
    have h'' := h'.trans (drain_moves _)
    simp only [zero_add, add_zero] at h''
    exact h''

theorem peek_toCore (s : Inst) : s.peekValidDeadline.2.toCore = s.toCore := rfl

/-! ### Steps -/

theorem heldJob_tokens (kind : TurnKind) : (TurnKind.heldJob kind : Multiset ℕ) = kind.tokens := by
  rcases kind with _ | _ | ⟨_, _ | _ | _⟩ <;> rfl

theorem concludeTurn_lost (s : Inst) (kind : TurnKind) (l : LiveRun) (o : ScanOutcome) :
    ((s.concludeTurn kind l o).pc.tokens + ((s.concludeTurn kind l o).lost : Multiset ℕ)) =
      kind.tokens + (s.lost : Multiset ℕ) := by
  unfold concludeTurn
  split
  · change 0 + ((drainTouchedTimers _).lost ++ TurnKind.heldJob kind : Multiset ℕ) = _
    rw [drainTouchedTimers_lost, settleOwner_lost, ← Multiset.coe_add, heldJob_tokens, zero_add]
    exact add_comm _ _
  · change (TurnKind.resume kind).tokens + ((drainTouchedTimers _).lost : Multiset ℕ) = _
    rw [drainTouchedTimers_lost, settleOwner_lost, TurnKind.tokens_resume]
    rfl

theorem concludeTurn_stepMoves {s : Inst} {kind : TurnKind} {l : LiveRun} {o : ScanOutcome}
    (hpc : s.pc = .turned kind l o) : StepMoves s (s.concludeTurn kind l o) := by
  rw [StepMoves, concludeTurn_lost, hpc]
  have h := (concludeTurn_moves s kind l o).keep (kind.tokens + (s.lost : Multiset ℕ))
  rw [zero_add, ← add_assoc] at h
  exact h

theorem findRun_token {c : Core} {token : Nat} {l : LiveRun} (h : c.findRun token = some l) :
    l.token = token := by
  simpa using List.find?_some h

theorem findRun_self {c : Core} {token : Nat} {l : LiveRun} (h : c.findRun token = some l) :
    c.findRun l.token = some l := by
  rw [findRun_token h]
  exact h

theorem sweepTurn_stepMoves {s : Inst} {cutoff due : Nat} {next : After} {l : LiveRun}
    {p : TurnM ScanOutcome} (hpc : s.pc = .sweep cutoff next) (hl : s.findRun l.token = some l) :
    StepMoves s (s.sweepTurn cutoff next due l p) := by
  have h := (actOn_moves hl due due).trans
    (takeTurn_moves (s.actOn l due due).2 (.swept cutoff next) (s.actOn l due due).1 p)
  refine StepMoves.keep h next.tokens ?_ ?_ rfl
  · change (takeTurn _ _ _ _).pc.tokens = _
    rw [takeTurn_tokens, actOn_token, add_zero]
    rfl
  · rw [hpc, add_zero, zero_add]
    rfl

/-- A run taken in hand, run through some code and parked or concluded again. -/
theorem handBack_stepMoves {s s' : Inst} {l : LiveRun} {w d : Nat} {α : Type} {p : TurnM α}
    (hl : s.findRun l.token = some l)
    (hback : Core.Moves 0 {l.token} ((s.actOn l w d).2.runFor (s.actOn l w d).1 p).2.2.toCore s'.toCore)
    (hpc : s'.pc = s.pc) (hlost : s'.lost = s.lost) : StepMoves s s' := by
  have h := ((actOn_moves hl w d).trans (runFor_moves _ _ p)).trans hback
  simp only [add_zero, zero_add] at h
  refine StepMoves.keep h.putBack s.pc.tokens ?_ (zero_add _).symm hlost
  rw [hpc, zero_add]

theorem actedToken (s : Inst) (l : LiveRun) (wokeAt due : Nat) {α : Type} (p : TurnM α) :
    ((s.actOn l wokeAt due).2.runFor (s.actOn l wokeAt due).1 p).2.1.token = l.token := by
  rw [runFor_token, actOn_token]

theorem parkRun_pc (s : Inst) (l : LiveRun) : (s.parkRun l).pc = s.pc := queueDeadline_pc s l

theorem sweepWall_stepMoves {s : Inst} {surfaced due : Nat} {l : LiveRun}
    (hl : s.findRun l.token = some l) : StepMoves s (s.sweepWall surfaced due l) := by
  have htok := actedToken s l surfaced due TurnM.concludeGraceWall
  unfold sweepWall
  dsimp only
  split
  · refine handBack_stepMoves (p := TurnM.concludeGraceWall) (w := surfaced) (d := due) hl ?_
      rfl rfl
    have h := conclude_moves
      ((s.actOn l surfaced due).2.runFor (s.actOn l surfaced due).1 TurnM.concludeGraceWall).2.2
      ((s.actOn l surfaced due).2.runFor (s.actOn l surfaced due).1 TurnM.concludeGraceWall).2.1
    rw [htok] at h
    exact h _ _
  · refine handBack_stepMoves (p := TurnM.concludeGraceWall) (w := surfaced) (d := due) hl ?_
      (parkRun_pc _ _) (parkRun_lost _ _)
    have h := leaveTurn_parkRun_moves
      ((s.actOn l surfaced due).2.runFor (s.actOn l surfaced due).1 TurnM.concludeGraceWall).2.2
      ((s.actOn l surfaced due).2.runFor (s.actOn l surfaced due).1 TurnM.concludeGraceWall).2.1
    rw [htok] at h
    exact h

theorem sweepBoundary_stepMoves {s : Inst} {due : Nat} {l : LiveRun}
    (hl : s.findRun l.token = some l) : StepMoves s (s.sweepBoundary due l) := by
  have htok := actedToken s l due due TurnM.boundaryDeadline
  refine handBack_stepMoves (p := TurnM.boundaryDeadline) (w := due) (d := due) hl ?_ rfl rfl
  have h := conclude_moves
    ((s.actOn l due due).2.runFor (s.actOn l due due).1 TurnM.boundaryDeadline).2.2
    ((s.actOn l due due).2.runFor (s.actOn l due due).1 TurnM.boundaryDeadline).2.1
  rw [htok] at h
  exact h _ _

/-- A step that leaves hands and channel alone. -/
theorem StepMoves.of_frame {s s' : Inst} (h : Core.Frame s.toCore s'.toCore)
    (hpc : s'.pc.tokens = s.pc.tokens) (hl : s'.lost = s.lost) : StepMoves s s' := by
  rw [StepMoves, hpc, hl]
  simpa using (Core.Moves.of_frame h).keep (s.pc.tokens + (s.lost : Multiset ℕ))

theorem StepMoves.after_frame {s u v : Inst} (h : Core.Frame s.toCore u.toCore)
    (hpc : u.pc = s.pc) (hl : u.lost = s.lost) (h' : StepMoves u v) : StepMoves s v := by
  rw [StepMoves, hpc, hl] at h'
  exact Core.Moves.after_frame h h'

theorem sweepGrace_stepMoves {s : Inst} {cutoff surfaced : Nat} {next : After} {l : LiveRun}
    (hpc : s.pc = .sweep cutoff next) (hl : s.findRun l.token = some l) :
    StepMoves s (s.sweepGrace cutoff next surfaced l) := by
  have hnow := Core.Frame.now s.toCore
  have hl' : (s.withCore s.now.2).findRun l.token = some l := by
    change Core.findRun s.now.2 l.token = _
    rw [Core.findRun, (Core.Still.now s.toCore).live]
    exact hl
  unfold sweepGrace
  dsimp only
  split
  · exact StepMoves.after_frame (u := s.withCore s.now.2) hnow rfl rfl (sweepTurn_stepMoves hpc hl')
  · split
    · exact StepMoves.after_frame (u := s.withCore s.now.2) hnow rfl rfl (sweepWall_stepMoves hl')
    · refine StepMoves.of_frame ?_ ?_ ?_
      · rw [queueDeadline_toCore]
        exact hnow
      · rw [queueDeadline_pc]
        rfl
      · rw [queueDeadline_lost]
        rfl

theorem sweepPass_stepMoves {s : Inst} {cutoff : Nat} {next : After}
    (hpc : s.pc = .sweep cutoff next) : StepMoves s (s.sweepPass cutoff next) := by
  have hdone : StepMoves s (s.peekValidDeadline.2.goto next.pc) :=
    StepMoves.of_frame (Core.Frame.refl _) (by rw [hpc]; exact next.tokens_pc) rfl
  unfold sweepPass
  dsimp only
  split
  · exact hdone
  · split
    · exact hdone
    · split
      · exact StepMoves.of_frame (Core.Frame.refl _) rfl rfl
      · next l hfind =>
        have hl : s.findRun l.token = some l := findRun_self hfind
        refine StepMoves.after_frame (u := { s.peekValidDeadline.2 with
          deadlines := s.peekValidDeadline.2.deadlines.pop }) (Core.Frame.refl _) rfl rfl ?_
        unfold sweepRun
        split
        · exact sweepTurn_stepMoves hpc hl
        · split
          · exact sweepGrace_stepMoves hpc hl
          · exact sweepBoundary_stepMoves hl

theorem dispatchJob_stepMoves {s : Inst} {j : CallJob} (hpc : s.pc = .dispatch j) :
    StepMoves s (s.dispatchJob j) := by
  have h := ((Core.Moves.of_frame (beginStart_frame s j)).trans
    (runTurnOf_moves (s.beginStart j).2 (s.beginStart j).1 placeholdersThenCall)).trans
    (leaveTurn_moves _ ((s.beginStart j).2.runTurnOf (s.beginStart j).1 placeholdersThenCall).2.1)
  simp only [zero_add] at h
  refine StepMoves.keep (a := 0) (b := 0) h {j.token} ?_ ?_ rfl
  · change {LiveRun.token _} + 0 = _
    rw [leaveTurn_token, runTurnOf_token, zero_add, add_zero]
    rfl
  · rw [hpc, zero_add]
    rfl

theorem deliverEvent_stepMoves {s : Inst} {token stamp : Nat} {msg : Inbound}
    (hpc : s.pc = .deliver token msg stamp) : StepMoves s (s.deliverEvent token msg stamp) := by
  unfold deliverEvent
  split
  · exact StepMoves.of_frame (Core.Frame.refl _) (by rw [hpc]; rfl) rfl
  · next l hfind =>
    have hl : s.findRun l.token = some l := findRun_self hfind
    generalize hs : s.withCore (s.note (.delivered token stamp l.nextDeadline)) = s₁
    have hn : Core.Moves 0 0 s.toCore s₁.toCore := by
      rw [← hs]
      exact Core.Moves.note rfl _
    have hl₁ : s₁.findRun l.token = some l := by
      rw [← hs]
      exact hl
    have h := hn.trans ((beginTurn_moves hl₁ stamp).trans (takeTurn_moves (s₁.beginTurn l stamp).2
      (.event l.nextDeadline) (s₁.beginTurn l stamp).1 (TurnM.handleLoopEvent msg)))
    simp only [zero_add, add_zero] at h
    refine StepMoves.keep h 0 ?_ ?_ (by rw [← hs]; rfl)
    · change (takeTurn _ _ _ _).pc.tokens = _
      rw [takeTurn_tokens, beginTurn_token]
      rfl
    · rw [hpc]
      rfl

theorem receive_stepMoves {s : Inst} {e : RoutedEvent} {rest : List RoutedEvent} (hpc : s.pc = .wait)
    (hq : s.queue = e :: rest) :
    StepMoves s ((s.withCore { s.toCore with queue := rest }).receive e) := by
  have h := Core.Moves.receive hq
  unfold receive
  cases he : e.event with
  | job j =>
    rw [show jobTokens [e] = [j.token] by simp [jobTokens, he]] at h
    refine StepMoves.keep h 0 ?_ ?_ rfl
    · rw [add_zero]
      rfl
    · rw [hpc]
      rfl
  | host m =>
    rw [show jobTokens [e] = [] by simp [jobTokens, he]] at h
    exact StepMoves.keep h 0 rfl (by rw [hpc]; rfl) rfl
  | retire =>
    rw [show jobTokens [e] = [] by simp [jobTokens, he]] at h
    refine StepMoves.keep h 0 ?_ ?_ rfl
    · change s.pc.tokens = _
      rw [hpc]
      rfl
    · rw [hpc]
      rfl

theorem waitStep_stepMoves {s : Inst} (hpc : s.pc = .wait) : StepMoves s s.waitStep := by
  have hw : s.pc.tokens = 0 := by
    rw [hpc]
    rfl
  unfold waitStep
  dsimp only
  split
  · exact StepMoves.of_frame (Core.Frame.refl _) (by rw [hpc]; rfl) rfl
  · have hnow : Core.Frame s.toCore s.peekValidDeadline.2.now.2.now.2 :=
      (Core.Frame.now s.toCore).trans (Core.Frame.now _)
    refine StepMoves.after_frame (u := s.peekValidDeadline.2.withCore
      s.peekValidDeadline.2.now.2.now.2) hnow rfl rfl ?_
    unfold wake
    split
    · next hq => exact receive_stepMoves hpc hq
    · split
      · exact StepMoves.of_frame (Core.Frame.refl _) hw.symm rfl
      · split
        · exact StepMoves.of_frame (Core.Frame.refl _) rfl rfl
        · split
          · exact StepMoves.of_frame (Core.Frame.now _) hw.symm rfl
          · exact StepMoves.of_frame (Core.Frame.refl _) rfl rfl

/-- The channel is dropped with the jobs left in it. -/
theorem exit_stepMoves {s : Inst} (hpc : s.pc.tokens = 0) : StepMoves s s.exit := by
  have h : Core.Moves (jobTokens s.queue : Multiset ℕ) 0 s.toCore s.exit.toCore :=
    Core.Moves.of_queue (by rw [zero_add]; exact add_zero _) rfl rfl rfl
  have h' := h.keep (s.lost : Multiset ℕ)
  rw [StepMoves, hpc]
  change Core.Moves (0 + ((s.lost ++ jobTokens s.queue : List ℕ) : Multiset ℕ)) _ _ _
  rw [zero_add, ← Multiset.coe_add, add_comm (s.lost : Multiset ℕ)]
  exact h'

/-- A queued job is answered without being started. -/
theorem finishQueued_stepMoves {s : Inst} {e : RoutedEvent} {rest : List RoutedEvent} {j : CallJob}
    (hq : s.queue = e :: rest) (he : e.event = .job j) (result : RunResult) (tainted failed : Bool) :
    StepMoves s (s.withCore ((({ s.toCore with queue := rest } : Core)).finishJob j result tainted
      failed)) := by
  have h := (Core.Moves.receive hq).trans (Core.Moves.finishJob _ j result tainted failed)
  rw [show jobTokens [e] = [j.token] by simp [jobTokens, he]] at h
  simp only [Multiset.coe_singleton, add_zero, zero_add] at h
  exact StepMoves.keep h.putBack s.pc.tokens (zero_add _).symm (zero_add _).symm rfl

theorem skip_stepMoves {s : Inst} {e : RoutedEvent} {rest : List RoutedEvent}
    (hq : s.queue = e :: rest) (he : jobTokens [e] = []) :
    StepMoves s (s.withCore { s.toCore with queue := rest }) := by
  have h := Core.Moves.receive hq
  rw [he] at h
  exact StepMoves.keep h s.pc.tokens (zero_add _).symm (zero_add _).symm rfl

theorem bootStep_stepMoves {s : Inst} (hpc : s.pc = .boot) : StepMoves s s.bootStep := by
  have hw : s.pc.tokens = 0 := by
    rw [hpc]
    rfl
  refine StepMoves.after_frame (u := s.withCore s.now.2) (Core.Frame.now _) rfl rfl ?_
  unfold bootStep
  dsimp only
  split
  · split
    · exact exit_stepMoves hw
    · exact StepMoves.of_frame (Core.Frame.refl _) rfl rfl
  · next e rest hq =>
    have h := Core.Moves.receive hq
    split
    · next j he =>
      rw [show jobTokens [e] = [j.token] by simp [jobTokens, he]] at h
      refine StepMoves.keep h 0 ?_ ?_ rfl
      · rw [add_zero]
        rfl
      · change s.pc.tokens = _
        rw [hw]
        rfl
    · next he =>
      exact (skip_stepMoves hq (by simp [jobTokens, he])).trans (exit_stepMoves hw)
    · next m he => exact skip_stepMoves hq (by simp [jobTokens, he])

theorem createStep_stepMoves {s : Inst} {j : CallJob} (hpc : s.pc = .create j) :
    StepMoves s (s.createStep j) := by
  have hw : s.pc.tokens = 0 + {j.token} := by
    rw [hpc, zero_add]
    rfl
  unfold createStep
  split
  · exact StepMoves.of_frame (Core.Frame.refl _) (by rw [hw, zero_add]; rfl) rfl
  · next e _ =>
    refine StepMoves.keep (Core.Moves.finishJob _ j (.error e) true (prefixFailed e)) 0 rfl ?_ rfl
    rw [hw, add_zero, zero_add]

theorem brokenStep_stepMoves {s : Inst} {e : RunError} (hpc : s.pc = .broken e) :
    StepMoves s (s.brokenStep e) := by
  refine StepMoves.after_frame (u := s.withCore s.now.2) (Core.Frame.now _) rfl rfl ?_
  unfold brokenStep
  dsimp only
  split
  · split
    · exact exit_stepMoves (by change s.pc.tokens = 0; rw [hpc]; rfl)
    · exact StepMoves.of_frame (Core.Frame.refl _) rfl rfl
  · next m rest hq =>
    split
    · next j he => exact finishQueued_stepMoves hq he _ _ _
    · next he =>
      refine skip_stepMoves hq ?_
      cases hm : m.event with
      | job j => exact absurd hm (he j)
      | host _ => simp [jobTokens, hm]
      | retire => simp [jobTokens, hm]

theorem drainStep_stepMoves {s : Inst} (hpc : s.pc = .drain) : StepMoves s s.drainStep := by
  unfold drainStep
  split
  · exact StepMoves.of_frame (Core.Frame.refl _) (by rw [hpc]; rfl) rfl
  · next m rest hq =>
    dsimp only
    split
    · next j he => exact finishQueued_stepMoves hq he _ _ _
    · next he =>
      refine skip_stepMoves hq ?_
      cases hm : m.event with
      | job j => exact absurd hm (he j)
      | host _ => simp [jobTokens, hm]
      | retire => simp [jobTokens, hm]

/-- The first parked run is concluded. -/
theorem concludeFirst_stepMoves {s s' : Inst} {l : LiveRun} {rest : List LiveRun}
    (hl : s.live = l :: rest)
    (hback : Core.Moves 0 {l.token} ({ s.toCore with live := rest } : Core) s'.toCore)
    (hpc : s'.pc = s.pc) (hlost : s'.lost = s.lost) : StepMoves s s' := by
  have h := (Core.Moves.takeFirst hl).trans hback
  simp only [add_zero, zero_add] at h
  refine StepMoves.keep h.putBack s.pc.tokens ?_ (zero_add _).symm hlost
  rw [hpc, zero_add]

theorem taintStep_stepMoves {s : Inst} (hpc : s.pc = .taint) : StepMoves s s.taintStep := by
  unfold taintStep
  split
  · exact StepMoves.of_frame (Core.Frame.refl _) (by rw [hpc]; rfl) rfl
  · next l rest hl => exact concludeFirst_stepMoves hl (Core.Moves.concludeRun _ _ _ _) rfl rfl

theorem closeStep_stepMoves {s : Inst} (hpc : s.pc = .closing) : StepMoves s s.closeStep := by
  unfold closeStep
  split
  · exact StepMoves.of_frame (Core.Frame.refl _) (by rw [hpc]; rfl) rfl
  · next l rest hl =>
    refine concludeFirst_stepMoves hl ?_ rfl rfl
    have h := (runFor_moves (s.withCore { s.toCore with live := rest }) l
      TurnM.boundaryClose).trans (conclude_moves _ ((s.withCore { s.toCore with live := rest }).runFor l
        TurnM.boundaryClose).2.1 ((s.withCore { s.toCore with live := rest }).runFor l
        TurnM.boundaryClose).1 false)
    rw [runFor_token] at h
    simp only [zero_add] at h
    exact h

theorem advance_stepMoves (s : Inst) : StepMoves s s.advance := by
  unfold advance
  split
  · next hpc => exact bootStep_stepMoves hpc
  · next hpc => exact createStep_stepMoves hpc
  · next hpc => exact brokenStep_stepMoves hpc
  · next hpc => exact waitStep_stepMoves hpc
  · next hpc => exact sweepPass_stepMoves hpc
  · next hpc => exact dispatchJob_stepMoves hpc
  · next hpc => exact deliverEvent_stepMoves hpc
  · next hpc => exact concludeTurn_stepMoves hpc
  · next hpc => exact closeStep_stepMoves hpc
  · next hpc => exact taintStep_stepMoves hpc
  · next hpc =>
    exact StepMoves.after_frame (u := s.withCore s.now.2) (Core.Frame.now _) rfl rfl
      (drainStep_stepMoves hpc)
  · next hpc =>
    refine StepMoves.after_frame (u := s.withCore s.now.2) (Core.Frame.now _) rfl rfl
      (exit_stepMoves ?_)
    change s.pc.tokens = 0
    rw [hpc]
    rfl
  · exact StepMoves.of_frame (Core.Frame.refl _) rfl rfl

/-- Every step moves tokens between places. -/
theorem step_stepMoves (s : Inst) (script : Script) : StepMoves s (s.step script) :=
  StepMoves.after_frame (u := s.load script)
    (Core.Frame.of_eq (Nat.le_refl _) rfl rfl rfl rfl rfl) rfl rfl (advance_stepMoves _)

theorem new_conserved (clock : Nat) : Conserved (Inst.new clock) := ⟨rfl, List.nodup_nil⟩

/-- In every run, every token ever sent is in exactly one place. -/
theorem conserved_exec (clock : Nat) (scripts : List Script) :
    Conserved (exec step (Inst.new clock) scripts) :=
  exec_invariant (fun s script h => h.step (step_stepMoves s script)) (new_conserved clock) scripts

end Inst

end Iso4
