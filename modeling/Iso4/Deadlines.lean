/-
Completeness of the deadline heap.

The heap is lazily deleted: an entry is stale when it no longer equals its
run's next deadline, and a run's deadline is pushed again wherever it may have
changed.  `Queued` says that no push was missed, except for runs whose timers
another run's turn touched and that are re-queued right after it.

* `deadline_heap_complete` — at every wait each live run's next deadline is in
  the heap, so the entry the loop sleeps to is the least deadline of all live
  runs, and it sleeps without a timeout only when no live run has one.
-/
import Iso4.Custody

namespace Iso4

open Program Execution

/-- Every parked run's next deadline is in the heap, touched runs excused. -/
def Queued (live : List LiveRun) (touched : List Nat) (h : MinHeap DeadlineKey) : Prop :=
  ∀ l ∈ live, ∀ d, l.nextDeadline = some d → l.token ∈ touched ∨ DeadlineKey.mk d l.token ∈ h

namespace Queued

variable {live live' : List LiveRun} {touched touched' : List Nat} {h h' : MinHeap DeadlineKey}

theorem mono (hq : Queued live touched h) (hsub : ∀ k ∈ h, k ∈ h') : Queued live touched h' :=
  fun l hl d hd => (hq l hl d hd).imp_right (hsub _)

theorem subset (hq : Queued live touched h) (hsub : ∀ l ∈ live', l ∈ live) :
    Queued live' touched h := fun l hl d hd => hq l (hsub l hl) d hd

/-- Another run's turn leaves a run's deadline or touches the run. -/
theorem rides (hq : Queued live touched h) (hsub : touched ⊆ touched')
    (hr : List.Forall₂ (LiveRun.Rides touched') live live') : Queued live' touched' h := by
  intro l' hl' d hd
  obtain ⟨l, hl, hll⟩ : ∃ l ∈ live, LiveRun.Rides touched' l l' := by
    obtain ⟨i, hi, rfl⟩ := List.getElem_of_mem hl'
    have hi' : i < live.length := by rw [hr.length_eq]; exact hi
    exact ⟨live[i], List.getElem_mem hi', hr.get hi' hi⟩
  rw [hll.token]
  by_cases ht : l.token ∈ touched'
  · exact Or.inl ht
  · right
    rw [hll.nextDeadline_eq ht] at hd
    exact (hq l hl d hd).resolve_left fun htl => ht (hsub htl)

/-- Parking a run whose deadline is queued. -/
theorem park {l : LiveRun} (hq : Queued live touched h)
    (hl : ∀ d, l.nextDeadline = some d → DeadlineKey.mk d l.token ∈ h) :
    Queued (live ++ [l]) touched h := by
  intro r hr d hd
  rcases List.mem_append.mp hr with hr | hr
  · exact hq r hr d hd
  · rw [List.mem_singleton] at hr
    subst hr
    exact Or.inr (hl d hd)

end Queued

theorem nodup_find? {live : List LiveRun} (hn : (live.map LiveRun.token).Nodup) {l : LiveRun}
    (hl : l ∈ live) : live.find? (fun r => r.token = l.token) = some l := by
  induction live with
  | nil => exact absurd hl List.not_mem_nil
  | cons r live ih =>
    rw [List.map_cons, List.nodup_cons] at hn
    rw [List.find?_cons]
    rcases List.mem_cons.mp hl with rfl | hl
    · simp
    · have hne : r.token ≠ l.token := fun e => hn.1 (e ▸ List.mem_map_of_mem hl)
      simp only [hne, decide_false]
      exact ih hn.2 hl

theorem mem_eraseP_token {live : List LiveRun} (hn : (live.map LiveRun.token).Nodup) {l r : LiveRun}
    (hl : l ∈ live) (hr : r ∈ live.eraseP fun r => r.token = l.token) :
    r ∈ live ∧ r.token ≠ l.token := by
  refine ⟨List.mem_of_mem_eraseP hr, fun e => ?_⟩
  induction live with
  | nil => exact absurd hl List.not_mem_nil
  | cons x live ih =>
    rw [List.map_cons, List.nodup_cons] at hn
    rw [List.eraseP_cons] at hr
    by_cases hx : x.token = l.token
    · simp only [hx, decide_true, cond_true] at hr
      exact hn.1 (hx ▸ e ▸ List.mem_map_of_mem hr)
    · simp only [hx, decide_false, cond_false] at hr
      have hl' : l ∈ live := (List.mem_cons.mp hl).resolve_left fun e => hx (by rw [e])
      rcases List.mem_cons.mp hr with rfl | hr
      · exact hx e
      · exact ih hn.2 hl' hr

namespace Inst

variable {s : Inst}

/-! ### Tokens are unique -/

theorem Conserved.places_nodup (h : Conserved s) :
    (s.pc.tokens + s.tokens + (s.lost : Multiset ℕ)).Nodup := by
  rw [h.places]
  exact Multiset.coe_nodup.mpr h.nodup

theorem Conserved.live_nodup (h : Conserved s) : (s.live.map LiveRun.token).Nodup := by
  have h1 := (Multiset.nodup_add.mp h.places_nodup).1
  have h2 := (Multiset.nodup_add.mp h1).2.1
  have h3 := (Multiset.nodup_add.mp h2).1
  exact Multiset.coe_nodup.mp (Multiset.nodup_add.mp h3).1

/-- A run in the owner's hands is not parked. -/
theorem Conserved.hand_not_live (h : Conserved s) {token : Nat} (ht : token ∈ s.pc.tokens) :
    token ∉ s.live.map LiveRun.token := by
  have h1 := (Multiset.nodup_add.mp h.places_nodup).1
  have hdisj := (Multiset.nodup_add.mp h1).2.2
  intro hl
  refine Multiset.disjoint_left.mp hdisj ht ?_
  rw [Core.tokens, Multiset.mem_add, Multiset.mem_add]
  exact Or.inl (Or.inl (Multiset.mem_coe.mpr hl))

/-! ### The heap operations -/

theorem mem_queueDeadline {l : LiveRun} {k : DeadlineKey} (hk : k ∈ s.deadlines) :
    k ∈ (s.queueDeadline l).deadlines := by
  unfold queueDeadline
  split
  · exact MinHeap.mem_push.mpr (Or.inr hk)
  · exact hk

theorem queueDeadline_mem {l : LiveRun} {d : Nat} (hd : l.nextDeadline = some d) :
    DeadlineKey.mk d l.token ∈ (s.queueDeadline l).deadlines := by
  unfold queueDeadline
  rw [hd]
  exact MinHeap.mem_push.mpr (Or.inl rfl)

theorem mem_requeue {tokens : List Nat} {k : DeadlineKey} (hk : k ∈ s.deadlines) :
    k ∈ (tokens.foldl requeueTouched s).deadlines := by
  induction tokens generalizing s with
  | nil => exact hk
  | cons token tokens ih =>
    refine ih ?_
    unfold requeueTouched
    split
    · exact mem_queueDeadline hk
    · exact hk

theorem requeue_mem {tokens : List Nat} {l : LiveRun} {d : Nat}
    (hn : (s.live.map LiveRun.token).Nodup) (hl : l ∈ s.live) (ht : l.token ∈ tokens)
    (hd : l.nextDeadline = some d) :
    DeadlineKey.mk d l.token ∈ (tokens.foldl requeueTouched s).deadlines := by
  induction tokens generalizing s with
  | nil => exact absurd ht List.not_mem_nil
  | cons token tokens ih =>
    rw [List.foldl_cons]
    have hcore : (requeueTouched s token).toCore = s.toCore :=
      (requeueTouched_keeps s [token]).1
    rcases List.mem_cons.mp ht with rfl | ht
    · refine mem_requeue ?_
      have hf : s.findRun l.token = some l := nodup_find? hn hl
      rw [requeueTouched, hf]
      exact queueDeadline_mem hd
    · exact ih (by rw [hcore]; exact hn) (by rw [hcore]; exact hl) ht

/-- Draining the touched runs leaves no one excused. -/
theorem Queued.drain (hn : (s.live.map LiveRun.token).Nodup)
    (hq : Queued s.live s.touched s.deadlines) :
    Queued s.drainTouchedTimers.live [] s.drainTouchedTimers.deadlines := by
  rw [drainTouchedTimers_toCore]
  intro l hl d hd
  right
  change _ ∈ (s.touched.foldl requeueTouched s).deadlines
  rcases hq l hl d hd with ht | hk
  · exact requeue_mem hn hl ht hd
  · exact mem_requeue hk

theorem validEntry_self {live : List LiveRun} (hn : (live.map LiveRun.token).Nodup) {l : LiveRun}
    (hl : l ∈ live) {d : Nat} (hd : l.nextDeadline = some d) :
    validEntry live (DeadlineKey.mk d l.token) = true := by
  rw [validEntry, DeadlineKey.token_mk, nodup_find? hn hl]
  simp [hd]

/-- Discarding stale tops keeps every deadline queued. -/
theorem Queued.peek (hn : (s.live.map LiveRun.token).Nodup) (hq : Queued s.live [] s.deadlines) :
    Queued s.live [] s.peekValidDeadline.2.deadlines := by
  intro l hl d hd
  right
  have hk := (hq l hl d hd).resolve_left List.not_mem_nil
  exact MinHeap.mem_prune hk (validEntry_self hn hl hd)

/-- The top that is left belongs to a live run. -/
theorem peek_live {k : DeadlineKey} (hp : s.peekValidDeadline.1 = some k) :
    ∃ l ∈ s.live, s.findRun k.token = some l ∧ l.token = k.token ∧
      l.nextDeadline = some k.deadline := by
  have hv := MinHeap.valid_of_peek_prune hp
  unfold validEntry at hv
  split at hv
  · next l hf =>
    exact ⟨l, List.mem_of_find?_eq_some hf, hf, findRun_token hf, by simpa using hv⟩
  · cases hv

/-- The top that is left is the least deadline of all live runs. -/
theorem peek_least (hn : (s.live.map LiveRun.token).Nodup) (hq : Queued s.live [] s.deadlines)
    {k : DeadlineKey} (hp : s.peekValidDeadline.1 = some k) {l : LiveRun} (hl : l ∈ s.live) {d : Nat}
    (hd : l.nextDeadline = some d) : k.deadline ≤ d := by
  have hk := (hq l hl d hd).resolve_left List.not_mem_nil
  exact DeadlineKey.deadline_le (MinHeap.peek_prune_le hp hk (validEntry_self hn hl hd))

/-- Nothing is left only when no live run has a deadline. -/
theorem peek_none (hn : (s.live.map LiveRun.token).Nodup) (hq : Queued s.live [] s.deadlines)
    (hp : s.peekValidDeadline.1 = none) {l : LiveRun} (hl : l ∈ s.live) : l.nextDeadline = none := by
  cases hd : l.nextDeadline with
  | none => rfl
  | some d =>
    have hk := (hq l hl d hd).resolve_left List.not_mem_nil
    have hv := MinHeap.peek_prune_none hp hk
    rw [validEntry_self hn hl hd] at hv
    cases hv

/-! ### The invariant -/

/-- Nobody is excused. -/
def Ready (s : Inst) : Prop := s.touched = [] ∧ Queued s.live [] s.deadlines

/-- The heap knows every parked run's deadline, wherever the loop stands. -/
def Complete (s : Inst) : Prop :=
  match s.pc with
  | .turned kind l _ =>
    Queued s.live s.touched s.deadlines ∧
      ∀ d, kind = .event (some d) → DeadlineKey.mk d l.token ∈ s.deadlines
  | .closing => True
  | .taint => True
  | .drain => True
  | .exiting => True
  | .gone => True
  | _ => Ready s

theorem Ready.of_still {u : Inst} (h : Ready s) (hst : Core.Still s.toCore u.toCore)
    (hd : u.deadlines = s.deadlines) : Ready u := by
  rw [Ready, hst.touched, hst.live, hd]
  exact h

theorem conclude_live (s : Inst) (l : LiveRun) (result : RunResult) (tainted : Bool) :
    (s.conclude l result tainted).live = s.live ∧
      (s.conclude l result tainted).touched = s.touched := by
  have h1 := Core.runTurn_still TurnM.quiet_closeStreams s.toCore l
  have h2 := Core.Still.finishJob ((s.runTurn l Core.closeStreams).2.toCore.cancelTerminate) l.job
    result tainted false
  exact ⟨h2.live.trans h1.live, h2.touched.trans h1.touched⟩

/-! ### Steps -/

theorem parkRun_queued {touched : List Nat} (hq : Queued s.live touched s.deadlines) (l : LiveRun) :
    Queued (s.parkRun l).live touched (s.parkRun l).deadlines := by
  refine (hq.mono fun k hk => ?_).park fun d hd => ?_
  · exact mem_queueDeadline hk
  · exact queueDeadline_mem hd

theorem leaveTurn_live (s : Inst) (l : LiveRun) :
    (s.leaveTurn l).2.live = s.live ∧ (s.leaveTurn l).2.touched = s.touched :=
  ⟨(Core.Still.now _).live, (Core.Still.now _).touched⟩

theorem leaveThenPark_queued (hq : Queued s.live s.touched s.deadlines) (l : LiveRun) :
    Queued ((s.leaveTurn l).2.parkRun (s.leaveTurn l).1).live
      ((s.leaveTurn l).2.parkRun (s.leaveTurn l).1).touched
      ((s.leaveTurn l).2.parkRun (s.leaveTurn l).1).deadlines := by
  have hq' : Queued (s.leaveTurn l).2.live s.touched (s.leaveTurn l).2.deadlines := by
    rw [(leaveTurn_live s l).1]
    exact hq
  have ht : ((s.leaveTurn l).2.parkRun (s.leaveTurn l).1).touched = s.touched :=
    (leaveTurn_live s l).2
  rw [ht]
  exact parkRun_queued hq' _

theorem suspend_queued {kind : TurnKind} {l : LiveRun} (hq : Queued s.live s.touched s.deadlines)
    (hk : ∀ d, kind = .event (some d) → DeadlineKey.mk d l.token ∈ s.deadlines) :
    Queued (s.suspend kind l).live (s.suspend kind l).touched (s.suspend kind l).deadlines := by
  cases kind with
  | start => exact parkRun_queued hq l
  | event queued =>
    unfold suspend
    dsimp only
    split
    · exact leaveThenPark_queued hq l
    · next heq =>
      -- The deadline did not move: the heap still holds it.
      have hq' : Queued (s.leaveTurn l).2.live (s.leaveTurn l).2.touched s.deadlines := by
        rw [(leaveTurn_live s l).1, (leaveTurn_live s l).2]
        exact hq
      refine hq'.park fun d hd => ?_
      rw [leaveTurn_token]
      have he : queued = some d := by
        rw [← hd]
        exact (not_not.mp heq).symm
      exact hk d (by rw [he])
  | swept cutoff next => exact leaveThenPark_queued hq l

theorem settleOwner_queued {kind : TurnKind} {l : LiveRun} {o : ScanOutcome} {tainted : Bool}
    (hq : Queued s.live s.touched s.deadlines)
    (hk : ∀ d, kind = .event (some d) → DeadlineKey.mk d l.token ∈ s.deadlines) :
    Queued (s.settleOwner kind l o tainted).live (s.settleOwner kind l o tainted).touched
      (s.settleOwner kind l o tainted).deadlines := by
  have hconclude : ∀ result tainted, Queued (s.conclude l result tainted).live
      (s.conclude l result tainted).touched (s.conclude l result tainted).deadlines := by
    intro result tainted
    rw [(conclude_live s l result tainted).1, (conclude_live s l result tainted).2]
    exact hq
  cases o with
  | finished result => exact hconclude _ _
  | «continue» =>
    unfold settleOwner
    dsimp only
    split
    · exact hconclude _ _
    · exact suspend_queued hq hk

theorem drain_ready (hn : (s.live.map LiveRun.token).Nodup)
    (hq : Queued s.live s.touched s.deadlines) : Ready s.drainTouchedTimers := by
  refine ⟨?_, Queued.drain hn hq⟩
  rw [drainTouchedTimers_toCore]

theorem instanceTainted_still (c : Core) : c.instanceTainted.2.live = c.live ∧
    c.instanceTainted.2.touched = c.touched := by
  unfold Core.instanceTainted
  split
  · exact ⟨rfl, rfl⟩
  · exact ⟨rfl, rfl⟩

theorem concludeTurn_complete {kind : TurnKind} {l : LiveRun} {o : ScanOutcome}
    (hq : Queued s.live s.touched s.deadlines)
    (hk : ∀ d, kind = .event (some d) → DeadlineKey.mk d l.token ∈ s.deadlines)
    (hn : ((s.concludeTurn kind l o).live.map LiveRun.token).Nodup) :
    Complete (s.concludeTurn kind l o) := by
  unfold concludeTurn at hn ⊢
  split
  · trivial
  · next htainted =>
    rw [if_neg htainted] at hn
    have hq' : Queued (s.withCore s.instanceTainted.2).live (s.withCore s.instanceTainted.2).touched
        (s.withCore s.instanceTainted.2).deadlines := by
      change Queued s.instanceTainted.2.live s.instanceTainted.2.touched s.deadlines
      rw [(instanceTainted_still s.toCore).1, (instanceTainted_still s.toCore).2]
      exact hq
    have hready := drain_ready (s := (s.withCore s.instanceTainted.2).settleOwner kind l o false)
      (by
        have hn' := hn
        change ((drainTouchedTimers _).live.map LiveRun.token).Nodup at hn'
        rw [drainTouchedTimers_toCore] at hn'
        exact hn')
      (settleOwner_queued hq' hk)
    cases kind with
    | start => exact hready
    | event queued => exact hready
    | swept cutoff next => exact hready

/-- Runs other than `l` have their deadline queued. -/
def OthersQueued (s : Inst) (l : LiveRun) : Prop :=
  s.touched = [] ∧ ∀ r ∈ s.live, r.token ≠ l.token → ∀ d, r.nextDeadline = some d →
    DeadlineKey.mk d r.token ∈ s.deadlines

theorem Ready.others (h : Ready s) (l : LiveRun) : OthersQueued s l :=
  ⟨h.1, fun r hr _ d hd => (h.2 r hr d hd).resolve_left List.not_mem_nil⟩

theorem OthersQueued.of_still {u : Inst} {l : LiveRun} (h : OthersQueued s l)
    (hst : Core.Still s.toCore u.toCore) (hd : u.deadlines = s.deadlines) : OthersQueued u l := by
  rw [OthersQueued, hst.touched, hst.live, hd]
  exact h

/-- Popping an entry of `l` leaves the entries of the others. -/
theorem OthersQueued.pop {l : LiveRun} {k : DeadlineKey} (h : OthersQueued s l)
    (hp : s.deadlines.peek = some k) (hk : k.token = l.token) :
    OthersQueued { s with deadlines := s.deadlines.pop } l := by
  refine ⟨h.1, fun r hr hne d hd => MinHeap.mem_pop hp (h.2 r hr hne d hd) ?_⟩
  rintro rfl
  exact hne hk

/-- A run is taken in hand. -/
theorem OthersQueued.take {l : LiveRun} (h : OthersQueued s l)
    (hn : (s.live.map LiveRun.token).Nodup) (hl : l ∈ s.live) (wokeAt : Nat) :
    Queued (s.beginTurn l wokeAt).2.live (s.beginTurn l wokeAt).2.touched
      (s.beginTurn l wokeAt).2.deadlines ∧ (s.beginTurn l wokeAt).2.touched = [] := by
  have hst := Core.Still.now (s.takeRun l.token)
  have htouched : (s.beginTurn l wokeAt).2.touched = [] := hst.touched.trans h.1
  refine ⟨?_, htouched⟩
  rw [htouched, show (s.beginTurn l wokeAt).2.live = (s.takeRun l.token).live from hst.live]
  intro r hr d hd
  obtain ⟨hr, hne⟩ := mem_eraseP_token hn hl hr
  exact Or.inr (h.2 r hr hne d hd)

/-- What turn code does to parked runs keeps them queued or touches them. -/
theorem runFor_queued {α : Type} (hq : Queued s.live s.touched s.deadlines) (l : LiveRun)
    (p : TurnM α) :
    Queued (s.runFor l p).2.2.live (s.runFor l p).2.2.touched (s.runFor l p).2.2.deadlines := by
  have hf := Core.runTurn_frame s.toCore l p
  exact hq.rides hf.touched.subset hf.live

theorem runTurnOf_queued (hq : Queued s.live s.touched s.deadlines) (l : LiveRun)
    (p : TurnM ScanOutcome) :
    Queued (s.runTurnOf l p).2.2.live (s.runTurnOf l p).2.2.touched
      (s.runTurnOf l p).2.2.deadlines :=
  runFor_queued (s := s.withCore (s.note (.turn l.token l.rs.phase l.rs.counted))) hq l p

/-- A turn of a run in hand. -/
theorem takeTurn_complete {kind : TurnKind} {l : LiveRun} {p : TurnM ScanOutcome}
    (hq : Queued s.live s.touched s.deadlines)
    (hk : ∀ d, kind = .event (some d) → DeadlineKey.mk d l.token ∈ s.deadlines) :
    Complete (s.takeTurn kind l p) := by
  refine ⟨runTurnOf_queued hq l p, fun d hd => ?_⟩
  rw [runTurnOf_token]
  exact hk d hd

theorem sweepTurn_complete {cutoff due : Nat} {next : After} {l : LiveRun} {p : TurnM ScanOutcome}
    (h : OthersQueued s l) (hn : (s.live.map LiveRun.token).Nodup) (hl : l ∈ s.live) :
    Complete (s.sweepTurn cutoff next due l p) := by
  have hst := OthersQueued.of_still (u := s.withCore (s.note (.acted l.token due))) h
    (Core.Still.note _ _) rfl
  refine takeTurn_complete (hst.take hn hl due).1 ?_
  intro d hd
  cases hd

/-- Bookkeeping on a run in hand leaves the others ready. -/
theorem bookkeeping_ready {α : Type} {l : LiveRun} {p : TurnM α} {w d : Nat}
    (hp : p.Uses Op.Quiet) (h : OthersQueued s l) (hn : (s.live.map LiveRun.token).Nodup)
    (hl : l ∈ s.live) :
    Ready ((s.actOn l w d).2.runFor (s.actOn l w d).1 p).2.2 := by
  have hst := OthersQueued.of_still (u := s.withCore (s.note (.acted l.token d))) h
    (Core.Still.note _ _) rfl
  obtain ⟨hq, ht⟩ := hst.take hn hl w
  have hready : Ready (s.actOn l w d).2 := ⟨ht, ht ▸ hq⟩
  exact hready.of_still (Core.runTurn_still hp _ _) rfl

theorem conclude_ready {l : LiveRun} {result : RunResult} {tainted : Bool} (h : Ready s) :
    Ready (s.conclude l result tainted) := by
  rw [Ready, (conclude_live s l result tainted).1, (conclude_live s l result tainted).2]
  exact h

theorem leaveThenPark_ready (h : Ready s) (l : LiveRun) :
    Ready ((s.leaveTurn l).2.parkRun (s.leaveTurn l).1) := by
  have hq := leaveThenPark_queued (s := s) (by rw [h.1]; exact h.2) l
  have ht : ((s.leaveTurn l).2.parkRun (s.leaveTurn l).1).touched = [] :=
    (leaveTurn_live s l).2.trans h.1
  rw [ht] at hq
  exact ⟨ht, hq⟩

theorem sweepWall_pc (s : Inst) (surfaced due : Nat) (l : LiveRun) :
    (s.sweepWall surfaced due l).pc = s.pc := by
  unfold sweepWall
  dsimp only
  split
  · rfl
  · exact parkRun_pc _ _

theorem sweepWall_ready {surfaced due : Nat} {l : LiveRun} (h : OthersQueued s l)
    (hn : (s.live.map LiveRun.token).Nodup) (hl : l ∈ s.live) :
    Ready (s.sweepWall surfaced due l) := by
  have hready := bookkeeping_ready (w := surfaced) (d := due) TurnM.quiet_concludeGraceWall
    h hn hl
  unfold sweepWall
  dsimp only
  split
  · exact conclude_ready hready
  · exact leaveThenPark_ready hready _

theorem sweepBoundary_ready {due : Nat} {l : LiveRun} (h : OthersQueued s l)
    (hn : (s.live.map LiveRun.token).Nodup) (hl : l ∈ s.live) : Ready (s.sweepBoundary due l) :=
  conclude_ready (bookkeeping_ready TurnM.quiet_boundaryDeadline h hn hl)

/-- Re-queueing the run in hand completes the heap. -/
theorem queueDeadline_ready {l : LiveRun} (h : OthersQueued s l)
    (hn : (s.live.map LiveRun.token).Nodup) (hl : l ∈ s.live) : Ready (s.queueDeadline l) := by
  rw [Ready, queueDeadline_toCore]
  refine ⟨h.1, fun r hr d hd => Or.inr ?_⟩
  by_cases hne : r.token = l.token
  · have hrl : r = l := by
      have hf := nodup_find? hn hr
      rw [hne, nodup_find? hn hl] at hf
      exact (Option.some.inj hf).symm
    subst hrl
    exact queueDeadline_mem hd
  · exact mem_queueDeadline (h.2 r hr hne d hd)

theorem Ready.complete (h : Ready s) (hpc : ∀ kind l o, s.pc ≠ .turned kind l o) : Complete s := by
  unfold Complete
  split
  · next hp => exact absurd hp (hpc _ _ _)
  all_goals trivial

theorem Ready.complete_sweep {cutoff : Nat} {next : After} (h : Ready s)
    (hpc : s.pc = .sweep cutoff next) : Complete s :=
  h.complete fun kind l o => by rw [hpc]; exact Pc.noConfusion

theorem sweepGrace_complete {cutoff surfaced : Nat} {next : After} {l : LiveRun}
    (hpc : s.pc = .sweep cutoff next) (h : OthersQueued s l)
    (hn : (s.live.map LiveRun.token).Nodup) (hl : l ∈ s.live) :
    Complete (s.sweepGrace cutoff next surfaced l) := by
  have hst := Core.Still.now s.toCore
  have h' : OthersQueued (s.withCore s.now.2) l := h.of_still hst rfl
  have hn' : ((s.withCore s.now.2).live.map LiveRun.token).Nodup := hst.live ▸ hn
  have hl' : l ∈ (s.withCore s.now.2).live := hst.live ▸ hl
  unfold sweepGrace
  dsimp only
  split
  · exact sweepTurn_complete h' hn' hl'
  · split
    · exact (sweepWall_ready h' hn' hl').complete_sweep ((sweepWall_pc _ _ _ _).trans hpc)
    · exact (queueDeadline_ready h' hn' hl').complete_sweep ((queueDeadline_pc _ _).trans hpc)

theorem sweepRun_complete {cutoff due : Nat} {next : After} {l : LiveRun}
    (hpc : s.pc = .sweep cutoff next) (h : OthersQueued s l)
    (hn : (s.live.map LiveRun.token).Nodup) (hl : l ∈ s.live) :
    Complete (s.sweepRun cutoff next due l) := by
  unfold sweepRun
  split
  · exact sweepTurn_complete h hn hl
  · split
    · exact sweepGrace_complete hpc h hn hl
    · exact (sweepBoundary_ready h hn hl).complete_sweep hpc

/-- What a sweep makes way for keeps the heap. -/
theorem Ready.complete_after {next : After} (h : Ready s) : Complete (s.goto next.pc) := by
  cases next with
  | top => exact h
  | dispatch j => exact h
  | deliver token msg stamp => exact h

theorem Ready.peek (h : Ready s) (hn : (s.live.map LiveRun.token).Nodup) :
    Ready s.peekValidDeadline.2 := ⟨h.1, Queued.peek hn h.2⟩

theorem sweepPass_complete {cutoff : Nat} {next : After} (hpc : s.pc = .sweep cutoff next)
    (h : Ready s) (hn : (s.live.map LiveRun.token).Nodup) : Complete (s.sweepPass cutoff next) := by
  have hpeek := h.peek hn
  unfold sweepPass
  dsimp only
  split
  · exact hpeek.complete_after
  · next k hk =>
    split
    · exact hpeek.complete_after
    · obtain ⟨l, hl, hfind, htok, -⟩ := peek_live hk
      rw [show s.peekValidDeadline.2.findRun k.token = some l from hfind]
      exact sweepRun_complete hpc ((hpeek.others l).pop hk htok.symm) hn hl

theorem beginStart_live (s : Inst) (j : CallJob) :
    (s.beginStart j).2.live = s.live ∧ (s.beginStart j).2.touched = s.touched := by
  unfold beginStart
  dsimp only
  split
  · have hnow := Core.Still.now (s.noteTurnOwner j).resetReason
    exact ⟨hnow.live, hnow.touched⟩
  · have hnow := Core.Still.now (s.noteTurnOwner j).toCore
    exact ⟨hnow.live, hnow.touched⟩

theorem dispatchJob_complete {j : CallJob} (h : Ready s) : Complete (s.dispatchJob j) := by
  have hq : Queued (s.beginStart j).2.live (s.beginStart j).2.touched s.deadlines := by
    rw [(beginStart_live s j).1, (beginStart_live s j).2, h.1]
    exact h.2
  have hr := runTurnOf_queued (s := (s.beginStart j).2) hq (s.beginStart j).1 placeholdersThenCall
  have hl := leaveTurn_live
    ((s.beginStart j).2.runTurnOf (s.beginStart j).1 placeholdersThenCall).2.2
    ((s.beginStart j).2.runTurnOf (s.beginStart j).1 placeholdersThenCall).2.1
  refine ⟨?_, fun d hd => ?_⟩
  · rw [show (s.dispatchJob j).live = _ from hl.1, show (s.dispatchJob j).touched = _ from hl.2]
    exact hr
  · cases hd

theorem deliverEvent_complete {token stamp : Nat} {msg : Inbound} (h : Ready s)
    (hn : (s.live.map LiveRun.token).Nodup) : Complete (s.deliverEvent token msg stamp) := by
  unfold deliverEvent
  split
  · exact h
  · next l hfind =>
    have hl : l ∈ s.live := List.mem_of_find?_eq_some hfind
    have hst : OthersQueued (s.withCore (s.note (.delivered token stamp l.nextDeadline))) l :=
      (h.others l).of_still (Core.Still.note _ _) rfl
    refine takeTurn_complete (hst.take hn hl stamp).1 ?_
    intro d hd
    rw [beginTurn_token]
    exact (h.2 l hl d (TurnKind.event.inj hd)).resolve_left List.not_mem_nil

theorem receive_complete {e : RoutedEvent} (hpc : s.pc = .wait) (h : Ready s) :
    Complete (s.receive e) := by
  unfold receive
  split
  · exact Ready.complete h fun kind l o => by
      change s.pc ≠ _
      rw [hpc]
      exact Pc.noConfusion
  · exact h
  · exact h

theorem waitStep_complete (hpc : s.pc = .wait) (h : Ready s)
    (hn : (s.live.map LiveRun.token).Nodup) : Complete s.waitStep := by
  unfold waitStep
  dsimp only
  split
  · trivial
  · have hnow : Core.Still s.toCore s.peekValidDeadline.2.now.2.now.2 :=
      (Core.Still.now s.toCore).trans (Core.Still.now _)
    generalize hs : s.peekValidDeadline.2.withCore s.peekValidDeadline.2.now.2.now.2 = s₁
    have hready : Ready s₁ := by
      rw [← hs]
      exact (h.peek hn).of_still hnow rfl
    have hpc₁ : s₁.pc = .wait := by
      rw [← hs]
      exact hpc
    have hwait : Complete s₁ := by
      rw [Complete, hpc₁]
      exact hready
    unfold wake
    split
    · exact receive_complete hpc₁ (hready.of_still ⟨rfl, rfl, rfl, rfl, rfl, rfl, rfl⟩ rfl)
    · split
      · trivial
      · split
        · exact hwait
        · split
          · exact hready.of_still (u := s₁.timedOut) (Core.Still.now _) rfl
          · exact hwait

theorem bootStep_complete (hpc : s.pc = .boot) (h : Ready s) : Complete s.bootStep := by
  have hnow : Ready (s.withCore s.now.2) := h.of_still (Core.Still.now _) rfl
  have hrest : ∀ rest, Ready ((s.withCore s.now.2).withCore
      { (s.withCore s.now.2).toCore with queue := rest }) := fun rest => hnow
  have hboot : ∀ c, Ready (s.withCore c) → Complete (s.withCore c) := by
    intro c hc
    refine hc.complete fun kind l o => ?_
    change s.pc ≠ _
    rw [hpc]
    exact Pc.noConfusion
  unfold bootStep
  dsimp only
  split
  · split
    · trivial
    · exact hboot _ hnow
  · split
    · exact hrest _
    · trivial
    · exact hboot _ (hrest _)

theorem createStep_complete {j : CallJob} (h : Ready s) : Complete (s.createStep j) := by
  unfold createStep
  split
  · exact h
  · exact Ready.of_still (u := goto (s.withCore _) _) h (Core.Still.finishJob _ _ _ _ _) rfl

theorem brokenStep_complete {e : RunError} (hpc : s.pc = .broken e) (h : Ready s) :
    Complete (s.brokenStep e) := by
  have hnow : Ready (s.withCore s.now.2) := h.of_still (Core.Still.now _) rfl
  have hbroken : ∀ c, Ready (s.withCore c) → Complete (s.withCore c) := by
    intro c hc
    refine hc.complete fun kind l o => ?_
    change s.pc ≠ _
    rw [hpc]
    exact Pc.noConfusion
  unfold brokenStep
  dsimp only
  split
  · split
    · trivial
    · exact hbroken _ hnow
  · next rest _ =>
    have hrest : Ready ((s.withCore s.now.2).withCore
        { (s.withCore s.now.2).toCore with queue := rest }) := hnow
    split
    · exact hbroken _ (hrest.of_still (Core.Still.finishJob _ _ _ _ _) rfl)
    · exact hbroken _ hrest

/-- Once the loop is over nothing is asked of the heap. -/
theorem complete_over (h : s.pc = .closing ∨ s.pc = .taint ∨ s.pc = .drain ∨ s.pc = .gone) :
    Complete s := by
  rcases h with h | h | h | h <;> rw [Complete, h] <;> trivial

theorem closeStep_complete (hpc : s.pc = .closing) : Complete s.closeStep := by
  unfold closeStep
  split
  · trivial
  · exact complete_over (Or.inl hpc)

theorem taintStep_complete (hpc : s.pc = .taint) : Complete s.taintStep := by
  unfold taintStep
  split
  · trivial
  · exact complete_over (Or.inr (Or.inl hpc))

theorem drainStep_complete (hpc : s.pc = .drain) : Complete s.drainStep := by
  unfold drainStep
  split
  · trivial
  · dsimp only
    split
    · exact complete_over (Or.inr (Or.inr (Or.inl hpc)))
    · exact complete_over (Or.inr (Or.inr (Or.inl hpc)))

/-! ### Every run -/

theorem advance_complete (hc : Conserved s) (h : Complete s) : Complete s.advance := by
  have hn := hc.live_nodup
  have hn' := (hc.step (advance_stepMoves s)).live_nodup
  unfold Complete at h
  unfold advance at hn' ⊢
  split
  · next hpc =>
    rw [hpc] at h
    exact bootStep_complete hpc h
  · next hpc =>
    rw [hpc] at h
    exact createStep_complete h
  · next hpc =>
    rw [hpc] at h
    exact brokenStep_complete hpc h
  · next hpc =>
    rw [hpc] at h
    exact waitStep_complete hpc h hn
  · next hpc =>
    rw [hpc] at h
    exact sweepPass_complete hpc h hn
  · next hpc =>
    rw [hpc] at h
    exact dispatchJob_complete h
  · next hpc =>
    rw [hpc] at h
    exact deliverEvent_complete h hn
  · next hpc =>
    rw [hpc] at h hn'
    exact concludeTurn_complete h.1 h.2 hn'
  · next hpc => exact closeStep_complete hpc
  · next hpc => exact taintStep_complete hpc
  · next hpc => exact drainStep_complete hpc
  · trivial
  · next hpc => exact complete_over (Or.inr (Or.inr (Or.inr hpc)))

/-- What the heap invariants say of an instance. -/
structure Booked (s : Inst) : Prop where
  conserved : Conserved s
  complete : Complete s

theorem Booked.load (h : Booked s) (script : Script) : Booked (s.load script) :=
  ⟨⟨h.conserved.places, h.conserved.nodup⟩, h.complete⟩

theorem Booked.advance (h : Booked s) : Booked s.advance :=
  ⟨h.conserved.step (advance_stepMoves s), advance_complete h.conserved h.complete⟩

theorem Booked.step (h : Booked s) (script : Script) : Booked (s.step script) :=
  (h.load script).advance

theorem Booked.new (clock : Nat) : Booked (Inst.new clock) :=
  ⟨new_conserved clock, rfl, fun _ hl => absurd hl List.not_mem_nil⟩

theorem booked_exec (clock : Nat) (scripts : List Script) :
    Booked (exec step (Inst.new clock) scripts) :=
  exec_invariant (fun _ script h => h.step script) (Booked.new clock) scripts

/-- At every wait the deadline heap holds the next deadline of every live run;
what the loop sleeps to is the least of them, and it sleeps without a timeout
only when there is none. -/
theorem deadline_heap_complete (clock : Nat) (scripts : List Script) :
    let s := exec step (Inst.new clock) scripts
    s.pc = .wait →
      (∀ l ∈ s.live, ∀ d, l.nextDeadline = some d → DeadlineKey.mk d l.token ∈ s.deadlines) ∧
      (∀ k, s.peekValidDeadline.1 = some k →
        (∃ l ∈ s.live, l.token = k.token ∧ l.nextDeadline = some k.deadline) ∧
        ∀ l ∈ s.live, ∀ d, l.nextDeadline = some d → k.deadline ≤ d) ∧
      (s.peekValidDeadline.1 = none → ∀ l ∈ s.live, l.nextDeadline = none) := by
  intro s hpc
  obtain ⟨hc, h⟩ := booked_exec clock scripts
  unfold Complete at h
  rw [hpc] at h
  have hn := hc.live_nodup
  refine ⟨?_, ?_, ?_⟩
  · intro l hl d hd
    exact (h.2 l hl d hd).resolve_left List.not_mem_nil
  · intro k hk
    obtain ⟨l, hl, -, htok, hd⟩ := peek_live hk
    exact ⟨⟨l, hl, htok, hd⟩, fun r hr d hd => peek_least hn h.2 hk hr hd⟩
  · intro hp l hl
    exact peek_none hn h.2 hp hl

/-! ### An instance with one parked run -/

/-- A call of a warm instance with a wall limit and no other. -/
def timedJob (token wallTimeMs : Nat) : CallJob where
  token := token
  limits := ⟨wallTimeMs, 0, 0, 0⟩
  entry := .prefixExport
  call := true
  epilogue := some token
  link := true

/-- Nothing happens but these arrivals and this passing of time. -/
def waiting (ps : List Passing) : Script := { Script.silent with clocks := [ps] }

/-- Nothing happens but these stretches of guest JS. -/
def running (slices : List Slice) : Script := { Script.silent with slices := slices }

/-- The slices of a start turn whose call returns a promise in state `st`. -/
def callReturns (st : PromiseState) : List Slice :=
  [Slice.idle, Slice.idle, Slice.idle, Slice.idle, { Slice.idle with completion := .promise st }]

/-- A first job is served up to its suspension. -/
def startsWith (j : CallJob) : List Script :=
  [waiting [.arrive j.token (.job j) 0], Script.silent, running (callReturns .pending),
    Script.silent]

/-- The loop sleeps to the wall boundary of a suspended run. -/
theorem deadline_heap_complete_parked :
    ∃ l ∈ (exec step (Inst.new 0) (startsWith (timedJob 1 5))).live,
      l.token = 1 ∧ l.nextDeadline = some (fromMillis 5) :=
  ((deadline_heap_complete 0 (startsWith (timedJob 1 5)) rfl).2.1
    (DeadlineKey.mk (fromMillis 5) 1) (by decide)).1

end Inst

end Iso4
