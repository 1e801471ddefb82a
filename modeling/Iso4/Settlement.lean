/-
No lost settlement between co-resident runs.

Only the owner of a turn is scanned after it.  A parked run is `Awaiting` when
what it waits for has not happened yet: its root promise is pending and no
bridge error is recorded, or in its post-Result phase a registered promise is
pending or an outbound stream open.

* `Inst.no_lost_settlement` — as long as no turn settles a promise of another
  live run, every live run is `Awaiting` at every wait and at every pass of the
  deadline sweep;
* `Inst.settlement_lost` — a turn that does leaves the settled run parked, and
  it fails with `WallTimeout`.
-/
import Iso4.Deadlines
import Iso4.TurnCode

namespace Iso4

open Program Execution

/-- What the run waits for has not happened yet. -/
def LiveRun.Awaiting (l : LiveRun) : Prop :=
  match l.rs.phase with
  | .starting => False
  | .settling root _ _ => root = .pending ∧ l.rs.bridgeError = none
  | .grace _ => .pending ∈ l.rs.entry.waits ∨ l.outStreamsOpen = true

/-- Outside the post-Result phase no bridge error is recorded. -/
def LiveRun.Clean (l : LiveRun) : Prop := l.rs.phase.isGrace = false → l.rs.bridgeError = none

theorem LiveRun.Awaiting.clean {l : LiveRun} (h : l.Awaiting) : l.Clean := by
  intro hg
  unfold Awaiting at h
  cases hp : l.rs.phase with
  | starting =>
    rw [hp] at h
    exact h.elim
  | settling root cp ric =>
    rw [hp] at h
    exact h.2
  | grace g =>
    rw [hp] at hg
    cases hg

/-! ### The owner of a turn is scanned -/

def GuestAct.settlesWait : GuestAct → Bool
  | .settleWait _ _ _ => true
  | _ => false

/-- No getter run while a rejection is read settles a registered promise. -/
def Script.GettersHold (sc : Script) : Prop :=
  ∀ sl ∈ sc.getters, ∀ a ∈ sl.acts, a.settlesWait = false

theorem Script.GettersHold.rest {sc sc' : Script} (h : GettersHold sc) (hr : Script.Rest sc sc') :
    GettersHold sc' := fun sl hsl => h sl (hr.getters.subset hsl)

/-- While a drain has the registrations, only settling them changes them. -/
theorem RunState.Change.waits {a : GuestAct} {rs rs' : RunState} (h : Change a rs rs')
    (ha : a.settlesWait = false) (hw : rs.entry.waitArmed = false) :
    rs'.entry.waits = rs.entry.waits ∧ rs'.entry.waitArmed = false := by
  cases h with
  | root =>
    unfold Turn.settleRoot
    split <;> exact ⟨rfl, hw⟩
  | wait => cases ha
  | register => simp [Turn.registerWait, RunState.onEntry, hw]
  | _ => exact ⟨rfl, hw⟩

namespace Turn

theorem gettersHold_handle (γ : Type) (o : Op γ) (t : Turn) (h : t.script.GettersHold) :
    (Turn.handle γ o t).2.script.GettersHold := h.rest (spends_handle γ o t)

theorem waits_actAll {acts : List GuestAct} (t : Turn) (ha : ∀ a ∈ acts, a.settlesWait = false)
    (hw : t.owner.rs.entry.waitArmed = false) :
    (t.actAll acts).owner.rs.entry.waits = t.owner.rs.entry.waits ∧
      (t.actAll acts).owner.rs.entry.waitArmed = false := by
  induction acts generalizing t with
  | nil => exact ⟨rfl, hw⟩
  | cons a acts ih =>
    rw [Turn.actAll]
    split
    · exact ⟨rfl, hw⟩
    · have hact : (t.act a).owner.rs.entry.waits = t.owner.rs.entry.waits ∧
          (t.act a).owner.rs.entry.waitArmed = false := by
        rcases (act_runs t a).owner with h | h
        · rw [h]
          exact ⟨rfl, hw⟩
        · exact h.waits (ha a List.mem_cons_self) hw
      obtain ⟨h1, h2⟩ := ih (t.act a) (fun b hb => ha b (List.mem_cons_of_mem _ hb)) hact.2
      exact ⟨h1.trans hact.1, h2⟩

/-- The acts of the next getter are the script's. -/
theorem getter_acts {sc : Script} (h : sc.GettersHold) :
    ∀ a ∈ (sc.getters.head?.getD Slice.idle).acts, a.settlesWait = false := by
  intro a ha
  cases hg : sc.getters with
  | nil =>
    rw [hg] at ha
    exact absurd ha List.not_mem_nil
  | cons sl rest =>
    rw [hg] at ha
    exact h sl (hg ▸ List.mem_cons_self) a ha

/-- A drain holds the registered promises `waits`. -/
structure Draining (waits : List PromiseState) (t : Turn) : Prop where
  getters : t.script.GettersHold
  grace : t.owner.rs.phase.isGrace = true
  armed : t.owner.rs.entry.waitArmed = false
  waits : t.owner.rs.entry.waits = waits

theorem Draining.read {waits : List PromiseState} {t : Turn} (h : Draining waits t) :
    Draining waits t.read.2 := by
  have hw := waits_actAll (t.onCore Core.popGetter) (getter_acts h.getters) h.armed
  exact
    { getters := gettersHold_handle _ .read t h.getters
      grace := (acts_handle _ .read t trivial).isGrace.trans h.grace
      armed := hw.2
      waits := hw.1.trans h.waits }

/-- The post-Result phase under turn code that does not leave it. -/
structure InGrace (t : Turn) : Prop where
  getters : t.script.GettersHold
  grace : t.owner.rs.phase.isGrace = true

theorem InGrace.plain {α : Type} {p : TurnM α} (hp : p.Uses Op.Plain) :
    p.Ensures handle InGrace fun _ => InGrace :=
  hp.run_rel (R := fun t t' => InGrace t → InGrace t') (fun _ => id) (fun h h' => h' ∘ h)
    fun γ o t ho h => ⟨gettersHold_handle γ o t h.getters,
      (acts_handle γ o t ho).isGrace.trans h.grace⟩

end Turn

namespace TurnM

open Prog Turn

/-- The outcome is never `Continue`. -/
def Finishes (p : TurnM ScanOutcome) : Prop :=
  p.Ensures handle (fun _ => True) fun o _ => o ≠ .continue

theorem finishes_bind {α : Type} {p : TurnM α} {f : α → TurnM ScanOutcome}
    (hf : ∀ a, Finishes (f a)) : Finishes (p >>= f) :=
  Ensures.bind (M := fun _ _ => True) (fun _ _ => trivial) hf

theorem finishes_fail (e : RunError) : Finishes (fail e) := fun _ _ h => ScanOutcome.noConfusion h

theorem finishes_failOr (e : RunError) : Finishes (failOr e) := finishes_bind fun _ => finishes_fail _

theorem finishes_failReason : Finishes failReason := finishes_bind fun _ => finishes_fail _

theorem finishes_endPhase : Finishes endPhase :=
  finishes_bind fun _ _ _ h => ScanOutcome.noConfusion h

theorem finishes_finishKilledGrace : Finishes finishKilledGrace := by
  refine finishes_bind fun r => ?_
  split
  · exact finishes_bind fun _ => finishes_endPhase
  · exact finishes_endPhase

/-- A turn that leaves its run in flight leaves it awaiting something. -/
def Scans (p : TurnM ScanOutcome) : Prop :=
  p.Ensures handle (fun t => t.script.GettersHold) fun o t => o = .continue → t.owner.Awaiting

theorem Finishes.ensures {p : TurnM ScanOutcome} (h : Finishes p) {P : Turn → Prop} :
    p.Ensures handle P fun o t => o = .continue → t.owner.Awaiting :=
  fun t _ hc => absurd hc (h t trivial)

theorem Finishes.scans {p : TurnM ScanOutcome} (h : Finishes p) : Scans p := h.ensures

/-- Whatever comes first, the scan at the end decides. -/
theorem scans_bind {α : Type} {p : TurnM α} {f : α → TurnM ScanOutcome}
    (hf : ∀ a, Scans (f a)) : Scans (p >>= f) := Ensures.tail gettersHold_handle hf

/-- The promises a drain finds pending are. -/
theorem drainWaits_pending {waits : List PromiseState} (n i : Nat) (still : List Nat)
    (e : Option (String × String)) (hs : ∀ j ∈ still, waits[j]? = some .pending) :
    (drainWaits n i still e).Ensures handle (Draining waits) fun r t =>
      Draining waits t ∧ ∀ j ∈ r.1, waits[j]? = some .pending := by
  induction n generalizing i still e with
  | zero => exact fun t ht => ⟨ht, hs⟩
  | succ n ih =>
    refine Ensures.bind (M := fun l t => Draining waits t ∧ l = t.owner) (fun t ht => ⟨ht, rfl⟩) ?_
    rintro l t ⟨ht, rfl⟩
    rw [ht.waits]
    split
    · next hp =>
      refine ih (i + 1) _ _ ?_ t ht
      intro j hj
      rcases List.mem_append.mp hj with hj | hj
      · exact hs j hj
      · rw [List.mem_singleton.mp hj]
        exact hp
    · rw [run_bind]
      exact ih (i + 1) _ _ hs _ ht.read
    · exact ih (i + 1) _ _ hs t ht

/-- The waitUntil part is decided, or a registered promise is pending. -/
structure Drained (t : Turn) : Prop where
  grace : t.owner.rs.phase.isGrace = true
  waits : graceDecided t.owner = true ∨ .pending ∈ t.owner.rs.entry.waits

theorem graceDecided_status {t : Turn} (hg : t.owner.rs.phase.isGrace = true) (st : GraceStatus) :
    Drained (Turn.handle _ (.graceStatus st) t).2 := by
  obtain ⟨g, hp⟩ := RunPhase.isGrace_iff.mp hg
  refine ⟨?_, Or.inl ?_⟩
  · change (t.onGrace _).owner.rs.phase.isGrace = true
    rw [onGrace_phase hp]
    rfl
  · change graceDecided (t.onGrace _).owner = true
    rw [graceDecided, onGrace_phase hp]
    rfl

/-- Recording the first error keeps phase and registrations. -/
theorem graceError_inGrace {t : Turn} (h : InGrace t) (e : String × String) :
    InGrace (Turn.handle _ (.graceError e) t).2 ∧
      (Turn.handle _ (.graceError e) t).2.owner.rs.entry = t.owner.rs.entry := by
  obtain ⟨g, hp⟩ := RunPhase.isGrace_iff.mp h.grace
  refine ⟨⟨gettersHold_handle _ (.graceError e) t h.getters, ?_⟩, ?_⟩
  · change (t.onGrace _).owner.rs.phase.isGrace = true
    rw [onGrace_phase hp]
    rfl
  · exact onGrace_entry t _

theorem recordRejection_inGrace (e : Option (String × String)) (waits : List PromiseState) :
    (recordRejection e).Ensures handle (fun t => InGrace t ∧ t.owner.rs.entry.waits = waits)
      fun _ t => InGrace t ∧ t.owner.rs.entry.waits = waits := by
  rintro t ⟨ht, hw⟩
  cases e with
  | none => exact ⟨ht, hw⟩
  | some e =>
    obtain ⟨hg, he⟩ := graceError_inGrace ht e
    exact ⟨hg, by rw [← hw, ← he]; rfl⟩

theorem decideWaits_drained {still : List Nat} {waits : List PromiseState}
    (hw : still.isEmpty = false → .pending ∈ waits) :
    (decideWaits still).Ensures handle (fun t => InGrace t ∧ t.owner.rs.entry.waits = waits)
      fun _ => Drained := by
  refine Ensures.ite (fun hs => ?_) fun hs => ?_
  · rintro t ⟨ht, -⟩
    obtain ⟨g, hp⟩ := RunPhase.isGrace_iff.mp ht.grace
    have hself : Prog.run handle (perform .self) t = (t.owner, t) := rfl
    rw [run_bind, hself]
    dsimp only
    rw [hp]
    exact graceDecided_status ht.grace _
  · refine Ensures.bind (M := fun _ t => InGrace t ∧ t.owner.rs.entry.waits = waits) ?_ fun now => ?_
    · rintro t ⟨ht, he⟩
      exact ⟨⟨gettersHold_handle _ .now t ht.getters, ht.grace⟩, he⟩
    · rintro t ⟨ht, he⟩
      have hdrained : Drained t := ⟨ht.grace, Or.inr (he ▸ hw (by simpa using hs))⟩
      obtain ⟨g, hp⟩ := RunPhase.isGrace_iff.mp ht.grace
      have hself : Prog.run handle (perform .self) t = (t.owner, t) := rfl
      rw [run_bind, hself]
      dsimp only
      rw [hp]
      dsimp only
      split
      · exact graceDecided_status ht.grace _
      · exact hdrained

theorem pending_mem_filterMap {waits : List PromiseState} {still : List Nat}
    (hp : ∀ j ∈ still, waits[j]? = some .pending) (hs : still.isEmpty = false) :
    .pending ∈ still.filterMap fun i => waits[i]? := by
  cases still with
  | nil => cases hs
  | cons j still =>
    exact List.mem_filterMap.mpr ⟨j, List.mem_cons_self, hp j List.mem_cons_self⟩

theorem concludeDrain_drained {waits : List PromiseState} {still : List Nat}
    (e : Option (String × String)) (hp : ∀ j ∈ still, waits[j]? = some .pending) :
    (concludeDrain still e).Ensures handle (Draining waits) fun killed t =>
      killed = false → Drained t := by
  refine Ensures.bind (M := fun _ t => InGrace t ∧
    t.owner.rs.entry.waits = still.filterMap fun i => waits[i]?) ?_ fun _ => ?_
  · rintro t ht
    refine ⟨⟨gettersHold_handle _ (.entry _) t ht.getters, ht.grace⟩, ?_⟩
    rw [← ht.waits]
    rfl
  refine Ensures.bind (M := fun _ t => InGrace t ∧
    t.owner.rs.entry.waits = still.filterMap fun i => waits[i]?) ?_ fun r => ?_
  · rintro t ⟨ht, hw⟩
    exact ⟨⟨gettersHold_handle _ .reason t ht.getters, ht.grace⟩, hw⟩
  split
  · intro t _ hc
    cases hc
  · refine Ensures.bind (recordRejection_inGrace e _) fun _ => ?_
    refine Ensures.bind (decideWaits_drained (pending_mem_filterMap hp)) fun _ => ?_
    exact fun t ht _ => ht

theorem scanWaits_drained :
    scanWaits.Ensures handle InGrace fun killed t => killed = false → Drained t := by
  refine Ensures.bind (M := fun _ t => Draining t.owner.rs.entry.waits t)
    (fun t ht => ⟨gettersHold_handle _ (.entry _) t ht.getters, ht.grace, rfl, rfl⟩) fun _ => ?_
  intro t ht
  have hdrain := drainWaits_pending t.owner.rs.entry.waits.length 0 [] none
    (fun j hj => absurd hj List.not_mem_nil) t ht
  rw [run_bind, run_bind]
  exact concludeDrain_drained _ hdrain.2 _ hdrain.1

theorem graceVerdict_scans :
    graceVerdict.Ensures handle Drained fun o t => o = .continue → t.owner.Awaiting := by
  refine Ensures.bind (M := fun l t => Drained t ∧ t.owner = l) (fun t ht => ⟨ht, rfl⟩) fun l => ?_
  refine Ensures.ite (fun _ => finishes_endPhase.ensures) fun hv => ?_
  refine Ensures.ite (fun _ => Finishes.ensures ?_) fun _ => ?_
  · split
    · exact finishes_endPhase
    · exact finishes_bind fun _ => finishes_endPhase
  · rintro t ⟨ht, rfl⟩ -
    change t.owner.Awaiting
    obtain ⟨g, hp⟩ := RunPhase.isGrace_iff.mp ht.grace
    rw [LiveRun.Awaiting, hp]
    rcases ht.waits with hd | hw
    · rw [hd] at hv
      exact Or.inr (by simpa using hv)
    · exact Or.inl hw

theorem drainRegistered_drained :
    drainRegistered.Ensures handle InGrace fun killed t => killed = false → Drained t := by
  refine Ensures.bind (M := fun l t => InGrace t ∧ t.owner = l) (fun t ht => ⟨ht, rfl⟩) fun l => ?_
  refine Ensures.ite (fun hd => ?_) fun _ => ?_
  · rintro t ⟨ht, rfl⟩ -
    exact ⟨ht.grace, Or.inl hd⟩
  · exact scanWaits_drained.strengthen fun t ht => ht.1

theorem graceScan_scans : graceScan.Ensures handle InGrace fun o t =>
    o = .continue → t.owner.Awaiting := by
  refine Ensures.bind (InGrace.plain (Uses.perform trivial)) fun _ => ?_
  refine Ensures.bind (InGrace.plain (Uses.perform trivial)) fun r => ?_
  split
  · exact finishes_finishKilledGrace.ensures
  refine Ensures.bind (InGrace.plain plain_driveOutStreams) fun _ => ?_
  refine Ensures.bind (InGrace.plain (Uses.perform trivial)) fun r => ?_
  split
  · exact finishes_finishKilledGrace.ensures
  refine Ensures.bind drainRegistered_drained fun killed => ?_
  refine Ensures.ite (fun _ => finishes_finishKilledGrace.ensures) fun hk => ?_
  exact graceVerdict_scans.strengthen fun t ht => ht (by simpa using hk)

/-- Releasing the guard leaves the owner as it is. -/
theorem disarming_scans {p : TurnM ScanOutcome} {P : Turn → Prop}
    (hp : p.Ensures handle P fun o t => o = .continue → t.owner.Awaiting) :
    (disarming p).Ensures handle P fun o t => o = .continue → t.owner.Awaiting := by
  refine Ensures.bind hp fun o => ?_
  exact Ensures.bind (M := fun _ t => o = .continue → t.owner.Awaiting) (fun _ ht => ht)
    fun _ _ ht => ht

theorem scans_guarded {p : TurnM ScanOutcome} (hp : Scans p) : Scans (guarded p) :=
  scans_bind fun _ => disarming_scans hp

theorem scans_enterGrace (exports : Nat) (hasGrace hasStreams : Bool) :
    Scans (enterGrace exports hasGrace hasStreams) := by
  refine Ensures.bind (M := fun _ => InGrace) ?_ fun _ => ?_
  · exact fun t ht => ⟨gettersHold_handle _ (.beginGrace exports hasGrace hasStreams) t ht, rfl⟩
  · exact Ensures.bind (InGrace.plain (Uses.perform trivial)) fun _ => disarming_scans graceScan_scans

theorem scans_endRunPhase (exports : Nat) (hasGrace hasStreams : Bool) :
    Scans (endRunPhase exports hasGrace hasStreams) := by
  refine scans_bind fun _ => scans_bind fun bare => scans_bind fun _ => ?_
  refine Ensures.ite (fun _ => (finishes_fail _).scans) fun _ => scans_bind fun r => ?_
  split
  · refine scans_bind fun _ => Ensures.ite (fun _ => (finishes_fail _).scans) fun _ => ?_
    exact fun t _ hc => ScanOutcome.noConfusion hc
  · exact scans_enterGrace _ _ _

theorem scans_buildOutputAndMaybeGrace (exports : Nat) : Scans (buildOutputAndMaybeGrace exports) := by
  refine scans_bind fun r => ?_
  split
  · exact (finishes_failOr _).scans
  refine scans_bind fun l => ?_
  split
  · exact (finishes_fail _).scans
  refine Ensures.ite (fun _ => (finishes_fail _).scans) fun _ => scans_bind fun bare => ?_
  refine Ensures.ite (fun _ => scans_bind fun _ => (finishes_fail _).scans) fun _ => ?_
  refine Ensures.ite (fun _ => ?_) fun _ => scans_endRunPhase _ _ _
  exact fun t _ hc => ScanOutcome.noConfusion hc

theorem scans_serializeCallResult {next : Nat → TurnM ScanOutcome} (hn : ∀ b, Scans (next b)) :
    Scans (serializeCallResult next) := by
  refine scans_bind fun r => ?_
  split
  · exact finishes_failReason.scans
  refine scans_bind fun l => scans_bind fun _ => scans_bind fun s => scans_bind fun _ => ?_
  split
  · exact scans_bind fun l => (finishes_failOr _).scans
  · exact hn _

theorem scans_extractModuleExports : Scans extractModuleExports := by
  refine scans_bind fun r => ?_
  split
  · exact finishes_failReason.scans
  refine scans_bind fun walk => ?_
  split
  · exact (finishes_failOr _).scans
  refine scans_bind fun s => ?_
  split
  · refine scans_bind fun r => ?_
    split
    · exact finishes_failReason.scans
    refine scans_bind fun l => ?_
    split
    · exact (finishes_fail _).scans
    refine scans_bind fun retry => ?_
    split
    · exact (finishes_failOr _).scans
    · exact scans_buildOutputAndMaybeGrace _
  · exact scans_buildOutputAndMaybeGrace _

/-- A pending root with no bridge error. -/
theorem awaiting_pending {l : LiveRun} {cp ric : Bool} (hp : l.rs.phase = .settling .pending cp ric)
    (hb : l.rs.bridgeError = none) : l.Awaiting := by
  rw [LiveRun.Awaiting, hp]
  exact ⟨rfl, hb⟩

theorem scans_scanPass {again : TurnM ScanOutcome} (ha : Scans again) : Scans (scanPass again) := by
  refine Ensures.bind (M := fun l t => t.script.GettersHold ∧ t.owner = l)
    (fun t ht => ⟨ht, rfl⟩) fun l => ?_
  have hscan : ∀ {p : TurnM ScanOutcome}, Scans p →
      p.Ensures handle (fun t => t.script.GettersHold ∧ t.owner = l) fun o t =>
        o = .continue → t.owner.Awaiting := fun hp => hp.strengthen fun t ht => ht.1
  split
  · next g hp =>
    refine graceScan_scans.strengthen ?_
    rintro t ⟨ht, rfl⟩
    exact ⟨ht, by rw [hp]; rfl⟩
  · exact (finishes_fail _).ensures
  · next hp =>
    split
    · exact (finishes_failOr _).ensures
    · next hb =>
      refine Ensures.ite (fun _ => (finishes_failOr _).ensures) fun _ => ?_
      rintro t ⟨-, rfl⟩ -
      exact awaiting_pending hp hb
  · refine hscan (scans_bind fun err => ?_)
    split
    · exact (finishes_failOr _).scans
    · refine scans_bind fun l => ?_
      split
      · exact (finishes_failOr _).scans
      · exact scans_bind fun _ => scans_bind fun _ => (finishes_failOr _).scans
  · refine hscan (Ensures.ite (fun _ => scans_bind fun o => ?_) fun _ => Ensures.ite (fun _ => ?_)
      fun _ => scans_extractModuleExports)
    · split
      · exact ha
      · next hne => exact fun t _ hc => absurd hc (by simpa using hne)
    · exact scans_serializeCallResult scans_buildOutputAndMaybeGrace

theorem scans_scan : Scans scan := scans_scanPass (scans_scanPass (finishes_fail _).scans)

theorem scans_finishTurn (inGrace : Bool) : Scans (finishTurn inGrace) := by
  refine scans_bind fun r => ?_
  split
  · exact Ensures.ite (fun _ => finishes_finishKilledGrace.scans) fun _ => (finishes_fail _).scans
  refine scans_bind fun l => ?_
  split
  · refine Ensures.ite (fun _ => scans_bind fun _ => finishes_endPhase.scans) fun _ => ?_
    exact (finishes_failOr _).scans
  · exact scans_scan

/-- A call that suspended is scanned, one that ended the run is not. -/
theorem scans_invoked : Scans (do
    match ← invokeRequestedCall with
    | .continue => scan
    | done => pure done) := by
  refine scans_bind fun o => ?_
  split
  · exact scans_scan
  · next hne => exact fun t _ hc => absurd hc (by simpa using hne)

theorem finishes_failThrown : Finishes failThrown := by
  refine finishes_bind fun l => ?_
  split
  · exact finishes_failOr _
  · exact finishes_bind fun _ => finishes_bind fun _ => finishes_failOr _

theorem scans_startTurn : Scans startTurn := by
  refine scans_bind fun setup => ?_
  split
  · exact (finishes_failOr _).scans
  refine scans_bind fun _ => scans_bind fun l => ?_
  split
  · exact scans_invoked
  · refine scans_bind fun linked => ?_
    split
    · exact (finishes_failOr _).scans
    refine scans_bind fun evaluated => ?_
    split
    · exact finishes_failThrown.scans
    · exact (finishes_fail _).scans
    · refine scans_bind fun checkpoint => scans_bind fun r => ?_
      split
      · exact finishes_failReason.scans
      · exact scans_bind fun _ => scans_scan

theorem scans_placeholdersThenCall : Scans Inst.placeholdersThenCall := by
  refine scans_bind fun placeholders => ?_
  split
  · exact scans_bind fun _ => (finishes_failOr _).scans
  · exact disarming_scans scans_startTurn

theorem scans_frameBody (msg : Inbound) : Scans (frameBody msg) := by
  refine scans_bind fun l => ?_
  have htail : Scans (do
      let _ ← perform .js
      finishTurn l.rs.phase.isGrace) := scans_bind fun _ => scans_finishTurn _
  split
  · refine Ensures.ite (fun _ => scans_bind fun _ => scans_bind fun _ => ?_) fun _ => htail
    split
    · exact (finishes_failOr _).scans
    · exact htail
  · exact Ensures.ite (fun _ => finishes_endPhase.scans) fun _ => (finishes_fail _).scans
  · exact scans_bind fun _ => htail
  · exact scans_bind fun _ => scans_bind fun _ => htail
  · refine scans_bind fun r => ?_
    split
    · exact (finishes_fail _).scans
    · exact htail

theorem scans_timerBody (inGrace : Bool) : Scans (timerBody inGrace) := by
  refine scans_bind fun called => ?_
  have htail : Scans (do
      let _ ← perform .js
      finishTurn inGrace) := scans_bind fun _ => scans_finishTurn _
  split
  · refine scans_bind fun killed => Ensures.ite (fun _ => htail) fun _ => ?_
    refine scans_bind fun err => scans_bind fun r => ?_
    split
    · exact scans_finishTurn _
    · refine Ensures.ite (fun _ => scans_bind fun _ => finishes_endPhase.scans) fun _ => ?_
      exact (finishes_fail _).scans
  · exact htail

/-- A timer turn is taken only for a pending timer. -/
theorem timerTurn_scans {d : Nat} : timerTurn.Ensures handle
    (fun t => t.script.GettersHold ∧ t.owner.earliestTimer = some d) fun o t =>
      o = .continue → t.owner.Awaiting := by
  refine Ensures.bind (M := fun l t => t.script.GettersHold ∧ l.earliestTimer = some d)
    (fun t ht => ht) fun l => ?_
  split
  · next hpop =>
    rintro t ⟨-, hd⟩
    have hsome := TimerTable.popEarliest_isSome hd
    rw [hpop] at hsome
    cases hsome
  · next timers _ =>
    have hrest : Scans (do
        perform (.entry fun e => { e with timers := timers })
        guarded (timerBody l.rs.phase.isGrace)) :=
      scans_bind fun _ => scans_guarded (scans_timerBody _)
    exact hrest.strengthen fun t ht => ht.1

theorem scans_streamIdleTurn : Scans streamIdleTurn :=
  scans_guarded (scans_bind fun _ => scans_bind fun _ => scans_finishTurn _)

theorem scans_handleLoopEvent (msg : Inbound) : Scans (handleLoopEvent msg) := by
  unfold handleLoopEvent
  split
  · refine scans_bind fun l => Ensures.ite (fun _ => ?_) fun _ => ?_
    · exact scans_bind fun _ => scans_bind fun _ _ _ hc => ScanOutcome.noConfusion hc
    · exact scans_bind fun _ _ _ hc => ScanOutcome.noConfusion hc
  · exact scans_guarded (scans_frameBody _)

end TurnM

/-! ### Co-residents of a turn -/

/-- The run whose root or registered promise an act settles. -/
def GuestAct.settles : GuestAct → Option Nat
  | .settleRoot token _ => some token
  | .settleWait token _ _ => some token
  | _ => none

/-- The run an act makes a bridge call for. -/
def GuestAct.bridges : GuestAct → Option Nat
  | .bridgeCall rider _ => some rider
  | .fatalBridge rider _ => some rider
  | _ => none

/-- The guest JS of a turn leaves the outcome of the co-resident runs `co`
alone. -/
structure Script.Minds (co : List Nat) (sc : Script) : Prop where
  settles : ∀ sl ∈ sc.slices ++ sc.getters, ∀ a ∈ sl.acts, ∀ token ∈ co, a.settles ≠ some token
  getters : sc.GettersHold
  /-- A bridge violation of a co-resident taints the instance, unless a fire
  that raced a settled value resets the reason cell. -/
  bridges : (∀ f ∈ sc.fires, f = none) ∨
    ∀ sl ∈ sc.slices ++ sc.getters, ∀ a ∈ sl.acts, ∀ token ∈ co, a.bridges ≠ some token

instance Script.Minds.decidable (co : List Nat) (sc : Script) : Decidable (Script.Minds co sc) :=
  decidable_of_iff
    ((∀ sl ∈ sc.slices ++ sc.getters, ∀ a ∈ sl.acts, ∀ token ∈ co, a.settles ≠ some token) ∧
      (∀ sl ∈ sc.getters, ∀ a ∈ sl.acts, a.settlesWait = false) ∧
      ((∀ f ∈ sc.fires, f = none) ∨
        ∀ sl ∈ sc.slices ++ sc.getters, ∀ a ∈ sl.acts, ∀ token ∈ co, a.bridges ≠ some token))
    ⟨fun h => ⟨h.1, h.2.1, h.2.2⟩, fun h => ⟨h.settles, h.getters, h.bridges⟩⟩

theorem Script.Rest.stretches {sc sc' : Script} (h : Rest sc sc') {sl : Slice}
    (hsl : sl ∈ sc'.slices ++ sc'.getters) : sl ∈ sc.slices ++ sc.getters := by
  rcases List.mem_append.mp hsl with hm | hm
  · exact List.mem_append_left _ (h.slices.subset hm)
  · exact List.mem_append_right _ (h.getters.subset hm)

theorem Script.Minds.rest {co : List Nat} {sc sc' : Script} (h : Minds co sc)
    (hr : Script.Rest sc sc') : Minds co sc' where
  settles := fun sl hsl => h.settles sl (hr.stretches hsl)
  getters := h.getters.rest hr
  bridges := h.bridges.imp (fun hf f hm => hf f (hr.fires.subset hm))
    fun hb sl hsl => hb sl (hr.stretches hsl)

/-- A parked run that nobody settled. -/
structure LiveRun.Unmoved (l l' : LiveRun) : Prop where
  job : l'.job = l.job
  phase : l'.rs.phase = l.rs.phase
  waits : l.rs.entry.waits <+: l'.rs.entry.waits

namespace LiveRun.Unmoved

variable {a : GuestAct} {l l' l'' : LiveRun}

theorem refl (l : LiveRun) : Unmoved l l := ⟨rfl, rfl, List.prefix_refl _⟩

theorem trans (h : Unmoved l l') (h' : Unmoved l' l'') : Unmoved l l'' :=
  ⟨h'.job.trans h.job, h'.phase.trans h.phase, h.waits.trans h'.waits⟩

theorem token (h : Unmoved l l') : l'.token = l.token := by
  rw [LiveRun.token, h.job, LiveRun.token]

theorem of_actedOn (h : ActedOn a l l') (ha : a.settles ≠ some l.token) : Unmoved l l' := by
  rcases h with rfl | ⟨hj, ht, hc⟩
  · exact refl _
  obtain ⟨job, rs⟩ := l
  obtain ⟨job', rs'⟩ := l'
  obtain rfl : job' = job := hj
  refine ⟨rfl, ?_, ?_⟩
  · change rs'.phase = rs.phase
    cases hc with
    | root => exact absurd ht ha
    | _ => rfl
  · change rs.entry.waits <+: rs'.entry.waits
    cases hc with
    | root => exact absurd ht ha
    | wait => exact absurd ht ha
    | register =>
      dsimp only [Turn.registerWait, RunState.onEntry]
      split
      · exact List.prefix_append _ _
      · exact List.prefix_refl _
    | _ => exact List.prefix_refl _

/-- Only an act that bridges for the run records a bridge error of it. -/
theorem sameError (h : ActedOn a l l') (ha : a.bridges ≠ some l.token) : SameError l l' := by
  rcases h with rfl | ⟨hj, ht, hc⟩
  · exact .refl _
  refine ⟨?_, hc.acts.isGrace⟩
  generalize l'.rs = rs' at hc ⊢
  cases hc with
  | root =>
    unfold Turn.settleRoot
    split <;> rfl
  | called => rfl
  | callFailed => exact absurd ht ha
  | violated => exact absurd ht ha
  | _ => rfl

end LiveRun.Unmoved

namespace Turn

/-- The co-residents of a turn with tokens `co`, parked as `base` when it
began. -/
structure Beside (co : List Nat) (base : List LiveRun) (t : Turn) : Prop where
  minds : t.script.Minds co
  tokens : t.live.map LiveRun.token = co
  live : List.Forall₂ LiveRun.Unmoved base t.live

variable {co : List Nat} {base : List LiveRun} {t t' : Turn}

theorem forall₂_unmoved_trans {ls ls' ls'' : List LiveRun}
    (h : List.Forall₂ LiveRun.Unmoved ls ls') (h' : List.Forall₂ LiveRun.Unmoved ls' ls'') :
    List.Forall₂ LiveRun.Unmoved ls ls'' := by
  induction h generalizing ls'' with
  | nil =>
    cases h'
    exact .nil
  | cons hr _ ih =>
    cases h' with
    | cons hr' hs' => exact .cons (hr.trans hr') (ih hs')

theorem map_token_unmoved {ls ls' : List LiveRun} (h : List.Forall₂ LiveRun.Unmoved ls ls') :
    ls'.map LiveRun.token = ls.map LiveRun.token := by
  induction h with
  | nil => rfl
  | cons hr _ ih => rw [List.map_cons, List.map_cons, hr.token, ih]

/-- What keeps the parked runs keeps them beside the turn. -/
theorem Beside.still {u : Turn} (h : Beside co base t) (hr : Core.Spends t.toCore u.toCore)
    (hl : u.live = t.live) : Beside co base u :=
  ⟨h.minds.rest hr, hl ▸ h.tokens, hl ▸ h.live⟩

theorem Beside.unmoved (h : Beside co base t) (hr : Core.Spends t.toCore t'.toCore)
    (hl : List.Forall₂ LiveRun.Unmoved t.live t'.live) : Beside co base t' :=
  ⟨h.minds.rest hr, (map_token_unmoved hl).trans h.tokens, forall₂_unmoved_trans h.live hl⟩

theorem forall₂_mem {α β : Type} {R S : α → β → Prop} {xs : List α} {ys : List β}
    (h : List.Forall₂ R xs ys) (hS : ∀ x ∈ xs, ∀ y, R x y → S x y) : List.Forall₂ S xs ys := by
  induction h with
  | nil => exact .nil
  | cons hr _ ih =>
    exact .cons (hS _ List.mem_cons_self _ hr) (ih fun x hx => hS x (List.mem_cons_of_mem _ hx))

theorem Beside.act {a : GuestAct} (h : Beside co base t) (ha : ∀ token ∈ co, a.settles ≠ some token) :
    Beside co base (t.act a) := by
  refine h.unmoved (spends_act t a) (forall₂_mem (act_runs t a).live fun l hl l' hr => ?_)
  exact LiveRun.Unmoved.of_actedOn hr (ha _ (h.tokens ▸ List.mem_map_of_mem hl))

theorem Beside.actAll {acts : List GuestAct} (h : Beside co base t)
    (ha : ∀ a ∈ acts, ∀ token ∈ co, a.settles ≠ some token) : Beside co base (t.actAll acts) := by
  induction acts generalizing t with
  | nil => exact h
  | cons a acts ih =>
    rw [Turn.actAll]
    split
    · exact h
    · exact ih (h.act (ha a List.mem_cons_self)) fun b hb => ha b (List.mem_cons_of_mem _ hb)

/-- A predicate on the acts of a script's stretches holds of the next one. -/
theorem stretch_acts {P : GuestAct → Prop} {sls : List Slice}
    (h : ∀ sl ∈ sls, ∀ a ∈ sl.acts, P a) : ∀ a ∈ (sls.head?.getD Slice.idle).acts, P a := by
  cases sls with
  | nil => exact fun a ha => absurd ha List.not_mem_nil
  | cons sl rest => exact h sl List.mem_cons_self

theorem Beside.handle (γ : Type) (o : Op γ) (t : Turn) (h : Beside co base t) :
    Beside co base (Turn.handle γ o t).2 := by
  cases hjs : o.runsJs with
  | false => exact h.still (spends_handle γ o t) (silent_handle γ o t hjs).1
  | true =>
    cases o with
    | js =>
      refine (h.still (u := t.onCore Core.popSlice) ?_ rfl).actAll ?_
      · exact { Script.Rest.refl t.script with slices := List.tail_suffix _ }
      · exact stretch_acts fun sl hsl => h.minds.settles sl (List.mem_append_left _ hsl)
    | read =>
      refine (h.still (u := t.onCore Core.popGetter) ?_ rfl).actAll ?_
      · exact { Script.Rest.refl t.script with getters := List.tail_suffix _ }
      · exact stretch_acts fun sl hsl => h.minds.settles sl (List.mem_append_right _ hsl)
    | _ => cases hjs

/-- No settling co-resident has a bridge error that the taint verdict does not
see. -/
structure Seen (co : List Nat) (t : Turn) : Prop where
  minds : t.script.Minds co
  tokens : t.live.map LiveRun.token = co
  errors : ((∀ f ∈ t.script.fires, f = none) ∧ t.bareTerminate = true) ∨ ∀ l ∈ t.live, l.Clean

theorem clean_of_sameError {ls ls' : List LiveRun} (h : ∀ l ∈ ls, l.Clean)
    (hr : List.Forall₂ LiveRun.SameError ls ls') : ∀ l ∈ ls', l.Clean := by
  induction hr with
  | nil => exact fun l hl => absurd hl List.not_mem_nil
  | cons he _ ih =>
    intro l hl
    rcases List.mem_cons.mp hl with rfl | hl
    · intro hg
      rw [he.bridgeError]
      exact h _ List.mem_cons_self (he.isGrace.symm.trans hg)
    · exact ih (fun r hr => h r (List.mem_cons_of_mem _ hr)) l hl

theorem Seen.act {a : GuestAct} (h : Seen co t)
    (ha : (∀ f ∈ t.script.fires, f = none) ∨ ∀ token ∈ co, a.bridges ≠ some token) :
    Seen co (t.act a) := by
  have hrun := act_runs t a
  have hspend := spends_act t a
  refine ⟨h.minds.rest hspend, hrun.tokens.trans h.tokens, ?_⟩
  have hfires : (∀ f ∈ t.script.fires, f = none) → ∀ f ∈ (t.act a).script.fires, f = none :=
    fun hf f hm => hf f (hspend.fires.subset hm)
  rcases h.errors with ⟨hf, hb⟩ | he
  · refine Or.inl ⟨hfires hf, ?_⟩
    rcases hrun.bare with hb' | ⟨hb', -⟩
    · exact hb'
    · rw [hb', hb]
  · rcases ha with hf | hn
    · rcases hrun.bare with hb' | ⟨-, hsame⟩
      · exact Or.inl ⟨hfires hf, hb'⟩
      · exact Or.inr (clean_of_sameError he hsame)
    · refine Or.inr (clean_of_sameError he (forall₂_mem hrun.live fun l hl l' hr => ?_))
      exact LiveRun.Unmoved.sameError hr (hn _ (h.tokens ▸ List.mem_map_of_mem hl))

theorem Seen.actAll {acts : List GuestAct} (h : Seen co t)
    (ha : (∀ f ∈ t.script.fires, f = none) ∨
      ∀ a ∈ acts, ∀ token ∈ co, a.bridges ≠ some token) : Seen co (t.actAll acts) := by
  induction acts generalizing t with
  | nil => exact h
  | cons a acts ih =>
    rw [Turn.actAll]
    split
    · exact h
    · refine ih (h.act (ha.imp_right fun hn => hn a List.mem_cons_self)) ?_
      exact ha.imp (fun hf f hm => hf f ((spends_act t a).fires.subset hm))
        fun hn b hb => hn b (List.mem_cons_of_mem _ hb)

theorem Seen.still {u : Turn} (h : Seen co t) (hr : Core.Spends t.toCore u.toCore)
    (hl : u.live = t.live) (hb : u.bareTerminate = t.bareTerminate) : Seen co u where
  minds := h.minds.rest hr
  tokens := hl ▸ h.tokens
  errors := by
    rw [hl, hb]
    exact h.errors.imp_left fun he => ⟨fun f hm => he.1 f (hr.fires.subset hm), he.2⟩

theorem Seen.handle (γ : Type) (o : Op γ) (t : Turn) (ho : Op.Steady γ o) (h : Seen co t) :
    Seen co (Turn.handle γ o t).2 := by
  cases hjs : o.runsJs with
  | false =>
    obtain ⟨hl, hb⟩ := silent_handle γ o t hjs
    exact h.still (spends_handle γ o t) hl (hb ho)
  | true =>
    cases o with
    | js =>
      refine (h.still (u := t.onCore Core.popSlice) ?_ rfl rfl).actAll ?_
      · exact { Script.Rest.refl t.script with slices := List.tail_suffix _ }
      · exact h.minds.bridges.imp_right fun hb =>
          stretch_acts fun sl hsl => hb sl (List.mem_append_left _ hsl)
    | read =>
      refine (h.still (u := t.onCore Core.popGetter) ?_ rfl rfl).actAll ?_
      · exact { Script.Rest.refl t.script with getters := List.tail_suffix _ }
      · exact h.minds.bridges.imp_right fun hb =>
          stretch_acts fun sl hsl => hb sl (List.mem_append_right _ hsl)
    | _ => cases hjs

/-- Nothing fires where the script fires nothing. -/
theorem race_reason {c : Core} (hf : ∀ f ∈ c.script.fires, f = none) : c.race.reason = c.reason := by
  unfold Core.race
  split
  · next r hr =>
    have hmem := List.mem_of_mem_head? (Option.mem_def.mpr hr)
    cases hf _ hmem
  · rfl

/-- Between the last look at the reason cell of a settled run and the switch of
phases: a bridge error a taint has to tell of leaves no reason to reset. -/
structure Calm (co : List Nat) (t : Turn) : Prop where
  seen : Seen co t
  errors : ((∀ f ∈ t.script.fires, f = none) ∧ t.reason = none) ∨ ∀ l ∈ t.live, l.Clean

theorem Calm.of_look (h : Seen co t) (hr : t.reason = none) : Calm co t :=
  ⟨h, h.errors.imp_left fun he => ⟨he.1, hr⟩⟩

theorem Calm.still {u : Turn} (h : Calm co t) (hr : Core.Spends t.toCore u.toCore)
    (hl : u.live = t.live) (hb : u.bareTerminate = t.bareTerminate)
    (he : (∀ f ∈ t.script.fires, f = none) → u.reason = t.reason) : Calm co u where
  seen := h.seen.still hr hl hb
  errors := by
    rw [hl]
    refine h.errors.imp_left ?_
    rintro ⟨hf, hn⟩
    exact ⟨fun f hm => hf f (hr.fires.subset hm), (he hf).trans hn⟩

theorem Calm.race (h : Calm co t) (hl : t'.live = t.live) (hb : t'.bareTerminate = t.bareTerminate)
    (hr : Core.Spends t.toCore t'.toCore) (hrace : t'.reason = t.race.reason) : Calm co t' :=
  h.still hr hl hb fun hf => hrace.trans (race_reason hf)

end Turn

namespace TurnM

open Prog Turn

variable {co : List Nat}

theorem calm_reason : (perform .reason).Ensures handle (Calm co) fun r t =>
    Calm co t ∧ t.reason = r := by
  intro t ht
  refine ⟨ht.race (Core.race_live t.toCore).1 (Core.race_live t.toCore).2 (spends_handle _ .reason t) rfl, rfl⟩

theorem calm_bareTerminated : bareTerminated.Ensures handle (Calm co) fun _ => Calm co := by
  refine Ensures.bind calm_reason fun r => ?_
  split
  · exact fun t ht => ht.1
  · exact fun t ht => ht.1.still (spends_handle _ .terminating t) rfl rfl fun _ => rfl

/-- The reset of a raced fire forgets no bridge error. -/
theorem calm_endRunPhase (exports : Nat) (hasGrace hasStreams : Bool) :
    (endRunPhase exports hasGrace hasStreams).Ensures handle (Calm co) fun _ => Seen co := by
  refine Ensures.bind (M := fun _ => Calm co) ?_ fun _ => ?_
  · intro t ht
    exact ht.race (Core.race_live t.toCore).1 (Core.race_live t.toCore).2 (spends_handle _ .disarm t) rfl
  refine Ensures.bind calm_bareTerminated fun bare => ?_
  refine Ensures.bind (M := fun _ => Calm co) ?_ fun _ => ?_
  · exact fun t ht => ht.still (spends_handle _ .cancelTerminate t) rfl rfl fun _ => rfl
  refine Ensures.ite (fun _ t ht => ht.seen) fun _ => ?_
  refine Ensures.bind calm_reason fun r => ?_
  split
  · refine Ensures.bind (M := fun _ => Seen co) ?_ fun _ => ?_
    · rintro t ⟨ht, hr⟩
      have hnone : ∀ l ∈ t.live, l.Clean :=
        ht.errors.resolve_left fun he => by
          rw [he.2] at hr
          cases hr
      exact ⟨ht.seen.minds, ht.seen.tokens, Or.inr hnone⟩
    · exact Ensures.ite (fun _ t ht => ht) fun _ t ht => ht
  · intro t ht
    exact (steady_enterGrace exports hasGrace hasStreams).run_rel
      (R := fun t t' => Seen co t → Seen co t') (fun _ => id) (fun h h' => h' ∘ h) Seen.handle t
      ht.1.seen

theorem kept_seen : Kept (Seen co) where
  steady := Seen.handle
  build := by
    intro exports
    refine Ensures.bind (M := fun r t => Seen co t ∧ t.reason = r) ?_ fun r => ?_
    · exact fun t ht => ⟨Seen.handle _ .reason t trivial ht, rfl⟩
    split
    · exact fun t ht => Seen.handle _ .reason t trivial ht.1
    refine Ensures.bind (M := fun _ => Calm co) ?_ fun l => ?_
    · exact fun t ht => Calm.of_look ht.1 ht.2
    split
    · exact fun t ht => ht.seen
    refine Ensures.ite (fun _ t ht => ht.seen) fun _ => ?_
    refine Ensures.bind calm_bareTerminated fun bare => ?_
    refine Ensures.ite (fun _ t ht => ?_) fun _ => ?_
    · exact (ht.still (u := t.onCore Core.cancelTerminate) (Script.Rest.refl _) rfl rfl
        fun _ => rfl).seen
    · exact Ensures.ite (fun _ t ht => ht.seen) fun _ => calm_endRunPhase _ _ _

end TurnM

/-! ### The loop -/

theorem LiveRun.awaiting_of_unmoved {touched : List Nat} {l l' : LiveRun} (hu : Unmoved l l')
    (hr : Rides touched l l') (hb : l'.Clean) (h : l.Awaiting) : l'.Awaiting := by
  unfold Awaiting at h ⊢
  unfold Clean at hb
  rw [hu.phase] at hb ⊢
  cases hp : l.rs.phase with
  | starting =>
    rw [hp] at h
    exact h
  | settling root cp ric =>
    rw [hp] at h hb
    exact ⟨h.1, hb rfl⟩
  | grace g =>
    rw [hp] at h
    rw [hr.outStreamsOpen_eq]
    exact h.imp_left fun hw => hu.waits.subset hw

theorem LiveRun.awaiting_leaveTurn {l : LiveRun} (now : Nat) (h : l.Awaiting) :
    (l.leaveTurn now).Awaiting := by
  unfold Awaiting at h ⊢
  rw [outStreamsOpen, entry_leaveTurn, bridgeError_leaveTurn]
  cases hg : l.rs.phase.isGrace with
  | false =>
    rw [phase_leaveTurn l now hg]
    exact h
  | true =>
    obtain ⟨g, hp⟩ := RunPhase.isGrace_iff.mp hg
    obtain ⟨g', hp'⟩ := RunPhase.isGrace_iff.mp ((l.isGrace_leaveTurn now).trans hg)
    rw [hp] at h
    rw [hp']
    exact h

/-- One turn beside parked runs that all await something. -/
theorem Core.runTurn_awaiting {c : Core} {l : LiveRun} {p : TurnM ScanOutcome}
    (hm : c.script.Minds (c.live.map LiveRun.token)) (hl : ∀ r ∈ c.live, r.Awaiting)
    (hkeep : TurnM.Keeps (Turn.Seen (c.live.map LiveRun.token)) p)
    (hb : (c.runTurn l p).2.bareTerminate = false) : ∀ r ∈ (c.runTurn l p).2.live, r.Awaiting := by
  intro r hr
  let t : Turn := { toCore := c, owner := l }
  have hseen : Turn.Seen (c.live.map LiveRun.token) t := ⟨hm, rfl, Or.inr fun r hr => (hl r hr).clean⟩
  have hbeside : Turn.Beside (c.live.map LiveRun.token) c.live t :=
    ⟨hm, rfl, List.forall₂_same.mpr fun _ _ => LiveRun.Unmoved.refl _⟩
  have hseen' := hkeep t hseen
  have hbeside' := Prog.Ensures.invariant Turn.Beside.handle p t hbeside
  have hframe := Core.runTurn_frame c l p
  have hclean : r.Clean := by
    rcases hseen'.errors with ⟨-, hbare⟩ | hclean
    · exact absurd (hbare.symm.trans hb) Bool.noConfusion
    · exact hclean r hr
  obtain ⟨i, hi, rfl⟩ := List.getElem_of_mem hr
  have hi' : i < c.live.length := by
    rw [hframe.live.length_eq]
    exact hi
  exact LiveRun.awaiting_of_unmoved (hbeside'.live.get hi' hi) (hframe.live.get hi' hi) hclean
    (hl _ (List.getElem_mem hi'))

theorem Script.Minds.mono {co co' : List Nat} {sc : Script} (h : Minds co sc) (hsub : co' ⊆ co) :
    Minds co' sc where
  settles := fun sl hsl a ha token ht => h.settles sl hsl a ha token (hsub ht)
  getters := h.getters
  bridges := h.bridges.imp_right fun hb sl hsl a ha token ht => hb sl hsl a ha token (hsub ht)

namespace TurnM

open Prog Turn

/-- A wall that leaves the phase open leaves it to its streams. -/
theorem concludeGraceWall_awaits : concludeGraceWall.Ensures handle
    (fun t => t.owner.rs.phase.isGrace = true) fun r t => r = none → t.owner.Awaiting := by
  refine Ensures.bind (M := fun _ t => t.owner.rs.phase.isGrace = true)
    (fun t ht => (graceDecided_status ht .truncated).grace) fun _ => ?_
  refine Ensures.bind (M := fun l t => t.owner.rs.phase.isGrace = true ∧ t.owner = l)
    (fun t ht => ⟨ht, rfl⟩) fun l => Ensures.ite (fun ho => ?_) fun _ => ?_
  · rintro t ⟨hg, rfl⟩ -
    obtain ⟨g, hp⟩ := RunPhase.isGrace_iff.mp hg
    change t.owner.Awaiting
    rw [LiveRun.Awaiting, hp]
    exact Or.inr ho
  · refine Ensures.bind (M := fun _ _ => True) (fun _ _ => trivial) fun output t _ hc => ?_
    cases hc

end TurnM

namespace Inst

variable {s : Inst}

/-- The run whose turn the step runs, if it runs one. -/
def turnOwner (s : Inst) : Option Nat :=
  match s.pc with
  | .dispatch j => some j.token
  | .deliver token _ _ => some token
  | .sweep _ _ => s.peekValidDeadline.1.map DeadlineKey.token
  | _ => none

/-- The live runs beside this one. -/
def coResidents (s : Inst) (owner : Nat) : List Nat :=
  (s.live.map LiveRun.token).filter fun token => token ≠ owner

/-- The guest JS of the step's turn leaves the outcome of co-residents alone. -/
def KeepsApart (s : Inst) (script : Script) : Prop :=
  ∀ owner ∈ s.turnOwner, script.Minds (s.coResidents owner)

instance (s : Inst) (script : Script) : Decidable (s.KeepsApart script) :=
  inferInstanceAs (Decidable (∀ owner ∈ s.turnOwner, script.Minds (s.coResidents owner)))

/-- Everything parked awaits something, wherever the loop stands. -/
def Scanned (s : Inst) : Prop :=
  match s.pc with
  | .turned _ l o => (s.bareTerminate = false → ∀ r ∈ s.live, r.Awaiting) ∧
      (o = .continue → l.Awaiting)
  | .closing => True
  | .taint => True
  | .drain => True
  | .exiting => True
  | .gone => True
  | _ => s.bareTerminate = false ∧ ∀ r ∈ s.live, r.Awaiting

/-- Everything parked awaits something. -/
def AllAwaiting (s : Inst) : Prop := s.bareTerminate = false ∧ ∀ r ∈ s.live, r.Awaiting

theorem AllAwaiting.of_still {u : Inst} (h : AllAwaiting s) (hst : Core.Still s.toCore u.toCore) :
    AllAwaiting u := by
  rw [AllAwaiting, hst.bareTerminate, hst.live]
  exact h

theorem AllAwaiting.scanned (h : AllAwaiting s) (hpc : ∀ kind l o, s.pc ≠ .turned kind l o) : Scanned s := by
  unfold Scanned
  split
  · next hp => exact absurd hp (hpc _ _ _)
  all_goals trivial

theorem scanned_over (h : s.pc = .closing ∨ s.pc = .taint ∨ s.pc = .drain ∨ s.pc = .gone) :
    Scanned s := by
  rcases h with h | h | h | h <;> rw [Scanned, h] <;> trivial

theorem conclude_still (s : Inst) (l : LiveRun) (result : RunResult) (tainted : Bool) :
    (s.conclude l result tainted).live = s.live ∧
      (s.conclude l result tainted).bareTerminate = s.bareTerminate := by
  have h1 := Core.runTurn_still TurnM.quiet_closeStreams s.toCore l
  have h2 := Core.Still.finishJob ((s.runTurn l Core.closeStreams).2.toCore.cancelTerminate) l.job
    result tainted false
  exact ⟨h2.live.trans h1.live, h2.bareTerminate.trans h1.bareTerminate⟩

theorem AllAwaiting.conclude {l : LiveRun} {result : RunResult} {tainted : Bool} (h : AllAwaiting s) :
    AllAwaiting (s.conclude l result tainted) := by
  rw [AllAwaiting, (conclude_still s l result tainted).1, (conclude_still s l result tainted).2]
  exact h

theorem AllAwaiting.park {l : LiveRun} (h : AllAwaiting s) (hl : l.Awaiting) : AllAwaiting (s.withCore (s.park l)) := by
  refine ⟨h.1, fun r hr => ?_⟩
  rcases List.mem_append.mp hr with hr | hr
  · exact h.2 r hr
  · rw [List.mem_singleton.mp hr]
    exact hl

theorem AllAwaiting.leaveThenPark {l : LiveRun} (h : AllAwaiting s) (hl : l.Awaiting) :
    AllAwaiting ((s.leaveTurn l).2.parkRun (s.leaveTurn l).1) :=
  AllAwaiting.park (s := (s.leaveTurn l).2) (h.of_still (Core.Still.now _))
    (LiveRun.awaiting_leaveTurn _ hl)

theorem AllAwaiting.suspend {kind : TurnKind} {l : LiveRun} (h : AllAwaiting s) (hl : l.Awaiting) :
    AllAwaiting (s.suspend kind l) := by
  cases kind with
  | start => exact h.park hl
  | event queued =>
    unfold Inst.suspend
    dsimp only
    split
    · exact h.leaveThenPark hl
    · exact AllAwaiting.park (s := (s.leaveTurn l).2) (h.of_still (Core.Still.now _))
        (LiveRun.awaiting_leaveTurn _ hl)
  | swept cutoff next => exact h.leaveThenPark hl

theorem AllAwaiting.settleOwner {kind : TurnKind} {l : LiveRun} {o : ScanOutcome} (h : AllAwaiting s)
    (hl : o = .continue → l.Awaiting) : AllAwaiting (s.settleOwner kind l o false) := by
  cases o with
  | finished result => exact h.conclude
  | «continue» => exact h.suspend (hl rfl)

theorem AllAwaiting.drainTouchedTimers (h : AllAwaiting s) : AllAwaiting s.drainTouchedTimers := by
  rw [AllAwaiting, drainTouchedTimers_toCore]
  exact h

theorem concludeTurn_scanned {kind : TurnKind} {l : LiveRun} {o : ScanOutcome}
    (hlive : s.bareTerminate = false → ∀ r ∈ s.live, r.Awaiting)
    (hl : o = .continue → l.Awaiting) : Scanned (s.concludeTurn kind l o) := by
  unfold concludeTurn
  split
  · trivial
  · next htainted =>
    have hb : s.bareTerminate = false := by
      unfold Core.instanceTainted at htainted
      split at htainted
      · exact absurd rfl htainted
      · next h => exact (Bool.or_eq_false_iff.mp (Bool.eq_false_iff.mpr h)).2
    have hall : AllAwaiting (s.withCore s.instanceTainted.2) := by
      have hst := instanceTainted_still s.toCore
      refine ⟨?_, ?_⟩
      · change s.instanceTainted.2.bareTerminate = false
        unfold Core.instanceTainted
        split <;> exact hb
      · change ∀ r ∈ s.instanceTainted.2.live, r.Awaiting
        rw [hst.1]
        exact hlive hb
    refine AllAwaiting.scanned (hall.settleOwner hl).drainTouchedTimers ?_
    cases kind with
    | start => exact fun _ _ _ => Pc.noConfusion
    | event queued => exact fun _ _ _ => Pc.noConfusion
    | swept cutoff next => exact fun _ _ _ => Pc.noConfusion

/-- A turn of a run in hand, beside the parked ones. -/
theorem takeTurn_scanned {kind : TurnKind} {l : LiveRun} {p : TurnM ScanOutcome}
    (h : AllAwaiting s) (hm : s.script.Minds (s.live.map LiveRun.token))
    (hkeep : TurnM.Keeps (Turn.Seen (s.live.map LiveRun.token)) p)
    (hscan : ∀ t : Turn, t.script = s.script → t.owner = l →
      (p.run Turn.handle t).1 = .continue → (p.run Turn.handle t).2.owner.Awaiting) :
    Scanned (s.takeTurn kind l p) := by
  refine ⟨fun hb => ?_, fun hc => ?_⟩
  · exact Core.runTurn_awaiting (c := s.note (.turn l.token l.rs.phase l.rs.counted)) hm h.2 hkeep hb
  · exact hscan { toCore := s.note (.turn l.token l.rs.phase l.rs.counted), owner := l } rfl rfl hc

/-- A run is taken in hand. -/
theorem beginTurn_allAwaiting {l : LiveRun} (h : AllAwaiting s) (wokeAt : Nat) :
    AllAwaiting (s.beginTurn l wokeAt).2 := by
  have hst := Core.Still.now (s.takeRun l.token)
  refine ⟨hst.bareTerminate.trans h.1, fun r hr => ?_⟩
  rw [show (s.beginTurn l wokeAt).2.live = (s.takeRun l.token).live from hst.live] at hr
  exact h.2 r (List.mem_of_mem_eraseP hr)

theorem beginTurn_minds {l : LiveRun} (hn : (s.live.map LiveRun.token).Nodup) (hl : l ∈ s.live)
    (hm : s.script.Minds (s.coResidents l.token)) (wokeAt : Nat) :
    (s.beginTurn l wokeAt).2.script.Minds ((s.beginTurn l wokeAt).2.live.map LiveRun.token) := by
  have hst := Core.Still.now (s.takeRun l.token)
  have hs : Core.Spends s.toCore (s.beginTurn l wokeAt).2.toCore :=
    Core.Spends.now (s.takeRun l.token)
  refine (hm.rest hs).mono fun token ht => ?_
  rw [show (s.beginTurn l wokeAt).2.live = (s.takeRun l.token).live from hst.live] at ht
  obtain ⟨r, hr, rfl⟩ := List.mem_map.mp ht
  obtain ⟨hr, hne⟩ := mem_eraseP_token hn hl hr
  exact List.mem_filter.mpr ⟨List.mem_map_of_mem hr, by simpa using hne⟩

/-- A turn of a parked run. -/
theorem turnOf_scanned {kind : TurnKind} {l : LiveRun} {wokeAt : Nat} {p : TurnM ScanOutcome}
    (h : AllAwaiting s) (hn : (s.live.map LiveRun.token).Nodup) (hl : l ∈ s.live)
    (hm : s.script.Minds (s.coResidents l.token))
    (hkeep : ∀ K, TurnM.Kept K → TurnM.Keeps K p)
    (hscan : ∀ t : Turn, t.script.GettersHold → t.owner.rs.entry = l.rs.entry →
      (p.run Turn.handle t).1 = .continue → (p.run Turn.handle t).2.owner.Awaiting) :
    Scanned ((s.beginTurn l wokeAt).2.takeTurn kind (s.beginTurn l wokeAt).1 p) := by
  have hmind := beginTurn_minds hn hl hm wokeAt
  refine takeTurn_scanned (beginTurn_allAwaiting h wokeAt) hmind (hkeep _ TurnM.kept_seen) ?_
  intro t hs ho
  refine hscan t (hs ▸ hmind.getters) ?_
  rw [ho]
  exact LiveRun.entry_enterTurn _ _ _

/-- Acting on a deadline of a parked run. -/
theorem actOn_allAwaiting {l : LiveRun} (h : AllAwaiting s) (wokeAt due : Nat) :
    AllAwaiting (s.actOn l wokeAt due).2 :=
  beginTurn_allAwaiting (s := s.withCore (s.note (.acted l.token due))) h wokeAt

theorem sweepTurn_scanned {cutoff due : Nat} {next : After} {l : LiveRun} {p : TurnM ScanOutcome}
    (h : AllAwaiting s) (hn : (s.live.map LiveRun.token).Nodup) (hl : l ∈ s.live)
    (hm : s.script.Minds (s.coResidents l.token))
    (hkeep : ∀ K, TurnM.Kept K → TurnM.Keeps K p)
    (hscan : ∀ t : Turn, t.script.GettersHold → t.owner.rs.entry = l.rs.entry →
      (p.run Turn.handle t).1 = .continue → (p.run Turn.handle t).2.owner.Awaiting) :
    Scanned (s.sweepTurn cutoff next due l p) :=
  turnOf_scanned (s := s.withCore (s.note (.acted l.token due))) h hn hl hm hkeep hscan

theorem sweepWall_allAwaiting {surfaced due : Nat} {l : LiveRun} (h : AllAwaiting s)
    (hg : l.rs.phase.isGrace = true) : AllAwaiting (s.sweepWall surfaced due l) := by
  have hact := actOn_allAwaiting (l := l) h surfaced due
  have hrun : AllAwaiting ((s.actOn l surfaced due).2.runFor (s.actOn l surfaced due).1
      TurnM.concludeGraceWall).2.2 :=
    hact.of_still (Core.runTurn_still TurnM.quiet_concludeGraceWall _ _)
  unfold sweepWall
  dsimp only
  split
  · exact hrun.conclude
  · next hnone =>
    refine hrun.leaveThenPark ?_
    exact TurnM.concludeGraceWall_awaits
      { toCore := (s.actOn l surfaced due).2.toCore, owner := (s.actOn l surfaced due).1 }
      ((LiveRun.isGrace_enterTurn _ _ _).trans hg) hnone

theorem AllAwaiting.complete_sweep {cutoff : Nat} {next : After} (h : AllAwaiting s)
    (hpc : s.pc = .sweep cutoff next) : Scanned s :=
  h.scanned fun kind l o => by rw [hpc]; exact Pc.noConfusion

theorem sweepGrace_scanned {cutoff surfaced : Nat} {next : After} {l : LiveRun}
    (hpc : s.pc = .sweep cutoff next) (h : AllAwaiting s)
    (hn : (s.live.map LiveRun.token).Nodup) (hl : l ∈ s.live)
    (hm : s.script.Minds (s.coResidents l.token)) (hg : l.rs.phase.isGrace = true) :
    Scanned (s.sweepGrace cutoff next surfaced l) := by
  have hst := Core.Still.now s.toCore
  have h' : AllAwaiting (s.withCore s.now.2) := h.of_still hst
  have hn' : ((s.withCore s.now.2).live.map LiveRun.token).Nodup := hst.live ▸ hn
  have hl' : l ∈ (s.withCore s.now.2).live := hst.live ▸ hl
  have hm' : (s.withCore s.now.2).script.Minds ((s.withCore s.now.2).coResidents l.token) := by
    refine (hm.rest (Core.Spends.now s.toCore)).mono ?_
    rw [coResidents, show (s.withCore s.now.2).live = s.live from hst.live, coResidents]
    exact List.Subset.refl _
  unfold sweepGrace
  dsimp only
  split
  · exact sweepTurn_scanned h' hn' hl' hm' (fun K hK => TurnM.formed_streamIdleTurn hK.formed)
      fun t ht _ => TurnM.scans_streamIdleTurn t ht
  · split
    · exact (sweepWall_allAwaiting h' hg).complete_sweep ((sweepWall_pc _ _ _ _).trans hpc)
    · have hq : AllAwaiting ((s.withCore s.now.2).queueDeadline l) := by
        rw [AllAwaiting, queueDeadline_toCore]
        exact h'
      exact hq.complete_sweep ((queueDeadline_pc _ _).trans hpc)

theorem sweepRun_scanned {cutoff due : Nat} {next : After} {l : LiveRun}
    (hpc : s.pc = .sweep cutoff next) (h : AllAwaiting s)
    (hn : (s.live.map LiveRun.token).Nodup) (hl : l ∈ s.live)
    (hm : s.script.Minds (s.coResidents l.token)) : Scanned (s.sweepRun cutoff next due l) := by
  unfold sweepRun
  split
  · next hdue =>
    refine sweepTurn_scanned h hn hl hm (fun K hK => TurnM.formed_timerTurn hK.formed) fun t ht he => ?_
    refine TurnM.timerTurn_scans (d := due) t ⟨ht, ?_⟩
    rw [LiveRun.earliestTimer, he]
    exact hdue
  · split
    · next hg => exact sweepGrace_scanned hpc h hn hl hm hg
    · have hrun := (actOn_allAwaiting (l := l) h due due).of_still
        (u := ((s.actOn l due due).2.runFor (s.actOn l due due).1 TurnM.boundaryDeadline).2.2)
        (Core.runTurn_still TurnM.quiet_boundaryDeadline _ _)
      exact hrun.conclude.complete_sweep hpc

theorem sweepPass_scanned {cutoff : Nat} {next : After} (hpc : s.pc = .sweep cutoff next)
    (h : AllAwaiting s) (hn : (s.live.map LiveRun.token).Nodup)
    (hm : ∀ owner ∈ s.turnOwner, s.script.Minds (s.coResidents owner)) :
    Scanned (s.sweepPass cutoff next) := by
  have hdone : Scanned (s.peekValidDeadline.2.goto next.pc) := by
    refine AllAwaiting.scanned (s := s.peekValidDeadline.2.goto next.pc) h ?_
    cases next with
    | top => exact fun _ _ _ => Pc.noConfusion
    | dispatch j => exact fun _ _ _ => Pc.noConfusion
    | deliver token msg stamp => exact fun _ _ _ => Pc.noConfusion
  unfold sweepPass
  dsimp only
  split
  · exact hdone
  · next k hk =>
    split
    · exact hdone
    · obtain ⟨l, hl, hfind, htok, -⟩ := peek_live hk
      rw [show s.peekValidDeadline.2.findRun k.token = some l from hfind]
      have howner : l.token ∈ s.turnOwner := by
        rw [turnOwner, hpc]
        dsimp only
        rw [hk, htok]
        exact rfl
      exact sweepRun_scanned hpc h hn hl (hm _ howner)

theorem beginStart_allAwaiting {j : CallJob} (h : AllAwaiting s) :
    AllAwaiting (s.beginStart j).2 := by
  refine ⟨?_, ?_⟩
  · unfold beginStart
    dsimp only
    split
    · exact (Core.Still.now _).bareTerminate
    · exact (Core.Still.now _).bareTerminate.trans h.1
  · rw [(beginStart_live s j).1]
    exact h.2

theorem beginStart_spends (s : Inst) (j : CallJob) :
    Core.Spends s.toCore (s.beginStart j).2.toCore := by
  unfold beginStart
  dsimp only
  split
  · exact Core.Spends.now (s.noteTurnOwner j).resetReason
  · exact Core.Spends.now (s.noteTurnOwner j).toCore

theorem dispatchJob_scanned {j : CallJob} (h : AllAwaiting s)
    (hm : s.script.Minds (s.live.map LiveRun.token)) : Scanned (s.dispatchJob j) := by
  have hm' : (s.beginStart j).2.script.Minds ((s.beginStart j).2.live.map LiveRun.token) := by
    rw [(beginStart_live s j).1]
    exact hm.rest (beginStart_spends s j)
  have hturn : Scanned
      ((s.beginStart j).2.takeTurn .start (s.beginStart j).1 placeholdersThenCall) :=
    takeTurn_scanned (beginStart_allAwaiting h) hm'
    (TurnM.formed_placeholdersThenCall TurnM.kept_seen.formed)
    fun t hs _ => TurnM.scans_placeholdersThenCall t (show t.script.GettersHold from hs ▸ hm'.getters)
  -- The turn is left before its outcome is looked at.
  generalize hr : (s.beginStart j).2.runTurnOf (s.beginStart j).1 placeholdersThenCall = r
  have hst := Core.Still.now r.2.2.toCore
  have hd : s.dispatchJob j =
      (r.2.2.leaveTurn r.2.1).2.goto (.turned .start (r.2.2.leaveTurn r.2.1).1 r.1) := by
    rw [← hr]
    rfl
  have ht : (s.beginStart j).2.takeTurn .start (s.beginStart j).1 placeholdersThenCall =
      r.2.2.goto (.turned .start r.2.1 r.1) := by
    rw [← hr]
    rfl
  rw [ht] at hturn
  rw [hd]
  refine ⟨fun hb r' hr' => ?_, fun hc => LiveRun.awaiting_leaveTurn _ (hturn.2 hc)⟩
  refine hturn.1 (hst.bareTerminate.symm.trans hb) r' ?_
  change r' ∈ r.2.2.live
  rw [← hst.live]
  exact hr'

theorem deliverEvent_scanned {token stamp : Nat} {msg : Inbound} (h : AllAwaiting s)
    (hn : (s.live.map LiveRun.token).Nodup) (hm : s.script.Minds (s.coResidents token)) :
    Scanned (s.deliverEvent token msg stamp) := by
  unfold deliverEvent
  split
  · exact h
  · next l hfind =>
    have hl : l ∈ s.live := List.mem_of_find?_eq_some hfind
    rw [← findRun_token hfind] at hm
    exact turnOf_scanned (s := s.withCore (s.note (.delivered token stamp l.nextDeadline))) h hn hl hm
      (fun K hK => TurnM.formed_handleLoopEvent hK.formed msg) fun t ht _ => TurnM.scans_handleLoopEvent msg t ht

theorem receive_scanned {e : RoutedEvent} (hpc : s.pc = .wait) (h : AllAwaiting s) :
    Scanned (s.receive e) := by
  unfold receive
  split
  · refine AllAwaiting.scanned h fun kind l o => ?_
    change s.pc ≠ _
    rw [hpc]
    exact Pc.noConfusion
  · exact h
  · exact h

theorem waitStep_scanned (hpc : s.pc = .wait) (h : AllAwaiting s) : Scanned s.waitStep := by
  unfold waitStep
  dsimp only
  split
  · trivial
  · have hnow : Core.Still s.toCore s.peekValidDeadline.2.now.2.now.2 :=
      (Core.Still.now s.toCore).trans (Core.Still.now _)
    generalize hs : s.peekValidDeadline.2.withCore s.peekValidDeadline.2.now.2.now.2 = s₁
    have hall : AllAwaiting s₁ := by
      rw [← hs]
      exact h.of_still hnow
    have hpc₁ : s₁.pc = .wait := by
      rw [← hs]
      exact hpc
    have hwait : Scanned s₁ := hall.scanned fun kind l o => by rw [hpc₁]; exact Pc.noConfusion
    unfold wake
    split
    · exact receive_scanned hpc₁ (hall.of_still ⟨rfl, rfl, rfl, rfl, rfl, rfl, rfl⟩)
    · split
      · trivial
      · split
        · exact hwait
        · split
          · exact hall.of_still (u := s₁.timedOut) (Core.Still.now _)
          · exact hwait

theorem bootStep_scanned (hpc : s.pc = .boot) (h : AllAwaiting s) : Scanned s.bootStep := by
  have hnow : AllAwaiting (s.withCore s.now.2) := h.of_still (Core.Still.now _)
  have hboot : ∀ c, AllAwaiting (s.withCore c) → Scanned (s.withCore c) := by
    intro c hc
    refine hc.scanned fun kind l o => ?_
    change s.pc ≠ _
    rw [hpc]
    exact Pc.noConfusion
  unfold bootStep
  dsimp only
  split
  · split
    · trivial
    · exact hboot _ hnow
  · split
    · exact hnow
    · trivial
    · exact hboot _ hnow

theorem createStep_scanned {j : CallJob} (h : AllAwaiting s) : Scanned (s.createStep j) := by
  unfold createStep
  split
  · exact h
  · exact AllAwaiting.of_still (u := goto (s.withCore _) _) h (Core.Still.finishJob _ _ _ _ _)

theorem brokenStep_scanned {e : RunError} (hpc : s.pc = .broken e) (h : AllAwaiting s) :
    Scanned (s.brokenStep e) := by
  have hnow : AllAwaiting (s.withCore s.now.2) := h.of_still (Core.Still.now _)
  have hbroken : ∀ c, AllAwaiting (s.withCore c) → Scanned (s.withCore c) := by
    intro c hc
    refine hc.scanned fun kind l o => ?_
    change s.pc ≠ _
    rw [hpc]
    exact Pc.noConfusion
  unfold brokenStep
  dsimp only
  split
  · split
    · trivial
    · exact hbroken _ hnow
  · next rest _ =>
    have hrest : AllAwaiting ((s.withCore s.now.2).withCore
        { (s.withCore s.now.2).toCore with queue := rest }) := hnow
    split
    · exact hbroken _ (hrest.of_still (Core.Still.finishJob _ _ _ _ _))
    · exact hbroken _ hrest

theorem advance_scanned (hc : Conserved s) (h : Scanned s)
    (hm : ∀ owner ∈ s.turnOwner, s.script.Minds (s.coResidents owner)) : Scanned s.advance := by
  have hn := hc.live_nodup
  unfold Scanned at h
  unfold advance
  split
  · next hpc =>
    rw [hpc] at h
    exact bootStep_scanned hpc h
  · next hpc =>
    rw [hpc] at h
    exact createStep_scanned h
  · next hpc =>
    rw [hpc] at h
    exact brokenStep_scanned hpc h
  · next hpc =>
    rw [hpc] at h
    exact waitStep_scanned hpc h
  · next hpc =>
    rw [hpc] at h
    exact sweepPass_scanned hpc h hn hm
  · next j hpc =>
    rw [hpc] at h
    refine dispatchJob_scanned h ((hm j.token (by rw [turnOwner, hpc]; rfl)).mono fun token ht => ?_)
    have hne : j.token ∉ s.live.map LiveRun.token :=
      hc.hand_not_live (by rw [hpc]; exact Multiset.mem_singleton_self _)
    exact List.mem_filter.mpr ⟨ht, by simpa using fun e : token = j.token => hne (e ▸ ht)⟩
  · next hpc =>
    rw [hpc] at h
    exact deliverEvent_scanned h hn (hm _ (by rw [turnOwner, hpc]; rfl))
  · next hpc =>
    rw [hpc] at h
    exact concludeTurn_scanned h.1 h.2
  · next hpc =>
    unfold closeStep
    split
    · trivial
    · exact scanned_over (Or.inl hpc)
  · next hpc =>
    unfold taintStep
    split
    · trivial
    · exact scanned_over (Or.inr (Or.inl hpc))
  · next hpc =>
    unfold drainStep
    split
    · trivial
    · dsimp only
      split
      · exact scanned_over (Or.inr (Or.inr (Or.inl hpc)))
      · exact scanned_over (Or.inr (Or.inr (Or.inl hpc)))
  · trivial
  · next hpc => exact scanned_over (Or.inr (Or.inr (Or.inr hpc)))

/-- While no turn settles a promise of a co-resident run, every live run awaits
something at every wait and at every pass of the deadline sweep: no run whose
root promise settled is parked, and none is failed at its wall boundary. -/
theorem no_lost_settlement {clock : Nat} {scripts : List Script}
    (h : Along step KeepsApart (Inst.new clock) scripts) :
    let s := exec step (Inst.new clock) scripts
    (s.pc = .wait ∨ ∃ cutoff next, s.pc = .sweep cutoff next) → ∀ l ∈ s.live, l.Awaiting := by
  intro s hpc
  have hinv : Conserved s ∧ Scanned s := by
    refine Along.invariant (I := fun s => Conserved s ∧ Scanned s) ?_ ?_ h
    · intro s script hs hm
      refine ⟨hs.1.step (step_stepMoves s script), ?_⟩
      exact advance_scanned (s := s.load script) ⟨hs.1.places, hs.1.nodup⟩ hs.2 hm
    · exact ⟨new_conserved clock, rfl, fun r hr => absurd hr List.not_mem_nil⟩
  have hs := hinv.2
  unfold Scanned at hs
  rcases hpc with hpc | ⟨cutoff, next, hpc⟩
  · rw [hpc] at hs
    exact hs.2
  · rw [hpc] at hs
    exact hs.2

/-! ### Two calls on one instance -/

/-- Another job is sent, received and served through its start turn. -/
def thenStarts (j : CallJob) (slices : List Slice) : List Script :=
  [waiting [.arrive j.token (.job j) 0], Script.silent, running slices, Script.silent]

/-- Two calls that do not touch each other both stay parked, awaiting. -/
theorem no_lost_settlement_apart :
    let s := exec step (Inst.new 0)
      (startsWith (timedJob 1 5) ++ thenStarts (timedJob 2 0) (callReturns .pending))
    s.live.length = 2 ∧ ∀ l ∈ s.live, l.Awaiting :=
  ⟨rfl, no_lost_settlement (by decide) (Or.inl rfl)⟩

/-- The second call resolves the promise the first one awaits. -/
def lostSettlement : List Script :=
  startsWith (timedJob 1 5) ++ thenStarts (timedJob 2 0)
    [Slice.idle, Slice.idle, Slice.idle, Slice.idle,
      { Slice.idle with acts := [.settleRoot 1 .fulfilled], completion := .promise .pending }]

/-- The first call's root is fulfilled and its run is parked all the same; its
wall boundary then fails it. -/
theorem settlement_lost :
    let s := exec step (Inst.new 0) lostSettlement
    s.pc = .wait ∧ (∃ l ∈ s.live, l.token = 1 ∧ l.rs.phase = .settling .fulfilled false true) ∧
      Event.concluded 1 (.error .wallTimeout) ∈
        (exec step s [waiting [.pass (fromMillis 5)], Script.silent, Script.silent]).log := by
  refine ⟨rfl, ⟨_, List.mem_cons_self, rfl, rfl⟩, ?_⟩
  exact List.mem_of_getElem? (i := 3) rfl

end Inst

end Iso4
