/-
A run id is free again when the host reuses it.

Whatever the runtime still has of a run (a request on its way, a route, an answer that
is not sent), the host has in its table: it forgets a run when the last frame of the run
is routed, and the runtime sends that frame after the route is dropped.  So an id that
is not in the table is not routed, and a frame on its way to the host finds the run it
is of.  The other direction has no such order: a frame that the host writes late, for a
run that has ended, finds the run that has the id by then.

* `RunWorld.Fresh`, `RunWorld.step_fresh` — what holds in every state;
* `RunWorld.Timely`, `RunWorld.step_timely` — the frames that are written in time;
* `run_ids_fresh` — both over whole runs, and the allocator;
* `late_frame_delivered` — a late frame after the counter has wrapped.
-/
import Iso4.RunIds
import Iso4.Lib.Execution
import Mathlib.Data.List.Nodup

namespace Iso4

namespace RunWire

def startOf : RunWire → Option Nat
  | .start _ run => some run
  | .tagged _ _ => none

end RunWire

namespace RuntimeFrame

def runId : RuntimeFrame → Nat
  | .tagged runId _ => runId
  | .result runId _ _ => runId
  | .runComplete runId _ => runId

/-- The run a frame is of. -/
def run : RuntimeFrame → Nat
  | .tagged _ run => run
  | .result _ run _ => run
  | .runComplete _ run => run

/-- The last frame of its run. -/
def isFinal : RuntimeFrame → Bool
  | .tagged _ _ => false
  | .result _ _ background => !background
  | .runComplete _ _ => true

end RuntimeFrame

namespace RunWorld

variable {w : RunWorld}

/-! ### Ids and stages -/

def idOf (w : RunWorld) (run : Nat) : Option Nat := (w.started[run]?).map StartedId.runId

def stageOf (w : RunWorld) (run : Nat) : Option RunStage := (w.started[run]?).map StartedId.stage

/-- The host has the run in its table. -/
def Known (w : RunWorld) (runId run : Nat) : Prop := ∃ e, w.runs.lookup runId = some e ∧ e.run = run

theorem idOf_of_get {run : Nat} {r : StartedId} (h : w.started[run]? = some r) : w.idOf run = some r.runId := by
  rw [idOf, h]
  rfl

theorem stageOf_of_get {run : Nat} {r : StartedId} (h : w.started[run]? = some r) :
    w.stageOf run = some r.stage := by
  rw [stageOf, h]
  rfl

theorem lt_of_idOf {run id : Nat} (h : w.idOf run = some id) : run < w.started.length := by
  obtain ⟨r, hget, -⟩ := Option.map_eq_some_iff.mp h
  exact (List.getElem?_eq_some_iff.mp hget).1

theorem started_setStage_ne {run i : Nat} (stage : RunStage) (h : run ≠ i) :
    (w.setStage run stage).started[i]? = w.started[i]? := List.getElem?_modify_ne _ _ h

theorem started_setStage_self {run : Nat} {r : StartedId} (stage : RunStage) (h : w.started[run]? = some r) :
    (w.setStage run stage).started[run]? = some { r with stage } := by
  unfold setStage
  rw [List.getElem?_modify_eq, h]
  rfl

theorem idOf_setStage (w : RunWorld) (run : Nat) (stage : RunStage) (i : Nat) :
    (w.setStage run stage).idOf i = w.idOf i := by
  unfold idOf
  by_cases heq : run = i
  · subst heq
    cases hr : w.started[run]? with
    | none =>
      have hlen : (w.setStage run stage).started.length ≤ run := by
        rw [setStage, List.length_modify]
        exact List.getElem?_eq_none_iff.mp hr
      rw [List.getElem?_eq_none hlen]
    | some r =>
      rw [started_setStage_self stage hr]
      rfl
  · rw [started_setStage_ne stage heq]

theorem stageOf_setStage_ne {run i : Nat} (stage : RunStage) (h : run ≠ i) :
    (w.setStage run stage).stageOf i = w.stageOf i := by
  rw [stageOf, started_setStage_ne stage h]
  rfl

theorem stageOf_setStage_self {run : Nat} {cur : RunStage} (stage : RunStage) (h : w.stageOf run = some cur) :
    (w.setStage run stage).stageOf run = some stage := by
  obtain ⟨r, hget, -⟩ := Option.map_eq_some_iff.mp h
  exact stageOf_of_get (started_setStage_self stage hget)

theorem Known.unique {id run run' : Nat} (h : w.Known id run) (h' : w.Known id run') : run = run' := by
  obtain ⟨e, hlookup, rfl⟩ := h
  obtain ⟨e', hlookup', rfl⟩ := h'
  rw [hlookup] at hlookup'
  cases hlookup'
  rfl

/-! ### The invariant -/

structure Fresh (w : RunWorld) : Prop where
  ids : ∀ run id, w.idOf run = some id → id ≠ 0
  /-- An entry is of the newest run with its id. -/
  entries : ∀ id e, w.runs.lookup id = some e →
    w.idOf e.run = some id ∧ ∀ run, e.run < run → w.idOf run ≠ some id
  /-- A run that is not answered is in the table of the host. -/
  unanswered : ∀ run id stage, w.idOf run = some id → w.stageOf run = some stage →
    stage ≠ .answered → w.Known id run
  routed : ∀ id run, w.routes.lookup id = some run →
    w.idOf run = some id ∧ ∃ early, w.stageOf run = some (.running early)
  /-- A frame on its way finds its run. -/
  known : ∀ f ∈ w.toHost, w.Known f.runId f.run
  answered : ∀ f ∈ w.toHost, f.isFinal = true → w.stageOf f.run = some .answered
  /-- Nothing comes after the last frame of a run. -/
  order : w.toHost.Pairwise fun f g => f.isFinal = true → g.run ≠ f.run
  requests : ∀ id run, RunWire.start id run ∈ w.toRuntime →
    w.idOf run = some id ∧ w.stageOf run = some .requested
  distinct : (w.toRuntime.filterMap RunWire.startOf).Nodup
  toEntry : ∀ p ∈ w.toEntry, p.1 = p.2
  duplicates : w.duplicates = []

theorem Fresh.new : Fresh .new where
  ids := fun _ _ h => by cases h
  entries := fun _ _ h => by cases h
  unanswered := fun _ _ _ h => by cases h
  routed := fun _ _ h => by cases h
  known := fun _ h => absurd h List.not_mem_nil
  answered := fun _ h => absurd h List.not_mem_nil
  order := .nil
  requests := fun _ _ h => absurd h List.not_mem_nil
  distinct := List.nodup_nil
  toEntry := fun _ h => absurd h List.not_mem_nil
  duplicates := rfl

/-- A run moves on to another stage. -/
theorem Fresh.setStage (h : Fresh w) {run : Nat} {cur : RunStage} (stage : RunStage)
    (hcur : w.stageOf run = some cur) (hopen : cur ≠ .answered)
    (hrouted : ∀ id, w.routes.lookup id = some run → ∃ early, stage = .running early)
    (hsent : ∀ id, RunWire.start id run ∉ w.toRuntime) : Fresh (w.setStage run stage) where
  ids := fun i id hi => h.ids i id ((idOf_setStage w run stage i).symm.trans hi)
  entries := by
    intro id e he
    obtain ⟨hid, hnew⟩ := h.entries id e he
    refine ⟨(idOf_setStage w run stage e.run).trans hid, fun i hi => ?_⟩
    rw [idOf_setStage]
    exact hnew i hi
  unanswered := by
    intro i id st hid hst hne
    rw [idOf_setStage] at hid
    by_cases heq : run = i
    · subst heq
      exact h.unanswered run id cur hid hcur hopen
    · rw [stageOf_setStage_ne stage heq] at hst
      exact h.unanswered i id st hid hst hne
  routed := by
    intro id i hi
    obtain ⟨hid, early, hst⟩ := h.routed id i hi
    refine ⟨(idOf_setStage w run stage i).trans hid, ?_⟩
    by_cases heq : run = i
    · subst heq
      obtain ⟨early', rfl⟩ := hrouted id hi
      exact ⟨early', stageOf_setStage_self _ hcur⟩
    · exact ⟨early, (stageOf_setStage_ne stage heq).trans hst⟩
  known := h.known
  answered := by
    intro f hf hfinal
    have hst := h.answered f hf hfinal
    refine (stageOf_setStage_ne stage ?_).trans hst
    rintro rfl
    rw [hcur] at hst
    exact hopen (Option.some.inj hst)
  order := h.order
  requests := by
    intro id i hi
    obtain ⟨hid, hst⟩ := h.requests id i hi
    refine ⟨(idOf_setStage w run stage i).trans hid, (stageOf_setStage_ne stage ?_).trans hst⟩
    rintro rfl
    exact hsent id hi
  distinct := h.distinct
  toEntry := h.toEntry
  duplicates := h.duplicates

/-- A frame is sent to the host. -/
theorem Fresh.send (h : Fresh w) {f : RuntimeFrame} (hknown : w.Known f.runId f.run)
    (hfinal : f.isFinal = true → w.stageOf f.run = some .answered)
    (hlast : ∀ g ∈ w.toHost, g.isFinal = true → f.run ≠ g.run) :
    Fresh { w with toHost := w.toHost ++ [f] } where
  ids := h.ids
  entries := h.entries
  unanswered := h.unanswered
  routed := h.routed
  known := by
    intro g hg
    rcases List.mem_append.mp hg with hg | hg
    · exact h.known g hg
    · rw [List.mem_singleton.mp hg]
      exact hknown
  answered := by
    intro g hg
    rcases List.mem_append.mp hg with hg | hg
    · exact h.answered g hg
    · rw [List.mem_singleton.mp hg]
      exact hfinal
  order := by
    refine List.pairwise_append.mpr ⟨h.order, List.pairwise_singleton _ _, fun g hg f' hf' => ?_⟩
    rw [List.mem_singleton.mp hf']
    exact hlast g hg
  requests := h.requests
  distinct := h.distinct
  toEntry := h.toEntry
  duplicates := h.duplicates

/-- No last frame of a run is on its way while the run is not answered. -/
theorem Fresh.not_final (h : Fresh w) {run : Nat} {cur : RunStage} (hcur : w.stageOf run = some cur)
    (hopen : cur ≠ .answered) : ∀ g ∈ w.toHost, g.isFinal = true → run ≠ g.run := by
  rintro g hg hfinal rfl
  have hst := h.answered g hg hfinal
  rw [hcur] at hst
  exact hopen (Option.some.inj hst)

theorem Fresh.not_requested (h : Fresh w) {run : Nat} {cur : RunStage} (hcur : w.stageOf run = some cur)
    (hopen : cur ≠ .requested) (id : Nat) : RunWire.start id run ∉ w.toRuntime := by
  intro hmem
  have hst := (h.requests id run hmem).2
  rw [hcur] at hst
  exact hopen (Option.some.inj hst)

theorem Fresh.not_routed (h : Fresh w) {run id : Nat} {cur : RunStage} (hcur : w.stageOf run = some cur)
    (hstopped : ∀ early, cur ≠ .running early) : w.routes.lookup id ≠ some run := by
  intro hlookup
  obtain ⟨-, early, hst⟩ := h.routed id run hlookup
  rw [hcur] at hst
  exact hstopped early (Option.some.inj hst)

/-- A run that is not routed is answered. -/
theorem Fresh.answer (h : Fresh w) {run id : Nat} {cur : RunStage} (hid : w.idOf run = some id)
    (hcur : w.stageOf run = some cur) (hopen : cur ≠ .answered) (hstopped : ∀ early, cur ≠ .running early)
    (hsent : ∀ id, RunWire.start id run ∉ w.toRuntime) {f : RuntimeFrame} (hf : f.runId = id ∧ f.run = run) :
    Fresh { w.setStage run .answered with toHost := w.toHost ++ [f] } := by
  obtain ⟨rfl, rfl⟩ := hf
  have hstage : Fresh (w.setStage f.run .answered) :=
    h.setStage .answered hcur hopen (fun _ hlookup => absurd hlookup (h.not_routed hcur hstopped)) hsent
  have hknown : (w.setStage f.run .answered).Known f.runId f.run := h.unanswered f.run _ cur hid hcur hopen
  exact hstage.send hknown (fun _ => stageOf_setStage_self .answered hcur) (h.not_final hcur hopen)

/-- The frames on their way to the runtime change, with no new request. -/
theorem Fresh.requeue (h : Fresh w) {toRuntime : List RunWire}
    (hsub : (toRuntime.filterMap RunWire.startOf).Sublist (w.toRuntime.filterMap RunWire.startOf))
    (hmem : ∀ id run, RunWire.start id run ∈ toRuntime → RunWire.start id run ∈ w.toRuntime) :
    Fresh { w with toRuntime } where
  ids := h.ids
  entries := h.entries
  unanswered := h.unanswered
  routed := h.routed
  known := h.known
  answered := h.answered
  order := h.order
  requests := fun id run hf => h.requests id run (hmem id run hf)
  distinct := h.distinct.sublist hsub
  toEntry := h.toEntry
  duplicates := h.duplicates

theorem Fresh.routes (h : Fresh w) {routes : AList fun _ : Nat => Nat}
    (hroutes : ∀ id run, routes.lookup id = some run →
      w.idOf run = some id ∧ ∃ early, w.stageOf run = some (.running early)) :
    Fresh { w with routes } where
  ids := h.ids
  entries := h.entries
  unanswered := h.unanswered
  routed := hroutes
  known := h.known
  answered := h.answered
  order := h.order
  requests := h.requests
  distinct := h.distinct
  toEntry := h.toEntry
  duplicates := h.duplicates

/-! ### The steps of the runtime -/

theorem startRun_fresh (h : Fresh w) (taken : Bool) {id run : Nat} (hid : w.idOf run = some id)
    (hcur : w.stageOf run = some .requested) (hsent : ∀ id, RunWire.start id run ∉ w.toRuntime) :
    Fresh (w.startRun taken id run) := by
  have hopen : RunStage.requested ≠ .answered := RunStage.noConfusion
  have hstopped : ∀ early, RunStage.requested ≠ .running early := fun _ => RunStage.noConfusion
  have hknown := h.unanswered run id _ hid hcur hopen
  -- an id that is routed is that of the run itself, which is not routed yet
  have hfree : w.routes.lookup id = none := by
    cases hlookup : w.routes.lookup id with
    | none => rfl
    | some owner =>
      obtain ⟨hown, early, hst⟩ := h.routed id owner hlookup
      have heq := (h.unanswered owner id _ hown hst RunStage.noConfusion).unique hknown
      rw [heq, hcur] at hst
      cases hst
  unfold startRun
  rw [hfree]
  cases taken with
  | true =>
    have hstage : Fresh (w.setStage run (.running false)) :=
      h.setStage _ hcur hopen (fun _ _ => ⟨false, rfl⟩) hsent
    refine hstage.routes fun id' run' hlookup => ?_
    by_cases heq : id' = id
    · subst heq
      rw [AList.lookup_insert] at hlookup
      cases hlookup
      exact ⟨(idOf_setStage w run _ run).trans hid, false, stageOf_setStage_self _ hcur⟩
    · rw [AList.lookup_insert_ne heq] at hlookup
      exact hstage.routed id' run' hlookup
  | false => exact h.answer hid hcur hopen hstopped hsent ⟨rfl, rfl⟩

theorem receive_fresh (h : Fresh w) (taken : Bool) : Fresh (w.step (.receive taken)) := by
  unfold step
  dsimp only
  cases hqueue : w.toRuntime with
  | nil => exact h
  | cons f rest =>
    have hmem : ∀ id run, RunWire.start id run ∈ rest → RunWire.start id run ∈ w.toRuntime := by
      intro id run hf
      rw [hqueue]
      exact List.mem_cons_of_mem f hf
    have hsub : (rest.filterMap RunWire.startOf).Sublist (w.toRuntime.filterMap RunWire.startOf) := by
      rw [hqueue]
      exact (List.sublist_cons_self f rest).filterMap _
    have hrest : Fresh { w with toRuntime := rest } := h.requeue hsub hmem
    cases f with
    | start id run =>
      obtain ⟨hid, hcur⟩ := h.requests id run (by rw [hqueue]; exact List.mem_cons_self)
      refine startRun_fresh hrest taken hid hcur fun id' hmem' => ?_
      have hdistinct := h.distinct
      rw [hqueue] at hdistinct
      exact (List.nodup_cons.mp hdistinct).1 (List.mem_filterMap.mpr ⟨_, hmem', rfl⟩)
    | tagged id run =>
      dsimp only [handleFrame]
      split
      · exact hrest
      · exact ⟨hrest.ids, hrest.entries, hrest.unanswered, hrest.routed, hrest.known, hrest.answered,
          hrest.order, hrest.requests, hrest.distinct, hrest.toEntry, hrest.duplicates⟩

/-- A run on its thread. -/
theorem runSends_fresh (h : Fresh w) {run : Nat} {r : StartedId} (hr : w.started[run]? = some r) :
    Fresh (w.runStep run r (.runSends run)) := by
  have hid := idOf_of_get hr
  have hcur := stageOf_of_get hr
  dsimp only [runStep]
  split
  · next early hstage =>
    rw [hstage] at hcur
    exact h.send (f := .tagged r.runId run) (h.unanswered run _ _ hid hcur RunStage.noConfusion)
      (fun hfinal => by cases hfinal) (h.not_final hcur RunStage.noConfusion)
  · exact h

theorem earlyResult_fresh (h : Fresh w) {run : Nat} {r : StartedId} (hr : w.started[run]? = some r) :
    Fresh (w.runStep run r (.earlyResult run)) := by
  have hid := idOf_of_get hr
  have hcur := stageOf_of_get hr
  dsimp only [runStep]
  split
  · next hstage =>
    rw [hstage] at hcur
    have hopen : RunStage.running false ≠ .answered := RunStage.noConfusion
    have hmoved : Fresh (w.setStage run (.running true)) :=
      h.setStage _ hcur hopen (fun _ _ => ⟨true, rfl⟩) (h.not_requested hcur RunStage.noConfusion)
    exact hmoved.send (f := .result r.runId run true) (h.unanswered run _ _ hid hcur hopen)
      (fun hfinal => by cases hfinal) (h.not_final hcur hopen)
  · exact h

theorem finished_fresh (h : Fresh w) {run : Nat} {r : StartedId} (hr : w.started[run]? = some r) :
    Fresh (w.runStep run r (.finished run)) := by
  have hid := idOf_of_get hr
  have hcur := stageOf_of_get hr
  dsimp only [runStep]
  split
  · next early hstage =>
    rw [hstage] at hcur
    have hothers : ∀ id i, (w.routes.erase r.runId).lookup id = some i → w.routes.lookup id = some i ∧ i ≠ run := by
      intro id i hlookup
      have hne : id ≠ r.runId := by
        rintro rfl
        rw [AList.lookup_erase] at hlookup
        cases hlookup
      rw [AList.lookup_erase_ne hne] at hlookup
      refine ⟨hlookup, ?_⟩
      rintro rfl
      have hown := (h.routed id i hlookup).1
      rw [hid] at hown
      exact hne (Option.some.inj hown).symm
    have hdropped : Fresh { w with routes := w.routes.erase r.runId } :=
      h.routes fun id i hlookup => h.routed id i (hothers id i hlookup).1
    exact hdropped.setStage (.concluded early) hcur RunStage.noConfusion
      (fun id hlookup => absurd rfl (hothers id run hlookup).2)
      (h.not_requested hcur RunStage.noConfusion)
  · exact h

theorem completion_fresh (h : Fresh w) {run : Nat} {r : StartedId} (hr : w.started[run]? = some r)
    (output : Bool) : Fresh (w.runStep run r (.completion run output)) := by
  have hid := idOf_of_get hr
  have hcur := stageOf_of_get hr
  dsimp only [runStep]
  split
  · next early hstage =>
    rw [hstage] at hcur
    refine h.answer hid hcur RunStage.noConfusion (fun _ => RunStage.noConfusion)
      (h.not_requested hcur RunStage.noConfusion) ?_
    cases early <;> cases output <;> exact ⟨rfl, rfl⟩
  · exact h

/-! ### The steps of the host -/

theorem nextRunIdValue_spec {id : Nat} (h : w.nextRunIdValue = some id) :
    id ≠ 0 ∧ w.runs.lookup id = none := by
  obtain ⟨-, hfree⟩ := Cyclic.firstAfter_spec (Nat.two_pow_pos 32) h
  rw [Bool.or_eq_false_iff] at hfree
  refine ⟨fun hzero => ?_, ?_⟩
  · rw [hzero] at hfree
    exact absurd hfree.1 (by decide)
  · rw [← Option.not_isSome_iff_eq_none, hfree.2]
    exact Bool.false_ne_true

/-- A run that starts, beside the runs there are. -/
def begun (w : RunWorld) (runId : Nat) : RunWorld :=
  { w with
    nextRunId := runId
    runs := w.runs.insert runId ⟨w.started.length, false⟩
    toRuntime := w.toRuntime ++ [.start runId w.started.length]
    started := w.started ++ [⟨runId, .requested⟩] }

theorem begun_new (w : RunWorld) (runId : Nat) :
    (w.begun runId).started[w.started.length]? = some ⟨runId, .requested⟩ := List.getElem?_concat_length

theorem begun_old (runId : Nat) {i : Nat} {r : StartedId} (h : w.started[i]? = some r) :
    (w.begun runId).started[i]? = some r := by
  unfold begun
  dsimp only
  rw [List.getElem?_append_left (List.getElem?_eq_some_iff.mp h).1]
  exact h

/-- A run is an old one or the one that starts. -/
theorem begun_cases {runId i : Nat} {r : StartedId} (h : (w.begun runId).started[i]? = some r) :
    w.started[i]? = some r ∨ i = w.started.length ∧ r = ⟨runId, .requested⟩ := by
  rcases Nat.lt_or_ge i w.started.length with hlt | hge
  · unfold begun at h
    dsimp only at h
    rw [List.getElem?_append_left hlt] at h
    exact Or.inl h
  · have hlt : i < (w.started ++ [(⟨runId, .requested⟩ : StartedId)]).length := (List.getElem?_eq_some_iff.mp h).1
    rw [List.length_append, List.length_singleton] at hlt
    have heq : i = w.started.length := by omega
    rw [heq, begun_new] at h
    exact Or.inr ⟨heq, (Option.some.inj h).symm⟩

theorem idOf_begun (runId : Nat) {i id : Nat} (h : w.idOf i = some id) : (w.begun runId).idOf i = some id := by
  obtain ⟨r, hget, rfl⟩ := Option.map_eq_some_iff.mp h
  exact idOf_of_get (begun_old runId hget)

theorem stageOf_begun (runId : Nat) {i : Nat} {stage : RunStage} (h : w.stageOf i = some stage) :
    (w.begun runId).stageOf i = some stage := by
  obtain ⟨r, hget, rfl⟩ := Option.map_eq_some_iff.mp h
  exact stageOf_of_get (begun_old runId hget)

theorem known_begun {runId id i : Nat} (hfree : w.runs.lookup runId = none) (h : w.Known id i) :
    (w.begun runId).Known id i := by
  obtain ⟨e, hlookup, hrun⟩ := h
  have hne : id ≠ runId := by
    rintro rfl
    rw [hfree] at hlookup
    cases hlookup
  exact ⟨e, (AList.lookup_insert_ne hne).trans hlookup, hrun⟩

theorem Fresh.begun (h : Fresh w) {runId : Nat} (hzero : runId ≠ 0) (hfree : w.runs.lookup runId = none) :
    Fresh (w.begun runId) where
  ids := by
    intro i id hid
    obtain ⟨r, hget, rfl⟩ := Option.map_eq_some_iff.mp hid
    rcases begun_cases hget with hget | ⟨-, rfl⟩
    · exact h.ids i _ (idOf_of_get hget)
    · exact hzero
  entries := by
    intro id e he
    by_cases heq : id = runId
    · subst heq
      rw [RunWorld.begun, AList.lookup_insert] at he
      cases he
      refine ⟨idOf_of_get (begun_new w id), fun i hi hid => ?_⟩
      have hlt : i < (w.started ++ [(⟨id, .requested⟩ : StartedId)]).length := lt_of_idOf hid
      rw [List.length_append, List.length_singleton] at hlt
      dsimp only at hi
      omega
    · rw [RunWorld.begun, AList.lookup_insert_ne heq] at he
      obtain ⟨hid, hlater⟩ := h.entries id e he
      refine ⟨idOf_begun runId hid, fun i hi hid' => ?_⟩
      obtain ⟨r, hget, rfl⟩ := Option.map_eq_some_iff.mp hid'
      rcases begun_cases hget with hget | ⟨-, rfl⟩
      · exact hlater i hi (idOf_of_get hget)
      · exact heq rfl
  unanswered := by
    intro i id stage hid hstage hne
    obtain ⟨r, hget, rfl⟩ := Option.map_eq_some_iff.mp hid
    rcases begun_cases hget with hold | ⟨rfl, rfl⟩
    · rw [stageOf_of_get hget] at hstage
      exact known_begun hfree (h.unanswered i _ stage (idOf_of_get hold) ((stageOf_of_get hold).trans hstage) hne)
    · exact ⟨⟨w.started.length, false⟩, AList.lookup_insert _, rfl⟩
  routed := by
    intro id i hlookup
    obtain ⟨hid, early, hstage⟩ := h.routed id i hlookup
    exact ⟨idOf_begun runId hid, early, stageOf_begun runId hstage⟩
  known := fun f hf => known_begun hfree (h.known f hf)
  answered := fun f hf hfinal => stageOf_begun runId (h.answered f hf hfinal)
  order := h.order
  requests := by
    intro id i hmem
    rcases List.mem_append.mp hmem with hmem | hmem
    · obtain ⟨hid, hstage⟩ := h.requests id i hmem
      exact ⟨idOf_begun runId hid, stageOf_begun runId hstage⟩
    · cases List.mem_singleton.mp hmem
      exact ⟨idOf_of_get (begun_new w runId), stageOf_of_get (begun_new w runId)⟩
  distinct := by
    show ((w.toRuntime ++ [RunWire.start runId w.started.length]).filterMap RunWire.startOf).Nodup
    rw [List.filterMap_append]
    refine List.nodup_append.mpr ⟨h.distinct, List.nodup_singleton _, ?_⟩
    rintro a ha b hb rfl
    obtain ⟨f, hf, hstart⟩ := List.mem_filterMap.mp ha
    cases f with
    | tagged _ _ => cases hstart
    | start id i =>
      have hlt := lt_of_idOf (h.requests id i hf).1
      cases hstart
      have heq : a = w.started.length := List.mem_singleton.mp hb
      omega
  toEntry := h.toEntry
  duplicates := h.duplicates

/-- What a call that starts a run does: nothing if the allocator does not return, else the
counter moves, and the run starts if its request can be encoded. -/
theorem start_keeps {P : RunWorld → Prop} (hw : P w) (encodes : Bool)
    (hcounter : ∀ runId, P { w with nextRunId := runId })
    (hbegun : ∀ runId, runId ≠ 0 → w.runs.lookup runId = none → P (w.begun runId)) : P (w.start encodes) := by
  unfold start
  cases hnext : w.nextRunIdValue with
  | none => exact hw
  | some runId =>
    obtain ⟨hzero, hfree⟩ := nextRunIdValue_spec hnext
    cases encodes with
    | false => exact hcounter runId
    | true => exact hbegun runId hzero hfree

theorem start_fresh (h : Fresh w) (encodes : Bool) : Fresh (w.start encodes) := by
  refine start_keeps h encodes (fun runId => ?_) fun runId hzero hfree => h.begun hzero hfree
  exact ⟨h.ids, h.entries, h.unanswered, h.routed, h.known, h.answered, h.order, h.requests,
    h.distinct, h.toEntry, h.duplicates⟩

theorem hostWrites_fresh (h : Fresh w) (run : Nat) (r : StartedId) :
    Fresh (w.runStep run r (.hostWrites run)) := by
  refine h.requeue ?_ fun id i hmem => ?_
  · rw [List.filterMap_append]
    show List.Sublist (w.toRuntime.filterMap RunWire.startOf ++ []) _
    rw [List.append_nil]
  · rcases List.mem_append.mp hmem with hmem | hmem
    · exact hmem
    · cases List.mem_singleton.mp hmem

/-- A frame is taken off the way to the host. -/
theorem Fresh.pop (h : Fresh w) {f : RuntimeFrame} {rest : List RuntimeFrame} (hqueue : w.toHost = f :: rest) :
    Fresh { w with toHost := rest } where
  ids := h.ids
  entries := h.entries
  unanswered := h.unanswered
  routed := h.routed
  known := fun g hg => h.known g (by rw [hqueue]; exact List.mem_cons_of_mem f hg)
  answered := fun g hg => h.answered g (by rw [hqueue]; exact List.mem_cons_of_mem f hg)
  order := by
    have horder := h.order
    rw [hqueue] at horder
    exact (List.pairwise_cons.mp horder).2
  requests := h.requests
  distinct := h.distinct
  toEntry := h.toEntry
  duplicates := h.duplicates

theorem Fresh.desync (h : Fresh w) : Fresh w.desync :=
  ⟨h.ids, h.entries, h.unanswered, h.routed, h.known, h.answered, h.order, h.requests, h.distinct,
    h.toEntry, h.duplicates⟩

/-- The entry of a run becomes its epilogue. -/
theorem Fresh.epilogue (h : Fresh w) {id : Nat} {e : HostRun} (hlookup : w.runs.lookup id = some e) :
    Fresh { w with runs := w.runs.insert id { e with epilogue := true } } := by
  have hknown : ∀ {id' run : Nat}, w.Known id' run →
      ∃ e', (w.runs.insert id { e with epilogue := true }).lookup id' = some e' ∧ e'.run = run := by
    rintro id' run ⟨e', hlookup', hrun⟩
    by_cases heq : id' = id
    · subst heq
      rw [hlookup] at hlookup'
      cases hlookup'
      exact ⟨_, AList.lookup_insert _, hrun⟩
    · exact ⟨e', by rw [AList.lookup_insert_ne heq]; exact hlookup', hrun⟩
  refine ⟨h.ids, fun id' e' he' => ?_, fun run id' stage hid hstage hne => ?_, h.routed,
    fun f hf => hknown (h.known f hf), h.answered, h.order, h.requests, h.distinct, h.toEntry, h.duplicates⟩
  · by_cases heq : id' = id
    · subst heq
      dsimp only at he'
      rw [AList.lookup_insert] at he'
      cases he'
      exact h.entries id' e hlookup
    · dsimp only at he'
      rw [AList.lookup_insert_ne heq] at he'
      exact h.entries id' e' he'
  · exact hknown (h.unanswered run id' stage hid hstage hne)

/-- The host forgets a run when its last frame is routed. -/
theorem Fresh.forget (h : Fresh w) {f : RuntimeFrame} {rest : List RuntimeFrame}
    (hqueue : w.toHost = f :: rest) (hfinal : f.isFinal = true) :
    Fresh { w with toHost := rest, runs := w.runs.erase f.runId } := by
  have hmem : f ∈ w.toHost := by
    rw [hqueue]
    exact List.mem_cons_self
  -- the id is that of this run and of no other in the table
  have hkept : ∀ {id run : Nat}, w.Known id run → run ≠ f.run →
      ∃ e, (w.runs.erase f.runId).lookup id = some e ∧ e.run = run := by
    intro id run hrun hne
    have hother : id ≠ f.runId := by
      rintro rfl
      exact hne (hrun.unique (h.known f hmem))
    obtain ⟨e, hlookup, heq⟩ := hrun
    exact ⟨e, by rw [AList.lookup_erase_ne hother]; exact hlookup, heq⟩
  have hpop := h.pop hqueue
  refine ⟨h.ids, fun id e he => ?_, fun run id stage hid hstage hne => ?_, h.routed, fun g hg => ?_,
    hpop.answered, hpop.order, h.requests, h.distinct, h.toEntry, h.duplicates⟩
  · have hother : id ≠ f.runId := by
      rintro rfl
      dsimp only at he
      rw [AList.lookup_erase] at he
      cases he
    dsimp only at he
    rw [AList.lookup_erase_ne hother] at he
    exact h.entries id e he
  · refine hkept (h.unanswered run id stage hid hstage hne) ?_
    rintro rfl
    have hanswered := h.answered f hmem hfinal
    have hstage' : w.stageOf f.run = some stage := hstage
    rw [hanswered] at hstage'
    exact hne (Option.some.inj hstage').symm
  · have horder := h.order
    rw [hqueue] at horder
    exact hkept (hpop.known g hg) ((List.pairwise_cons.mp horder).1 g hg hfinal)

theorem routeFrame_fresh (h : Fresh w) {f : RuntimeFrame} {rest : List RuntimeFrame}
    (hqueue : w.toHost = f :: rest) : Fresh ({ w with toHost := rest }.routeFrame f) := by
  have hpop := h.pop hqueue
  have hmem : f ∈ w.toHost := by
    rw [hqueue]
    exact List.mem_cons_self
  obtain ⟨e, hlookup, hrun⟩ := h.known f hmem
  cases f with
  | tagged runId run =>
    dsimp only [routeFrame]
    change w.runs.lookup runId = some e at hlookup
    rw [hlookup]
    refine ⟨hpop.ids, hpop.entries, hpop.unanswered, hpop.routed, hpop.known, hpop.answered,
      hpop.order, hpop.requests, hpop.distinct, fun p hp => ?_, hpop.duplicates⟩
    rcases List.mem_append.mp hp with hp | hp
    · exact h.toEntry p hp
    · rw [List.mem_singleton.mp hp]
      exact hrun.symm
  | result runId run background =>
    dsimp only [routeFrame, routeResult]
    change w.runs.lookup runId = some e at hlookup
    rw [hlookup]
    dsimp only
    by_cases hepilogue : e.epilogue = true
    · rw [if_pos hepilogue]
      exact hpop.desync
    · rw [if_neg hepilogue]
      cases background with
      | true => exact hpop.epilogue hlookup
      | false => exact h.forget hqueue rfl
  | runComplete runId run =>
    dsimp only [routeFrame, routeRunComplete]
    change w.runs.lookup runId = some e at hlookup
    rw [hlookup]
    dsimp only
    by_cases hepilogue : e.epilogue = true
    · rw [if_pos hepilogue]
      exact h.forget hqueue rfl
    · rw [if_neg hepilogue]
      exact hpop.desync

theorem onHost_keeps {P : RunWorld → Prop} {w' : RunWorld} (hw : P w) (hw' : P w') : P (w.onHost w') := by
  unfold onHost
  split
  · exact hw
  · exact hw'

/-- What a run does to a state it is not in is nothing. -/
theorem elim_keeps {P : RunWorld → Prop} (hw : P w) {run : Nat} {f : StartedId → RunWorld}
    (hf : ∀ r, w.started[run]? = some r → P (f r)) : P ((w.started[run]?).elim w f) := by
  cases hr : w.started[run]? with
  | none => exact hw
  | some r => exact hf r hr

theorem step_fresh (e : RunIdStep) (h : Fresh w) : Fresh (w.step e) := by
  cases e with
  | start encodes => exact onHost_keeps h (start_fresh h encodes)
  | hostWrites run => exact onHost_keeps h (elim_keeps h fun r _ => hostWrites_fresh h run r)
  | receive taken => exact receive_fresh h taken
  | runSends run => exact elim_keeps h fun _ => runSends_fresh h
  | earlyResult run => exact elim_keeps h fun _ => earlyResult_fresh h
  | finished run => exact elim_keeps h fun _ => finished_fresh h
  | completion run output => exact elim_keeps h fun _ hr => completion_fresh h hr output
  | route =>
    unfold step
    dsimp only
    cases hqueue : w.toHost with
    | nil => exact h
    | cons f rest => exact onHost_keeps h (routeFrame_fresh h hqueue)
  | close => exact h.desync

/-! ### Frames written in time -/

structure Timely (w : RunWorld) : Prop where
  /-- A newer run with the same id starts behind the frame. -/
  ahead : ∀ id run rest, (RunWire.tagged id run :: rest) <:+ w.toRuntime →
    w.idOf run = some id ∧
      ∀ newer, run < newer → w.idOf newer = some id → RunWire.start id newer ∈ rest
  toRun : ∀ p ∈ w.toRun, p.1 = p.2

theorem Timely.new : Timely .new where
  ahead := fun _ _ _ h => by cases List.suffix_nil.mp h
  toRun := fun _ h => absurd h List.not_mem_nil

/-- What is kept when neither the ids nor the frames for the runtime change. -/
theorem Timely.same (h : Timely w) {w' : RunWorld} (hids : ∀ i, w'.idOf i = w.idOf i)
    (hqueue : w'.toRuntime = w.toRuntime) (htoRun : w'.toRun = w.toRun) : Timely w' where
  ahead := by
    intro id run rest hsuffix
    rw [hqueue] at hsuffix
    obtain ⟨hid, hnewer⟩ := h.ahead id run rest hsuffix
    refine ⟨(hids run).trans hid, fun newer hlt hnew => hnewer newer hlt ?_⟩
    exact (hids newer).symm.trans hnew
  toRun := by
    rw [htoRun]
    exact h.toRun

/-- A suffix of a queue to which a frame was added. -/
theorem suffix_added {q rest : List RunWire} {f g : RunWire} (h : (f :: rest) <:+ q ++ [g]) :
    (rest = [] ∧ f = g) ∨ ∃ rest', rest = rest' ++ [g] ∧ (f :: rest') <:+ q := by
  rcases List.suffix_concat_iff.mp h with hnil | ⟨t, heq, ht⟩
  · cases hnil
  · cases t with
    | nil =>
      cases heq
      exact Or.inl ⟨rfl, rfl⟩
    | cons x t =>
      cases heq
      exact Or.inr ⟨t, rfl, ht⟩

theorem Timely.begun (h : Timely w) (runId : Nat) : Timely (w.begun runId) where
  ahead := by
    intro id run rest hsuffix
    rcases suffix_added hsuffix with ⟨-, hf⟩ | ⟨rest', rfl, hold⟩
    · cases hf
    · obtain ⟨hid, hnewer⟩ := h.ahead id run rest' hold
      refine ⟨idOf_begun runId hid, fun newer hlt hnew => ?_⟩
      obtain ⟨r, hget, rfl⟩ := Option.map_eq_some_iff.mp hnew
      rcases begun_cases hget with hget | ⟨rfl, rfl⟩
      · exact List.mem_append_left _ (hnewer newer hlt (idOf_of_get hget))
      · exact List.mem_append_right _ (List.mem_singleton.mpr rfl)
  toRun := h.toRun

theorem Timely.hostWrites (h : Timely w) {run : Nat} {r : StartedId} (hr : w.started[run]? = some r)
    (hintime : w.InTime (.hostWrites run)) : Timely (w.runStep run r (.hostWrites run)) where
  ahead := by
    intro id run' rest hsuffix
    rcases suffix_added hsuffix with ⟨rfl, hf⟩ | ⟨rest', rfl, hold⟩
    · cases hf
      refine ⟨idOf_of_get hr, fun newer hlt hnew => ?_⟩
      obtain ⟨r', hget, heq⟩ := Option.map_eq_some_iff.mp hnew
      have hdrop : r' ∈ w.started.drop (run + 1) := by
        refine List.mem_iff_getElem?.mpr ⟨newer - (run + 1), ?_⟩
        have hsum : run + 1 + (newer - (run + 1)) = newer := by omega
        rw [List.getElem?_drop, hsum]
        exact hget
      exact absurd heq (hintime r hr r' hdrop)
    · obtain ⟨hid, hnewer⟩ := h.ahead id run' rest' hold
      exact ⟨hid, fun newer hlt hnew => List.mem_append_left _ (hnewer newer hlt hnew)⟩
  toRun := h.toRun

/-- The run that has the id is the run of the frame: it is the newest with its id, and a
newer one would start behind the frame. -/
theorem Timely.owner (h : Timely w) (hfresh : Fresh w) {id run owner : Nat} {rest : List RunWire}
    (hqueue : w.toRuntime = .tagged id run :: rest) (hlookup : w.routes.lookup id = some owner) :
    run = owner := by
  obtain ⟨hid, hnewer⟩ := h.ahead id run rest (hqueue ▸ List.suffix_rfl)
  obtain ⟨howner, early, hstage⟩ := hfresh.routed id owner hlookup
  obtain ⟨e, hentry, hrun⟩ := hfresh.unanswered owner id _ howner hstage RunStage.noConfusion
  rcases Nat.lt_trichotomy run owner with hlt | heq | hgt
  · have hstart : RunWire.start id owner ∈ w.toRuntime := by
      rw [hqueue]
      exact List.mem_cons_of_mem _ (hnewer owner hlt howner)
    exact absurd hstart (hfresh.not_requested hstage RunStage.noConfusion id)
  · exact heq
  · exact absurd hid ((hfresh.entries id e hentry).2 run (hrun ▸ hgt))

theorem receive_timely (h : Timely w) (hfresh : Fresh w) (taken : Bool) :
    Timely (w.step (.receive taken)) := by
  unfold step
  dsimp only
  cases hqueue : w.toRuntime with
  | nil => exact h
  | cons f rest =>
    have hrest : Timely { w with toRuntime := rest } := by
      refine ⟨fun id run left hsuffix => h.ahead id run left ?_, h.toRun⟩
      rw [hqueue]
      exact hsuffix.trans (List.suffix_cons f rest)
    cases f with
    | start id run =>
      dsimp only [handleFrame, startRun]
      split
      · exact hrest.same (idOf_setStage _ run _) rfl rfl
      · cases taken with
        | true => exact hrest.same (idOf_setStage _ run _) rfl rfl
        | false => exact hrest.same (idOf_setStage _ run _) rfl rfl
    | tagged id run =>
      dsimp only [handleFrame]
      split
      · exact hrest
      · next owner hlookup =>
        refine ⟨hrest.ahead, fun p hp => ?_⟩
        rcases List.mem_append.mp hp with hp | hp
        · exact h.toRun p hp
        · rw [List.mem_singleton.mp hp]
          exact h.owner hfresh hqueue hlookup

theorem routeFrame_timely (h : Timely w) (f : RuntimeFrame) (rest : List RuntimeFrame) :
    Timely ({ w with toHost := rest }.routeFrame f) := by
  cases f with
  | tagged runId run =>
    dsimp only [routeFrame]
    split
    · exact h.same (fun _ => rfl) rfl rfl
    · exact h.same (fun _ => rfl) rfl rfl
  | result runId run background =>
    dsimp only [routeFrame, routeResult]
    split
    · exact h.same (fun _ => rfl) rfl rfl
    · split
      · exact h.same (fun _ => rfl) rfl rfl
      · split
        · exact h.same (fun _ => rfl) rfl rfl
        · exact h.same (fun _ => rfl) rfl rfl
  | runComplete runId run =>
    dsimp only [routeFrame, routeRunComplete]
    split
    · exact h.same (fun _ => rfl) rfl rfl
    · split
      · exact h.same (fun _ => rfl) rfl rfl
      · exact h.same (fun _ => rfl) rfl rfl

theorem step_timely (e : RunIdStep) (hintime : w.InTime e) (hfresh : Fresh w) (h : Timely w) :
    Timely (w.step e) := by
  cases e with
  | start encodes =>
    refine onHost_keeps h (start_keeps h encodes (fun runId => ?_) fun runId _ _ => h.begun runId)
    exact h.same (fun _ => rfl) rfl rfl
  | hostWrites run => exact onHost_keeps h (elim_keeps h fun r hr => h.hostWrites hr hintime)
  | receive taken => exact receive_timely h hfresh taken
  | runSends run =>
    refine elim_keeps h fun r _ => ?_
    dsimp only [runStep]
    split
    · exact h.same (fun _ => rfl) rfl rfl
    · exact h
  | earlyResult run =>
    refine elim_keeps h fun r _ => ?_
    dsimp only [runStep]
    split
    · exact h.same (idOf_setStage w run _) rfl rfl
    · exact h
  | finished run =>
    refine elim_keeps h fun r _ => ?_
    dsimp only [runStep]
    split
    · exact h.same (idOf_setStage w run _) rfl rfl
    · exact h
  | completion run output =>
    refine elim_keeps h fun r _ => ?_
    dsimp only [runStep]
    split
    · exact h.same (idOf_setStage w run _) rfl rfl
    · exact h
  | route =>
    unfold step
    dsimp only
    cases w.toHost with
    | nil => exact h
    | cons f rest => exact onHost_keeps h (routeFrame_timely h f rest)
  | close => exact h.same (fun _ => rfl) rfl rfl

/-! ### The allocator -/

/-- The rounds that `nextRunIdValue` is given are enough. -/
theorem nextRunIdValue_total (h : w.runs.keys.length < 2 ^ 32 - 1) : ∃ id, w.nextRunIdValue = some id := by
  obtain ⟨k, hk, hzero, hunused⟩ := Cyclic.exists_unused h
  refine Cyclic.firstAfter_total (Nat.le_refl idSpace) hk ?_
  rw [Bool.or_eq_false_iff]
  refine ⟨decide_eq_false hzero, ?_⟩
  rw [AList.lookup_eq_none.mpr fun hmem => hunused (AList.mem_keys.mp hmem)]
  rfl

/-- An id in use at the runtime is that of a run the host has in its table. -/
theorem Fresh.known_of_routed (h : Fresh w) {id owner : Nat} (hlookup : w.routes.lookup id = some owner) :
    w.Known id owner := by
  obtain ⟨hid, early, hstage⟩ := h.routed id owner hlookup
  exact h.unanswered owner id _ hid hstage RunStage.noConfusion

theorem Fresh.next_unrouted (h : Fresh w) {id : Nat} (hnext : w.nextRunIdValue = some id) :
    w.routes.lookup id = none := by
  cases hlookup : w.routes.lookup id with
  | none => rfl
  | some owner =>
    obtain ⟨e, hentry, -⟩ := h.known_of_routed hlookup
    rw [(nextRunIdValue_spec hnext).2] at hentry
    cases hentry

theorem Fresh.request_unrouted (h : Fresh w) {id run : Nat} (hstart : RunWire.start id run ∈ w.toRuntime) :
    w.routes.lookup id = none := by
  cases hlookup : w.routes.lookup id with
  | none => rfl
  | some owner =>
    obtain ⟨hid, hrequested⟩ := h.requests id run hstart
    have heq := (h.known_of_routed hlookup).unique (h.unanswered run id _ hid hrequested RunStage.noConfusion)
    obtain ⟨-, early, hstage⟩ := h.routed id owner hlookup
    rw [heq, hrequested] at hstage
    cases hstage

end RunWorld

open RunWorld Execution

/-- An id that is picked, or is on its way, is not routed at the runtime, and no start is
refused as a duplicate; a frame for the host reaches the run it is of; no id is 0; the
allocator returns while fewer than 2^32 - 1 runs are in the table.  A frame for the
runtime reaches the run it is of when every frame is written in time. -/
theorem run_ids_fresh (steps : List RunIdStep) :
    let w := exec RunWorld.step .new steps
    (∀ id, w.nextRunIdValue = some id → w.routes.lookup id = none) ∧
    (∀ id run, RunWire.start id run ∈ w.toRuntime → w.routes.lookup id = none) ∧
    w.duplicates = [] ∧
    (∀ p ∈ w.toEntry, p.1 = p.2) ∧
    (∀ r ∈ w.started, r.runId ≠ 0) ∧
    (w.runs.keys.length < 2 ^ 32 - 1 → ∃ id, w.nextRunIdValue = some id) ∧
    (Along RunWorld.step RunWorld.InTime .new steps → ∀ p ∈ w.toRun, p.1 = p.2) := by
  intro w
  have hfresh : Fresh w := exec_invariant (fun _ e => step_fresh e) .new steps
  refine ⟨fun _ => hfresh.next_unrouted, fun _ _ => hfresh.request_unrouted, hfresh.duplicates,
    hfresh.toEntry, fun r hr => ?_, nextRunIdValue_total, fun hintime => ?_⟩
  · obtain ⟨i, hget⟩ := List.mem_iff_getElem?.mp hr
    exact hfresh.ids i r.runId (idOf_of_get hget)
  · have hboth : Fresh w ∧ Timely w := by
      refine hintime.invariant (I := fun w => Fresh w ∧ Timely w) ?_ ⟨.new, .new⟩
      exact fun w e hw hwrite => ⟨step_fresh e hw.1, step_timely e hwrite hw.1 hw.2⟩
    exact hboth.2.toRun

/-! ### A late frame -/

/-- A run that starts, ends and is answered before anything else happens. -/
def wholeRun (run : Nat) : List RunIdStep :=
  [.start true, .receive true, .finished run, .completion run true, .route]

/-- A connection with nothing in flight. -/
def idle (nextRunId : Nat) (started : List StartedId) : RunWorld :=
  ⟨nextRunId, ∅, false, [], ∅, [], started, [], [], []⟩

theorem nextRunIdValue_idle {n : Nat} (hn : n + 1 < 2 ^ 32) (started : List StartedId) :
    (idle n started).nextRunIdValue = some (n + 1) :=
  Cyclic.firstAfter_succ (Nat.two_pow_pos 32) hn rfl

theorem modify_last {α : Type} (l : List α) (a : α) (f : α → α) :
    (l ++ [a]).modify l.length f = l ++ [f a] := by
  induction l with
  | nil => rfl
  | cons b l ih => exact congrArg (b :: ·) ih

theorem erase_insert_empty {β : Type} (id : Nat) (b : β) :
    ((∅ : AList fun _ : Nat => β).insert id b).erase id = ∅ := by
  refine AList.ext ?_
  exact List.kerase_cons_eq rfl

/-- One run in flight, with nothing on the way to the runtime. -/
def oneRun (id : Nat) (started : List StartedId) (stage : RunStage) (routes : AList fun _ : Nat => Nat)
    (toHost : List RuntimeFrame) : RunWorld :=
  ⟨id, (∅ : AList fun _ : Nat => HostRun).insert id ⟨started.length, false⟩, false, [], routes, toHost,
    started ++ [⟨id, stage⟩], [], [], []⟩

theorem setStage_oneRun (id : Nat) (started : List StartedId) (stage stage' : RunStage)
    (routes : AList fun _ : Nat => Nat) (toHost : List RuntimeFrame) :
    (oneRun id started stage routes toHost).setStage started.length stage' =
      oneRun id started stage' routes toHost := by
  unfold RunWorld.setStage oneRun
  rw [modify_last]

theorem started_oneRun (id : Nat) (started : List StartedId) (stage : RunStage)
    (routes : AList fun _ : Nat => Nat) (toHost : List RuntimeFrame) :
    (oneRun id started stage routes toHost).started[started.length]? = some ⟨id, stage⟩ :=
  List.getElem?_concat_length

/-- The first two steps of a run from an idle connection. -/
theorem exec_startedRun {n : Nat} {started : List StartedId} {id : Nat}
    (hnext : (idle n started).nextRunIdValue = some id) :
    exec RunWorld.step (idle n started) [.start true, .receive true] =
      oneRun id started (.running false) ((∅ : AList fun _ : Nat => Nat).insert id started.length) [] := by
  have hstart : (idle n started).step (.start true) = (idle n started).begun id := by
    show (idle n started).start true = _
    unfold RunWorld.start
    rw [hnext]
    rfl
  have hreceive : ((idle n started).begun id).step (.receive true) =
      { (oneRun id started .requested ∅ []).setStage started.length (.running false) with
        routes := (∅ : AList fun _ : Nat => Nat).insert id started.length } := rfl
  rw [exec_cons, exec_cons, exec_nil, hstart, hreceive, setStage_oneRun]
  rfl

/-- The steps of a run from an idle connection. -/
theorem exec_wholeRun {n : Nat} {started : List StartedId} {id : Nat}
    (hnext : (idle n started).nextRunIdValue = some id) :
    exec RunWorld.step (idle n started) (wholeRun started.length) =
      idle id (started ++ [⟨id, .answered⟩]) := by
  have hfinished : (oneRun id started (.running false) ((∅ : AList fun _ : Nat => Nat).insert id started.length)
      []).step (.finished started.length) = oneRun id started (.concluded false) ∅ [] := by
    unfold RunWorld.step
    dsimp only
    rw [started_oneRun]
    show { (oneRun id started _ _ []).setStage started.length _ with
      routes := ((∅ : AList fun _ : Nat => Nat).insert id started.length).erase id } = _
    rw [setStage_oneRun, erase_insert_empty]
    rfl
  have hcompletion : (oneRun id started (.concluded false) ∅ []).step (.completion started.length true) =
      oneRun id started .answered ∅ [.result id started.length false] := by
    unfold RunWorld.step
    dsimp only
    rw [started_oneRun]
    show { (oneRun id started _ _ []).setStage started.length _ with
      toHost := [.result id started.length false] } = _
    rw [setStage_oneRun]
    rfl
  have hroute : (oneRun id started .answered ∅ [.result id started.length false]).step .route =
      idle id (started ++ [⟨id, .answered⟩]) := by
    show RunWorld.routeResult (oneRun id started .answered ∅ []) id false = _
    unfold RunWorld.routeResult
    have hlookup : (oneRun id started .answered ∅ []).runs.lookup id = some ⟨started.length, false⟩ :=
      AList.lookup_insert _
    rw [hlookup]
    show { oneRun id started .answered ∅ [] with
      runs := ((∅ : AList fun _ : Nat => HostRun).insert id (⟨started.length, false⟩ : HostRun)).erase id } = _
    rw [erase_insert_empty]
    rfl
  have hsplit : wholeRun started.length = [.start true, .receive true] ++
      [.finished started.length, .completion started.length true, .route] := rfl
  rw [hsplit, exec_append, exec_startedRun hnext, exec_cons, exec_cons, exec_cons, exec_nil, hfinished,
    hcompletion, hroute]

theorem exec_wholeRuns {n : Nat} (hn : n < 2 ^ 32) :
    exec RunWorld.step .new ((List.range n).flatMap wholeRun) =
      idle n ((List.range n).map fun k => ⟨k + 1, .answered⟩) := by
  induction n with
  | zero => rfl
  | succ n ih =>
    have hlength : ((List.range n).map fun k => (⟨k + 1, .answered⟩ : StartedId)).length = n := by
      rw [List.length_map, List.length_range]
    rw [List.range_succ, List.flatMap_append, exec_append, ih (Nat.lt_of_succ_lt hn), List.map_append]
    have hrun := exec_wholeRun (nextRunIdValue_idle hn ((List.range n).map fun k => ⟨k + 1, .answered⟩))
    rw [hlength] at hrun
    rw [List.flatMap_singleton]
    exact hrun

/-- The run 0 writes a frame after it has ended, when another run has its id. -/
theorem exec_lateFrame {n id : Nat} {started : List StartedId} {r : StartedId}
    (hnext : (idle n started).nextRunIdValue = some id) (hfirst : started[0]? = some r) (hid : r.runId = id) :
    (exec RunWorld.step (idle n started)
      ([.start true, .receive true] ++ [.hostWrites 0, .receive true])).toRun = [(0, started.length)] := by
  have hget : (started ++ [(⟨id, .running false⟩ : StartedId)])[0]? = some r := by
    rw [List.getElem?_append_left (List.getElem?_eq_some_iff.mp hfirst).1]
    exact hfirst
  have hwrites : (oneRun id started (.running false) ((∅ : AList fun _ : Nat => Nat).insert id started.length)
      []).step (.hostWrites 0) = { oneRun id started (.running false)
        ((∅ : AList fun _ : Nat => Nat).insert id started.length) [] with
        toRuntime := [.tagged id 0] } := by
    unfold RunWorld.step
    dsimp only
    have hget' : (oneRun id started (.running false)
        ((∅ : AList fun _ : Nat => Nat).insert id started.length) []).started[0]? = some r := hget
    rw [hget', ← hid]
    rfl
  rw [exec_append, exec_startedRun hnext, exec_cons, exec_cons, exec_nil, hwrites]
  show (RunWorld.handleFrame _ true (.tagged id 0)).toRun = _
  unfold RunWorld.handleFrame
  dsimp only
  have hlookup : ((∅ : AList fun _ : Nat => Nat).insert id started.length).lookup id = some started.length :=
    AList.lookup_insert _
  split
  · next hnone =>
    cases hlookup.symm.trans hnone
  · next owner howner =>
    cases hlookup.symm.trans howner
    rfl

/-- After 2^32 - 1 runs the counter wraps to the id of the first. -/
def lateFrame : List RunIdStep :=
  (List.range (2 ^ 32 - 1)).flatMap wholeRun ++
    ([.start true, .receive true] ++ [.hostWrites 0, .receive true])

/-- A frame that is written for the first run, which ended long ago, is given to the last. -/
theorem late_frame_delivered : (exec RunWorld.step .new lateFrame).toRun = [(0, 2 ^ 32 - 1)] := by
  have hlength : ((List.range (2 ^ 32 - 1)).map fun k => (⟨k + 1, .answered⟩ : StartedId)).length =
      2 ^ 32 - 1 := by
    rw [List.length_map, List.length_range]
  have hnext : ∀ started, (idle (2 ^ 32 - 1) started).nextRunIdValue = some 1 := by
    intro started
    have hzero : (2 ^ 32 - 1 + 1) % idSpace = 0 := by decide
    have hskip : (idle (2 ^ 32 - 1) started).nextRunIdValue = Cyclic.firstAfter idSpace
        (fun id => id = 0 || ((idle (2 ^ 32 - 1) started).runs.lookup id).isSome) (idSpace - 1)
        ((2 ^ 32 - 1 + 1) % idSpace) := by
      refine Cyclic.firstAfter_skip (Nat.two_pow_pos 32) ?_
      rw [Bool.or_eq_true]
      exact Or.inl (decide_eq_true hzero)
    rw [hskip, hzero]
    exact Cyclic.firstAfter_succ (by decide) (by decide) rfl
  have hfirst : ((List.range (2 ^ 32 - 1)).map fun k => (⟨k + 1, .answered⟩ : StartedId))[0]? =
      some (⟨1, .answered⟩ : StartedId) := by
    rw [List.getElem?_map, List.getElem?_range (by decide)]
    rfl
  unfold lateFrame
  rw [exec_append, exec_wholeRuns (by decide), exec_lateFrame (hnext _) hfirst rfl, hlength]

/-- A frame for a run in flight reaches it. -/
theorem run_ids_fresh_inTime : ∀ p ∈ (exec RunWorld.step .new
    [.start true, .receive true, .hostWrites 0, .receive true]).toRun, p.1 = p.2 := by
  refine (run_ids_fresh _).2.2.2.2.2.2 ⟨trivial, trivial, ?_, trivial, trivial⟩
  exact fun _ _ _ hnewer => absurd hnewer List.not_mem_nil

end Iso4
