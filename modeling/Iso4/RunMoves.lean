/-
What a step of the connection keeps, and what it sends.

* `RunWorld.step_moves` — ids stay, no run goes back to an earlier stage, and a connection
  that is torn down stays so;
* `RunWorld.step_routed` — a run that takes turns is routed under its id;
* `RunWorld.step_sends`, `RunWorld.receive_sends`, `RunWorld.route_queues` — frames are added
  behind those on their way, and only the first one is taken.
-/
import Iso4.RunIdReuse

namespace Iso4

namespace RunWorld

variable {w : RunWorld}

/-- A step keeps the ids of the runs, and no run goes back to an earlier stage. -/
structure Moves (w w' : RunWorld) : Prop where
  ids : ∀ run id, w.idOf run = some id → w'.idOf run = some id
  begun : ∀ run stage, w.stageOf run = some stage → stage ≠ .requested →
    ∃ stage', w'.stageOf run = some stage' ∧ stage' ≠ .requested
  running : ∀ run stage early, w.stageOf run = some stage → w'.stageOf run = some (.running early) →
    stage = .requested ∨ ∃ early', stage = .running early'
  closed : w.closed = true → w'.closed = true

theorem Moves.refl (w : RunWorld) : w.Moves w where
  ids := fun _ _ h => h
  begun := fun _ stage h hne => ⟨stage, h, hne⟩
  running := fun _ _ early h h' => Or.inr ⟨early, Option.some.inj (h.symm.trans h')⟩
  closed := id

theorem Moves.trans {w' w'' : RunWorld} (h : w.Moves w') (h' : w'.Moves w'') : w.Moves w'' where
  ids := fun run id hid => h'.ids run id (h.ids run id hid)
  begun := by
    intro run stage hstage hne
    obtain ⟨stage', hstage', hne'⟩ := h.begun run stage hstage hne
    exact h'.begun run stage' hstage' hne'
  running := by
    intro run stage early hstage hrunning
    by_cases hne : stage = .requested
    · exact Or.inl hne
    obtain ⟨stage', hstage', hne'⟩ := h.begun run stage hstage hne
    obtain hrequested | ⟨early', rfl⟩ := h'.running run stage' early hstage' hrunning
    · exact absurd hrequested hne'
    · exact h.running run stage early' hstage hstage'
  closed := fun hclosed => h'.closed (h.closed hclosed)

/-- The runs stay as they are. -/
theorem Moves.same {w' : RunWorld} (hstarted : w'.started = w.started)
    (hclosed : w.closed = true → w'.closed = true) : w.Moves w' := by
  have hids : ∀ run, w'.idOf run = w.idOf run := fun run => by rw [idOf, hstarted, ← idOf]
  have hstages : ∀ run, w'.stageOf run = w.stageOf run := fun run => by
    rw [stageOf, hstarted, ← stageOf]
  refine ⟨fun run id h => (hids run).trans h, fun run stage h hne => ⟨stage, (hstages run).trans h, hne⟩,
    fun run stage early h h' => Or.inr ⟨early, ?_⟩, hclosed⟩
  exact Option.some.inj (h.symm.trans ((hstages run).symm.trans h'))

/-- One run goes on. -/
theorem Moves.setStage {run : Nat} {cur stage : RunStage} (hcur : w.stageOf run = some cur)
    (hstage : stage ≠ .requested)
    (hrunning : ∀ early, stage = .running early → cur = .requested ∨ ∃ early', cur = .running early')
    {w' : RunWorld} (hstarted : w'.started = (w.setStage run stage).started)
    (hclosed : w.closed = true → w'.closed = true) : w.Moves w' := by
  refine ⟨fun i id h => ?_, fun i st h hne => ?_, fun i st early hst h => ?_, hclosed⟩
  · rw [idOf, hstarted, ← idOf, idOf_setStage]
    exact h
  · rw [stageOf, hstarted, ← stageOf]
    by_cases heq : run = i
    · subst heq
      exact ⟨stage, stageOf_setStage_self stage hcur, hstage⟩
    · exact ⟨st, (stageOf_setStage_ne stage heq).trans h, hne⟩
  · rw [stageOf, hstarted, ← stageOf] at h
    by_cases heq : run = i
    · subst heq
      rw [stageOf_setStage_self stage hcur] at h
      rw [hcur] at hst
      cases hst
      exact hrunning early (Option.some.inj h)
    · rw [stageOf_setStage_ne stage heq, hst] at h
      exact Or.inr ⟨early, Option.some.inj h⟩

theorem moves_start (w : RunWorld) (encodes : Bool) : w.Moves (w.start encodes) := by
  refine start_keeps (P := fun w' => w.Moves w') (.refl w) encodes (fun runId => .same rfl id)
    fun runId _ _ => ⟨fun run id h => idOf_begun runId h, fun run stage h hne => ?_,
      fun run stage early hstage h => ?_, id⟩
  · exact ⟨stage, stageOf_begun runId h, hne⟩
  · rw [stageOf_begun runId hstage] at h
    exact Or.inr ⟨early, Option.some.inj h⟩

theorem moves_startRun {taken : Bool} {id run : Nat} (hcur : w.stageOf run = some .requested) :
    w.Moves (w.startRun taken id run) := by
  have hrefused : ∀ {w' : RunWorld}, w'.started = (w.setStage run .answered).started →
      w'.closed = w.closed → w.Moves w' := by
    intro w' hstarted hclosed
    exact .setStage hcur RunStage.noConfusion (fun _ h => by cases h) hstarted fun h => hclosed.trans h
  unfold startRun
  cases w.routes.lookup id with
  | some _ => exact hrefused rfl rfl
  | none =>
    cases taken with
    | true => exact .setStage hcur RunStage.noConfusion (fun _ _ => Or.inl rfl) rfl fun h => h
    | false => exact hrefused rfl rfl

theorem moves_routeFrame (w : RunWorld) (f : RuntimeFrame) : w.Moves (w.routeFrame f) := by
  cases f with
  | tagged runId run =>
    unfold routeFrame
    dsimp only
    split
    · exact .refl w
    · exact .same rfl id
  | result runId run background =>
    unfold routeFrame routeResult desync
    dsimp only
    split
    · exact .same rfl fun _ => rfl
    · split
      · exact .same rfl fun _ => rfl
      · split <;> exact .same rfl id
  | runComplete runId run =>
    unfold routeFrame routeRunComplete desync
    dsimp only
    split
    · exact .same rfl fun _ => rfl
    · split
      · exact .same rfl id
      · exact .same rfl fun _ => rfl

theorem step_moves (h : Fresh w) (e : RunIdStep) : w.Moves (w.step e) := by
  cases e with
  | start encodes => exact onHost_keeps (.refl w) (moves_start w encodes)
  | hostWrites run => exact onHost_keeps (.refl w) (elim_keeps (.refl w) fun r _ => .same rfl id)
  | receive taken =>
    unfold step
    dsimp only
    cases hqueue : w.toRuntime with
    | nil => exact .refl w
    | cons f rest =>
      cases f with
      | start id run =>
        have hcur := (h.requests id run (by rw [hqueue]; exact List.mem_cons_self)).2
        have hmoves : Moves { w with toRuntime := rest } (({ w with toRuntime := rest } : RunWorld).startRun taken id run) :=
          moves_startRun hcur
        exact ⟨hmoves.ids, hmoves.begun, hmoves.running, hmoves.closed⟩
      | tagged id run =>
        dsimp only [handleFrame]
        split
        · exact .same rfl fun h => h
        · exact .same rfl fun h => h
  | runSends run =>
    refine elim_keeps (.refl w) fun r _ => ?_
    dsimp only [runStep]
    split
    · exact .same rfl id
    · exact .refl w
  | earlyResult run =>
    refine elim_keeps (.refl w) fun r hr => ?_
    dsimp only [runStep]
    split
    · next hstage =>
      exact .setStage ((stageOf_of_get hr).trans (congrArg some hstage)) RunStage.noConfusion
        (fun _ _ => Or.inr ⟨false, rfl⟩) rfl id
    · exact .refl w
  | finished run =>
    refine elim_keeps (.refl w) fun r hr => ?_
    dsimp only [runStep]
    split
    · next early hstage =>
      exact .setStage ((stageOf_of_get hr).trans (congrArg some hstage)) RunStage.noConfusion
        (fun _ hrunning => by cases hrunning) rfl id
    · exact .refl w
  | completion run output =>
    refine elim_keeps (.refl w) fun r hr => ?_
    dsimp only [runStep]
    split
    · next early hstage =>
      exact .setStage ((stageOf_of_get hr).trans (congrArg some hstage)) RunStage.noConfusion
        (fun _ hrunning => by cases hrunning) rfl id
    · exact .refl w
  | route =>
    unfold step
    dsimp only
    cases w.toHost with
    | nil => exact .refl w
    | cons f rest =>
      have hmoves := moves_routeFrame { w with toHost := rest } f
      exact onHost_keeps (.refl w) ⟨hmoves.ids, hmoves.begun, hmoves.running, hmoves.closed⟩
  | close => exact .same rfl fun _ => rfl

/-- A run that takes turns is routed. -/
def Routed (w : RunWorld) : Prop :=
  ∀ run early, w.stageOf run = some (.running early) →
    ∃ id, w.idOf run = some id ∧ w.routes.lookup id = some run

theorem Routed.same {w' : RunWorld} (h : w.Routed) (hstarted : w'.started = w.started)
    (hroutes : w'.routes = w.routes) : w'.Routed := by
  intro run early hrun
  rw [stageOf, hstarted, ← stageOf] at hrun
  rw [idOf, hstarted, ← idOf, hroutes]
  exact h run early hrun

/-- A run goes on and its route stays. -/
theorem Routed.setStage {w' : RunWorld} (h : w.Routed) {run : Nat} {cur : RunStage} (stage : RunStage)
    (hcur : w.stageOf run = some cur)
    (hrunning : ∀ early, stage = .running early → ∃ early', cur = .running early')
    (hstarted : w'.started = (w.setStage run stage).started) (hroutes : w'.routes = w.routes) :
    w'.Routed := by
  intro i early hi
  rw [stageOf, hstarted, ← stageOf] at hi
  rw [idOf, hstarted, ← idOf, idOf_setStage, hroutes]
  by_cases heq : run = i
  · subst heq
    rw [stageOf_setStage_self stage hcur] at hi
    obtain ⟨early', rfl⟩ := hrunning early (Option.some.inj hi)
    exact h run early' hcur
  · rw [stageOf_setStage_ne stage heq] at hi
    exact h i early hi

theorem startRun_routed (h : w.Routed) (taken : Bool) {id run : Nat}
    (hid : w.idOf run = some id) (hcur : w.stageOf run = some .requested) :
    (w.startRun taken id run).Routed := by
  unfold startRun
  cases hfree : w.routes.lookup id with
  | some _ => exact h.setStage .answered hcur (fun _ hr => by cases hr) rfl rfl
  | none =>
    cases taken with
    | false => exact h.setStage .answered hcur (fun _ hr => by cases hr) rfl rfl
    | true =>
      intro i early hi
      by_cases heq : run = i
      · subst heq
        exact ⟨id, (idOf_setStage w run _ run).trans hid, AList.lookup_insert _⟩
      · obtain ⟨id', hid', hlookup⟩ := h i early ((stageOf_setStage_ne _ heq).symm.trans hi)
        have hne : id' ≠ id := by
          rintro rfl
          rw [hfree] at hlookup
          cases hlookup
        exact ⟨id', (idOf_setStage w run _ i).trans hid', (AList.lookup_insert_ne hne).trans hlookup⟩

theorem finished_routed (h : w.Routed) {run : Nat} {r : StartedId} (hr : w.started[run]? = some r) :
    (w.runStep run r (.finished run)).Routed := by
  have hcur := stageOf_of_get hr
  dsimp only [runStep]
  split
  · next early hstage =>
    rw [hstage] at hcur
    obtain ⟨id, hid, hroute⟩ := h run early hcur
    rw [idOf_of_get hr] at hid
    cases hid
    intro i early' hi
    have hne : run ≠ i := by
      rintro rfl
      have hself := (stageOf_setStage_self (RunStage.concluded early) hcur).symm.trans hi
      cases hself
    obtain ⟨id', hid', hroute'⟩ := h i early' ((stageOf_setStage_ne _ hne).symm.trans hi)
    have hother : id' ≠ r.runId := by
      rintro rfl
      rw [hroute] at hroute'
      exact hne (Option.some.inj hroute')
    exact ⟨id', (idOf_setStage w run _ i).trans hid', (AList.lookup_erase_ne hother).trans hroute'⟩
  · exact h

theorem step_routed (hfresh : Fresh w) (h : w.Routed) (e : RunIdStep) : (w.step e).Routed := by
  cases e with
  | start encodes =>
    refine onHost_keeps h (start_keeps h encodes (fun runId => h.same rfl rfl) fun runId _ _ => ?_)
    intro run early hrun
    obtain ⟨r, hget, hr⟩ := Option.map_eq_some_iff.mp hrun
    obtain hold | ⟨-, rfl⟩ := begun_cases hget
    · obtain ⟨id, hid, hroute⟩ := h run early (hr ▸ stageOf_of_get hold)
      exact ⟨id, idOf_begun runId hid, hroute⟩
    · cases hr
  | hostWrites run => exact onHost_keeps h (elim_keeps h fun r _ => h.same rfl rfl)
  | receive taken =>
    unfold step
    dsimp only
    cases hqueue : w.toRuntime with
    | nil => exact h
    | cons f rest =>
      cases f with
      | start id run =>
        obtain ⟨hid, hcur⟩ := hfresh.requests id run (by rw [hqueue]; exact List.mem_cons_self)
        exact startRun_routed (w := { w with toRuntime := rest }) (h.same rfl rfl) taken hid hcur
      | tagged id run =>
        dsimp only [handleFrame]
        split
        · exact h.same rfl rfl
        · exact h.same rfl rfl
  | runSends run =>
    refine elim_keeps h fun r _ => ?_
    dsimp only [runStep]
    split
    · exact h.same rfl rfl
    · exact h
  | earlyResult run =>
    refine elim_keeps h fun r hr => ?_
    dsimp only [runStep]
    split
    · next hstage =>
      exact h.setStage _ ((stageOf_of_get hr).trans (congrArg some hstage)) (fun _ _ => ⟨false, rfl⟩) rfl rfl
    · exact h
  | finished run => exact elim_keeps h fun r hr => finished_routed h hr
  | completion run output =>
    refine elim_keeps h fun r hr => ?_
    dsimp only [runStep]
    split
    · next early hstage =>
      exact h.setStage .answered ((stageOf_of_get hr).trans (congrArg some hstage))
        (fun _ hrunning => by cases hrunning) rfl rfl
    · exact h
  | route =>
    unfold step
    dsimp only
    cases w.toHost with
    | nil => exact h
    | cons f rest =>
      refine onHost_keeps h ?_
      cases f with
      | tagged runId run =>
        dsimp only [routeFrame]
        split
        · exact h.same rfl rfl
        · exact h.same rfl rfl
      | result runId run background =>
        dsimp only [routeFrame, routeResult, desync]
        split
        · exact h.same rfl rfl
        · split
          · exact h.same rfl rfl
          · split <;> exact h.same rfl rfl
      | runComplete runId run =>
        dsimp only [routeFrame, routeRunComplete, desync]
        split
        · exact h.same rfl rfl
        · split
          · exact h.same rfl rfl
          · exact h.same rfl rfl
  | close => exact h.same rfl rfl

/-- Frames are sent and none is taken. -/
structure Sends (w w' : RunWorld) : Prop where
  toHost : ∃ fs, w'.toHost = w.toHost ++ fs
  toRuntime : ∃ fs, w'.toRuntime = w.toRuntime ++ fs

theorem Sends.same {w' : RunWorld} (hhost : w'.toHost = w.toHost) (hruntime : w'.toRuntime = w.toRuntime) :
    w.Sends w' :=
  ⟨⟨[], hhost.trans (List.append_nil _).symm⟩, ⟨[], hruntime.trans (List.append_nil _).symm⟩⟩

theorem Sends.up {w' : RunWorld} {f : RuntimeFrame} (hhost : w'.toHost = w.toHost ++ [f])
    (hruntime : w'.toRuntime = w.toRuntime) : w.Sends w' :=
  ⟨⟨[f], hhost⟩, ⟨[], hruntime.trans (List.append_nil _).symm⟩⟩

theorem Sends.down {w' : RunWorld} {f : RunWire} (hhost : w'.toHost = w.toHost)
    (hruntime : w'.toRuntime = w.toRuntime ++ [f]) : w.Sends w' :=
  ⟨⟨[], hhost.trans (List.append_nil _).symm⟩, ⟨[f], hruntime⟩⟩

theorem runStep_sends (run : Nat) (r : StartedId) (e : RunIdStep) : w.Sends (w.runStep run r e) := by
  cases e with
  | hostWrites i => exact .down rfl rfl
  | runSends i =>
    dsimp only [runStep]
    split
    · exact .up rfl rfl
    · exact .same rfl rfl
  | earlyResult i =>
    dsimp only [runStep]
    split
    · exact .up rfl rfl
    · exact .same rfl rfl
  | finished i =>
    dsimp only [runStep]
    split
    · exact .same rfl rfl
    · exact .same rfl rfl
  | completion i output =>
    dsimp only [runStep]
    split
    · exact .up rfl rfl
    · exact .same rfl rfl
  | start _ => exact .same rfl rfl
  | receive _ => exact .same rfl rfl
  | route => exact .same rfl rfl
  | close => exact .same rfl rfl

theorem step_sends (w : RunWorld) {e : RunIdStep} (hroute : e ≠ .route) (hreceive : ∀ taken, e ≠ .receive taken) :
    w.Sends (w.step e) := by
  have hsame : w.Sends w := .same rfl rfl
  have hrun : ∀ run e', w.Sends ((w.started[run]?).elim w fun r => w.runStep run r e') :=
    fun run e' => elim_keeps hsame fun r _ => runStep_sends run r e'
  cases e with
  | start encodes =>
    exact onHost_keeps hsame (start_keeps hsame encodes (fun _ => .same rfl rfl) fun _ _ _ => .down rfl rfl)
  | hostWrites run => exact onHost_keeps hsame (hrun run _)
  | runSends run => exact hrun run _
  | earlyResult run => exact hrun run _
  | finished run => exact hrun run _
  | completion run output => exact hrun run _
  | close => exact .same rfl rfl
  | route => exact absurd rfl hroute
  | receive taken => exact absurd rfl (hreceive taken)

theorem startRun_sends (taken : Bool) (id run : Nat) :
    (w.startRun taken id run).toRuntime = w.toRuntime ∧
      ∃ fs, (w.startRun taken id run).toHost = w.toHost ++ fs := by
  unfold startRun
  split
  · exact ⟨rfl, _, rfl⟩
  · split
    · exact ⟨rfl, [], (List.append_nil _).symm⟩
    · exact ⟨rfl, _, rfl⟩

/-- A received frame is taken, and the answer to it may be sent. -/
theorem receive_sends {f : RunWire} {rest : List RunWire} (hqueue : w.toRuntime = f :: rest) (taken : Bool) :
    (w.step (.receive taken)).toRuntime = rest ∧ ∃ fs, (w.step (.receive taken)).toHost = w.toHost ++ fs := by
  have hnone : ∃ fs, w.toHost = w.toHost ++ fs := ⟨[], (List.append_nil _).symm⟩
  unfold step
  rw [hqueue]
  cases f with
  | start id run => exact startRun_sends (w := { w with toRuntime := rest }) taken id run
  | tagged id run =>
    dsimp only [handleFrame]
    split
    · exact ⟨rfl, hnone⟩
    · exact ⟨rfl, hnone⟩

theorem routeFrame_queues (w : RunWorld) (f : RuntimeFrame) :
    (w.routeFrame f).toHost = w.toHost ∧ (w.routeFrame f).toRuntime = w.toRuntime := by
  cases f with
  | tagged runId run =>
    dsimp only [routeFrame]
    split <;> exact ⟨rfl, rfl⟩
  | result runId run background =>
    dsimp only [routeFrame, routeResult, desync]
    split
    · exact ⟨rfl, rfl⟩
    · split
      · exact ⟨rfl, rfl⟩
      · split <;> exact ⟨rfl, rfl⟩
  | runComplete runId run =>
    dsimp only [routeFrame, routeRunComplete, desync]
    split
    · exact ⟨rfl, rfl⟩
    · split <;> exact ⟨rfl, rfl⟩

/-- A routed frame is taken, and nothing is sent. -/
theorem route_queues {f : RuntimeFrame} {rest : List RuntimeFrame} (hqueue : w.toHost = f :: rest)
    (hopen : w.closed = false) :
    (w.step .route).toHost = rest ∧ (w.step .route).toRuntime = w.toRuntime := by
  have hstep : w.step .route = ({ w with toHost := rest } : RunWorld).routeFrame f := by
    dsimp only [step]
    rw [hqueue]
    dsimp only [onHost]
    rw [if_neg (hopen ▸ Bool.false_ne_true)]
  rw [hstep]
  exact routeFrame_queues { w with toHost := rest } f

end RunWorld

end Iso4
