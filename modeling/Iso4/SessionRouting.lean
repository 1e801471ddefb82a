/-
What the demux of a connection sends and answers, over its whole life.

The messages of the runs are the frames that found a route, in their order.  The guard
sends one `ConnectionLost` to each run that is routed when the demux ends; a refused
start is answered once, and so is a run that ends.

* `session_demux` — what holds whenever a step has been taken;
* `terminate_fails_all` — a `Terminate` that does not decode ends the connection.
-/
import Iso4.SessionTable
import Iso4.Lib.Execution

namespace Iso4

open Wire Ipc

namespace Session

variable {s : Session}

/-! ### What was sent -/

/-- The messages that stand for frames. -/
def messages (s : Session) : List Delivery := s.deliveries.filter fun d => !d.msg.isLost

/-- The runs the guard has failed. -/
def failed (s : Session) : List Nat := (s.deliveries.filter fun d => d.msg.isLost).map Delivery.handle

/-- The runs whose route the guard took. -/
def torn (s : Session) : List Nat := (s.removed.filter (·.2 = .tornDown)).map Prod.fst

def Answer.finalOf : Answer → Option Nat
  | .final handle => some handle
  | .refused _ _ => none

def Answer.refusalOf : Answer → Option (Nat × String)
  | .final _ => none
  | .refused runId error => some (runId, error)

/-- The runs that were answered. -/
def finals (s : Session) : List Nat := s.answers.filterMap Answer.finalOf

def refused (s : Session) : List (Nat × String) := s.answers.filterMap Answer.refusalOf

/-- The message in the hands of the demux thread. -/
def Demux.toDeliver : Demux → List Delivery
  | .delivering handle msg => [⟨handle, msg⟩]
  | _ => []

/-- The runs the guard still has to fail. -/
def Demux.toFail : Demux → List Nat
  | .tearingDown routes => routes.map RunRoute.handle
  | _ => []

/-- The refusal that is to be sent. -/
def Demux.toRefuse : Demux → List (Nat × String)
  | .failing runId error => [(runId, error)]
  | .refusing runId error => [(runId, error)]
  | _ => []

/-- What is done is all that was due, up to what the end of the demux cuts off. -/
def UpToEnd {α : Type} (s : Session) (done due : List α) : Prop :=
  done <+: due ∧ (¬ s.Torn → done = due)

/-- A route is that of the run the frame names. -/
def Routes (s : Session) : Prop :=
  ∀ f ∈ s.routed, ∀ r, f.route = some r → ∃ phase, s.runs[r.handle]? = some ⟨f.runId, phase⟩

def Delivers (s : Session) : Prop :=
  s.UpToEnd (s.messages ++ s.demux.toDeliver) (s.routed.filterMap Routed.delivery)

def Fails (s : Session) : Prop := s.failed ++ s.demux.toFail = s.torn

def Refuses (s : Session) : Prop := s.UpToEnd (s.refused ++ s.demux.toRefuse) s.refusals

/-- A run is answered once, when it has ended. -/
def Answers (s : Session) : Prop :=
  s.finals.Nodup ∧ ∀ handle ∈ s.finals, ∃ runId, s.runs[handle]? = some ⟨runId, .answered⟩

/-! ### The step lemmas -/

theorem UpToEnd.of_eq {α : Type} {done due : List α} (h : done = due) : s.UpToEnd done due :=
  ⟨h ▸ List.prefix_rfl, fun _ => h⟩

/-- Before the demux ends, one more of each is again all of them. -/
theorem UpToEnd.append {α : Type} {s s' : Session} {done due done' due' : List α} (h : s.UpToEnd done due)
    (hnot : ¬ s.Torn) (hstep : done = due → done' = due') : s'.UpToEnd done' due' :=
  .of_eq (hstep (h.2 hnot))

/-- The end of the demux cuts off what it had in hand. -/
theorem UpToEnd.cut {α : Type} {s s' : Session} {done due hand : List α} (h : s.UpToEnd (done ++ hand) due)
    (htorn : s'.Torn) : s'.UpToEnd (done ++ []) due := by
  refine ⟨?_, fun hnot => absurd htorn hnot⟩
  rw [List.append_nil]
  exact (List.prefix_append done hand).trans h.1

theorem endDemux_torn (s : Session) : s.endDemux.Torn := Or.inl ⟨_, rfl⟩

/-- The removal of a route is written down with its reason and does nothing else. -/
theorem removeRoute_shape (s : Session) (runId : Nat) (why : Removal) :
    ∃ routes left, (∀ e ∈ left, e.2 = why) ∧
      s.removeRoute runId why = { s with routes, removed := s.removed ++ left } := by
  unfold removeRoute
  cases lookup s.routes runId with
  | none => exact ⟨s.routes, [], fun _ h => absurd h List.not_mem_nil, by rw [List.append_nil]⟩
  | some r =>
    refine ⟨_, [(r.handle, why)], fun e he => ?_, rfl⟩
    rw [List.mem_singleton.mp he]

theorem runs_append {handle : Nat} {run run' : StartedRun} (hget : s.runs[handle]? = some run) :
    (s.runs ++ [run'])[handle]? = some run := by
  rw [List.getElem?_append_left (List.getElem?_eq_some_iff.mp hget).1]
  exact hget

theorem Routes.setPhase (h : s.Routes) (handle : Nat) (phase : Phase) :
    ∀ f ∈ s.routed, ∀ r, f.route = some r →
      ∃ p, (s.setPhase handle phase).runs[r.handle]? = some ⟨f.runId, p⟩ :=
  fun f hf r hr => owned_setPhase (h f hf r hr)

theorem step_routes (e : SessionStep) (htable : Table s) (h : s.Routes) : (s.step e).Routes := by
  refine Keeps.step ?_ e
  exact {
    same := h
    duplicate := fun _ _ _ _ => h
    fresh := fun _ _ _ _ => h
    found := fun runId f r _ hlookup f' hf' r' hr' => by
      rcases List.mem_append.mp hf' with hf' | hf'
      · exact h f' hf' r' hr'
      · cases List.mem_singleton.mp hf'
        cases hr'
        exact htable.owned runId r (lookup_mem hlookup)
    stray := fun runId f _ _ f' hf' r' hr' => by
      rcases List.mem_append.mp hf' with hf' | hf'
      · exact h f' hf' r' hr'
      · cases List.mem_singleton.mp hf'
        cases hr'
    ends := fun _ => h
    deliver := fun _ _ _ => h
    register := fun _ _ _ f hf r hr => by
      obtain ⟨phase, hget⟩ := h f hf r hr
      exact ⟨phase, runs_append hget⟩
    startFails := fun _ _ _ _ => h
    startedFails := fun _ handle _ _ => h.setPhase handle _
    starts := fun _ handle _ => h.setPhase handle _
    unregister := fun runId _ _ => by
      obtain ⟨_, _, _, heq⟩ := s.removeRoute_shape runId .startFailed
      rw [heq]
      exact h
    refuse := fun _ _ _ => h
    tornDown := fun _ => h
    tearDown := fun _ _ _ => h
    finished := fun handle run _ _ => by
      obtain ⟨_, _, _, heq⟩ := s.removeRoute_shape run.runId .finished
      rw [heq]
      exact h.setPhase handle _
    answer := fun handle _ _ _ => h.setPhase handle _ }

theorem step_delivers (e : SessionStep) (htable : Table s) (h : s.Delivers) : (s.step e).Delivers := by
  have hat : ∀ {d}, s.demux = d → s.UpToEnd (s.messages ++ d.toDeliver) (s.routed.filterMap Routed.delivery) :=
    fun hd => hd ▸ h
  refine Keeps.step ?_ e
  exact {
    same := h
    duplicate := fun _ _ hd _ =>
      (hat hd).append (notTorn_of_serving hd rfl) id
    fresh := fun _ _ hd _ =>
      (hat hd).append (notTorn_of_serving hd rfl) id
    found := fun runId f r hd _ => by
      refine (hat hd).append (notTorn_of_serving hd rfl) ?_
      intro heq
      rw [List.filterMap_append, ← heq]
      show _ = (s.messages ++ []) ++ _
      rw [List.append_nil]
      rfl
    stray := fun runId f hd _ => by
      refine (hat hd).append (notTorn_of_serving hd rfl) ?_
      intro heq
      rw [List.filterMap_append, ← heq, hd]
      show _ = (s.messages ++ []) ++ []
      rw [List.append_nil]
      rfl
    ends := fun _ => h.cut s.endDemux_torn
    deliver := fun handle msg hd => by
      refine (hat hd).append (notTorn_of_serving hd rfl) ?_
      intro heq
      have hkept : msg.isLost = false := by
        have hdemux := htable.demux
        rwa [hd] at hdemux
      rw [← heq]
      show List.filter _ (s.deliveries ++ [⟨handle, msg⟩]) ++ [] = _
      rw [List.append_nil, List.filter_append, List.filter_cons_of_pos (by simp [hkept])]
      rfl
    register := fun _ _ hd =>
      (hat hd).append (notTorn_of_serving hd rfl) id
    startFails := fun _ _ _ hd =>
      (hat hd).append (notTorn_of_serving hd rfl) id
    startedFails := fun _ _ _ hd =>
      (hat hd).append (notTorn_of_serving hd rfl) id
    starts := fun _ _ hd =>
      (hat hd).append (notTorn_of_serving hd rfl) id
    unregister := fun runId _ hd => by
      obtain ⟨_, _, _, heq⟩ := s.removeRoute_shape runId .startFailed
      rw [heq]
      exact (hat hd).append (notTorn_of_serving hd rfl) id
    refuse := fun _ _ hd =>
      (hat hd).append (notTorn_of_serving hd rfl) id
    tornDown := fun hd => (hat hd).cut (Or.inr rfl)
    tearDown := fun r rest hd => by
      have hmessages : (s.deliveries ++ [(⟨r.handle, .connectionLost none⟩ : Delivery)]).filter (fun d => !d.msg.isLost) =
          s.messages := by
        rw [List.filter_append, List.filter_cons_of_neg (by simp [Inbound.isLost]), List.filter_nil,
          List.append_nil]
        rfl
      refine ⟨?_, fun hnot => absurd (Or.inl ⟨rest, rfl⟩) hnot⟩
      show List.filter _ (s.deliveries ++ _) ++ [] <+: _
      rw [hmessages]
      exact (hat hd).1
    finished := fun handle run _ _ => by
      obtain ⟨_, _, _, heq⟩ := s.removeRoute_shape run.runId .finished
      rw [heq]
      exact h
    answer := fun _ _ _ _ => h }

/-- A route that leaves for another reason is not one the guard took. -/
theorem torn_append {removed left : List (Nat × Removal)} {why : Removal} (hwhy : why ≠ .tornDown)
    (hleft : ∀ e ∈ left, e.2 = why) :
    ((removed ++ left).filter (·.2 = .tornDown)).map Prod.fst =
      (removed.filter (·.2 = .tornDown)).map Prod.fst := by
  have hnone : left.filter (·.2 = .tornDown) = [] := by
    refine List.filter_eq_nil_iff.mpr fun e he htorn => hwhy ?_
    rw [← hleft e he]
    exact of_decide_eq_true htorn
  rw [List.filter_append, hnone, List.append_nil]

/-- The guard takes every route that is left. -/
theorem torn_endDemux (s : Session) : s.endDemux.torn = s.torn ++ handles s.routes := by
  have hall : (s.routes.map fun e => (e.2.handle, Removal.tornDown)).filter (·.2 = .tornDown) =
      s.routes.map fun e => (e.2.handle, Removal.tornDown) := by
    refine List.filter_eq_self.mpr fun e he => ?_
    obtain ⟨_, _, rfl⟩ := List.mem_map.mp he
    rfl
  show ((s.removed ++ s.routes.map fun e => (e.2.handle, Removal.tornDown)).filter
    (·.2 = .tornDown)).map Prod.fst = _
  rw [List.filter_append, hall, List.map_append, List.map_map]
  rfl

theorem step_fails (e : SessionStep) (htable : Table s) (h : s.Fails) : (s.step e).Fails := by
  have hat : ∀ {d}, s.demux = d → s.failed ++ d.toFail = s.torn := fun hd => hd ▸ h
  have hall : ∀ {d}, s.demux = d → d.toFail = [] → s.failed ++ [] = s.torn :=
    fun hd hnone => hnone ▸ hat hd
  refine Keeps.step ?_ e
  exact {
    same := h
    duplicate := fun _ _ hd _ => hall hd rfl
    fresh := fun _ _ hd _ => hall hd rfl
    found := fun _ _ _ hd _ => hall hd rfl
    stray := fun _ _ _ _ => h
    ends := fun hnot => by
      have hfailed : s.failed = s.torn := by
        have hd : s.demux.toFail = [] := by
          cases hd : s.demux with
          | tearingDown rest => exact absurd (Or.inl ⟨rest, hd⟩) hnot
          | _ => rfl
        rw [← hat rfl, hd, List.append_nil]
      show s.failed ++ (s.routes.map Prod.snd).map RunRoute.handle = s.endDemux.torn
      rw [torn_endDemux, hfailed, List.map_map]
      rfl
    deliver := fun handle msg hd => by
      have hkept : msg.isLost = false := by
        have hdemux := htable.demux
        rwa [hd] at hdemux
      have hfailed : (s.deliveries ++ [(⟨handle, msg⟩ : Delivery)]).filter (fun d => d.msg.isLost) =
          s.deliveries.filter fun d => d.msg.isLost := by
        rw [List.filter_append, List.filter_cons_of_neg (by simp [hkept]), List.filter_nil,
          List.append_nil]
      show (List.filter _ (s.deliveries ++ _)).map Delivery.handle ++ [] = _
      rw [hfailed]
      exact hall hd rfl
    register := fun _ _ hd => hall hd rfl
    startFails := fun _ _ _ hd => hall hd rfl
    startedFails := fun _ _ _ hd => hall hd rfl
    starts := fun _ _ hd => hall hd rfl
    unregister := fun runId _ hd => by
      obtain ⟨_, left, hleft, heq⟩ := s.removeRoute_shape runId .startFailed
      rw [heq]
      exact (hall hd rfl).trans (torn_append Removal.noConfusion hleft).symm
    refuse := fun _ _ hd => hall hd rfl
    tornDown := fun hd => hall hd rfl
    tearDown := fun r rest hd => by
      show (List.filter _ (s.deliveries ++ [_])).map Delivery.handle ++ rest.map RunRoute.handle = _
      rw [List.filter_append, List.map_append, List.append_assoc]
      exact hat hd
    finished := fun handle run _ _ => by
      obtain ⟨_, left, hleft, heq⟩ := s.removeRoute_shape run.runId .finished
      rw [heq]
      exact h.trans (torn_append Removal.noConfusion hleft).symm
    answer := fun _ _ _ _ => h }

theorem step_refuses (e : SessionStep) (h : s.Refuses) : (s.step e).Refuses := by
  have hat : ∀ {d}, s.demux = d → s.UpToEnd (s.refused ++ d.toRefuse) s.refusals := fun hd => hd ▸ h
  -- a refusal is written down when it is due
  have hdue : ∀ {d} (runId : Nat) (error : String), s.demux = d → d.serving = true → d.toRefuse = [] →
      s.refused ++ [(runId, error)] = s.refusals ++ [(runId, error)] := by
    intro d runId error hd hserving hnone
    rw [← (hat hd).2 (notTorn_of_serving hd hserving), hnone, List.append_nil]
  have hfinal : ∀ handle, (s.answers ++ [Answer.final handle]).filterMap Answer.refusalOf = s.refused := by
    intro handle
    rw [List.filterMap_append]
    exact List.append_nil _
  refine Keeps.step ?_ e
  exact {
    same := h
    duplicate := fun runId _ hd _ => .of_eq (hdue runId _ hd rfl rfl)
    fresh := fun _ _ hd _ => (hat hd).append (notTorn_of_serving hd rfl) id
    found := fun _ _ _ hd _ => (hat hd).append (notTorn_of_serving hd rfl) id
    stray := fun _ _ _ _ => h
    ends := fun _ => h.cut s.endDemux_torn
    deliver := fun _ _ hd => (hat hd).append (notTorn_of_serving hd rfl) id
    register := fun _ _ hd => (hat hd).append (notTorn_of_serving hd rfl) id
    startFails := fun runId _ error hd => .of_eq (hdue runId error hd rfl rfl)
    startedFails := fun runId _ error hd => .of_eq (hdue runId error hd rfl rfl)
    starts := fun _ _ hd => (hat hd).append (notTorn_of_serving hd rfl) id
    unregister := fun runId _ hd => by
      obtain ⟨_, _, _, heq⟩ := s.removeRoute_shape runId .startFailed
      rw [heq]
      exact (hat hd).append (notTorn_of_serving hd rfl) id
    refuse := fun runId error hd => by
      refine (hat hd).append (notTorn_of_serving hd rfl) fun heq => ?_
      show (s.answers ++ [Answer.refused runId error]).filterMap Answer.refusalOf ++ [] = _
      rw [List.filterMap_append, List.append_nil]
      exact heq
    tornDown := fun hd => (hat hd).cut (Or.inr rfl)
    tearDown := fun _ rest hd => (hat hd).cut (Or.inl ⟨rest, rfl⟩)
    finished := fun handle run _ _ => by
      obtain ⟨_, _, _, heq⟩ := s.removeRoute_shape run.runId .finished
      rw [heq]
      exact h
    answer := fun handle _ _ _ => by
      show s.UpToEnd ((s.answers ++ [Answer.final handle]).filterMap Answer.refusalOf ++ _) s.refusals
      rw [hfinal]
      exact h }

/-- The phase of a run that was not answered yet changes. -/
theorem Answers.setPhase (h : s.Answers) {handle : Nat} {run : StartedRun}
    (hrun : s.runs[handle]? = some run) (hphase : run.phase ≠ .answered) (phase : Phase) :
    s.finals.Nodup ∧ ∀ h ∈ s.finals, ∃ runId,
      (s.setPhase handle phase).runs[h]? = some ⟨runId, .answered⟩ := by
  refine ⟨h.1, fun h' hmem => ?_⟩
  obtain ⟨runId, hget⟩ := h.2 h' hmem
  refine ⟨runId, runs_setPhase_ne ?_ hget⟩
  rintro rfl
  rw [hrun] at hget
  cases hget
  exact hphase rfl

theorem step_answers (e : SessionStep) (htable : Table s) (h : s.Answers) : (s.step e).Answers := by
  have hregistered : ∀ {runId handle}, s.demux = .registered runId handle →
      s.runs[handle]? = some ⟨runId, .registered⟩ := by
    intro runId handle hd
    have hdemux := htable.demux
    rwa [hd] at hdemux
  refine Keeps.step ?_ e
  exact {
    same := h
    duplicate := fun _ _ _ _ => h
    fresh := fun _ _ _ _ => h
    found := fun _ _ _ _ _ => h
    stray := fun _ _ _ _ => h
    ends := fun _ => h
    deliver := fun _ _ _ => h
    register := fun _ _ _ => by
      refine ⟨h.1, fun handle hmem => ?_⟩
      obtain ⟨runId, hget⟩ := h.2 handle hmem
      exact ⟨runId, runs_append hget⟩
    startFails := fun _ _ _ _ => h
    startedFails := fun _ _ _ hd => h.setPhase (hregistered hd) Phase.noConfusion _
    starts := fun _ _ hd => h.setPhase (hregistered hd) Phase.noConfusion _
    unregister := fun runId _ _ => by
      obtain ⟨_, _, _, heq⟩ := s.removeRoute_shape runId .startFailed
      rw [heq]
      exact h
    refuse := fun runId error _ => by
      have hfinals : (s.answers ++ [Answer.refused runId error]).filterMap Answer.finalOf = s.finals := by
        rw [List.filterMap_append]
        exact List.append_nil _
      show (List.filterMap _ (s.answers ++ _)).Nodup ∧ ∀ handle ∈ List.filterMap _ (s.answers ++ _), _
      rw [hfinals]
      exact h
    tornDown := fun _ => h
    tearDown := fun _ _ _ => h
    finished := fun handle run hrun hlive => by
      obtain ⟨_, _, _, heq⟩ := s.removeRoute_shape run.runId .finished
      rw [heq]
      exact h.setPhase hrun (by rw [hlive]; exact Phase.noConfusion) _
    answer := fun handle run hrun hphase => by
      have hnew : handle ∉ s.finals := by
        intro hmem
        obtain ⟨runId, hget⟩ := h.2 handle hmem
        rw [hrun] at hget
        cases hget
        cases hphase
      have hfinals : (s.answers ++ [Answer.final handle]).filterMap Answer.finalOf = s.finals ++ [handle] := by
        rw [List.filterMap_append]
        rfl
      show (List.filterMap _ (s.answers ++ _)).Nodup ∧ ∀ h' ∈ List.filterMap _ (s.answers ++ _), _
      rw [hfinals]
      obtain ⟨hnodup, hold⟩ := h.setPhase hrun (by rw [hphase]; exact Phase.noConfusion) .answered
      refine ⟨List.nodup_append.mpr ⟨hnodup, List.nodup_singleton _, ?_⟩, ?_⟩
      · rintro a ha b hb rfl
        exact hnew (List.mem_singleton.mp hb ▸ ha)
      · intro h' hmem
        rcases List.mem_append.mp hmem with hmem | hmem
        · exact hold h' hmem
        · rw [List.mem_singleton.mp hmem]
          exact ⟨run.runId, runs_setPhase_self hrun⟩ }

/-! ### The end of the demux -/

/-- The step that ends the demux takes every route. -/
theorem step_ends (e : SessionStep) (htable : Table s) (hnot : ¬ s.Torn) :
    (s.step e).Torn → (s.step e).torn = handles s.routes := by
  have hnone : s.torn = [] := by
    refine List.map_eq_nil_iff.mpr (List.filter_eq_nil_iff.mpr fun e he htorn => ?_)
    refine htable.notTorn hnot e.1 ?_
    rw [← of_decide_eq_true htorn]
    exact he
  have hsame : ∀ {s' : Session} {p : Prop}, s'.demux = s.demux → s'.Torn → p := by
    intro s' p heq htorn
    unfold Torn at htorn
    rw [heq] at htorn
    exact absurd htorn hnot
  have hserves : ∀ {s' : Session} {p : Prop}, s'.demux.serving = true → s'.Torn → p :=
    fun hserving htorn => absurd htorn (notTorn_of_serving rfl hserving)
  have hgone : ∀ {rest : List RunRoute} {p : Prop}, s.demux = .tearingDown rest → p :=
    fun hd => absurd (Or.inl ⟨_, hd⟩) hnot
  have hmember : s.endDemux.torn = handles s.routes := by
    rw [torn_endDemux, hnone]
    rfl
  refine Keeps.step (P := fun s' => s'.Torn → s'.torn = handles s.routes) ?_ e
  exact {
    same := hsame rfl
    duplicate := fun _ _ _ _ => hserves rfl
    fresh := fun _ _ _ _ => hserves rfl
    found := fun _ _ _ _ _ => hserves rfl
    stray := fun _ _ _ _ => hsame rfl
    ends := fun _ _ => hmember
    deliver := fun _ _ _ => hserves rfl
    register := fun _ _ _ => hserves rfl
    startFails := fun _ _ _ _ => hserves rfl
    startedFails := fun _ _ _ _ => hserves rfl
    starts := fun _ _ _ => hserves rfl
    unregister := fun _ _ _ => hserves rfl
    refuse := fun _ _ _ => hserves rfl
    tornDown := fun hd => hgone hd
    tearDown := fun _ _ hd => hgone hd
    finished := fun handle run _ _ => by
      obtain ⟨_, _, _, heq⟩ := s.removeRoute_shape run.runId .finished
      rw [heq]
      exact hsame rfl
    answer := fun _ _ _ _ => hsame rfl }

/-- After the demux has ended no route is taken any more. -/
theorem step_torn (e : SessionStep) {taken : List Nat} (h : s.Torn ∧ s.torn = taken) :
    (s.step e).Torn ∧ (s.step e).torn = taken := by
  obtain ⟨htorn, heq⟩ := h
  have hgone : ∀ {d : Demux} {p : Prop}, s.demux = d → d.serving = true → p :=
    fun hd hserving => absurd htorn (notTorn_of_serving hd hserving)
  refine Keeps.step (P := fun s' => s'.Torn ∧ s'.torn = taken) ?_ e
  exact {
    same := ⟨htorn, heq⟩
    duplicate := fun _ _ hd _ => hgone hd rfl
    fresh := fun _ _ hd _ => hgone hd rfl
    found := fun _ _ _ hd _ => hgone hd rfl
    stray := fun _ _ hd _ => hgone hd rfl
    ends := fun hnot => absurd htorn hnot
    deliver := fun _ _ hd => hgone hd rfl
    register := fun _ _ hd => hgone hd rfl
    startFails := fun _ _ _ hd => hgone hd rfl
    startedFails := fun _ _ _ hd => hgone hd rfl
    starts := fun _ _ hd => hgone hd rfl
    unregister := fun _ _ hd => hgone hd rfl
    refuse := fun _ _ hd => hgone hd rfl
    tornDown := fun _ => ⟨Or.inr rfl, heq⟩
    tearDown := fun _ rest _ => ⟨Or.inl ⟨rest, rfl⟩, heq⟩
    finished := fun handle run _ _ => by
      obtain ⟨_, left, hleft, hshape⟩ := s.removeRoute_shape run.runId .finished
      rw [hshape]
      exact ⟨htorn, (torn_append Removal.noConfusion hleft).trans heq⟩
    answer := fun _ _ _ _ => ⟨htorn, heq⟩ }

/-! ### Whole runs -/

/-- What holds of the session whenever a step has been taken. -/
structure Serves (s : Session) : Prop where
  table : s.Table
  routes : s.Routes
  delivers : s.Delivers
  fails : s.Fails
  refuses : s.Refuses
  answers : s.Answers

theorem Serves.new : Serves .new where
  table := .new
  routes := fun _ h => absurd h List.not_mem_nil
  delivers := .of_eq rfl
  fails := rfl
  refuses := .of_eq rfl
  answers := ⟨List.nodup_nil, fun _ h => absurd h List.not_mem_nil⟩

theorem Serves.step (h : Serves s) (e : SessionStep) : Serves (s.step e) where
  table := step_table e h.table
  routes := step_routes e h.table h.routes
  delivers := step_delivers e h.table h.delivers
  fails := step_fails e h.table h.fails
  refuses := step_refuses e h.refuses
  answers := step_answers e h.table h.answers

theorem serves (steps : List SessionStep) : Serves (Execution.exec Session.step .new steps) :=
  Execution.exec_invariant (fun _ e h => h.step e) .new steps

/-! ### Frames -/

/-- The id a frame starts a run under. -/
def DemuxFrame.starts : DemuxFrame → Option Nat
  | .run payload => (parseRunPayload.run payload).toOption.map (·.runId)
  | .prefixRun payload => (parsePrefixRunPayload.run payload).toOption.map (·.runId)
  | _ => none

/-- The run a frame is for. -/
def DemuxFrame.tagged : DemuxFrame → Option (Nat × RunFrame)
  | .runFrame type payload => (peekRunId payload).map fun runId => (runId, .message type payload)
  | .terminate payload =>
    (parseTerminatePayload.run payload).toOption.map fun p => (p.1, .terminate p.2)
  | _ => none

theorem handleFrame_starts {f : DemuxFrame} {runId : Nat} (s : Session) (h : f.starts = some runId) :
    ∃ frameCap, s.handleFrame f = s.startRun runId frameCap := by
  cases f with
  | run payload =>
    obtain ⟨req, hreq, rfl⟩ := Option.map_eq_some_iff.mp h
    cases hparse : parseRunPayload.run payload with
    | error e =>
      rw [hparse] at hreq
      cases hreq
    | ok req' =>
      rw [hparse] at hreq
      cases hreq
      refine ⟨frameCapFor req.limits, ?_⟩
      unfold handleFrame
      dsimp only
      rw [hparse]
  | prefixRun payload =>
    obtain ⟨req, hreq, rfl⟩ := Option.map_eq_some_iff.mp h
    cases hparse : parsePrefixRunPayload.run payload with
    | error e =>
      rw [hparse] at hreq
      cases hreq
    | ok req' =>
      rw [hparse] at hreq
      cases hreq
      refine ⟨frameCapFor req.limits, ?_⟩
      unfold handleFrame
      dsimp only
      rw [hparse]
  | _ => cases h

theorem handleFrame_tagged {f : DemuxFrame} {runId : Nat} {frame : RunFrame} (s : Session)
    (h : f.tagged = some (runId, frame)) : s.handleFrame f = s.routeFrame runId frame := by
  cases f with
  | runFrame type payload =>
    obtain ⟨id, hpeek, heq⟩ := Option.map_eq_some_iff.mp h
    cases heq
    unfold handleFrame routeRunFrame
    dsimp only
    rw [hpeek]
  | terminate payload =>
    obtain ⟨p, hp, heq⟩ := Option.map_eq_some_iff.mp h
    cases heq
    cases hparse : parseTerminatePayload.run payload with
    | error e =>
      rw [hparse] at hp
      cases hp
    | ok p' =>
      rw [hparse] at hp
      cases hp
      unfold handleFrame routeTerminate
      dsimp only
      rw [hparse]
  | _ => cases h

theorem step_frame (hd : s.demux = .reading) (f : DemuxFrame) : s.step (.frame f) = s.handleFrame f := by
  show s.demuxStep (.frame f) s.demux = _
  rw [hd]
  rfl

/-- A payload a run cannot be sent: too long for it, or one that does not decode. -/
def Unfit (frameCap : Nat) (type : RunMessageType) (payload : Blob) : Prop :=
  frameCap < payload.length + 1 ∨ ∃ detail, inboundOf type payload = .error detail

theorem inbound_unfit {frameCap : Nat} {type : RunMessageType} {payload : Blob}
    (h : Unfit frameCap type payload) :
    ∃ detail, (RunFrame.message type payload).inbound frameCap = .connectionLost (some detail) := by
  by_cases hlong : frameCap < payload.length + 1
  · exact ⟨overCap (payload.length + 1) frameCap, if_pos hlong⟩
  · rcases h with h | ⟨detail, h⟩
    · exact absurd h hlong
    · exact ⟨detail, by simp only [RunFrame.inbound, if_neg hlong, h]⟩

/-- What a frame does to a session that reads it. -/
structure Reads (s : Session) : Prop where
  /-- A run whose id is routed is refused. -/
  duplicate : ∀ f runId r, f.starts = some runId → lookup s.routes runId = some r →
    s.step (.frame f) = { s with
      demux := .refusing runId (duplicateRun runId)
      refusals := s.refusals ++ [(runId, duplicateRun runId)] }
  /-- A frame goes to the run its id is routed to. -/
  routed : ∀ f runId frame r, f.tagged = some (runId, frame) → lookup s.routes runId = some r →
    s.step (.frame f) = { s with
      routed := s.routed ++ [⟨runId, frame, some r⟩]
      demux := .delivering r.handle (frame.inbound r.frameCap) }
  /-- A frame for an unrouted id is written down and does nothing. -/
  unrouted : ∀ f runId frame, f.tagged = some (runId, frame) → lookup s.routes runId = none →
    s.step (.frame f) = { s with routed := s.routed ++ [⟨runId, frame, none⟩] }
  /-- A bad frame is the loss of its connection to its own run. -/
  unfit : ∀ type payload runId r, peekRunId payload = some runId → lookup s.routes runId = some r →
    Unfit r.frameCap type payload → ∃ detail,
      s.step (.frame (.runFrame type payload)) = { s with
        routed := s.routed ++ [⟨runId, .message type payload, some r⟩]
        demux := .delivering r.handle (.connectionLost (some detail)) }

theorem reads (hd : s.demux = .reading) : Reads s := by
  have hrouted : ∀ f runId frame r, f.tagged = some (runId, frame) → lookup s.routes runId = some r →
      s.step (.frame f) = { s with
        routed := s.routed ++ [⟨runId, frame, some r⟩]
        demux := .delivering r.handle (frame.inbound r.frameCap) } := by
    intro f runId frame r htagged hlookup
    rw [step_frame hd, handleFrame_tagged s htagged]
    unfold routeFrame
    dsimp only
    rw [hlookup]
  refine ⟨?_, hrouted, ?_, ?_⟩
  · intro f runId r hstarts hlookup
    obtain ⟨frameCap, heq⟩ := handleFrame_starts s hstarts
    rw [step_frame hd, heq]
    unfold startRun
    rw [hlookup]
  · intro f runId frame htagged hlookup
    rw [step_frame hd, handleFrame_tagged s htagged]
    unfold routeFrame
    dsimp only
    rw [hlookup]
  · intro type payload runId r hpeek hlookup hunfit
    obtain ⟨detail, hlost⟩ := inbound_unfit hunfit
    refine ⟨detail, ?_⟩
    rw [hrouted (.runFrame type payload) runId (.message type payload) r
      (by rw [DemuxFrame.tagged, hpeek]; rfl) hlookup, hlost]

theorem handles_nodup (h : Table s) : (handles s.routes).Nodup :=
  (List.nodup_append.mp (h.balanced.nodup_iff.mpr List.nodup_range)).2.1

end Session

open Session Execution

/-- The routes of a connection.  A route belongs to the run that was registered with it
and leaves once; a frame goes to the run its id is routed to; a refused start, a stray
frame and a bad one touch no other run; and when the demux has ended, whatever the
reason, each run that was routed then has been failed once. -/
theorem session_demux :
    (∀ steps, Serves (exec Session.step .new steps)) ∧
    (∀ steps handle run, let s := exec Session.step .new steps
      s.runs[handle]? = some run → run.phase = .live →
        (∃ r, (run.runId, r) ∈ s.routes ∧ r.handle = handle) ∨ handle ∈ s.torn) ∧
    (∀ steps, let s := exec Session.step .new steps
      s.demux = .reading → Reads s) ∧
    ∀ steps e more, let s := exec Session.step .new steps
      let last := exec Session.step (s.step e) more
      ¬ s.Torn → (s.step e).Torn → last.demux = .ended →
        last.failed = handles s.routes ∧ (handles s.routes).Nodup := by
  refine ⟨serves, ?_, fun _ => reads, ?_⟩
  · intro steps handle run s hrun hlive
    rcases (serves steps).table.routed_or_torn hrun (Or.inl hlive) with hrouted | hmem
    · exact Or.inl hrouted
    · exact Or.inr (List.mem_map.mpr ⟨_, List.mem_filter.mpr ⟨hmem, rfl⟩, rfl⟩)
  · intro steps e more s last hnot htorn hended
    have htable := (serves steps).table
    have hfirst := step_ends e htable hnot htorn
    have hlast : last.Torn ∧ last.torn = handles s.routes := by
      refine exec_invariant (I := fun s' : Session => s'.Torn ∧ s'.torn = handles s.routes) ?_
        ⟨htorn, hfirst⟩ more
      exact fun _ e' h => step_torn e' h
    have hserves : Serves last := by
      have hwhole := serves (steps ++ e :: more)
      rwa [exec_append, exec_cons] at hwhole
    have hfails : last.failed ++ last.demux.toFail = last.torn := hserves.fails
    rw [hended] at hfails
    refine ⟨?_, handles_nodup htable⟩
    rw [← hlast.2, ← hfails]
    exact (List.append_nil _).symm

/-- An empty script, with every limit at its default. -/
def emptyRun (runId : UInt8) : Blob :=
  [0, 0, 0, runId] ++ [0, 0, 0, 0] ++ List.replicate 11 0 ++ [0, 0, 0, 0] ++ [0, 0, 0, 0] ++ [0]

def twoRuns : List SessionStep :=
  [.frame (.run (emptyRun 1)), .register, .starts, .frame (.run (emptyRun 2)), .register, .starts]

/-- Two runs are in flight when the host closes the connection. -/
theorem session_demux_twoRuns :
    (exec Session.step .new (twoRuns ++ .frame .close :: [.tearDown, .tearDown, .tearDown])).failed =
      handles (exec Session.step .new twoRuns).routes ∧
    Reads (exec Session.step .new twoRuns) := by
  have hreading : (exec Session.step .new twoRuns).demux = .reading := rfl
  have hclosed : (Session.step (exec Session.step .new twoRuns) (.frame .close)).Torn := by
    rw [step_frame hreading]
    exact endDemux_torn _
  refine ⟨?_, session_demux.2.2.1 twoRuns hreading⟩
  rw [exec_append, exec_cons]
  exact (session_demux.2.2.2 twoRuns (.frame .close) [.tearDown, .tearDown, .tearDown]
    (notTorn_of_serving hreading rfl) hclosed rfl).1

/-- The mode 9 does not exist: the frame for run 1 fails run 2 as well. -/
theorem terminate_fails_all :
    peekRunId [0, 0, 0, 1, 9] = some 1 ∧
    (exec Session.step .new twoRuns).runs = [⟨1, .live⟩, ⟨2, .live⟩] ∧
    (exec Session.step .new (twoRuns ++ [.frame (.terminate [0, 0, 0, 1, 9]), .tearDown, .tearDown])).failed =
      [0, 1] := by
  refine ⟨rfl, ?_, ?_⟩
  · decide +kernel
  · decide +kernel

end Iso4
