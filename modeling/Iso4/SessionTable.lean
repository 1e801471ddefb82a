/-
The route table of a connection, for every interleaving of its steps with the runs that end.

A route belongs to the run that was registered with it.  It leaves the table once: by
the end of its run, by the failure of its own start, or by the guard.  So a run that
ends finds its own route or none, although it looks it up by an id only.

* `Session.Table` — what is kept of the routes;
* `Session.Keeps.step` — the steps of the session, once for every invariant;
* `Session.step_table`.
-/
import Iso4.Session
import Mathlib.Data.List.Perm.Basic
import Mathlib.Data.List.Nodup

namespace Iso4

open Wire Ipc

namespace Session

variable {s : Session}

/-! ### The table -/

theorem lookup_mem {routes : ConnRuns} {runId : Nat} {r : RunRoute} (h : lookup routes runId = some r) :
    (runId, r) ∈ routes := by
  obtain ⟨⟨id, r'⟩, hfind, heq⟩ := Option.map_eq_some_iff.mp h
  have hkey : id = runId := by simpa using List.find?_some hfind
  subst heq
  rw [← hkey]
  exact List.mem_of_find?_eq_some hfind

theorem lookup_eq_none {routes : ConnRuns} {runId : Nat} :
    lookup routes runId = none ↔ runId ∉ routes.map Prod.fst := by
  unfold lookup
  rw [Option.map_eq_none_iff, List.find?_eq_none]
  constructor
  · intro h hmem
    obtain ⟨e, he, heq⟩ := List.mem_map.mp hmem
    exact h e he (decide_eq_true heq)
  · intro h e he heq
    exact h (List.mem_map.mpr ⟨e, he, of_decide_eq_true heq⟩)

theorem lookup_of_mem {routes : ConnRuns} (hids : (routes.map Prod.fst).Nodup) {runId : Nat} {r : RunRoute}
    (h : (runId, r) ∈ routes) : lookup routes runId = some r := by
  cases hlookup : lookup routes runId with
  | none => exact absurd (List.mem_map.mpr ⟨_, h, rfl⟩) (lookup_eq_none.mp hlookup)
  | some r' =>
    have hpair := List.inj_on_of_nodup_map hids h (lookup_mem hlookup) rfl
    cases hpair
    rfl

/-- What `remove` takes out, and what it leaves. -/
theorem remove_perm {routes : ConnRuns} (hids : (routes.map Prod.fst).Nodup) {runId : Nat} {r : RunRoute}
    (h : (runId, r) ∈ routes) : routes.Perm ((runId, r) :: routes.filter (·.1 ≠ runId)) := by
  induction routes with
  | nil => exact absurd h List.not_mem_nil
  | cons e rest ih =>
    obtain ⟨hnot, hrest⟩ := List.nodup_cons.mp hids
    rcases List.mem_cons.mp h with heq | h
    · subst heq
      have hall : rest.filter (·.1 ≠ runId) = rest := by
        refine List.filter_eq_self.mpr fun e' he' => decide_eq_true fun heq => hnot ?_
        exact List.mem_map.mpr ⟨e', he', heq⟩
      rw [List.filter_cons_of_neg (by simp), hall]
    · have hne : e.1 ≠ runId := fun heq => hnot (List.mem_map.mpr ⟨_, h, heq.symm⟩)
      rw [List.filter_cons_of_pos (by simpa using hne)]
      exact ((ih hrest h).cons e).trans (.swap _ _ _)

/-- The handles of the routes. -/
def handles (routes : ConnRuns) : List Nat := routes.map fun e => e.2.handle

/-- What is known of a run whose route left. -/
def Left (s : Session) (handle : Nat) : Removal → Prop
  | .finished => ∃ runId phase, s.runs[handle]? = some ⟨runId, phase⟩ ∧
      (phase = .concluded ∨ phase = .answered)
  | .startFailed => ∃ runId, s.runs[handle]? = some ⟨runId, .unstarted⟩
  | .tornDown => (∃ rest, s.demux = .tearingDown rest) ∨ s.demux = .ended

/-- What the demux thread relies on between two accesses to the table. -/
def DemuxOk (s : Session) : Demux → Prop
  | .reading => True
  | .delivering _ msg => msg.isLost = false
  | .starting runId _ => lookup s.routes runId = none
  | .registered runId handle => s.runs[handle]? = some ⟨runId, .registered⟩
  | .failing runId _ => ∀ r, lookup s.routes runId = some r →
      s.runs[r.handle]? = some ⟨runId, .unstarted⟩
  | .refusing _ _ => True
  | .tearingDown _ => s.routes = []
  | .ended => s.routes = []

structure Table (s : Session) : Prop where
  ids : (s.routes.map Prod.fst).Nodup
  owned : ∀ runId r, (runId, r) ∈ s.routes → ∃ phase, s.runs[r.handle]? = some ⟨runId, phase⟩
  balanced : (s.removed.map Prod.fst ++ handles s.routes).Perm (List.range s.runs.length)
  left : ∀ handle why, (handle, why) ∈ s.removed → s.Left handle why
  demux : s.DemuxOk s.demux

theorem Table.new : Table .new where
  ids := List.nodup_nil
  owned := fun _ _ h => absurd h List.not_mem_nil
  balanced := .nil
  left := fun _ _ h => absurd h List.not_mem_nil
  demux := trivial

/-- A run that has not ended is routed, or the guard took its route. -/
theorem Table.routed_or_torn (h : Table s) {handle : Nat} {run : StartedRun}
    (hrun : s.runs[handle]? = some run) (hphase : run.phase = .live ∨ run.phase = .registered) :
    (∃ r, (run.runId, r) ∈ s.routes ∧ r.handle = handle) ∨ (handle, Removal.tornDown) ∈ s.removed := by
  have hmem : handle ∈ s.removed.map Prod.fst ++ handles s.routes := by
    rw [h.balanced.mem_iff, List.mem_range]
    exact (List.getElem?_eq_some_iff.mp hrun).1
  rcases List.mem_append.mp hmem with hmem | hmem
  · obtain ⟨⟨_, why⟩, hwhy, rfl⟩ := List.mem_map.mp hmem
    have hleft := h.left _ why hwhy
    cases why with
    | finished =>
      obtain ⟨id, phase, hget, hended⟩ := hleft
      rw [hrun] at hget
      cases hget
      rcases hphase with rfl | rfl
      · rcases hended with hended | hended <;> cases hended
      · rcases hended with hended | hended <;> cases hended
    | startFailed =>
      obtain ⟨id, hget⟩ := hleft
      rw [hrun] at hget
      cases hget
      rcases hphase with hphase | hphase <;> cases hphase
    | tornDown => exact Or.inr hwhy
  · obtain ⟨⟨id, r⟩, hr, rfl⟩ := List.mem_map.mp hmem
    obtain ⟨phase, hget⟩ := h.owned id r hr
    dsimp only at hrun
    rw [hrun] at hget
    cases hget
    exact Or.inl ⟨r, hr, rfl⟩

/-- While there are routes, a run that has not ended finds its own. -/
theorem Table.own (h : Table s) {handle : Nat} {run : StartedRun} (hrun : s.runs[handle]? = some run)
    (hphase : run.phase = .live ∨ run.phase = .registered) (hopen : s.routes ≠ []) :
    ∃ r, (run.runId, r) ∈ s.routes ∧ r.handle = handle := by
  rcases h.routed_or_torn hrun hphase with hrouted | hmem
  · exact hrouted
  · have hdemux := h.demux
    rcases h.left _ _ hmem with ⟨rest, heq⟩ | heq
    · rw [heq] at hdemux
      exact absurd hdemux hopen
    · rw [heq] at hdemux
      exact absurd hdemux hopen

/-! ### The operations on the table -/

theorem runs_setPhase (s : Session) (handle : Nat) (phase : Phase) (h : Nat) :
    (s.setPhase handle phase).runs[h]? =
      if handle = h then (s.runs[h]?).map fun r => { r with phase } else s.runs[h]? := by
  unfold setPhase
  rw [List.getElem?_modify]
  by_cases heq : handle = h
  · rw [if_pos heq]
    simp only [heq, if_true]
    rfl
  · rw [if_neg heq]
    simp only [heq, if_false]
    exact Option.map_id'

theorem length_setPhase (s : Session) (handle : Nat) (phase : Phase) :
    (s.setPhase handle phase).runs.length = s.runs.length := List.length_modify _ _ _

theorem runs_setPhase_ne {handle h : Nat} {phase : Phase} {run : StartedRun} (hne : handle ≠ h)
    (hget : s.runs[h]? = some run) : (s.setPhase handle phase).runs[h]? = some run := by
  rw [runs_setPhase, if_neg hne]
  exact hget

theorem runs_setPhase_self {handle : Nat} {phase : Phase} {run : StartedRun}
    (hget : s.runs[handle]? = some run) :
    (s.setPhase handle phase).runs[handle]? = some { run with phase } := by
  rw [runs_setPhase, if_pos rfl, hget]
  rfl

/-- The owner of a route keeps its id. -/
theorem owned_setPhase {h handle : Nat} {phase : Phase} {runId : Nat}
    (howned : ∃ p, s.runs[h]? = some ⟨runId, p⟩) :
    ∃ p, (s.setPhase handle phase).runs[h]? = some ⟨runId, p⟩ := by
  obtain ⟨p, hget⟩ := howned
  by_cases heq : handle = h
  · subst heq
    exact ⟨phase, runs_setPhase_self hget⟩
  · exact ⟨p, runs_setPhase_ne heq hget⟩

/-- A phase changes while the demux goes on: from one in which the route is not gone, or from
`concluded` to `answered`. -/
theorem Table.setPhase (h : Table s) {handle : Nat} {run : StartedRun} {phase : Phase} {demux : Demux}
    (hrun : s.runs[handle]? = some run)
    (hphase : (run.phase = .live ∨ run.phase = .registered) ∨
      run.phase = .concluded ∧ phase = .answered)
    (htorn : (∃ rest, s.demux = .tearingDown rest) ∨ s.demux = .ended → demux = s.demux)
    (hdemux : DemuxOk { s.setPhase handle phase with demux } demux) :
    Table { s.setPhase handle phase with demux } where
  ids := h.ids
  owned := fun runId r hr => owned_setPhase (h.owned runId r hr)
  balanced := by
    show (s.removed.map Prod.fst ++ handles s.routes).Perm
      (List.range (s.setPhase handle phase).runs.length)
    rw [length_setPhase]
    exact h.balanced
  left := by
    intro h' why hmem
    have hleft := h.left h' why hmem
    cases why with
    | finished =>
      obtain ⟨id, p, hget, hended⟩ := hleft
      by_cases heq : handle = h'
      · subst heq
        rw [hrun] at hget
        cases hget
        rcases hphase with (rfl | rfl) | ⟨_, rfl⟩
        · rcases hended with hended | hended <;> cases hended
        · rcases hended with hended | hended <;> cases hended
        · exact ⟨id, _, runs_setPhase_self hrun, Or.inr rfl⟩
      · exact ⟨id, p, runs_setPhase_ne heq hget, hended⟩
    | startFailed =>
      obtain ⟨id, hget⟩ := hleft
      by_cases heq : handle = h'
      · subst heq
        rw [hrun] at hget
        cases hget
        rcases hphase with (hphase | hphase) | ⟨hphase, _⟩ <;> cases hphase
      · exact ⟨id, runs_setPhase_ne heq hget⟩
    | tornDown =>
      have hsame : demux = s.demux := htorn hleft
      rcases hleft with ⟨rest, heq⟩ | heq
      · exact Or.inl ⟨rest, hsame.trans heq⟩
      · exact Or.inr (hsame.trans heq)
  demux := hdemux

/-- A route leaves for its reason. -/
theorem Table.removeRoute (h : Table s) {runId : Nat} {why : Removal}
    (hleft : ∀ r, lookup s.routes runId = some r → s.Left r.handle why)
    (hdemux : DemuxOk (s.removeRoute runId why) s.demux) : Table (s.removeRoute runId why) := by
  unfold Session.removeRoute at hdemux ⊢
  cases hlookup : lookup s.routes runId with
  | none => exact h
  | some r =>
    rw [hlookup] at hdemux
    have hperm := remove_perm h.ids (lookup_mem hlookup)
    have hsub : List.Sublist (s.routes.filter (·.1 ≠ runId)) s.routes := List.filter_sublist
    refine ⟨h.ids.sublist (hsub.map _), fun id r' hr' => h.owned id r' (hsub.mem hr'), ?_, ?_, hdemux⟩
    · have hhandles : (handles s.routes).Perm (r.handle :: handles (s.routes.filter (·.1 ≠ runId))) :=
        hperm.map fun e : Nat × RunRoute => e.2.handle
      have hsplit : ((s.removed ++ [(r.handle, why)]).map Prod.fst ++
          handles (s.routes.filter (·.1 ≠ runId))) =
          s.removed.map Prod.fst ++ (r.handle :: handles (s.routes.filter (·.1 ≠ runId))) := by
        simp
      rw [hsplit]
      exact (hhandles.symm.append_left _).trans h.balanced
    · intro handle why' hmem
      rcases List.mem_append.mp hmem with hmem | hmem
      · exact h.left handle why' hmem
      · cases List.mem_singleton.mp hmem
        exact hleft r hlookup

/-- The guard takes every route. -/
theorem Table.endDemux (h : Table s) (hopen : ∀ handle, (handle, Removal.tornDown) ∉ s.removed) :
    Table s.endDemux where
  ids := List.nodup_nil
  owned := fun _ _ hr => absurd hr List.not_mem_nil
  balanced := by
    have hsplit : (s.endDemux.removed.map Prod.fst ++ handles s.endDemux.routes) =
        s.removed.map Prod.fst ++ handles s.routes := by
      simp [Session.endDemux, handles, Function.comp_def]
    rw [hsplit]
    exact h.balanced
  left := by
    intro handle why hmem
    rcases List.mem_append.mp hmem with hmem | hmem
    · have hleft := h.left handle why hmem
      cases why with
      | finished => exact hleft
      | startFailed => exact hleft
      | tornDown => exact absurd hmem (hopen handle)
    · obtain ⟨e, _, heq⟩ := List.mem_map.mp hmem
      cases heq
      exact Or.inl ⟨_, rfl⟩
  demux := rfl

/-! ### The step lemma of the table -/

/-- The guard has run. -/
def Torn (s : Session) : Prop := (∃ rest, s.demux = .tearingDown rest) ∨ s.demux = .ended

/-- The guard has not run. -/
def Demux.serving : Demux → Bool
  | .tearingDown _ => false
  | .ended => false
  | _ => true

theorem notTorn_of_serving {d : Demux} (hd : s.demux = d) (hserving : d.serving = true) : ¬ s.Torn := by
  subst hd
  rintro (⟨rest, heq⟩ | heq)
  · rw [heq] at hserving
    cases hserving
  · rw [heq] at hserving
    cases hserving

theorem Table.notTorn (h : Table s) (hdemux : ¬ s.Torn) (handle : Nat) :
    (handle, Removal.tornDown) ∉ s.removed := fun hmem => hdemux (h.left handle _ hmem)

/-- The demux goes on and leaves the table alone. -/
theorem Table.goOn (h : Table s) {s' : Session} (hroutes : s'.routes = s.routes)
    (hruns : s'.runs = s.runs) (hremoved : s'.removed = s.removed) (htorn : s.Torn → s'.Torn)
    (hdemux : s'.DemuxOk s'.demux) : Table s' := by
  refine ⟨by rw [hroutes]; exact h.ids, ?_, by rw [hremoved, hroutes, hruns]; exact h.balanced, ?_, hdemux⟩
  · intro runId r hr
    rw [hroutes] at hr
    rw [hruns]
    exact h.owned runId r hr
  · intro handle why hmem
    rw [hremoved] at hmem
    have hleft := h.left handle why hmem
    cases why with
    | finished =>
      unfold Left
      rw [hruns]
      exact hleft
    | startFailed =>
      unfold Left
      rw [hruns]
      exact hleft
    | tornDown => exact htorn hleft

theorem RunFrame.inbound_isLost (frameCap : Nat) (f : RunFrame) : (f.inbound frameCap).isLost = false := by
  cases f with
  | terminate mode => rfl
  | message type payload =>
    unfold RunFrame.inbound
    dsimp only
    split
    · rfl
    · have hdecoded : ∀ msg, inboundOf type payload = .ok msg → msg.isLost = false := by
        intro msg hmsg
        cases type <;>
        · obtain ⟨_, _, heq⟩ := except_bind hmsg
          cases heq
          rfl
      split
      · next msg hmsg => exact hdecoded msg hmsg
      · rfl

theorem Table.register (h : Table s) {runId frameCap : Nat} (hd : s.demux = .starting runId frameCap) :
    Table { s with
      routes := s.routes.filter (·.1 ≠ runId) ++ [(runId, ⟨s.runs.length, frameCap⟩)]
      demux := .registered runId s.runs.length
      runs := s.runs ++ [⟨runId, .registered⟩] } := by
  have hdemux := h.demux
  rw [hd] at hdemux
  have hnot := lookup_eq_none.mp hdemux
  have hall : s.routes.filter (·.1 ≠ runId) = s.routes :=
    List.filter_eq_self.mpr fun e he =>
      decide_eq_true fun heq => hnot (List.mem_map.mpr ⟨e, he, heq⟩)
  have hold : ∀ {handle : Nat} {run : StartedRun}, s.runs[handle]? = some run →
      (s.runs ++ [⟨runId, .registered⟩])[handle]? = some run := by
    intro handle run hget
    rw [List.getElem?_append_left (List.getElem?_eq_some_iff.mp hget).1]
    exact hget
  have hnew : (s.runs ++ [⟨runId, .registered⟩])[s.runs.length]? = some ⟨runId, .registered⟩ :=
    List.getElem?_concat_length
  rw [hall]
  refine ⟨?_, ?_, ?_, ?_, hnew⟩
  · rw [List.map_append]
    exact List.nodup_append.mpr ⟨h.ids, List.nodup_singleton _, fun a ha b hb heq => hnot (by
      rw [List.mem_singleton.mp hb] at heq
      rwa [heq] at ha)⟩
  · intro id r hr
    rcases List.mem_append.mp hr with hr | hr
    · obtain ⟨phase, hget⟩ := h.owned id r hr
      exact ⟨phase, hold hget⟩
    · cases List.mem_singleton.mp hr
      exact ⟨_, hnew⟩
  · have hsplit : s.removed.map Prod.fst ++ handles (s.routes ++ [(runId, ⟨s.runs.length, frameCap⟩)]) =
        (s.removed.map Prod.fst ++ handles s.routes) ++ [s.runs.length] := by
      simp [handles]
    show (s.removed.map Prod.fst ++ _).Perm (List.range (s.runs ++ [_]).length)
    rw [hsplit, List.length_append, List.length_singleton, List.range_succ]
    exact h.balanced.append_right _
  · intro handle why hmem
    have hleft := h.left handle why hmem
    cases why with
    | finished =>
      obtain ⟨id, phase, hget, hended⟩ := hleft
      exact ⟨id, phase, hold hget, hended⟩
    | startFailed =>
      obtain ⟨id, hget⟩ := hleft
      exact ⟨id, hold hget⟩
    | tornDown =>
      rcases hleft with ⟨rest, heq⟩ | heq
      · rw [hd] at heq
        cases heq
      · rw [hd] at heq
        cases heq

/-- The start of a run failed: the route it may have is its own. -/
theorem Table.startFails (h : Table s) {runId handle : Nat} {error : String}
    (hd : s.demux = .registered runId handle) (refusals : List (Nat × String)) :
    Table { s.setPhase handle .unstarted with demux := .failing runId error, refusals } := by
  have hrun : s.runs[handle]? = some ⟨runId, .registered⟩ := by
    have hdemux := h.demux
    rwa [hd] at hdemux
  have htable : Table { s.setPhase handle .unstarted with demux := .failing runId error } := by
    refine h.setPhase hrun (Or.inl (Or.inr rfl)) ?_ ?_
    · rintro (⟨rest, heq⟩ | heq) <;> · rw [hd] at heq; cases heq
    · intro r hr
      have hr' := lookup_mem hr
      obtain ⟨r', hown, heq⟩ := h.own hrun (Or.inr rfl) (List.ne_nil_of_mem hr')
      have hsame := lookup_of_mem h.ids hown
      rw [show lookup s.routes runId = some r from hr] at hsame
      cases hsame
      rw [heq]
      exact runs_setPhase_self hrun
  exact htable.goOn rfl rfl rfl id htable.demux

theorem Table.unregister (h : Table s) {runId : Nat} {error : String}
    (hd : s.demux = .failing runId error) :
    Table { s.removeRoute runId .startFailed with demux := .refusing runId error } := by
  have hopen : ¬ s.Torn := notTorn_of_serving hd rfl
  have hdemux := h.demux
  rw [hd] at hdemux
  have hnow : Table { s with demux := .refusing runId error } :=
    h.goOn rfl rfl rfl (fun ht => absurd ht hopen) trivial
  have hremoved : Table (Session.removeRoute { s with demux := .refusing runId error } runId .startFailed) := by
    refine hnow.removeRoute (fun r hr => ⟨runId, hdemux r hr⟩) ?_
    exact trivial
  unfold Session.removeRoute at hremoved ⊢
  cases hlookup : lookup s.routes runId with
  | none => exact hnow
  | some r =>
    dsimp only at hremoved
    rw [hlookup] at hremoved
    exact hremoved

/-- A run on its thread is not the run the demux is about to start. -/
theorem demuxOk_setPhase {handle : Nat} {run : StartedRun} {phase : Phase}
    (hrun : s.runs[handle]? = some run) (hlive : run.phase = .live ∨ run.phase = .concluded) {d : Demux}
    (h : s.DemuxOk d) : (s.setPhase handle phase).DemuxOk d := by
  have hother : ∀ {h' : Nat} {runId : Nat} {p : Phase}, p = .registered ∨ p = .unstarted →
      s.runs[h']? = some ⟨runId, p⟩ → (s.setPhase handle phase).runs[h']? = some ⟨runId, p⟩ := by
    intro h' runId p hp hget
    refine runs_setPhase_ne ?_ hget
    rintro rfl
    rw [hrun] at hget
    cases hget
    rcases hlive with rfl | rfl <;> rcases hp with hp | hp <;> cases hp
  cases d with
  | reading => trivial
  | delivering _ _ => exact h
  | starting _ _ => exact h
  | registered _ _ => exact hother (Or.inl rfl) h
  | failing _ _ => exact fun r hr => hother (Or.inr rfl) (h r hr)
  | refusing _ _ => trivial
  | tearingDown _ => exact h
  | ended => exact h

theorem demuxOk_removeRoute {runId : Nat} {why : Removal} (hids : (s.routes.map Prod.fst).Nodup) {d : Demux}
    (h : s.DemuxOk d) : (s.removeRoute runId why).DemuxOk d := by
  unfold Session.removeRoute
  split
  · exact h
  · have hsub : List.Sublist (s.routes.filter (·.1 ≠ runId)) s.routes := List.filter_sublist
    cases d with
    | reading => trivial
    | delivering _ _ => exact h
    | starting id _ =>
      exact lookup_eq_none.mpr fun hmem => lookup_eq_none.mp h ((hsub.map Prod.fst).mem hmem)
    | registered _ _ => exact h
    | failing id _ =>
      exact fun r hr => h r (lookup_of_mem hids (hsub.mem (lookup_mem hr)))
    | refusing _ _ => trivial
    | tearingDown _ =>
      show s.routes.filter (·.1 ≠ runId) = []
      rw [show s.routes = [] from h]
      rfl
    | ended =>
      show s.routes.filter (·.1 ≠ runId) = []
      rw [show s.routes = [] from h]
      rfl

theorem removeRoute_setPhase (s : Session) (runId : Nat) (why : Removal) (handle : Nat) (phase : Phase) :
    (s.removeRoute runId why).setPhase handle phase = (s.setPhase handle phase).removeRoute runId why := by
  have hroutes : (s.setPhase handle phase).routes = s.routes := rfl
  unfold Session.removeRoute
  rw [hroutes]
  cases lookup s.routes runId with
  | none => rfl
  | some r => rfl

/-- A run that ends takes its own route and no other. -/
theorem Table.finished (h : Table s) {handle : Nat} {run : StartedRun}
    (hrun : s.runs[handle]? = some run) (hlive : run.phase = .live) :
    Table ((s.removeRoute run.runId .finished).setPhase handle .concluded) := by
  rw [removeRoute_setPhase]
  have hphase : Table { s.setPhase handle .concluded with demux := s.demux } :=
    h.setPhase hrun (Or.inl (Or.inl hlive)) (fun _ => rfl) (demuxOk_setPhase hrun (Or.inl hlive) h.demux)
  refine hphase.removeRoute ?_ (demuxOk_removeRoute hphase.ids hphase.demux)
  intro r hr
  have hmem := lookup_mem hr
  obtain ⟨r', hown, heq⟩ := h.own hrun (Or.inl hlive) (List.ne_nil_of_mem hmem)
  have hsame := lookup_of_mem h.ids hown
  rw [show lookup s.routes run.runId = some r from hr] at hsame
  cases hsame
  rw [heq]
  exact ⟨run.runId, _, runs_setPhase_self hrun, Or.inl rfl⟩

/-! ### The step lemma -/

/-- `P` holds after every step the session can take. -/
structure Keeps (P : Session → Prop) (s : Session) : Prop where
  same : P s
  /-- A `Run` whose id is routed. -/
  duplicate : ∀ runId r, s.demux = .reading → lookup s.routes runId = some r →
    P { s with
      demux := .refusing runId (duplicateRun runId)
      refusals := s.refusals ++ [(runId, duplicateRun runId)] }
  fresh : ∀ runId frameCap, s.demux = .reading → lookup s.routes runId = none →
    P { s with demux := .starting runId frameCap }
  /-- A frame for a run that is routed. -/
  found : ∀ runId f r, s.demux = .reading → lookup s.routes runId = some r →
    P { s with
      routed := s.routed ++ [⟨runId, f, some r⟩]
      demux := .delivering r.handle (f.inbound r.frameCap) }
  stray : ∀ runId f, s.demux = .reading → lookup s.routes runId = none →
    P { s with routed := s.routed ++ [⟨runId, f, none⟩] }
  ends : ¬ s.Torn → P s.endDemux
  deliver : ∀ handle msg, s.demux = .delivering handle msg →
    P { s with demux := .reading, deliveries := s.deliveries ++ [⟨handle, msg⟩] }
  register : ∀ runId frameCap, s.demux = .starting runId frameCap →
    P { s with
      routes := s.routes.filter (·.1 ≠ runId) ++ [(runId, ⟨s.runs.length, frameCap⟩)]
      demux := .registered runId s.runs.length
      runs := s.runs ++ [⟨runId, .registered⟩] }
  startFails : ∀ runId frameCap error, s.demux = .starting runId frameCap →
    P { s with demux := .failing runId error, refusals := s.refusals ++ [(runId, error)] }
  startedFails : ∀ runId handle error, s.demux = .registered runId handle →
    P { s.setPhase handle .unstarted with
      demux := .failing runId error
      refusals := s.refusals ++ [(runId, error)] }
  starts : ∀ runId handle, s.demux = .registered runId handle →
    P { s.setPhase handle .live with demux := .reading }
  unregister : ∀ runId error, s.demux = .failing runId error →
    P { s.removeRoute runId .startFailed with demux := .refusing runId error }
  refuse : ∀ runId error, s.demux = .refusing runId error →
    P { s with demux := .reading, answers := s.answers ++ [.refused runId error] }
  tornDown : s.demux = .tearingDown [] → P { s with demux := .ended }
  tearDown : ∀ r rest, s.demux = .tearingDown (r :: rest) →
    P { s with
      demux := .tearingDown rest
      deliveries := s.deliveries ++ [⟨r.handle, .connectionLost none⟩] }
  finished : ∀ handle run, s.runs[handle]? = some run → run.phase = .live →
    P ((s.removeRoute run.runId .finished).setPhase handle .concluded)
  answer : ∀ handle run, s.runs[handle]? = some run → run.phase = .concluded →
    P { s.setPhase handle .answered with answers := s.answers ++ [.final handle] }

/-- The demux is reading: the arms of the loop. -/
theorem Keeps.handleFrame {P : Session → Prop} (h : Keeps P s) (hd : s.demux = .reading) (f : DemuxFrame) :
    P (s.handleFrame f) := by
  have hends : P s.endDemux :=
    h.ends (notTorn_of_serving hd rfl)
  have hstart : ∀ runId frameCap, P (s.startRun runId frameCap) := by
    intro runId frameCap
    unfold startRun
    cases hlookup : lookup s.routes runId with
    | some r => exact h.duplicate runId r hd hlookup
    | none => exact h.fresh runId frameCap hd hlookup
  have hroute : ∀ runId f, P (s.routeFrame runId f) := by
    intro runId f
    unfold routeFrame
    dsimp only
    cases hlookup : lookup s.routes runId with
    | some r => exact h.found runId f r hd hlookup
    | none => exact h.stray runId f hd hlookup
  cases f with
  | close => exact hends
  | authenticate => exact hends
  | run payload =>
    unfold Session.handleFrame
    dsimp only
    split
    · exact hends
    · exact hstart _ _
  | prefixRun payload =>
    unfold Session.handleFrame
    dsimp only
    split
    · exact hends
    · exact hstart _ _
  | precompile payload =>
    unfold Session.handleFrame
    dsimp only
    split
    · exact hends
    · exact h.same
  | disposePrefix payload =>
    unfold Session.handleFrame
    dsimp only
    split
    · exact hends
    · exact h.same
  | stats sent =>
    unfold Session.handleFrame
    dsimp only
    split
    · exact h.same
    · exact hends
  | runFrame type payload =>
    unfold Session.handleFrame routeRunFrame
    dsimp only
    split
    · exact hends
    · exact hroute _ _
  | terminate payload =>
    unfold Session.handleFrame routeTerminate
    dsimp only
    split
    · exact hends
    · exact hroute _ _

theorem Keeps.demuxStep {P : Session → Prop} (h : Keeps P s) (e : SessionStep) :
    P (s.demuxStep e s.demux) := by
  generalize hd : s.demux = d
  unfold Session.demuxStep
  split
  · exact h.handleFrame hd _
  · exact h.ends (notTorn_of_serving hd rfl)
  · exact h.deliver _ _ hd
  · exact h.register _ _ hd
  · exact h.startFails _ _ _ hd
  · exact h.startedFails _ _ _ hd
  · exact h.starts _ _ hd
  · exact h.unregister _ _ hd
  · exact h.refuse _ _ hd
  · exact h.tornDown hd
  · exact h.tearDown _ _ hd
  · exact h.same
  · exact h.same
  · next hnottearing hnotended =>
    refine h.ends (notTorn_of_serving hd ?_)
    cases d with
    | tearingDown rest => exact absurd rfl (hnottearing rest)
    | ended => exact absurd rfl hnotended
    | _ => rfl
  · exact h.same

theorem Keeps.step {P : Session → Prop} (h : Keeps P s) (e : SessionStep) : P (s.step e) := by
  unfold Session.step
  split
  · next handle =>
    cases hrun : s.runs[handle]? with
    | none => exact h.same
    | some run =>
      by_cases hphase : run.phase = .live
      · simp only [runStep, if_pos hphase]
        exact h.finished handle run hrun hphase
      · simp only [runStep, if_neg hphase]
        exact h.same
  · next handle =>
    cases hrun : s.runs[handle]? with
    | none => exact h.same
    | some run =>
      by_cases hphase : run.phase = .concluded
      · simp only [runStep, if_pos hphase]
        exact h.answer handle run hrun hphase
      · simp only [runStep, if_neg hphase]
        exact h.same
  · exact h.demuxStep e

theorem step_table (e : SessionStep) (h : Table s) : Table (s.step e) := by
  have hopen : ∀ {d}, s.demux = d → d.serving = true → ∀ {p : Prop}, s.Torn → p :=
    fun hd hserving _ htorn => absurd htorn (notTorn_of_serving hd hserving)
  refine Keeps.step ?_ e
  exact {
    same := h
    duplicate := fun runId r hd _ =>
      h.goOn rfl rfl rfl (hopen hd rfl) trivial
    fresh := fun runId frameCap hd hlookup =>
      h.goOn rfl rfl rfl (hopen hd rfl) hlookup
    found := fun runId f r hd _ =>
      h.goOn rfl rfl rfl (hopen hd rfl)
        (f.inbound_isLost r.frameCap)
    stray := fun runId f hd _ => h.goOn rfl rfl rfl id h.demux
    ends := fun hnot => h.endDemux (h.notTorn hnot)
    deliver := fun handle msg hd =>
      h.goOn rfl rfl rfl (hopen hd rfl) trivial
    register := fun runId frameCap hd => h.register hd
    startFails := fun runId frameCap error hd => by
      refine h.goOn rfl rfl rfl (hopen hd rfl) ?_
      have hnone : lookup s.routes runId = none := by
        have hdemux := h.demux
        rwa [hd] at hdemux
      intro r hr
      have hsome : lookup s.routes runId = some r := hr
      rw [hnone] at hsome
      cases hsome
    startedFails := fun runId handle error hd => h.startFails hd _
    starts := fun runId handle hd => by
      have hdemux := h.demux
      rw [hd] at hdemux
      exact h.setPhase hdemux (Or.inl (Or.inr rfl))
        (hopen hd rfl) trivial
    unregister := fun runId error hd => h.unregister hd
    refuse := fun runId error hd =>
      h.goOn rfl rfl rfl (hopen hd rfl) trivial
    tornDown := fun hd => by
      have hdemux := h.demux
      rw [hd] at hdemux
      exact h.goOn rfl rfl rfl (fun _ => Or.inr rfl) hdemux
    tearDown := fun r rest hd => by
      have hdemux := h.demux
      rw [hd] at hdemux
      exact h.goOn rfl rfl rfl (fun _ => Or.inl ⟨_, rfl⟩) hdemux
    finished := fun handle run => h.finished
    answer := fun handle run hrun hphase => by
      have hanswered : Table { s.setPhase handle .answered with demux := s.demux } :=
        h.setPhase hrun (Or.inr ⟨hphase, rfl⟩) (fun _ => rfl)
          (demuxOk_setPhase hrun (Or.inr hphase) h.demux)
      exact hanswered.goOn rfl rfl rfl id hanswered.demux }

end Session

end Iso4
