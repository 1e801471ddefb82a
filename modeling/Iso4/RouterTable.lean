/-
The run table of the router, over every sequence of steps whose writes end in time.

An entry is live while its promise or its epilogue is unsettled, and the table has the live
entries, each under its own id.  Everything else is told entry by entry: which listeners and
which timer it may have, how often its promises were settled, how far its call has come.

* `RunEntry.Sound` — what holds of one entry;
* `RuntimeIpcClient.Sound` — what holds of the client;
* `sound_step` — one step keeps it.
-/
import Iso4.ClientRouter

namespace Iso4

namespace Router

open Execution Framing Handles Ipc

/-! ### One entry -/

namespace RunEntry

/-- Its promise or its epilogue is unsettled. -/
def live (e : RunEntry) : Bool := e.awaitsResult || e.inGrace

/-- Abort wiring and a hard-abort timer only as far as `detachAbort` removes them, each promise
settled at most once, and a request that no socket takes is not waited for. -/
structure Sound (e : RunEntry) (destroyed stopped : Prop) : Prop where
  settled : e.settled.length ≤ 1
  epilogue : ∀ calls ∈ e.epilogue, calls.length ≤ 1 ∧ e.awaitsResult = false
  wired : e.awaitsResult = true → (e.signal.isSome || e.hardAbortSignal.isSome) = true →
    e.detachAbort = .midRun
  midRun : ∀ l ∈ e.listeners, l.kind.midRun = true →
    e.awaitsResult = true ∧ e.detachAbort = .midRun
  timer : e.graceTimer = .running → e.awaitsResult = true ∧ e.detachAbort = .midRun
  grace : ∀ l ∈ e.listeners, l.kind.midRun = false → e.inGrace = true ∧ e.detachAbort = .grace
  returned : e.stage = .returned → e.awaitsResult = false
  outcomes : e.outcomes.length = if e.stage = .returned then 1 else 0
  doomed : e.doomed = true → destroyed ∧ (e.live = true → e.stage = .writing)
  stopped : stopped → e.live = true → e.doomed = true ∧ e.awaitsResult = true

@[simp] theorem detach_runId (e : RunEntry) : e.detach.runId = e.runId := by
  unfold detach
  split <;> rfl

@[simp] theorem detach_settled (e : RunEntry) : e.detach.settled = e.settled := by
  unfold detach
  split <;> rfl

@[simp] theorem detach_epilogue (e : RunEntry) : e.detach.epilogue = e.epilogue := by
  unfold detach
  split <;> rfl

@[simp] theorem detach_stage (e : RunEntry) : e.detach.stage = e.stage := by
  unfold detach
  split <;> rfl

@[simp] theorem detach_doomed (e : RunEntry) : e.detach.doomed = e.doomed := by
  unfold detach
  split <;> rfl

@[simp] theorem detach_outcomes (e : RunEntry) : e.detach.outcomes = e.outcomes := by
  unfold detach
  split <;> rfl

variable {e : RunEntry} {destroyed stopped destroyed' stopped' : Prop}

/-- `detachAbort` removes every listener and stops the timer. -/
theorem Sound.detach (h : e.Sound destroyed stopped) :
    e.detach.listeners = [] ∧ e.detach.graceTimer ≠ .running := by
  cases hdetach : e.detachAbort with
  | noop =>
    simp only [RunEntry.detach, hdetach]
    constructor
    · rw [List.eq_nil_iff_forall_not_mem]
      intro l hl
      cases hkind : l.kind.midRun with
      | true =>
        have := (h.midRun l hl hkind).2
        simp [hdetach] at this
      | false =>
        have := (h.grace l hl hkind).2
        simp [hdetach] at this
    · intro hrunning
      have := (h.timer hrunning).2
      simp [hdetach] at this
  | midRun =>
    simp only [RunEntry.detach, hdetach]
    constructor
    · rw [List.filter_eq_nil_iff]
      intro l hl hkind
      have := (h.grace l hl (by simpa using hkind)).2
      simp [hdetach] at this
    · split
      · simp
      · assumption
  | grace =>
    simp only [RunEntry.detach, hdetach]
    constructor
    · rw [List.filter_eq_nil_iff]
      intro l hl hkind
      have := (h.midRun l hl hkind).2
      simp [hdetach] at this
    · intro hrunning
      have := (h.timer hrunning).2
      simp [hdetach] at this

theorem inGrace_of_live (h : e.live = true) (hawaits : e.awaitsResult = false) :
    e.inGrace = true := by
  simpa [live, hawaits] using h

theorem awaits_of_live (h : e.live = true) (hnone : e.epilogue = none) :
    e.awaitsResult = true := by
  simpa [live, inGrace, hnone] using h

theorem inGrace_iff : e.inGrace = true ↔ e.epilogue = some [] := by
  cases hcalls : e.epilogue with
  | none => simp [inGrace, hcalls]
  | some calls => simp [inGrace, hcalls]

/-- An entry outside the table says nothing of the socket. -/
theorem Sound.of_settled (h : e.Sound destroyed stopped) (hlive : e.live = false)
    (hdestroyed : destroyed → destroyed') : e.Sound destroyed' stopped' :=
  { h with
    doomed := fun hdoomed => ⟨hdestroyed (h.doomed hdoomed).1, by simp [hlive]⟩
    stopped := by simp [hlive] }

theorem Sound.mono (h : e.Sound destroyed stopped) (hdestroyed : destroyed → destroyed')
    (hstopped : stopped' → stopped) : e.Sound destroyed' stopped' :=
  { h with
    doomed := fun hdoomed => ⟨hdestroyed (h.doomed hdoomed).1, (h.doomed hdoomed).2⟩
    stopped := fun hs => h.stopped (hstopped hs) }

/-! ### The ends of a run -/

/-- A `Result` or a failure ends it. -/
theorem Sound.settle (h : e.Sound destroyed stopped) (hawaits : e.awaitsResult = true)
    (result : Except RouterError RawRunResult) (detachAbort : DetachAbort) (stage : RunStage)
    (hstage : stage = .returned ↔ e.stage = .returned) :
    ({ e.detach.settle result with detachAbort, stage } : RunEntry).Sound destroyed stopped := by
  obtain ⟨hlisteners, htimer⟩ := h.detach
  have hsettled : e.settled = [] := by simpa [awaitsResult] using hawaits
  have hepilogue : e.epilogue = none := by
    cases hcalls : e.epilogue with
    | none => rfl
    | some calls =>
      have := (h.epilogue calls hcalls).2
      rw [hawaits] at this
      cases this
  have hstage' : stage ≠ .returned := by
    intro hreturned
    have := h.returned (hstage.mp hreturned)
    rw [hawaits] at this
    cases this
  have hlive : ({ e.detach.settle result with detachAbort, stage } : RunEntry).live = false := by
    simp [live, awaitsResult, inGrace, RunEntry.settle, hepilogue]
  exact
    { settled := by simp [RunEntry.settle, hsettled]
      epilogue := by simp [RunEntry.settle, hepilogue]
      wired := by simp [RunEntry.settle, awaitsResult]
      midRun := by simp [RunEntry.settle, hlisteners]
      timer := fun hrunning => absurd hrunning htimer
      grace := by simp [RunEntry.settle, hlisteners]
      returned := fun hreturned => absurd hreturned hstage'
      outcomes := by
        have := h.outcomes
        rw [if_neg fun hreturned => hstage' (hstage.mpr hreturned)] at this
        simpa [RunEntry.settle, hstage'] using this
      doomed := fun hdoomed =>
        ⟨(h.doomed (by simpa [RunEntry.settle] using hdoomed)).1, by simp [hlive]⟩
      stopped := by simp [hlive] }

theorem live_settle (hnone : e.epilogue = none) (result : Except RouterError RawRunResult)
    (detachAbort : DetachAbort) (stage : RunStage) :
    ({ e.detach.settle result with detachAbort, stage } : RunEntry).live = false := by
  simp [live, awaitsResult, inGrace, RunEntry.settle, hnone]

theorem live_settleEpilogue (h : e.inGrace = true) (hawaits : e.awaitsResult = false)
    (report : Option DecodedRunComplete) : (e.detach.settleEpilogue report).live = false := by
  have hcalls := inGrace_iff.mp h
  have hsettled : e.settled.isEmpty = false := hawaits
  simp [live, awaitsResult, inGrace, RunEntry.settleEpilogue, hcalls, hsettled]

/-- A `RunComplete` ends its grace phase, or the end of the router. -/
theorem Sound.settleEpilogue (h : e.Sound destroyed stopped) (hgrace : e.inGrace = true)
    (report : Option DecodedRunComplete) :
    (e.detach.settleEpilogue report).Sound destroyed stopped := by
  obtain ⟨hlisteners, htimer⟩ := h.detach
  have hcalls := inGrace_iff.mp hgrace
  have hawaits : e.settled.isEmpty = false := (h.epilogue [] hcalls).2
  have hlive := live_settleEpilogue hgrace hawaits report
  exact
    { settled := by simpa [RunEntry.settleEpilogue] using h.settled
      epilogue := by simp [RunEntry.settleEpilogue, hcalls, awaitsResult, hawaits]
      wired := by simp [RunEntry.settleEpilogue, awaitsResult, hawaits]
      midRun := by simp [RunEntry.settleEpilogue, hlisteners]
      timer := fun hrunning => absurd hrunning htimer
      grace := by simp [RunEntry.settleEpilogue, hlisteners]
      returned := fun _ => by simp [RunEntry.settleEpilogue, awaitsResult, hawaits]
      outcomes := by simpa [RunEntry.settleEpilogue] using h.outcomes
      doomed := fun hdoomed =>
        ⟨(h.doomed (by simpa [RunEntry.settleEpilogue] using hdoomed)).1, by simp [hlive]⟩
      stopped := by simp [hlive] }

theorem kind_listenersOn {signal : Option Nat} {kind : AbortKind} {l : AbortListener}
    (h : l ∈ listenersOn signal kind) : l.kind = kind := by
  obtain ⟨signal', -, rfl⟩ := List.mem_map.mp h
  rfl

theorem inGrace_enterGrace (payload : Blob) (graceWork aborted : Bool) :
    (e.enterGrace payload graceWork aborted).inGrace = true := rfl

/-- An early `Result` hands out the epilogue. -/
theorem Sound.enterGrace (h : e.Sound destroyed stopped) (hawaits : e.awaitsResult = true)
    (hreading : ¬ stopped) (payload : Blob) (graceWork aborted : Bool) :
    (e.enterGrace payload graceWork aborted).Sound destroyed stopped := by
  obtain ⟨hlisteners, htimer⟩ := h.detach
  have hsettled : e.settled = [] := by simpa [awaitsResult] using hawaits
  have hlive : e.live = true := by simp [live, hawaits]
  have hstage : e.stage ≠ .returned := by
    intro hreturned
    have := h.returned hreturned
    rw [hawaits] at this
    cases this
  -- only the listeners of the grace phase, and these only when no signal has fired
  have hnew : ∀ l ∈ (e.enterGrace payload graceWork aborted).listeners,
      l.kind.midRun = false ∧ aborted = false := by
    intro l hl
    cases haborted : aborted with
    | true => simp [RunEntry.enterGrace, RunEntry.settle, hlisteners, haborted] at hl
    | false =>
      simp only [RunEntry.enterGrace, RunEntry.settle, hlisteners, haborted, List.nil_append,
        Bool.false_eq_true, if_false, List.mem_append] at hl
      obtain hl | hl := hl
      · exact ⟨by rw [kind_listenersOn hl]; rfl, rfl⟩
      · exact ⟨by rw [kind_listenersOn hl]; rfl, rfl⟩
  exact
    { settled := by simp [RunEntry.enterGrace, RunEntry.settle, hsettled]
      epilogue := by simp [RunEntry.enterGrace, RunEntry.settle, awaitsResult]
      wired := by simp [RunEntry.enterGrace, RunEntry.settle, awaitsResult]
      midRun := by
        intro l hl hkind
        rw [(hnew l hl).1] at hkind
        cases hkind
      timer := fun hrunning => absurd hrunning htimer
      grace := by
        intro l hl _
        obtain ⟨-, rfl⟩ := hnew l hl
        exact ⟨rfl, rfl⟩
      returned := fun hreturned =>
        absurd (by simpa [RunEntry.enterGrace, RunEntry.settle] using hreturned) hstage
      outcomes := by simpa [RunEntry.enterGrace, RunEntry.settle, hstage] using h.outcomes
      doomed := by
        intro hdoomed
        obtain ⟨hdestroyed, hwriting⟩ :=
          h.doomed (by simpa [RunEntry.enterGrace, RunEntry.settle] using hdoomed)
        refine ⟨hdestroyed, fun _ => ?_⟩
        simpa [RunEntry.enterGrace, RunEntry.settle] using hwriting hlive
      stopped := fun hstopped => absurd hstopped hreading }

end RunEntry

/-! ### The client -/

namespace ControlRequest

/-- A `precompile` without a reply or a failure. -/
def pendingPrecompile (q : ControlRequest) : Bool := q.requestId.isSome && q.pending

/-- A `stats` without a reply or a failure. -/
def pendingStats (q : ControlRequest) : Bool := q.requestId.isNone && q.pending

end ControlRequest

namespace RuntimeIpcClient

/-- What holds of the client when every write has ended in time. -/
structure Sound (s : RuntimeIpcClient) : Prop where
  runs : Indexes s.runs s.entries (fun e => some e.runId) RunEntry.live
  entries : ∀ e ∈ s.entries, e.Sound (s.destroyed = true) (s.routing = .stopped)
  grace : s.graceRuns = s.entries.countP RunEntry.inGrace
  precompiles :
    Indexes s.precompileWaiters s.requests ControlRequest.requestId
      ControlRequest.pendingPrecompile
  stats : Lists (s.controlWaiters.map ControlWaiter.request) s.requests
    ControlRequest.pendingStats
  stopped : s.routing = .stopped → s.destroyed = true

theorem new_sound : new.Sound where
  runs := Indexes.empty
  entries := by simp [new]
  grace := rfl
  precompiles := Indexes.empty
  stats := Lists.nil
  stopped := by simp [new]

variable {s : RuntimeIpcClient} {run : Nat} {e : RunEntry}

theorem Sound.entry (h : s.Sound) (he : s.entries[run]? = some e) :
    e.Sound (s.destroyed = true) (s.routing = .stopped) :=
  h.entries e (List.mem_of_getElem? he)

/-- The entries after one has changed. -/
theorem forall_modify {P : RunEntry → Prop} {l : List RunEntry} {f : RunEntry → RunEntry}
    (h : ∀ e ∈ l, P e) (he : l[run]? = some e) (hf : P (f e)) : ∀ e ∈ l.modify run f, P e := by
  intro e' he'
  obtain ⟨i, hi⟩ := List.mem_iff_getElem?.mp he'
  rw [List.getElem?_modify] at hi
  by_cases hrun : run = i
  · subst hrun
    obtain rfl : f e = e' := by simpa [he] using hi
    exact hf
  · exact h e' (List.mem_of_getElem? (by simpa [hrun] using hi))

/-- One entry changes and is as live as before. -/
theorem Sound.modifyEntry (h : s.Sound) (he : s.entries[run]? = some e)
    {f : RunEntry → RunEntry} (hid : (f e).runId = e.runId)
    (hsettled : (f e).settled = e.settled) (hepilogue : (f e).epilogue = e.epilogue)
    (hsound : (f e).Sound (s.destroyed = true) (s.routing = .stopped)) :
    (s.modifyEntry run f).Sound := by
  have hgrace : (f e).inGrace = e.inGrace := by simp [RunEntry.inGrace, hepilogue]
  have hlive : (f e).live = e.live := by
    simp [RunEntry.live, RunEntry.awaitsResult, hgrace, hsettled]
  exact
    { h with
      runs := h.runs.modify he (by simp [hid]) hlive
      entries := forall_modify h.entries he hsound
      grace := by
        have hcount := countP_modify RunEntry.inGrace he f
        rw [hgrace] at hcount
        show s.graceRuns = ((s.entries.modify run f).countP RunEntry.inGrace : Nat)
        rw [h.grace]
        omega }

/-- A run leaves the table. -/
theorem Sound.leave (h : s.Sound) {runId : Nat} (hid : s.runs.lookup runId = some run)
    (he : s.entries[run]? = some e) {f : RunEntry → RunEntry} (hlive : (f e).live = false)
    (hsound : (f e).Sound (s.destroyed = true) (s.routing = .stopped)) {graceRuns : Int}
    (hgrace : graceRuns + (if e.inGrace then 1 else 0) = s.graceRuns) :
    ({ s with runs := s.runs.erase runId, graceRuns }.modifyEntry run f).Sound :=
  { h with
    runs := by
      refine h.runs.erase hid ?_
      intro e' he'
      rw [he] at he'
      cases he'
      exact hlive
    entries := forall_modify h.entries he hsound
    grace := by
      have hcount := countP_modify RunEntry.inGrace he f
      have hafter : (f e).inGrace = false := by
        have := hlive
        simp only [RunEntry.live, Bool.or_eq_false_iff] at this
        exact this.2
      rw [h.grace] at hgrace
      show graceRuns = ((s.entries.modify run f).countP RunEntry.inGrace : Nat)
      cases hbefore : e.inGrace with
      | true =>
        simp only [hafter, hbefore, if_true, Bool.false_eq_true, if_false] at hcount hgrace
        omega
      | false =>
        simp only [hafter, hbefore, Bool.false_eq_true, if_false] at hcount hgrace
        omega }

/-! ### Calls, writes and aborts -/

theorem Sound.terminate (h : s.Sound) (runId : Nat) (hard : Bool) :
    (s.terminate runId hard).Sound :=
  ⟨h.runs, h.entries, h.grace, h.precompiles, h.stats, h.stopped⟩

theorem getElem?_modifyEntry (he : s.entries[run]? = some e) (f : RunEntry → RunEntry) :
    (s.modifyEntry run f).entries[run]? = some (f e) := by
  simp [RuntimeIpcClient.modifyEntry, he]

/-- The timer starts only while the `Result` is waited for, with `detachAbort` behind it. -/
theorem Sound.beginHardAbort (h : s.Sound) {e' : RunEntry} (he : s.entries[run]? = some e')
    (hwired : e.graceTimer = .unset → e'.awaitsResult = true ∧ e'.detachAbort = .midRun) :
    (s.beginHardAbort run e).Sound := by
  unfold RuntimeIpcClient.beginHardAbort
  split
  · next hunset =>
    refine (h.terminate e.runId true).modifyEntry he rfl rfl rfl ?_
    exact { h.entry he with timer := fun _ => hwired hunset }
  · exact h.terminate e.runId true

theorem isSome_of_isAborted {signal : Option Nat} (h : s.isAborted signal = true) :
    signal.isSome = true := by
  cases hsignal : signal with
  | none => simp [isAborted, hsignal] at h
  | some signal' => rfl

theorem Sound.executeRun (h : s.Sound) {runId : Nat} (hfree : s.runs.lookup runId = none)
    (dispatcher : Bool) (signal hardAbortSignal : Option Nat) :
    (s.executeRun runId dispatcher signal hardAbortSignal).Sound :=
  { h with
    runs := h.runs.insert hfree rfl rfl
    entries := by
      intro e he
      obtain he | he := List.mem_append.mp he
      · exact h.entries e he
      · obtain rfl := List.mem_singleton.mp he
        exact
          { settled := Nat.zero_le 1
            epilogue := by simp
            wired := by
              intro _ hsome
              exact if_pos hsome
            midRun := by
              intro l hl _
              refine ⟨rfl, if_pos ?_⟩
              -- a listener is on one of the signals
              obtain hl | hl := List.mem_append.mp hl
              · obtain ⟨_, hmem, -⟩ := List.mem_map.mp hl
                have hsignal := Option.mem_toList.mp hmem
                cases hcase : signal with
                | none => simp [hcase] at hsignal
                | some _ => rfl
              · obtain ⟨_, hmem, -⟩ := List.mem_map.mp hl
                have hsignal := Option.mem_toList.mp hmem
                cases hcase : hardAbortSignal with
                | none => simp [hcase] at hsignal
                | some _ => simp
            timer := by simp
            grace := by
              intro l hl hkind
              obtain hl | hl := List.mem_append.mp hl
              · rw [RunEntry.kind_listenersOn hl] at hkind
                cases hkind
              · rw [RunEntry.kind_listenersOn hl] at hkind
                cases hkind
            returned := by simp
            outcomes := rfl
            doomed := fun hdoomed => ⟨hdoomed, fun _ => rfl⟩
            stopped := fun hstopped _ => ⟨h.stopped hstopped, rfl⟩ }
    grace := by
      show s.graceRuns = ((s.entries ++ [_]).countP RunEntry.inGrace : Nat)
      rw [h.grace, List.countP_append]
      rfl }

theorem Sound.runRawCode (h : s.Sound) (encodes dispatcher : Bool)
    (signal hardAbortSignal : Option Nat) :
    (s.runRawCode encodes dispatcher signal hardAbortSignal).Sound := by
  unfold RuntimeIpcClient.runRawCode
  split
  · exact h
  · split
    · exact h
    · next runId hid =>
      have hs : ({ s with nextRunId := runId } : RuntimeIpcClient).Sound :=
        ⟨h.runs, h.entries, h.grace, h.precompiles, h.stats, h.stopped⟩
      split
      · refine hs.executeRun ?_ dispatcher signal hardAbortSignal
        have hfree := (Cyclic.firstAfter_spec (by decide) hid).2
        simp only [Bool.or_eq_false_iff, Option.isSome_eq_false_iff, Option.isNone_iff_eq_none]
          at hfree
        exact hfree.2
      · exact hs

theorem Sound.written (h : s.Sound) (he : s.entries[run]? = some e)
    (hclean : e.stage = .writing → s.isAborted e.hardAbortSignal = true →
      e.graceTimer = .unset → e.awaitsResult = true) :
    (s.written run e).Sound := by
  unfold RuntimeIpcClient.written
  split
  · next hwriting =>
    simp only [Bool.and_eq_true, decide_eq_true_eq, Bool.not_eq_true'] at hwriting
    obtain ⟨hstage, hdoomed⟩ := hwriting
    have hentry := h.entry he
    have hs : (s.modifyEntry run fun e => { e with stage := .awaiting }).Sound := by
      refine h.modifyEntry he rfl rfl rfl ?_
      exact
        { hentry with
          returned := by simp
          outcomes := by simpa [hstage] using hentry.outcomes
          doomed := by simp [hdoomed]
          stopped := fun hstopped hlive => by
            have := (hentry.stopped hstopped hlive).1
            rw [hdoomed] at this
            cases this }
    dsimp only
    split
    · next haborted =>
      refine hs.beginHardAbort (getElem?_modifyEntry he _) fun hunset => ?_
      have hawaits := hclean hstage haborted hunset
      exact ⟨hawaits, hentry.wired hawaits (by simp [isSome_of_isAborted haborted])⟩
    · split
      · exact hs.terminate e.runId false
      · exact hs
  · exact h

theorem Sound.writeFailed (h : s.Sound) (he : s.entries[run]? = some e)
    (hclean : e.stage = .writing → ∀ owner ∈ s.runs.lookup e.runId,
      owner = run ∧ e.epilogue.isNone = true) (message : String) :
    (s.writeFailed run e message).Sound := by
  unfold RuntimeIpcClient.writeFailed
  have hentry := h.entry he
  split
  · next hstage =>
    cases hlookup : s.runs.lookup e.runId with
    | none =>
      have hdead : e.live = false := by
        rw [← Bool.not_eq_true, h.runs.live_iff he rfl, hlookup]
        simp
      rw [if_neg (by simp)]
      refine h.modifyEntry he rfl rfl rfl ?_
      exact
        { hentry with
          returned := by simp
          outcomes := by simpa [hstage] using hentry.outcomes
          doomed := fun hdoomed =>
            ⟨(hentry.doomed hdoomed).1, fun hlive => absurd (hdead.symm.trans hlive) (by simp)⟩ }
    | some owner =>
      obtain ⟨rfl, hnone⟩ := hclean hstage owner hlookup
      have hepilogue := Option.isNone_iff_eq_none.mp hnone
      have hlive := (h.runs.live_iff he rfl).mpr hlookup
      have hawaits := RunEntry.awaits_of_live hlive hepilogue
      rw [if_pos (by simp)]
      refine h.leave hlookup he (RunEntry.live_settle hepilogue _ _ _)
        (hentry.settle hawaits _ _ _ (by simp [hstage])) ?_
      simp [RunEntry.inGrace, hepilogue]
  · exact h

theorem Sound.resume (h : s.Sound) (he : s.entries[run]? = some e) : (s.resume run e).Sound := by
  unfold RuntimeIpcClient.resume
  split
  · next hstage =>
    split
    · exact h
    · next result hresult =>
      have hentry := h.entry he
      have hawaits : e.awaitsResult = false := by
        cases hsettled : e.settled with
        | nil => simp [hsettled] at hresult
        | cons _ _ => simp [RunEntry.awaitsResult, hsettled]
      refine h.modifyEntry he rfl rfl rfl ?_
      exact
        { hentry with
          returned := fun _ => hawaits
          outcomes := by
            have := hentry.outcomes
            simp only [hstage, reduceCtorEq, if_false] at this
            simp [this]
          doomed := fun hdoomed =>
            ⟨(hentry.doomed hdoomed).1, fun hlive => by
              have := (hentry.doomed hdoomed).2 hlive
              rw [hstage] at this
              cases this⟩ }
  · exact h

theorem Sound.notify (h : s.Sound) (he : s.entries[run]? = some e) (l : AbortListener) :
    (s.notify run e l).Sound := by
  unfold RuntimeIpcClient.notify
  split
  · next hl =>
    have hentry := h.entry he
    have hs : (s.modifyEntry run fun e => { e with listeners := e.listeners.erase l }).Sound := by
      refine h.modifyEntry he rfl rfl rfl ?_
      exact
        { hentry with
          midRun := fun l' hl' => hentry.midRun l' (List.mem_of_mem_erase hl')
          grace := fun l' hl' => hentry.grace l' (List.mem_of_mem_erase hl') }
    dsimp only
    cases hkind : l.kind with
    | beginSoftAbort => exact hs.terminate e.runId false
    | beginHardAbort =>
      refine hs.beginHardAbort (getElem?_modifyEntry he _) fun _ => ?_
      exact hentry.midRun l hl.1 (by rw [hkind]; rfl)
    | cancelSoft => exact hs.terminate e.runId false
    | cancelHard => exact hs.terminate e.runId true
  · exact h

/-- The flags of the socket; once it is destroyed it stays so. -/
theorem Sound.socket (h : s.Sound) (disposed broken destroyed : Bool)
    (hdestroyed : s.destroyed = true → destroyed = true) :
    ({ s with disposed, broken, destroyed } : RuntimeIpcClient).Sound :=
  { h with
    entries := fun e he => (h.entries e he).mono hdestroyed id
    stopped := fun hstopped => hdestroyed (h.stopped hstopped) }

theorem Sound.timerFires (h : s.Sound) (he : s.entries[run]? = some e) :
    (s.timerFires run e).Sound := by
  unfold RuntimeIpcClient.timerFires
  split
  · have hs : (s.modifyEntry run fun e => { e with graceTimer := .fired }).Sound := by
      refine h.modifyEntry he rfl rfl rfl ?_
      exact { h.entry he with timer := by simp }
    unfold abortConnection
    split
    · exact hs
    · exact hs.socket _ true true fun _ => rfl
  · exact h

/-! ### Frames -/

/-- What a frame may leave behind. -/
structure Routes (s s' : RuntimeIpcClient) : Prop where
  sound : s'.Sound
  routing : s'.routing = s.routing

theorem Routes.refl (h : s.Sound) : s.Routes s := ⟨h, rfl⟩

theorem entryOf_eq {runId run : Nat} (h : s.entryOf runId = some (run, e)) :
    s.runs.lookup runId = some run ∧ s.entries[run]? = some e := by
  simp only [entryOf, Option.bind_eq_bind, Option.bind_eq_some_iff] at h
  obtain ⟨run', hrun', e', he', heq⟩ := h
  cases heq
  exact ⟨hrun', he'⟩

/-- An entry the router finds under an id has that id and is live. -/
theorem Sound.entryOf (h : s.Sound) {runId run : Nat} (hentry : s.entryOf runId = some (run, e)) :
    e.runId = runId ∧ e.live = true := by
  obtain ⟨hlookup, he⟩ := entryOf_eq hentry
  obtain ⟨e', he', hid, hlive⟩ := h.runs.found runId run hlookup
  rw [he] at he'
  cases he'
  exact ⟨Option.some.inj hid, hlive⟩

/-- An early `Result` keeps the run in the table and counts it. -/
theorem Sound.enterGrace (h : s.Sound) (he : s.entries[run]? = some e) (hlive : e.live = true)
    (hawaits : e.awaitsResult = true) (hreading : s.routing ≠ .stopped) (payload : Blob)
    (graceWork aborted : Bool) (terminates : List (Nat × Bool)) :
    ({ s with graceRuns := s.graceRuns + 1, terminates }.modifyEntry run
      fun e => e.enterGrace payload graceWork aborted).Sound :=
  { h with
    runs := by
      refine h.runs.modify he ?_ ?_
      · simp [RunEntry.enterGrace, RunEntry.settle]
      · rw [hlive, RunEntry.live, RunEntry.inGrace_enterGrace, Bool.or_true]
    entries := forall_modify h.entries he
      ((h.entry he).enterGrace hawaits hreading payload graceWork aborted)
    grace := by
      have hcount := countP_modify RunEntry.inGrace he
        fun e => e.enterGrace payload graceWork aborted
      have hbefore : e.inGrace = false := by
        rw [← Bool.not_eq_true]
        intro hgrace
        have := ((h.entry he).epilogue [] (RunEntry.inGrace_iff.mp hgrace)).2
        rw [hawaits] at this
        cases this
      rw [hbefore, RunEntry.inGrace_enterGrace] at hcount
      show s.graceRuns + 1 = ((s.entries.modify run _).countP RunEntry.inGrace : Nat)
      rw [h.grace]
      simp only [Bool.false_eq_true, if_false, if_true] at hcount
      omega }

theorem Sound.routeResult (h : s.Sound) (hreading : s.routing = .reading) (payload : Blob) :
    s.Routes (s.routeResult payload).1 := by
  unfold RuntimeIpcClient.routeResult
  dsimp only
  have hs : ({ s with slotAllowances := s.slotAllowances ++
      [peekRunCompletionSlotAllowance payload] } : RuntimeIpcClient).Sound :=
    ⟨h.runs, h.entries, h.grace, h.precompiles, h.stats, h.stopped⟩
  split
  · exact ⟨hs, rfl⟩
  · next runId _ =>
    split
    · exact ⟨hs, rfl⟩
    · next run e hfound =>
      obtain ⟨hlookup, he⟩ := entryOf_eq hfound
      have hlive := (hs.entryOf hfound).2
      split
      · exact ⟨hs, rfl⟩
      · next hnone =>
        have hepilogue : e.epilogue = none := by simpa using hnone
        have hawaits := RunEntry.awaits_of_live hlive hepilogue
        split
        · -- the run is over
          refine ⟨?_, rfl⟩
          refine hs.leave hlookup he (RunEntry.live_settle hepilogue _ _ _)
            ((h.entry he).settle hawaits _ _ _ (by simp)) ?_
          simp [RunEntry.inGrace, hepilogue]
        · -- its epilogue is handed out
          exact ⟨hs.enterGrace he hlive hawaits (by simp [hreading]) _ _ _ _, rfl⟩

theorem Sound.routeRunComplete (h : s.Sound) (payload : Blob) :
    s.Routes (s.routeRunComplete payload).1 := by
  unfold RuntimeIpcClient.routeRunComplete
  dsimp only
  split
  · exact .refl h
  · next report _ =>
    split
    · exact .refl h
    · next run e hfound =>
      obtain ⟨hlookup, he⟩ := entryOf_eq hfound
      split
      · next hsome =>
        obtain ⟨calls, hcalls⟩ := Option.isSome_iff_exists.mp hsome
        have hawaits := ((h.entry he).epilogue calls hcalls).2
        have hgrace := RunEntry.inGrace_of_live (h.entryOf hfound).2 hawaits
        refine ⟨?_, rfl⟩
        refine h.leave hlookup he (RunEntry.live_settleEpilogue hgrace hawaits _)
          ((h.entry he).settleEpilogue hgrace _) ?_
        simp [hgrace]
      · exact .refl h

theorem Sound.routeBridgeCall {V : Type} (codec : ValueCodec V) (h : s.Sound) (payload : Blob) :
    s.Routes (s.routeBridgeCall codec payload).1 := by
  unfold RuntimeIpcClient.routeBridgeCall
  split
  · exact .refl h
  · split
    · exact .refl h
    · next run e hfound =>
      obtain ⟨-, he⟩ := entryOf_eq hfound
      unfold dispatchBridgeCallFrame
      split
      · split
        · exact .refl h
        · refine ⟨h.modifyEntry he rfl rfl rfl ?_, rfl⟩
          exact { h.entry he with }
      · split
        · split
          · exact .refl h
          · exact .refl h
        · exact .refl h

/-! ### Control requests -/

theorem Sound.requestId (h : s.Sound) {request requestId : Nat}
    (hid : s.precompileWaiters.lookup requestId = some request) :
    ∃ q, s.requests[request]? = some q ∧ q.requestId = some requestId := by
  obtain ⟨q, hq, hkey, -⟩ := h.precompiles.found requestId request hid
  exact ⟨q, hq, hkey⟩

/-- A control request changes and waits as before. -/
theorem Sound.modifyRequest (h : s.Sound) {request : Nat} {q : ControlRequest}
    (hq : s.requests[request]? = some q) {f : ControlRequest → ControlRequest}
    (hid : (f q).requestId = q.requestId) (hpending : (f q).pending = q.pending) :
    (s.modifyRequest request f).Sound :=
  { h with
    precompiles := h.precompiles.modify hq hid
      (by simp [ControlRequest.pendingPrecompile, hid, hpending])
    stats := h.stats.modify hq (by simp [ControlRequest.pendingStats, hid, hpending]) }

/-- A `precompile` has its reply, or its write failed. -/
theorem Sound.precompileEnds (h : s.Sound) {request requestId : Nat}
    (hid : s.precompileWaiters.lookup requestId = some request)
    {f : ControlRequest → ControlRequest} (hf : ∀ q, (f q).requestId = q.requestId)
    (hdead : ∀ q, (f q).pending = false) :
    ({ s with precompileWaiters := s.precompileWaiters.erase requestId }.modifyRequest request
      f).Sound := by
  obtain ⟨q, hq, hkey⟩ := h.requestId hid
  exact
    { h with
      precompiles := h.precompiles.erase hid fun q _ => by
        simp [ControlRequest.pendingPrecompile, hdead]
      stats := h.stats.modify hq (by simp [ControlRequest.pendingStats, hf, hkey]) }

/-- A `stats` has its reply, or its write failed. -/
theorem Sound.statsEnds (h : s.Sound) {request : Nat} {q : ControlRequest}
    (hq : s.requests[request]? = some q) (hid : q.requestId = none)
    {f : ControlRequest → ControlRequest} (hf : ∀ q, (f q).requestId = q.requestId)
    (hdead : ∀ q, (f q).pending = false) {waiters : List ControlWaiter}
    (hnodup : (waiters.map ControlWaiter.request).Nodup)
    (hmem : ∀ j, j ∈ waiters.map ControlWaiter.request ↔
      j ∈ s.controlWaiters.map ControlWaiter.request ∧ j ≠ request) :
    ({ s with controlWaiters := waiters }.modifyRequest request f).Sound :=
  { h with
    precompiles := h.precompiles.modify hq (hf q)
      (by simp [ControlRequest.pendingPrecompile, hf, hid])
    stats := h.stats.remove hnodup hmem fun q _ => by simp [ControlRequest.pendingStats, hdead] }

theorem pending_reply (q : ControlRequest) (reply : Except RouterError Blob) :
    ({ q with reply := q.reply ++ [reply] } : ControlRequest).pending = false := by
  simp [ControlRequest.pending]

theorem pending_threw (q : ControlRequest) (failure : RouterError) :
    ({ q with stage := .threw failure } : ControlRequest).pending = false := by
  simp [ControlRequest.pending]

/-- A waiter is taken out by itself. -/
theorem mem_eraseP_waiters {waiters : List ControlWaiter}
    (hnodup : (waiters.map ControlWaiter.request).Nodup) (request j : Nat) :
    j ∈ (waiters.eraseP fun waiter => waiter.request = request).map ControlWaiter.request ↔
      j ∈ waiters.map ControlWaiter.request ∧ j ≠ request := by
  induction waiters with
  | nil => simp
  | cons waiter waiters ih =>
    obtain ⟨hnotMem, hrest⟩ := List.nodup_cons.mp hnodup
    by_cases hrequest : waiter.request = request
    · rw [List.eraseP_cons_of_pos (by simpa using hrequest), List.map_cons, List.mem_cons]
      constructor
      · intro hj
        exact ⟨Or.inr hj, fun heq => hnotMem (hrequest ▸ heq ▸ hj)⟩
      · rintro ⟨hj | hj, hne⟩
        · exact absurd (hj.trans hrequest) hne
        · exact hj
    · rw [List.eraseP_cons_of_neg (by simpa using hrequest), List.map_cons, List.map_cons,
        List.mem_cons, List.mem_cons, ih hrest]
      constructor
      · rintro (rfl | ⟨hj, hne⟩)
        · exact ⟨Or.inl rfl, hrequest⟩
        · exact ⟨Or.inr hj, hne⟩
      · rintro ⟨hj | hj, hne⟩
        · exact Or.inl hj
        · exact Or.inr ⟨hj, hne⟩

theorem Sound.routePrecompileResult (h : s.Sound) (payload : Blob) :
    s.Routes (s.routePrecompileResult payload).1 := by
  unfold RuntimeIpcClient.routePrecompileResult
  split
  · exact .refl h
  · split
    · exact .refl h
    · next request hid =>
      exact ⟨h.precompileEnds hid (fun _ => rfl) fun q => pending_reply q _, rfl⟩

theorem Sound.routeStatsResult (h : s.Sound) (frame : TypedFrame RustToTsMessageType) :
    s.Routes (s.routeStatsResult frame).1 := by
  unfold RuntimeIpcClient.routeStatsResult
  split
  · exact .refl h
  · next waiter rest hwaiters =>
    split
    · have hstats := h.stats
      rw [hwaiters, List.map_cons] at hstats
      obtain ⟨hnotMem, hrest⟩ := List.nodup_cons.mp hstats.nodup
      obtain ⟨q, hq, hpending⟩ := (hstats.mem waiter.request).mp List.mem_cons_self
      have hid : q.requestId = none := by
        simp only [ControlRequest.pendingStats, Bool.and_eq_true,
          Option.isNone_iff_eq_none] at hpending
        exact hpending.1
      refine ⟨h.statsEnds (f := fun q => { q with reply := q.reply ++ [.ok frame.payload] }) hq hid
        (fun _ => rfl) (fun q => pending_reply q _) hrest ?_, rfl⟩
      intro j
      rw [hwaiters, List.map_cons, List.mem_cons]
      constructor
      · intro hj
        exact ⟨Or.inr hj, fun heq => hnotMem (heq ▸ hj)⟩
      · rintro ⟨hj | hj, hne⟩
        · exact absurd hj hne
        · exact hj
    · exact .refl h

theorem Sound.precompile (h : s.Sound) : s.precompile.Sound := by
  unfold RuntimeIpcClient.precompile
  split
  · exact h
  · split
    · exact h
    · next requestId hid =>
      have hfree : s.precompileWaiters.lookup requestId = none := by
        have := (Cyclic.firstAfter_spec (by decide) hid).2
        simpa using this
      exact
        { h with
          precompiles := h.precompiles.insert hfree rfl rfl
          stats := h.stats.concat rfl }

theorem Sound.statsCall (h : s.Sound) : s.stats.Sound := by
  unfold RuntimeIpcClient.stats
  split
  · exact h
  · exact
      { h with
        precompiles := h.precompiles.concat rfl
        stats := by
          show Lists ((s.controlWaiters ++ [_]).map ControlWaiter.request) _ _
          rw [List.map_append]
          exact h.stats.push rfl }

theorem Sound.requestWritten (h : s.Sound) {request : Nat} {q : ControlRequest}
    (hq : s.requests[request]? = some q) : (s.requestWritten request q).Sound := by
  unfold RuntimeIpcClient.requestWritten
  split
  · next hwriting =>
    simp only [Bool.and_eq_true, decide_eq_true_eq] at hwriting
    exact h.modifyRequest hq rfl (by simp [ControlRequest.pending, hwriting.1])
  · exact h

theorem Sound.requestFailed (h : s.Sound) {request : Nat} {q : ControlRequest}
    (hq : s.requests[request]? = some q)
    (hclean : q.stage = .writing → ∀ requestId ∈ q.requestId,
      ∀ owner ∈ s.precompileWaiters.lookup requestId, owner = request) (message : String) :
    (s.requestFailed request q message).Sound := by
  unfold RuntimeIpcClient.requestFailed
  split
  · next hstage =>
    cases hid : q.requestId with
    | some requestId =>
      cases hlookup : s.precompileWaiters.lookup requestId with
      | some owner =>
        obtain rfl := hclean hstage requestId hid owner hlookup
        exact h.precompileEnds hlookup (fun _ => rfl) fun q => pending_threw q _
      | none =>
        -- its reply is there
        have hdead : q.pending = false := by
          have hlive := h.precompiles.live_iff hq hid
          rw [hlookup] at hlive
          simpa [ControlRequest.pendingPrecompile, hid] using hlive
        have hs := h.modifyRequest (f := fun q => { q with stage := .threw (.error message) }) hq
          rfl (by rw [hdead]; exact pending_threw q _)
        exact
          { hs with
            precompiles := by
              show Indexes (s.precompileWaiters.erase requestId) _ _ _
              rw [show s.precompileWaiters.erase requestId = s.precompileWaiters from
                AList.ext (List.kerase_of_notMem_keys (AList.lookup_eq_none.mp hlookup))]
              exact hs.precompiles }
    | none =>
      refine h.statsEnds (f := fun q => { q with stage := .threw (.error message) }) hq hid
        (fun _ => rfl) (fun q => pending_threw q _) ?_ ?_
      · exact h.stats.nodup.sublist ((List.eraseP_sublist).map _)
      · exact mem_eraseP_waiters h.stats.nodup request
  · exact h

/-! ### The end of the router -/

/-- The two kinds of requests wait apart. -/
theorem Sound.waiting_nodup (h : s.Sound) : s.waiting.Nodup := by
  refine h.stats.nodup.append h.precompiles.lists.nodup ?_
  intro request hstats hprecompile
  obtain ⟨q, hq, hpending⟩ := (h.stats.mem request).mp hstats
  obtain ⟨q', hq', hpending'⟩ := (h.precompiles.lists.mem request).mp hprecompile
  rw [hq] at hq'
  cases hq'
  simp only [ControlRequest.pendingStats, ControlRequest.pendingPrecompile, Bool.and_eq_true,
    Option.isNone_iff_eq_none] at hpending hpending'
  rw [hpending.1] at hpending'
  cases hpending'.1

theorem Sound.tearDown (h : s.Sound) (failure : RouterError) : (s.tearDown failure).Sound := by
  -- every live entry is in the table, and is settled
  have hlive : ∀ (run : Nat) (e : RunEntry), s.entries[run]? = some e → e.live = true →
      (e.tearDown failure).live = false ∧ (e.tearDown failure).Sound (s.destroyed = true)
        (s.routing = .stopped) := by
    intro run e he hlive
    have hentry := h.entry he
    unfold RunEntry.tearDown
    cases hepilogue : e.epilogue with
    | none =>
      rw [if_neg (by simp)]
      exact ⟨RunEntry.live_settle hepilogue _ _ _,
        hentry.settle (RunEntry.awaits_of_live hlive hepilogue) _ _ _ (by simp)⟩
    | some calls =>
      have hawaits := (hentry.epilogue calls hepilogue).2
      have hgrace := RunEntry.inGrace_of_live hlive hawaits
      rw [if_pos (by simp)]
      exact ⟨RunEntry.live_settleEpilogue hgrace hawaits _, hentry.settleEpilogue hgrace _⟩
  have hin : ∀ run ∈ handles s.runs, ∀ e, s.entries[run]? = some e → e.live = true := by
    intro run hrun e he
    obtain ⟨e', he', hlive'⟩ := (h.runs.lists.mem run).mp hrun
    rw [he] at he'
    cases he'
    exact hlive'
  have hdead := h.runs.lists.clear h.runs.lists.nodup (fun _ hrun => hrun)
    fun run hrun e he => (hlive run e he (hin run hrun e he)).1
  have hrequests : ∀ request ∈ s.waiting, ∀ q, s.requests[request]? = some q →
      ({ q with reply := q.reply ++ [.error failure] } : ControlRequest).pending = false :=
    fun _ _ q _ => pending_reply q _
  exact
    { runs := Indexes.dead hdead
      entries := by
        intro e he
        obtain ⟨run, hrun⟩ := List.mem_iff_getElem?.mp he
        have hrun' := hdead run e hrun
        change (modifyAll s.entries (handles s.runs) _)[run]? = some e at hrun
        rw [getElem?_modifyAll h.runs.lists.nodup] at hrun
        split at hrun
        · next hmem =>
          obtain ⟨e', he', rfl⟩ := Option.map_eq_some_iff.mp hrun
          exact (hlive run e' he' (hin run hmem e' he')).2.of_settled hrun' fun _ => rfl
        · exact (h.entry hrun).of_settled hrun' fun _ => rfl
      grace := by
        show (0 : Int) = ((modifyAll s.entries (handles s.runs) _).countP _ : Nat)
        have hzero : (modifyAll s.entries (handles s.runs)
            (RunEntry.tearDown failure)).countP RunEntry.inGrace = 0 := by
          rw [List.countP_eq_zero]
          intro e he hgrace
          obtain ⟨run, hrun⟩ := List.mem_iff_getElem?.mp he
          have := hdead run e hrun
          rw [RunEntry.live, hgrace, Bool.or_true] at this
          cases this
        rw [hzero]
        rfl
      precompiles := by
        refine Indexes.dead (h.precompiles.lists.clear h.waiting_nodup
          (fun _ hmem => List.mem_append_right _ hmem) fun request hmem q hq => ?_)
        simp [ControlRequest.pendingPrecompile, hrequests request hmem q hq]
      stats := by
        refine Lists.dead (h.stats.clear h.waiting_nodup
          (fun _ hmem => List.mem_append_left _ hmem) fun request hmem q hq => ?_)
        simp [ControlRequest.pendingStats, hrequests request hmem q hq]
      stopped := fun _ => rfl }

/-- The router goes on. -/
theorem Sound.goesOn (h : s.Sound) {routing : Routing} (hrouting : routing ≠ .stopped) :
    ({ s with routing } : RuntimeIpcClient).Sound :=
  { h with
    entries := fun e he => (h.entries e he).mono id fun hstopped => absurd hstopped hrouting
    stopped := fun hstopped => absurd hstopped hrouting }

variable {V : Type} (codec : ValueCodec V)

theorem Sound.routeFrame (h : s.Sound) (hreading : s.routing = .reading)
    (frame : TypedFrame RustToTsMessageType) : s.Routes (s.routeFrame codec frame).1 := by
  unfold RuntimeIpcClient.routeFrame
  split
  · exact h.routeResult hreading frame.payload
  · exact h.routeRunComplete frame.payload
  · exact .refl h
  · exact h.routePrecompileResult frame.payload
  · exact h.routeStatsResult frame
  · exact h.routeBridgeCall codec frame.payload
  · exact .refl h
  · exact .refl h
  · exact .refl h
  · exact .refl h
  · exact .refl h

theorem Sound.route (h : s.Sound) (hreading : s.routing = .reading)
    (frame : TypedFrame RustToTsMessageType) : (s.route codec frame).Sound := by
  have hroutes := h.routeFrame codec hreading frame
  unfold RuntimeIpcClient.route
  split
  · next s' heq =>
    rw [heq] at hroutes
    exact hroutes.sound
  · next s' heq =>
    rw [heq] at hroutes
    exact hroutes.sound.goesOn (by simp)
  · next s' e heq =>
    rw [heq] at hroutes
    exact hroutes.sound.tearDown e

/-- One step keeps the client sound when the writes end in time. -/
theorem sound_step (s : RuntimeIpcClient) (op : ClientOp) (h : s.Sound) (hclean : s.Clean op) :
    (s.step codec op).Sound := by
  cases op with
  | runRawCode encodes dispatcher signal hardAbortSignal =>
    exact h.runRawCode encodes dispatcher signal hardAbortSignal
  | written run =>
    cases he : s.entries[run]? with
    | none => simpa [step, he] using h
    | some e => simpa [step, he] using h.written he (hclean e he)
  | writeFailed run message =>
    cases he : s.entries[run]? with
    | none => simpa [step, he] using h
    | some e => simpa [step, he] using h.writeFailed he (hclean e he) message
  | resume run =>
    cases he : s.entries[run]? with
    | none => simpa [step, he] using h
    | some e => simpa [step, he] using h.resume he
  | abort signal => exact ⟨h.runs, h.entries, h.grace, h.precompiles, h.stats, h.stopped⟩
  | notify run listener =>
    cases he : s.entries[run]? with
    | none => simpa [step, he] using h
    | some e => simpa [step, he] using h.notify he listener
  | timerFires run =>
    cases he : s.entries[run]? with
    | none => simpa [step, he] using h
    | some e => simpa [step, he] using h.timerFires he
  | route frame =>
    simp only [step]
    split
    · next hreading => exact h.route codec hreading frame
    · exact h
  | answered =>
    simp only [step]
    split
    · exact h.goesOn (by simp)
    · exact h
  | answerFailed message =>
    simp only [step]
    split
    · exact h.tearDown _
    · exact h
  | readRejects message =>
    simp only [step]
    split
    · exact h.tearDown _
    · exact h
  | socketEvent destroyed => exact h.socket _ true _ fun hdestroyed => by simp [hdestroyed]
  | dispose => exact h.socket true _ true fun _ => rfl
  | precompile => exact h.precompile
  | stats => exact h.statsCall
  | requestWritten request =>
    cases hq : s.requests[request]? with
    | none => simpa [step, hq] using h
    | some q => simpa [step, hq] using h.requestWritten hq
  | requestFailed request message =>
    cases hq : s.requests[request]? with
    | none => simpa [step, hq] using h
    | some q => simpa [step, hq] using h.requestFailed hq (hclean q hq) message

end RuntimeIpcClient

end Router

end Iso4
