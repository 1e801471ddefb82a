/-
What the run table of a connection promises its callers.

Three writes that end late break it.  A request write that fails after the early `Result` of
its run takes the entry out of the table: nothing settles the epilogue any more, and the run
stays counted as one in its grace phase.  One that succeeds after the run has left starts the
timer of a hard abort with nobody to clear it.  And a failed `precompile` deletes whatever
waits under its id.

* `run_table` — with writes that end in time, every promise settles once, the abort wiring is
  removed and the counts are exact;
* `run_table_fails` — what a late write does.
-/
import Iso4.RouterTable
import Iso4.RuntimeRoundTrip

namespace Iso4

namespace Router

open Execution Framing Handles Ipc

namespace RuntimeIpcClient

variable {s : RuntimeIpcClient}

/-- A call that no `Result` and no failure has reached. -/
def Awaits (s : RuntimeIpcClient) (run : Nat) (e : RunEntry) : Prop :=
  s.runs.lookup e.runId = some run ∧ e.epilogue = none

/-- `executeRun` settles at most once.  Once its request is written or refused it waits for a
frame and the router reads on, or it settles when it goes on. -/
def RunsSettle (s : RuntimeIpcClient) : Prop :=
  ∀ run e, s.entries[run]? = some e →
    e.settled.length ≤ 1 ∧ e.outcomes.length ≤ 1 ∧
      (e.stage ≠ .writing →
        (s.Awaits run e → s.routing ≠ .stopped) ∧
          (¬ s.Awaits run e → ∃ e', (s.resume run e).entries[run]? = some e' ∧
            e'.outcomes.length = 1))

/-- An epilogue settles at most once, and has settled once its run has left the table or the
router has stopped. -/
def EpiloguesSettle (s : RuntimeIpcClient) : Prop :=
  ∀ run e, s.entries[run]? = some e → ∀ calls ∈ e.epilogue,
    calls.length ≤ 1 ∧
      (s.runs.lookup e.runId ≠ some run ∨ s.routing = .stopped → calls.length = 1)

/-- The listeners go with the entry, and the ones of the run itself, with the timer, when the
`Result` is routed. -/
def AbortsRemoved (s : RuntimeIpcClient) : Prop :=
  ∀ run e, s.entries[run]? = some e →
    (s.runs.lookup e.runId ≠ some run → e.listeners = [] ∧ e.graceTimer ≠ .running) ∧
      (e.awaitsResult = false →
        (∀ l ∈ e.listeners, l.kind.midRun = false) ∧ e.graceTimer ≠ .running)

/-- The entries of the table that have an epilogue. -/
def graceEntries (s : RuntimeIpcClient) : Nat :=
  s.runs.entries.countP fun entry => s.entries[entry.2]?.any fun e => e.epilogue.isSome

/-- `load` is the runs without a `Result` and the control requests without a reply. -/
def LoadCounts (s : RuntimeIpcClient) : Prop :=
  0 ≤ s.load ∧
    s.load = s.entries.countP RunEntry.awaitsResult + s.requests.countP ControlRequest.pending

/-! ### From the invariant -/

theorem Sound.inTable (h : s.Sound) {run : Nat} {e : RunEntry} (he : s.entries[run]? = some e) :
    e.live = true ↔ s.runs.lookup e.runId = some run :=
  h.runs.live_iff he rfl

theorem Sound.awaits (h : s.Sound) {run : Nat} {e : RunEntry} (he : s.entries[run]? = some e) :
    s.Awaits run e ↔ e.awaitsResult = true := by
  rw [Awaits, ← h.inTable he]
  constructor
  · rintro ⟨hlive, hnone⟩
    exact RunEntry.awaits_of_live hlive hnone
  · intro hawaits
    refine ⟨by simp [RunEntry.live, hawaits], ?_⟩
    cases hepilogue : e.epilogue with
    | none => rfl
    | some calls =>
      have := ((h.entry he).epilogue calls hepilogue).2
      rw [hawaits] at this
      cases this

theorem Sound.runsSettle (h : s.Sound) : s.RunsSettle := by
  intro run e he
  have hentry := h.entry he
  have honce : e.outcomes.length ≤ 1 := by
    rw [hentry.outcomes]
    split
    · exact Nat.le_refl 1
    · exact Nat.zero_le 1
  refine ⟨hentry.settled, honce, fun hstage => ⟨fun hawaits hstopped => ?_, fun hawaits => ?_⟩⟩
  · -- what waits after the end has written to a destroyed socket
    have hlive := (h.inTable he).mpr hawaits.1
    have hdoomed := (hentry.stopped hstopped hlive).1
    exact hstage ((hentry.doomed hdoomed).2 hlive)
  · rw [h.awaits he, Bool.not_eq_true] at hawaits
    have houtcomes := hentry.outcomes
    cases hcase : e.stage with
    | writing => exact absurd hcase hstage
    | returned =>
      refine ⟨e, ?_, by rw [houtcomes, if_pos hcase]⟩
      rw [RuntimeIpcClient.resume, if_neg (by simp [hcase])]
      exact he
    | awaiting =>
      obtain ⟨result, results, hsettled⟩ : ∃ result results, e.settled = result :: results := by
        cases hsettled : e.settled with
        | nil => simp [RunEntry.awaitsResult, hsettled] at hawaits
        | cons result results => exact ⟨result, results, rfl⟩
      refine ⟨{ e with
        stage := .returned, outcomes := e.outcomes ++ [s.outcomeOf e result] }, ?_, ?_⟩
      · have hresume : s.resume run e = s.modifyEntry run fun e =>
            { e with stage := .returned, outcomes := e.outcomes ++ [s.outcomeOf e result] } := by
          rw [RuntimeIpcClient.resume, if_pos hcase, hsettled]
          rfl
        rw [hresume]
        exact getElem?_modifyEntry he _
      · rw [List.length_append, houtcomes, hcase]
        rfl

theorem Sound.epiloguesSettle (h : s.Sound) : s.EpiloguesSettle := by
  intro run e he calls hcalls
  have hentry := h.entry he
  obtain ⟨hle, hawaits⟩ := hentry.epilogue calls hcalls
  refine ⟨hle, fun hgone => ?_⟩
  cases calls with
  | cons call calls =>
    simp only [List.length_cons] at hle ⊢
    omega
  | nil =>
    have hlive : e.live = true := by
      simp [RunEntry.live, RunEntry.inGrace_iff.mpr hcalls]
    obtain hgone | hstopped := hgone
    · exact absurd ((h.inTable he).mp hlive) hgone
    · have := (hentry.stopped hstopped hlive).2
      rw [hawaits] at this
      cases this

theorem Sound.abortsRemoved (h : s.Sound) : s.AbortsRemoved := by
  intro run e he
  have hentry := h.entry he
  have hsettled : e.awaitsResult = false →
      (∀ l ∈ e.listeners, l.kind.midRun = false) ∧ e.graceTimer ≠ .running := by
    intro hawaits
    constructor
    · intro l hl
      rw [← Bool.not_eq_true]
      intro hkind
      have := (hentry.midRun l hl hkind).1
      rw [hawaits] at this
      cases this
    · intro hrunning
      have := (hentry.timer hrunning).1
      rw [hawaits] at this
      cases this
  refine ⟨fun hgone => ?_, hsettled⟩
  rw [ne_eq, ← h.inTable he, Bool.not_eq_true, RunEntry.live, Bool.or_eq_false_iff] at hgone
  obtain ⟨hmidRun, htimer⟩ := hsettled hgone.1
  refine ⟨?_, htimer⟩
  rw [List.eq_nil_iff_forall_not_mem]
  intro l hl
  have := (hentry.grace l hl (hmidRun l hl)).1
  rw [hgone.2] at this
  cases this

theorem Sound.graceCounted (h : s.Sound) : s.graceRuns = s.graceEntries := by
  have hlists : Lists ((handles s.runs).filter fun run =>
      s.entries[run]?.any fun e => e.epilogue.isSome) s.entries RunEntry.inGrace :=
    { nodup := h.runs.lists.nodup.filter _
      mem := by
        intro run
        rw [List.mem_filter, h.runs.lists.mem, Option.any_eq_true]
        constructor
        · rintro ⟨⟨e, he, hlive⟩, e', he', hsome⟩
          rw [he] at he'
          cases he'
          obtain ⟨calls, hcalls⟩ := Option.isSome_iff_exists.mp hsome
          exact ⟨e, he, RunEntry.inGrace_of_live hlive ((h.entry he).epilogue calls hcalls).2⟩
        · rintro ⟨e, he, hgrace⟩
          refine ⟨⟨e, he, by simp [RunEntry.live, hgrace]⟩, e, he, ?_⟩
          rw [RunEntry.inGrace_iff.mp hgrace]
          rfl }
  rw [h.grace, ← hlists.length, ← List.countP_eq_length_filter, handles, List.countP_map]
  rfl

theorem Sound.loadCounts (h : s.Sound) : s.LoadCounts := by
  have hruns : s.runs.entries.length =
      s.entries.countP RunEntry.awaitsResult + s.entries.countP RunEntry.inGrace := by
    rw [h.runs.size]
    refine countP_add fun e he => ⟨rfl, ?_⟩
    rw [← Bool.not_eq_true, Bool.and_eq_true]
    rintro ⟨hawaits, hgrace⟩
    have := ((h.entries e he).epilogue [] (RunEntry.inGrace_iff.mp hgrace)).2
    rw [hawaits] at this
    cases this
  have hrequests : s.requests.countP ControlRequest.pending =
      s.precompileWaiters.entries.length + s.controlWaiters.length := by
    have hstats := h.stats.length
    rw [List.length_map] at hstats
    rw [h.precompiles.size, hstats]
    refine countP_add fun q _ => ?_
    cases hid : q.requestId with
    | none => simp [ControlRequest.pendingPrecompile, ControlRequest.pendingStats, hid]
    | some id => simp [ControlRequest.pendingPrecompile, ControlRequest.pendingStats, hid]
  have hload : s.load =
      s.entries.countP RunEntry.awaitsResult + s.requests.countP ControlRequest.pending := by
    rw [load, h.grace, hruns, hrequests]
    push_cast
    omega
  exact ⟨by omega, hload⟩

/-! ### Over a run -/

variable {V : Type} (codec : ValueCodec V)

/-- Every promise settles once, the abort wiring is removed and the counts are exact, when each
write ends while the run or the request it is of still has its own entry. -/
theorem run_table (ops : List ClientOp) (hclean : Along (step codec) Clean new ops) :
    let s := exec (step codec) new ops
    s.RunsSettle ∧ s.EpiloguesSettle ∧ s.AbortsRemoved ∧ s.graceRuns = s.graceEntries ∧
      s.LoadCounts := by
  intro s
  have h : s.Sound := Along.invariant (fun s op => sound_step codec s op) new_sound hclean
  exact ⟨h.runsSettle, h.epiloguesSettle, h.abortsRemoved, h.graceCounted, h.loadCounts⟩

/-- A run with pending `waitUntil` work. -/
def earlyResult : TypedFrame RustToTsMessageType :=
  ⟨.result, encodeRunCompletionPayload 4 1 (.success ⟨⟨[], [], 0, 0, 0, []⟩, [], [], none, 1⟩)⟩

/-- A run with a hard abort on its way, its `waitUntil` phase and its end, beside a `stats`. -/
def orderly : List ClientOp :=
  [.runRawCode true true (some 0) (some 1), .stats, .abort 1, .written 0,
    .notify 0 ⟨1, .beginHardAbort⟩, .route earlyResult, .resume 0, .requestWritten 0,
    .readRejects "socket closed"]

theorem run_table_orderly :
    Along (step blobCodec) Clean new orderly ∧
      (exec (step blobCodec) new orderly).RunsSettle ∧
      (exec (step blobCodec) new orderly).EpiloguesSettle ∧
      (exec (step blobCodec) new orderly).AbortsRemoved ∧
      (exec (step blobCodec) new orderly).graceRuns =
        (exec (step blobCodec) new orderly).graceEntries ∧
      (exec (step blobCodec) new orderly).LoadCounts := by
  have hclean : Along (step blobCodec) Clean new orderly := by
    refine ⟨trivial, trivial, trivial, ?_, trivial, trivial, trivial, trivial, trivial, trivial⟩
    -- the write ends before the `Result`
    simp only [Clean]
    decide +kernel
  exact ⟨hclean, run_table blobCodec orderly hclean⟩

/-- The request write fails after the early `Result`. -/
def lostEpilogue : List ClientOp :=
  [.runRawCode true true none none, .route earlyResult, .writeFailed 0 "write EPIPE"]

/-- The hard signal has fired before the call, and the router stops before the write ends. -/
def lateTimer : List ClientOp :=
  [.abort 0, .runRawCode true true none (some 0), .readRejects "socket ended", .written 0]

theorem run_table_fails :
    ¬ (∀ ops, (exec (step blobCodec) new ops).EpiloguesSettle) ∧
      ¬ (∀ ops, (exec (step blobCodec) new ops).graceRuns =
        (exec (step blobCodec) new ops).graceEntries) ∧
      ¬ (∀ ops, (exec (step blobCodec) new ops).LoadCounts) ∧
      ¬ ∀ ops, (exec (step blobCodec) new ops).AbortsRemoved := by
  refine ⟨fun hall => ?_, fun hall => ?_, fun hall => ?_, fun hall => ?_⟩
  · obtain ⟨e, he, hcalls, hgone⟩ : ∃ e, (exec (step blobCodec) new lostEpilogue).entries[0]? =
        some e ∧ e.epilogue = some [] ∧
          (exec (step blobCodec) new lostEpilogue).runs.lookup e.runId = none :=
      ⟨_, rfl, rfl, rfl⟩
    have hsettled := (hall lostEpilogue 0 e he [] hcalls).2 (Or.inl (by simp [hgone]))
    exact absurd hsettled (by decide)
  · exact absurd (hall lostEpilogue) (by decide +kernel)
  · exact absurd (hall lostEpilogue).1 (by decide +kernel)
  · obtain ⟨e, he, htimer, hgone⟩ : ∃ e, (exec (step blobCodec) new lateTimer).entries[0]? =
        some e ∧ e.graceTimer = .running ∧
          (exec (step blobCodec) new lateTimer).runs.lookup e.runId = none :=
      ⟨_, rfl, rfl, rfl⟩
    exact ((hall lateTimer 0 e he).1 (by simp [hgone])).2 htimer

end RuntimeIpcClient

end Router

end Iso4
