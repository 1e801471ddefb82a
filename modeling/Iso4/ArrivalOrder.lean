/-
The order of events and deadlines (`sweep_expired_deadlines` and `serve_instance` of
`crates/core/src/v8/instance.rs`).

An event carries the instant at which the demux stamped it, and the loop sweeps with that instant
as the cutoff before it delivers the event.

* `InArrivalOrder` — what a history says when events and deadlines are served in the order of
  their instants;
* `Inst.Punctual` — the steps that keep it: an event is in the channel as soon as it is stamped,
  none comes between the end of a wait and the reading of the cutoff, and no idle deadline of
  outbound streams between the cutoff and the clock is met by the sweep;
* `Inst.arrival_order` — then every history is in that order;
* `Inst.arrival_disorder` — and otherwise it need not be.
-/
import Iso4.LoopParts
import Iso4.Settlement

namespace Iso4

open Program Execution

/-! ### Histories -/

def Event.isArrival (token stamp : Nat) : Event → Bool
  | .arrived token' stamp' => token' = token && stamp' = stamp
  | _ => false

def Event.isDelivery (token stamp : Nat) : Event → Bool
  | .delivered token' stamp' _ => token' = token && stamp' = stamp
  | _ => false

/-- How many events of a run with that stamp the demux sent. -/
def arrivals (token stamp : Nat) (log : List Event) : Nat := log.countP (Event.isArrival token stamp)

def deliveries (token stamp : Nat) (log : List Event) : Nat :=
  log.countP (Event.isDelivery token stamp)

/-- When a deadline is acted on, the events of its run stamped before it were delivered, and none
is sent later; when an event is delivered, its stamp is before the next deadline of its run and not
before one that was acted on.  The history is given newest first. -/
def InArrivalOrder : List Event → Prop
  | [] => True
  | .acted token deadline :: log =>
    (∀ stamp < deadline, arrivals token stamp log ≤ deliveries token stamp log) ∧
      InArrivalOrder log
  | .delivered token stamp due :: log =>
    (∀ deadline, due = some deadline → stamp < deadline) ∧
      (∀ deadline, .acted token deadline ∈ log → deadline ≤ stamp) ∧ InArrivalOrder log
  | .arrived token stamp :: log =>
    (∀ deadline, .acted token deadline ∈ log → deadline ≤ stamp) ∧ InArrivalOrder log
  | _ :: log => InArrivalOrder log

/-- Neither a delivery nor a deadline. -/
def Event.isPlain : Event → Bool
  | .acted _ _ => false
  | .delivered _ _ _ => false
  | _ => true

theorem acted_of_append {new log : List Event} (h : ∀ e ∈ new, e.isPlain = true)
    {token deadline : Nat} (hacted : .acted token deadline ∈ new ++ log) :
    .acted token deadline ∈ log := by
  obtain hnew | hold := List.mem_append.mp hacted
  · have hplain := h _ hnew
    cases hplain
  · exact hold

/-- A history goes on with what is neither a delivery nor a deadline, the events in it not stamped
before a deadline that was acted on. -/
theorem inArrivalOrder_append {new log : List Event} (h : ∀ e ∈ new, e.isPlain = true)
    (hstamp : ∀ token stamp, .arrived token stamp ∈ new →
      ∀ deadline, .acted token deadline ∈ log → deadline ≤ stamp) (hlog : InArrivalOrder log) :
    InArrivalOrder (new ++ log) := by
  induction new with
  | nil => exact hlog
  | cons e new ih =>
    have hplain : ∀ e' ∈ new, e'.isPlain = true := fun e' he' => h e' (List.mem_cons_of_mem _ he')
    have ih := ih hplain fun token stamp hmem => hstamp token stamp (List.mem_cons_of_mem _ hmem)
    have he := h e List.mem_cons_self
    cases e with
    | acted token deadline => cases he
    | delivered token stamp due => cases he
    | arrived token stamp =>
      refine ⟨?_, ih⟩
      intro deadline hacted
      exact hstamp token stamp List.mem_cons_self deadline (acted_of_append hplain hacted)
    | _ => exact ih

/-- What came before is in order too. -/
theorem InArrivalOrder.suffix (new : List Event) {log : List Event}
    (h : InArrivalOrder (new ++ log)) : InArrivalOrder log := by
  induction new with
  | nil => exact h
  | cons e new ih =>
    refine ih ?_
    cases e with
    | acted token deadline => exact h.2
    | delivered token stamp due => exact h.2.2
    | arrived token stamp => exact h.2
    | _ => exact h

/-- The events stamped before a deadline were delivered when it is acted on. -/
theorem InArrivalOrder.served_before {log : List Event} (h : InArrivalOrder log)
    {i token deadline : Nat} (hi : log[i]? = some (.acted token deadline)) :
    ∀ stamp < deadline,
      arrivals token stamp (log.drop (i + 1)) ≤ deliveries token stamp (log.drop (i + 1)) := by
  obtain ⟨hlt, hget⟩ := List.getElem?_eq_some_iff.mp hi
  have hrest : InArrivalOrder (log.drop i) := by
    refine InArrivalOrder.suffix (log.take i) ?_
    rwa [List.take_append_drop]
  rw [List.drop_eq_getElem_cons hlt, hget] at hrest
  exact hrest.1

theorem deliveries_append {new : List Event} (h : ∀ e ∈ new, e.isPlain = true) (token stamp : Nat)
    (log : List Event) : deliveries token stamp (new ++ log) = deliveries token stamp log := by
  have hnone : new.countP (Event.isDelivery token stamp) = 0 := by
    rw [List.countP_eq_zero]
    intro e he hdelivery
    have hplain := h e he
    cases e with
    | delivered token' stamp' due => cases hplain
    | _ => cases hdelivery
  rw [deliveries, List.countP_append, hnone, Nat.zero_add, deliveries]

/-! ### The channel -/

/-- An event of a run with that stamp. -/
def RoutedEvent.isHost (token stamp : Nat) (e : RoutedEvent) : Bool :=
  match e.event with
  | .host _ => e.token = token && e.stamp = stamp
  | _ => false

/-- The events of a run with that stamp in a channel. -/
def waitingEvents (token stamp : Nat) (q : List RoutedEvent) : Nat :=
  q.countP (RoutedEvent.isHost token stamp)

/-- The first event is not sent before the job of its run. -/
def RoutedEvent.JobFirst (e e' : RoutedEvent) : Prop :=
  ∀ m j, e.event = .host m → e'.event = .job j → j.token ≠ e.token

/-- What waits in the channel goes on with `new`, stamped as it comes. -/
structure Core.Flows (c c' : Core) : Prop where
  clock : c.clock ≤ c'.clock
  seen : c.seen ⊆ c'.seen
  channel : ∃ new, c'.queue = c.queue ++ new ∧
    (∀ e ∈ new, c.clock ≤ e.stamp ∧ e.stamp ≤ c'.clock) ∧
    new.Pairwise (fun e e' => e.stamp ≤ e'.stamp) ∧ new.Pairwise RoutedEvent.JobFirst ∧
    (∀ e ∈ new, ∀ m, e.event = .host m → e.token ∈ c'.seen) ∧
    (∀ e ∈ new, ∀ j, e.event = .job j → j.token ∉ c.seen) ∧
    ∃ noted, c'.log = noted ++ c.log ∧ (∀ e ∈ noted, e.isPlain = true) ∧
      ∀ token stamp, noted.countP (Event.isArrival token stamp) = waitingEvents token stamp new

namespace Core.Flows

variable {c c' c'' : Core}

theorem of_eq (hclock : c.clock ≤ c'.clock) (hqueue : c'.queue = c.queue) (hseen : c'.seen = c.seen)
    (hlog : c'.log = c.log) : Flows c c' where
  clock := hclock
  seen := hseen ▸ List.Subset.refl _
  channel := ⟨[], by rw [hqueue, List.append_nil], by simp, List.Pairwise.nil, List.Pairwise.nil,
    by simp, by simp, [], hlog, by simp, fun _ _ => rfl⟩

theorem refl (c : Core) : Flows c c := of_eq (Nat.le_refl _) rfl rfl rfl

theorem trans (h : Flows c c') (h' : Flows c' c'') : Flows c c'' where
  clock := h.clock.trans h'.clock
  seen := fun _ ht => h'.seen (h.seen ht)
  channel := by
    obtain ⟨new, hqueue, hstamp, hsorted, hfirst, hhost, hjob, noted, hlog, hplain, hcount⟩ :=
      h.channel
    obtain ⟨new', hqueue', hstamp', hsorted', hfirst', hhost', hjob', noted', hlog', hplain',
      hcount'⟩ := h'.channel
    refine ⟨new ++ new', by rw [hqueue', hqueue, List.append_assoc], ?_, ?_, ?_, ?_, ?_,
      noted' ++ noted, by rw [hlog', hlog, List.append_assoc], ?_, ?_⟩
    · intro e he
      obtain he | he := List.mem_append.mp he
      · exact ⟨(hstamp e he).1, (hstamp e he).2.trans h'.clock⟩
      · exact ⟨h.clock.trans (hstamp' e he).1, (hstamp' e he).2⟩
    · refine List.pairwise_append.mpr ⟨hsorted, hsorted', ?_⟩
      intro e he e' he'
      exact (hstamp e he).2.trans (hstamp' e' he').1
    · refine List.pairwise_append.mpr ⟨hfirst, hfirst', ?_⟩
      -- a job that comes later is of a run that no event was sent to
      intro e he e' he' m j hm hj heq
      exact hjob' e' he' j hj (heq ▸ hhost e he m hm)
    · intro e he m hm
      obtain he | he := List.mem_append.mp he
      · exact h'.seen (hhost e he m hm)
      · exact hhost' e he m hm
    · intro e he j hj hmem
      obtain he | he := List.mem_append.mp he
      · exact hjob e he j hj hmem
      · exact hjob' e he j hj (h.seen hmem)
    · intro e he
      obtain he | he := List.mem_append.mp he
      · exact hplain' e he
      · exact hplain e he
    · intro token stamp
      rw [List.countP_append, hcount, hcount', waitingEvents, waitingEvents, waitingEvents,
        List.countP_append, Nat.add_comm]

theorem note {e : Event} (he : e.isPlain = true) (harrival : ∀ t s, e.isArrival t s = false)
    (c : Core) : Flows c (c.note e) where
  clock := Nat.le_refl _
  seen := List.Subset.refl _
  channel := by
    refine ⟨[], (List.append_nil _).symm, by simp, List.Pairwise.nil, List.Pairwise.nil, by simp,
      by simp, [e], rfl, ?_, ?_⟩
    · intro e' he'
      rwa [List.mem_singleton.mp he']
    · intro token stamp
      rw [List.countP_singleton, harrival]
      rfl

theorem send (c : Core) (token : Nat) (msg : Outbound) : Flows c (c.send token msg).2 := by
  have hpop : Flows c c.popSend := of_eq (Nat.le_refl _) rfl rfl rfl
  refine hpop.trans ?_
  unfold Core.send
  dsimp only
  split
  · exact note rfl (fun _ _ => rfl) _
  · exact note rfl (fun _ _ => rfl) _

/-- An event that is sent as it is stamped. -/
theorem arrive (c : Core) (token : Nat) (event : RunEvent) : Flows c (c.arrive token event 0) := by
  cases event with
  | job j =>
    rw [Core.arrive]
    by_cases hseen : j.token ∈ c.seen
    · rw [if_pos hseen]
      exact refl c
    · rw [if_neg hseen]
      refine ⟨Nat.le_refl _, List.subset_cons_self _ _, [_], rfl, ?_, ?_, ?_, ?_, ?_, [], rfl, ?_, ?_⟩
      · simp
      · exact List.pairwise_singleton _ _
      · exact List.pairwise_singleton _ _
      · simp
      · simp [hseen]
      · simp
      · simp [waitingEvents, RoutedEvent.isHost]
  | host m =>
    rw [Core.arrive]
    by_cases hseen : token ∈ c.seen
    · rw [if_pos hseen]
      refine ⟨Nat.le_refl _, List.Subset.refl _, [_], rfl, ?_, ?_, ?_, ?_, ?_, [_], rfl, ?_, ?_⟩
      · simp
      · exact List.pairwise_singleton _ _
      · exact List.pairwise_singleton _ _
      · simpa using hseen
      · simp
      · simp [Event.isPlain]
      · simp [waitingEvents, RoutedEvent.isHost, Event.isArrival, List.countP_singleton]
    · rw [if_neg hseen]
      exact refl c
  | retire =>
    rw [Core.arrive]
    refine ⟨Nat.le_refl _, List.Subset.refl _, [_], rfl, ?_, ?_, ?_, ?_, ?_, [], rfl, ?_, ?_⟩
    · simp
    · exact List.pairwise_singleton _ _
    · exact List.pairwise_singleton _ _
    · simp
    · simp
    · simp
    · simp [waitingEvents, RoutedEvent.isHost]

end Core.Flows

/-- An event is in the channel as soon as it is stamped. -/
def Passing.Prompt : Passing → Prop
  | .pass _ => True
  | .arrive _ _ lag => lag = 0

instance Passing.decidablePrompt : DecidablePred Passing.Prompt
  | .pass _ => isTrue trivial
  | .arrive _ _ lag => inferInstanceAs (Decidable (lag = 0))

theorem Core.closed_flows : Core.Closed Passing.Prompt (fun _ => True) Core.Flows where
  trans := .trans
  quiet := fun hclock hqueue hseen hlog _ _ _ => .of_eq hclock.ge hqueue hseen hlog
  spend := fun _ _ _ => .of_eq (Nat.le_refl _) rfl rfl rfl
  pass := by
    intro c p hp
    cases p with
    | pass d => exact .of_eq (Nat.le_add_right _ _) rfl rfl rfl
    | arrive token event lag =>
      obtain rfl : lag = 0 := hp
      exact .arrive c token event
  kill := fun _ _ => .of_eq (Nat.le_refl _) rfl rfl rfl
  sent := fun c token msg _ _ => .send c token msg

/-- Every operation of turn code lets the channel go on. -/
theorem Turn.flows_handle (γ : Type) (o : Op γ) (t : Turn) (hP : t.script.Passes Passing.Prompt) :
    Core.Flows t.toCore (Turn.handle γ o t).2.toCore :=
  core_handle_all Core.closed_flows (fun _ => trivial) (fun _ => .of_eq (Nat.le_refl _) rfl rfl rfl)
    (fun _ => .of_eq (Nat.le_refl _) rfl rfl rfl) .send γ o t hP

/-! ### Readings of the clock -/

def Passing.isArrival : Passing → Bool
  | .pass _ => false
  | .arrive _ _ _ => true

namespace Core

/-- One reading uses up what passes before it. -/
theorem now_clocks (c : Core) : c.now.2.script.clocks = c.script.clocks.tail :=
  congrArg Script.clocks (Core.Spends.passAll_script c.popClock _)

/-- The channel stays while nothing arrives. -/
theorem passAll_queue {ps : List Passing} (h : ps.any Passing.isArrival = false) (c : Core) :
    (c.passAll ps).queue = c.queue := by
  induction ps generalizing c with
  | nil => rfl
  | cons p ps ih =>
    rw [List.any_cons, Bool.or_eq_false_iff] at h
    rw [Core.passAll, List.foldl_cons]
    refine (ih h.2 (c.passOne p)).trans ?_
    cases p with
    | pass d => rfl
    | arrive token event lag => cases h.1

end Core

/-! ### The parts of a step -/

/-- While a prompt script is played, the channel goes on. -/
def Core.Runs (c c' : Core) : Prop :=
  c.script.Passes Passing.Prompt → Flows c c' ∧ Spends c c'

namespace Core.Runs

variable {c c' c'' : Core}

theorem refl (c : Core) : Runs c c := fun _ => ⟨.refl c, .refl c⟩

theorem trans (h : Runs c c') (h' : Runs c' c'') : Runs c c'' := by
  intro hP
  obtain ⟨hflows, hspends⟩ := h hP
  obtain ⟨hflows', hspends'⟩ := h' (hP.rest hspends)
  exact ⟨hflows.trans hflows', hspends.trans hspends'⟩

theorem of_eq (hclock : c'.clock = c.clock) (hqueue : c'.queue = c.queue)
    (hseen : c'.seen = c.seen) (hlog : c'.log = c.log) (hscript : c'.script = c.script) :
    Runs c c' :=
  fun _ => ⟨.of_eq hclock.ge hqueue hseen hlog, Script.Rest.of_eq hscript⟩

theorem now (c : Core) : Runs c c.now.2 := fun hP => ⟨closed_flows.now hP, .now c⟩

theorem note {e : Event} (he : e.isPlain = true) (harrival : ∀ t s, e.isArrival t s = false)
    (c : Core) : Runs c (c.note e) := fun _ => ⟨.note he harrival c, .refl c⟩

theorem send (c : Core) (token : Nat) (msg : Outbound) : Runs c (c.send token msg).2 :=
  fun _ => ⟨.send c token msg, Spends.popSend c⟩

theorem isTerminating (c : Core) : Runs c c.isTerminating.2 :=
  fun _ => ⟨closed_flows.isTerminating c, closed_spends.isTerminating c⟩

theorem runTurn {α : Type} (c : Core) (l : LiveRun) (p : TurnM α) :
    Runs c (c.runTurn l p).2.toCore := by
  refine Prog.run_rel (R := fun t t' : Turn => Runs t.toCore t'.toCore) (fun t => .refl _) .trans ?_ p
    { toCore := c, owner := l }
  exact fun γ o t hP => ⟨Turn.flows_handle γ o t hP, Turn.spends_handle γ o t⟩

theorem sendCompletion (c : Core) (token : Nat) (msg : Outbound) :
    Runs c (c.sendCompletion token msg) := by
  rw [Core.sendCompletion]
  split
  · exact (send c token msg).trans (send _ _ _)
  · exact send c token msg

theorem finishJob (c : Core) (job : CallJob) (result : RunResult) (tainted failed : Bool) :
    Runs c (c.finishJob job result tainted failed) := by
  have hconcluded : Runs c (c.note (.concluded job.token result)) := note rfl (fun _ _ => rfl) c
  rw [Core.finishJob]
  dsimp only
  split
  · have hfinished := hconcluded.trans
      (note (e := .finished job.token) rfl (fun _ _ => rfl) _)
    have hreleased := hfinished.trans
      (note (e := .released job.token tainted) rfl (fun _ _ => rfl) _)
    exact hreleased.trans (sendCompletion _ _ _)
  · exact hconcluded.trans (note rfl (fun _ _ => rfl) _)

/-- The channel goes on through the parts of a step. -/
theorem serving : Serving (fun _ => True) Runs where
  trans := .trans
  quiet := fun hclock hqueue hseen _ hlog hscript => .of_eq hclock hqueue hseen hlog hscript
  now := .now
  isTerminating := .isTerminating
  runTurn := fun c l _ _ => .runTurn c l _
  noteTurn := fun c _ => .note rfl (fun _ _ => rfl) c
  noteTaint := fun c _ => .note rfl (fun _ _ => rfl) c
  takeRun := fun _ _ => .of_eq rfl rfl rfl rfl rfl
  park := fun _ _ _ => .of_eq rfl rfl rfl rfl rfl
  finishJob := fun c job result tainted failed _ => .finishJob c job result tainted failed

end Core.Runs

/-! ### Where the loop stands -/

/-- The event that a sweep makes way for, by its run and its stamp. -/
def After.held : After → Option (Nat × Nat)
  | .deliver token _ stamp => some (token, stamp)
  | _ => none

/-- The event in the hands of the loop. -/
def Pc.held : Pc → Option (Nat × Nat)
  | .sweep _ next => next.held
  | .turned (.swept _ next) _ _ => next.held
  | .deliver token _ stamp => some (token, stamp)
  | _ => none

/-- No event that is still to be delivered is stamped before this. -/
def Pc.cutoff : Pc → Nat
  | .sweep cutoff _ => cutoff
  | .turned (.swept cutoff _) _ _ => cutoff
  | .deliver _ _ stamp => stamp
  | _ => 0

/-- The events of a run with that stamp that are still to be delivered. -/
def pendingEvents (held : Option (Nat × Nat)) (q : List RoutedEvent) (token stamp : Nat) : Nat :=
  (if held = some (token, stamp) then 1 else 0) + waitingEvents token stamp q

theorem pendingEvents_none (q : List RoutedEvent) (token stamp : Nat) :
    pendingEvents none q token stamp = waitingEvents token stamp q := by
  rw [pendingEvents, if_neg (by simp), Nat.zero_add]

theorem waitingEvents_pos {q : List RoutedEvent} {token stamp : Nat}
    (h : 0 < waitingEvents token stamp q) : ∃ e ∈ q, e.stamp = stamp := by
  obtain ⟨e, he, hhost⟩ := List.countP_pos_iff.mp h
  refine ⟨e, he, ?_⟩
  unfold RoutedEvent.isHost at hhost
  split at hhost
  · simp only [Bool.and_eq_true, decide_eq_true_eq] at hhost
    exact hhost.2
  · cases hhost

/-- The history is in order, and no deadline was acted on ahead of the clock. -/
structure Core.InOrder (c : Core) : Prop where
  past : ∀ token deadline, .acted token deadline ∈ c.log → deadline ≤ c.clock
  order : InArrivalOrder c.log

theorem Core.InOrder.flows {c c' : Core} (h : c.InOrder) (hf : Core.Flows c c') : c'.InOrder := by
  obtain ⟨new, -, hstamp, -, -, -, -, noted, hlog, hplain, hcount⟩ := hf.channel
  constructor
  · intro token deadline hacted
    rw [hlog] at hacted
    exact (h.past token deadline (acted_of_append hplain hacted)).trans hf.clock
  · rw [hlog]
    refine inArrivalOrder_append hplain ?_ h.order
    intro token stamp harrived deadline hacted
    -- the event is in the channel, stamped after everything acted on
    have hpos : 0 < waitingEvents token stamp new := by
      rw [← hcount]
      exact List.countP_pos_iff.mpr ⟨_, harrived, by simp [Event.isArrival]⟩
    obtain ⟨e, he, rfl⟩ := waitingEvents_pos hpos
    exact (h.past token deadline hacted).trans (hstamp e he).1

/-- The channel and the history, with an event in hand. -/
structure Dated (hand : Option (Nat × Nat)) (cutoff : Nat) (c : Core) : Prop where
  clock : cutoff ≤ c.clock
  stamps : ∀ e ∈ c.queue, cutoff ≤ e.stamp ∧ e.stamp ≤ c.clock
  sorted : c.queue.Pairwise fun e e' => e.stamp ≤ e'.stamp
  jobFirst : c.queue.Pairwise RoutedEvent.JobFirst
  hosts : ∀ e ∈ c.queue, ∀ m, e.event = .host m → e.token ∈ c.seen
  held : ∀ token stamp, hand = some (token, stamp) →
    stamp = cutoff ∧ token ∈ c.seen ∧ token ∉ jobTokens c.queue
  acted : ∀ token deadline, .acted token deadline ∈ c.log →
    ∀ stamp, 0 < pendingEvents hand c.queue token stamp → deadline ≤ stamp
  inOrder : c.InOrder

theorem mem_jobTokens {q : List RoutedEvent} {token : Nat} :
    token ∈ jobTokens q ↔ ∃ e ∈ q, ∃ j, e.event = .job j ∧ j.token = token := by
  rw [jobTokens, List.mem_filterMap]
  constructor
  · rintro ⟨e, he, htoken⟩
    split at htoken
    · next j hj => exact ⟨e, he, j, hj, Option.some.inj htoken⟩
    · cases htoken
  · rintro ⟨e, he, j, hj, rfl⟩
    exact ⟨e, he, by rw [hj]⟩

namespace Dated

variable {hand : Option (Nat × Nat)} {cutoff : Nat} {c c' : Core}

/-- What is pending is stamped at the cutoff or later. -/
theorem cutoff_le (h : Dated hand cutoff c) {token stamp : Nat}
    (hpending : 0 < pendingEvents hand c.queue token stamp) : cutoff ≤ stamp := by
  unfold pendingEvents at hpending
  split at hpending
  · next heq => exact (h.held token stamp heq).1.ge
  · rw [Nat.zero_add] at hpending
    obtain ⟨e, he, rfl⟩ := waitingEvents_pos hpending
    exact (h.stamps e he).1

theorem flows (h : Dated hand cutoff c) (hf : Core.Flows c c') : Dated hand cutoff c' := by
  obtain ⟨new, hqueue, hstamp, hsorted, hfirst, hhost, hjob, noted, hlog, hplain, hcount⟩ :=
    hf.channel
  constructor
  · exact h.clock.trans hf.clock
  · intro e he
    rw [hqueue] at he
    obtain he | he := List.mem_append.mp he
    · exact ⟨(h.stamps e he).1, (h.stamps e he).2.trans hf.clock⟩
    · exact ⟨h.clock.trans (hstamp e he).1, (hstamp e he).2⟩
  · rw [hqueue]
    refine List.pairwise_append.mpr ⟨h.sorted, hsorted, ?_⟩
    intro e he e' he'
    exact (h.stamps e he).2.trans (hstamp e' he').1
  · rw [hqueue]
    refine List.pairwise_append.mpr ⟨h.jobFirst, hfirst, ?_⟩
    intro e he e' he' m j hm hj heq
    exact hjob e' he' j hj (heq ▸ h.hosts e he m hm)
  · intro e he m hm
    rw [hqueue] at he
    obtain he | he := List.mem_append.mp he
    · exact hf.seen (h.hosts e he m hm)
    · exact hhost e he m hm
  · intro token stamp heq
    obtain ⟨hstamp', hseen, hjobs⟩ := h.held token stamp heq
    refine ⟨hstamp', hf.seen hseen, ?_⟩
    rw [hqueue, jobTokens_append, List.mem_append, not_or]
    refine ⟨hjobs, ?_⟩
    intro hmem
    obtain ⟨e, he, j, hj, rfl⟩ := mem_jobTokens.mp hmem
    exact hjob e he j hj hseen
  · intro token deadline hacted stamp hpending
    rw [hlog] at hacted
    have hold := acted_of_append hplain hacted
    rw [hqueue, pendingEvents, waitingEvents, List.countP_append, ← Nat.add_assoc] at hpending
    by_cases hnew : 0 < waitingEvents token stamp new
    · obtain ⟨e, he, rfl⟩ := waitingEvents_pos hnew
      exact (h.inOrder.past token deadline hold).trans (hstamp e he).1
    · refine h.acted token deadline hold stamp ?_
      rw [waitingEvents] at hnew
      rw [pendingEvents, waitingEvents]
      omega
  · exact h.inOrder.flows hf

/-- Nothing is in hand any more. -/
theorem release (h : Dated hand cutoff c) : Dated none 0 c where
  clock := Nat.zero_le _
  stamps := fun e he => ⟨Nat.zero_le _, (h.stamps e he).2⟩
  sorted := h.sorted
  jobFirst := h.jobFirst
  hosts := h.hosts
  held := by simp
  acted := by
    intro token deadline hacted stamp hpending
    refine h.acted token deadline hacted stamp ?_
    rw [pendingEvents_none] at hpending
    exact Nat.lt_of_lt_of_le hpending (Nat.le_add_left _ _)
  inOrder := h.inOrder

/-- The first message is taken, and the rest is not stamped before it. -/
theorem take (h : Dated none cutoff c) {e : RoutedEvent} {rest : List RoutedEvent}
    (hq : c.queue = e :: rest) : Dated none e.stamp { c with queue := rest } := by
  have hsorted := h.sorted
  have hfirst := h.jobFirst
  rw [hq, List.pairwise_cons] at hsorted hfirst
  have hmem : ∀ e' ∈ rest, e' ∈ c.queue := fun e' he' => hq ▸ List.mem_cons_of_mem _ he'
  constructor
  · exact (h.stamps e (hq ▸ List.mem_cons_self)).2
  · exact fun e' he' => ⟨hsorted.1 e' he', (h.stamps e' (hmem e' he')).2⟩
  · exact hsorted.2
  · exact hfirst.2
  · exact fun e' he' => h.hosts e' (hmem e' he')
  · simp
  · intro token deadline hacted stamp hpending
    refine h.acted token deadline hacted stamp ?_
    rw [pendingEvents_none] at hpending ⊢
    rw [hq, waitingEvents, List.countP_cons]
    exact Nat.lt_of_lt_of_le hpending (Nat.le_add_right _ _)
  · exact ⟨h.inOrder.past, h.inOrder.order⟩

theorem pending_take {e : RoutedEvent} {rest : List RoutedEvent} {m : Inbound}
    (hq : c.queue = e :: rest) (hm : e.event = .host m) (token stamp : Nat) :
    pendingEvents (some (e.token, e.stamp)) rest token stamp =
      pendingEvents none c.queue token stamp := by
  have hhost : e.isHost token stamp = (e.token = token && e.stamp = stamp) := by
    rw [RoutedEvent.isHost, hm]
  rw [pendingEvents_none, hq, waitingEvents, List.countP_cons, hhost, pendingEvents, waitingEvents,
    Nat.add_comm]
  simp [Prod.mk.injEq]

/-- The first message is an event, which is held now. -/
theorem takeEvent (h : Dated none cutoff c) {e : RoutedEvent} {rest : List RoutedEvent}
    {m : Inbound} (hq : c.queue = e :: rest) (hm : e.event = .host m) :
    Dated (some (e.token, e.stamp)) e.stamp { c with queue := rest } := by
  have htaken := h.take hq
  refine { htaken with held := ?_, acted := ?_ }
  · rintro token stamp heq
    obtain ⟨rfl, rfl⟩ := Prod.mk.inj (Option.some.inj heq)
    refine ⟨rfl, h.hosts e (hq ▸ List.mem_cons_self) m hm, ?_⟩
    intro hmem
    obtain ⟨e', he', j, hj, htoken⟩ := mem_jobTokens.mp hmem
    have hfirst := h.jobFirst
    rw [hq, List.pairwise_cons] at hfirst
    exact hfirst.1 e' he' m j hm hj htoken
  · intro token deadline hacted stamp hpending
    refine h.acted token deadline hacted stamp ?_
    rwa [← pending_take hq hm]

/-- A deadline that the cutoff lets through is acted on. -/
theorem act (h : Dated hand cutoff c) {token deadline : Nat} (hle : deadline ≤ cutoff)
    (hpending : ∀ stamp, arrivals token stamp c.log =
      deliveries token stamp c.log + pendingEvents hand c.queue token stamp) :
    Dated hand cutoff (c.note (.acted token deadline)) := by
  refine { h with acted := ?_, inOrder := ⟨?_, ?_, h.inOrder.order⟩ }
  · intro token' deadline' hacted stamp hpos
    obtain heq | hold := List.mem_cons.mp hacted
    · obtain ⟨rfl, rfl⟩ := Event.acted.inj heq
      exact hle.trans (h.cutoff_le hpos)
    · exact h.acted token' deadline' hold stamp hpos
  · intro token' deadline' hacted
    obtain heq | hold := List.mem_cons.mp hacted
    · obtain ⟨rfl, rfl⟩ := Event.acted.inj heq
      exact hle.trans h.clock
    · exact h.inOrder.past token' deadline' hold
  · intro stamp hlt
    have hnone : ¬ 0 < pendingEvents hand c.queue token stamp := by
      intro hpos
      have hge := h.cutoff_le hpos
      omega
    rw [hpending]
    omega

/-- The event in hand is delivered before the next deadline of its run. -/
theorem deliver {token stamp : Nat} (h : Dated (some (token, stamp)) stamp c) {due : Option Nat}
    (hdue : ∀ deadline, due = some deadline → stamp < deadline) :
    Dated none 0 (c.note (.delivered token stamp due)) := by
  have hreleased := h.release
  have hacted : ∀ token' deadline', .acted token' deadline' ∈
      (c.note (.delivered token stamp due)).log → .acted token' deadline' ∈ c.log := by
    intro token' deadline' hacted
    obtain heq | hold := List.mem_cons.mp hacted
    · cases heq
    · exact hold
  refine { hreleased with acted := ?_, inOrder := ⟨?_, hdue, ?_, h.inOrder.order⟩ }
  · intro token' deadline' hmem
    exact hreleased.acted token' deadline' (hacted token' deadline' hmem)
  · intro token' deadline' hmem
    exact h.inOrder.past token' deadline' (hacted token' deadline' hmem)
  · intro deadline hmem
    refine h.acted token deadline hmem stamp ?_
    rw [pendingEvents, if_pos rfl]
    omega

end Dated

/-- Every event of a run whose job was neither answered nor lost was delivered, or is still to
be. -/
def Accounted (hand : Option (Nat × Nat)) (lost : List Nat) (c : Core) : Prop :=
  ∀ token, token ∉ releasedTokens c.log → token ∉ lost → ∀ stamp,
    arrivals token stamp c.log =
      deliveries token stamp c.log + pendingEvents hand c.queue token stamp

namespace Accounted

variable {hand : Option (Nat × Nat)} {lost : List Nat} {c c' : Core}

theorem flows (h : Accounted hand lost c) (hf : Core.Flows c c') : Accounted hand lost c' := by
  obtain ⟨new, hqueue, -, -, -, -, -, noted, hlog, hplain, hcount⟩ := hf.channel
  intro token hreleased hlost stamp
  rw [hlog, releasedTokens_append, List.mem_append, not_or] at hreleased
  have hold := h token hreleased.2 hlost stamp
  have harrived : arrivals token stamp c'.log =
      waitingEvents token stamp new + arrivals token stamp c.log := by
    rw [hlog, arrivals, List.countP_append, hcount, arrivals]
  have hpending : pendingEvents hand c'.queue token stamp =
      pendingEvents hand c.queue token stamp + waitingEvents token stamp new := by
    rw [hqueue, pendingEvents, waitingEvents, List.countP_append, ← Nat.add_assoc, pendingEvents,
      waitingEvents, waitingEvents]
  rw [harrived, hpending, hlog, deliveries_append hplain]
  omega

theorem act (h : Accounted hand lost c) (token deadline : Nat) :
    Accounted hand lost (c.note (.acted token deadline)) := h

/-- The event in hand is delivered. -/
theorem deliver {token stamp : Nat} (h : Accounted (some (token, stamp)) lost c)
    (due : Option Nat) : Accounted none lost (c.note (.delivered token stamp due)) := by
  intro token' hreleased hlost stamp'
  have hold := h token' hreleased hlost stamp'
  have hdelivered : deliveries token' stamp' (c.note (.delivered token stamp due)).log =
      deliveries token' stamp' c.log + if some (token, stamp) = some (token', stamp') then 1 else 0 := by
    rw [deliveries, Core.note, List.countP_cons, deliveries, Event.isDelivery]
    simp only [Bool.and_eq_true, decide_eq_true_eq, Option.some.injEq, Prod.mk.injEq]
  have hrest : pendingEvents none (c.note (.delivered token stamp due)).queue token' stamp' =
      waitingEvents token' stamp' c.queue := pendingEvents_none _ _ _
  rw [hdelivered, hrest, Nat.add_assoc]
  exact hold

/-- The event in hand is of a run that is over. -/
theorem discard {token stamp : Nat} (h : Accounted (some (token, stamp)) lost c)
    (hover : token ∈ releasedTokens c.log ∨ token ∈ lost) : Accounted none lost c := by
  intro token' hreleased hlost stamp'
  have hold := h token' hreleased hlost stamp'
  have hne : ¬ some (token, stamp) = some (token', stamp') := by
    intro heq
    obtain ⟨rfl, -⟩ := Prod.mk.inj (Option.some.inj heq)
    exact hover.elim hreleased hlost
  rw [pendingEvents, if_neg hne, Nat.zero_add] at hold
  rw [pendingEvents_none]
  exact hold

/-- The first message is a job, or the retirement. -/
theorem take (h : Accounted none lost c) {e : RoutedEvent} {rest : List RoutedEvent}
    (hq : c.queue = e :: rest) (he : ∀ m, e.event ≠ .host m) :
    Accounted none lost { c with queue := rest } := by
  intro token hreleased hlost stamp
  have hold := h token hreleased hlost stamp
  have hhost : e.isHost token stamp = false := by
    unfold RoutedEvent.isHost
    split
    · next m hm => exact absurd hm (he m)
    · rfl
  rw [pendingEvents_none, hq, waitingEvents, List.countP_cons, hhost] at hold
  rw [pendingEvents_none]
  exact hold

/-- The first message is an event, which is held now. -/
theorem takeEvent (h : Accounted none lost c) {e : RoutedEvent} {rest : List RoutedEvent}
    {m : Inbound} (hq : c.queue = e :: rest) (hm : e.event = .host m) :
    Accounted (some (e.token, e.stamp)) lost { c with queue := rest } := by
  intro token hreleased hlost stamp
  rw [Dated.pending_take hq hm]
  exact h token hreleased hlost stamp

end Accounted

/-! ### An instance in service -/

/-- The loop still serves runs. -/
def Pc.isServing : Pc → Bool
  | .broken _ => false
  | .closing => false
  | .taint => false
  | .drain => false
  | .exiting => false
  | .gone => false
  | _ => true

namespace Inst

variable {s u : Inst} {hand : Option (Nat × Nat)} {cutoff : Nat}

structure Serves (hand : Option (Nat × Nat)) (cutoff : Nat) (s : Inst) : Prop where
  dated : Dated hand cutoff s.toCore
  accounted : Accounted hand s.lost s.toCore

namespace Serves

theorem flows (h : Serves hand cutoff s) (hf : Core.Flows s.toCore u.toCore)
    (hlost : u.lost = s.lost) : Serves hand cutoff u :=
  ⟨h.dated.flows hf, hlost ▸ h.accounted.flows hf⟩

theorem runs (h : Serves hand cutoff s) (hP : s.script.Passes Passing.Prompt)
    (hr : Core.Runs s.toCore u.toCore) (hlost : u.lost = s.lost) : Serves hand cutoff u :=
  h.flows (hr hP).1 hlost

/-- Nothing was in hand. -/
theorem release (h : Serves none cutoff s) : Serves none 0 s := ⟨h.dated.release, h.accounted⟩

/-- The first message is taken; it is no event. -/
theorem take (h : Serves none cutoff s) {e : RoutedEvent} {rest : List RoutedEvent}
    (hq : s.queue = e :: rest) (he : ∀ m, e.event ≠ .host m) :
    Serves none e.stamp (s.withCore { s.toCore with queue := rest }) :=
  ⟨h.dated.take hq, h.accounted.take hq he⟩

/-- The first message is an event, which is held now. -/
theorem takeEvent (h : Serves none cutoff s) {e : RoutedEvent} {rest : List RoutedEvent}
    {m : Inbound} (hq : s.queue = e :: rest) (hm : e.event = .host m) :
    Serves (some (e.token, e.stamp)) e.stamp (s.withCore { s.toCore with queue := rest }) :=
  ⟨h.dated.takeEvent hq hm, h.accounted.takeEvent hq hm⟩

/-- A deadline of a run that is not over is acted on. -/
theorem act (h : Serves hand cutoff s) {token deadline : Nat}
    (hopen : token ∉ releasedTokens s.log ∧ token ∉ s.lost) (hle : deadline ≤ cutoff) :
    Serves hand cutoff (s.withCore (s.note (.acted token deadline))) :=
  ⟨h.dated.act hle (h.accounted token hopen.1 hopen.2), h.accounted.act token deadline⟩

theorem deliver {token stamp : Nat} (h : Serves (some (token, stamp)) stamp s) {due : Option Nat}
    (hdue : ∀ deadline, due = some deadline → stamp < deadline) :
    Serves none 0 (s.withCore (s.note (.delivered token stamp due))) :=
  ⟨h.dated.deliver hdue, h.accounted.deliver due⟩

/-- The event in hand is of a run that is over, and is dropped. -/
theorem discard {token stamp : Nat} (h : Serves (some (token, stamp)) cutoff s)
    (hover : token ∈ releasedTokens s.log ∨ token ∈ s.lost) : Serves none 0 s :=
  ⟨h.dated.release, h.accounted.discard hover⟩

/-- With an empty channel everything up to now may be swept. -/
theorem expire (h : Serves none cutoff s) (hq : s.queue = []) : Serves none s.clock s := by
  refine ⟨?_, h.accounted⟩
  have hdated := h.dated
  constructor
  · exact Nat.le_refl _
  · intro e he
    rw [hq] at he
    exact absurd he List.not_mem_nil
  · exact hdated.sorted
  · exact hdated.jobFirst
  · exact hdated.hosts
  · intro token stamp heq
    cases heq
  · exact hdated.acted
  · exact hdated.inOrder

end Serves

/-- What else holds where the loop stands: nothing is live before the first job, and an event is
delivered when the deadlines up to its stamp were served. -/
def Swept (s : Inst) : Prop :=
  match s.pc with
  | .boot => s.live = []
  | .deliver _ _ stamp => ∀ l ∈ s.live, ∀ d, l.nextDeadline = some d → stamp < d
  | _ => True

structure OnTime (s : Inst) : Prop where
  inOrder : s.toCore.InOrder
  serves : s.pc.isServing = true → Serves s.pc.held s.pc.cutoff s
  swept : s.Swept

/-- Out of service only the history matters. -/
theorem OnTime.over (h : s.toCore.InOrder) (hpc : s.pc.isServing = false) : OnTime s := by
  refine ⟨h, ?_, ?_⟩
  · intro hserving
    rw [hpc] at hserving
    cases hserving
  · unfold Swept
    split
    · next heq =>
      rw [heq] at hpc
      cases hpc
    · next heq =>
      rw [heq] at hpc
      cases hpc
    · trivial

/-- In service. -/
theorem Serves.onTime (h : Serves hand cutoff s) (hhand : s.pc.held = hand)
    (hcutoff : s.pc.cutoff = cutoff) (hswept : s.Swept) : OnTime s := by
  subst hhand hcutoff
  exact ⟨h.dated.inOrder, fun _ => h, hswept⟩

/-- A live run is not over. -/
theorem Conserved.live_open (h : Conserved s) {l : LiveRun} (hl : l ∈ s.live) :
    l.token ∉ releasedTokens s.log ∧ l.token ∉ s.lost := by
  have hmem : l.token ∈ (s.live.map LiveRun.token : Multiset ℕ) :=
    Multiset.mem_coe.mpr (List.mem_map_of_mem hl)
  have hplaces := Multiset.nodup_add.mp h.places_nodup
  have htokens := (Multiset.nodup_add.mp hplaces.1).2.1
  constructor
  · intro hreleased
    have hdisjoint := (Multiset.nodup_add.mp htokens).2.2
    refine Multiset.disjoint_left.mp hdisjoint ?_ (Multiset.mem_coe.mpr hreleased)
    exact Multiset.mem_add.mpr (Or.inl hmem)
  · intro hlost
    refine Multiset.disjoint_left.mp hplaces.2.2 ?_ (Multiset.mem_coe.mpr hlost)
    rw [Multiset.mem_add, Core.tokens, Multiset.mem_add, Multiset.mem_add]
    exact Or.inr (Or.inl (Or.inl hmem))

/-- The job of a run that is neither queued, held nor live was answered or lost. -/
theorem Conserved.over_of_absent (h : Conserved s) {token : Nat} (hseen : token ∈ s.seen)
    (hpc : token ∉ s.pc.tokens) (hlive : token ∉ s.live.map LiveRun.token)
    (hqueue : token ∉ jobTokens s.queue) : token ∈ releasedTokens s.log ∨ token ∈ s.lost := by
  have hmem : token ∈ s.pc.tokens + s.tokens + (s.lost : Multiset ℕ) := by
    rw [h.places]
    exact Multiset.mem_coe.mpr hseen
  rw [Multiset.mem_add, Multiset.mem_add, Core.tokens, Multiset.mem_add, Multiset.mem_add,
    Multiset.mem_coe, Multiset.mem_coe, Multiset.mem_coe, Multiset.mem_coe] at hmem
  obtain (hmem | (hmem | hmem) | hmem) | hmem := hmem
  · exact absurd hmem hpc
  · exact absurd hmem hlive
  · exact absurd hmem hqueue
  · exact Or.inl hmem
  · exact Or.inr hmem

/-! ### Before the first job -/

/-- Where nothing is in hand and nothing is asked of the live runs. -/
theorem Serves.onTime_plain (h : Serves none 0 s) (hhand : s.pc.held = none)
    (hcutoff : s.pc.cutoff = 0) (hplain : s.pc = .wait ∨ (∃ j, s.pc = .create j) ∨
      (∃ j, s.pc = .dispatch j) ∨ ∃ kind l o, s.pc = .turned kind l o) : OnTime s := by
  refine h.onTime hhand hcutoff ?_
  unfold Swept
  obtain hpc | ⟨j, hpc⟩ | ⟨j, hpc⟩ | ⟨kind, l, o, hpc⟩ := hplain
  · rw [hpc]
    trivial
  · rw [hpc]
    trivial
  · rw [hpc]
    trivial
  · rw [hpc]
    trivial

theorem bootStep_onTime (hpc : s.pc = .boot) (h : OnTime s) (hc' : Conserved s.bootStep)
    (hP : s.script.Passes Passing.Prompt) : OnTime s.bootStep := by
  have hserves : Serves none 0 s := by
    have hserves := h.serves (by rw [hpc]; rfl)
    rwa [hpc] at hserves
  have hlive : s.live = [] := by
    have hswept := h.swept
    unfold Swept at hswept
    rwa [hpc] at hswept
  have hnow : Serves none 0 (s.withCore s.now.2) := hserves.runs hP (.now _) rfl
  have hlive' : (s.withCore s.now.2).live = [] := by
    rw [show (s.withCore s.now.2).live = s.live from (Core.Still.now _).live, hlive]
  have hboot : ∀ u : Inst, Serves none 0 u → u.pc = .boot → u.live = [] → OnTime u := by
    intro u hu hpcu hliveu
    refine hu.onTime (by rw [hpcu]; rfl) (by rw [hpcu]; rfl) ?_
    unfold Swept
    rw [hpcu]
    exact hliveu
  unfold bootStep at hc' ⊢
  dsimp only at hc' ⊢
  split at hc' <;> rename_i hq
  · split at hc' <;> rename_i hhungUp
    · rw [if_pos hhungUp]
      exact .over ⟨hnow.dated.inOrder.past, hnow.dated.inOrder.order⟩ rfl
    · rw [if_neg hhungUp]
      exact hboot _ hnow hpc hlive'
  · rename_i e rest
    cases hevent : e.event with
    | job j =>
      have htaken := (hnow.take hq fun m hm => by rw [hevent] at hm; cases hm).release
      exact Serves.onTime_plain (s := goto _ _) ⟨htaken.dated, htaken.accounted⟩ rfl rfl
        (Or.inr (Or.inl ⟨j, rfl⟩))
    | retire =>
      have htaken := (hnow.take hq fun m hm => by rw [hevent] at hm; cases hm).release
      exact .over ⟨htaken.dated.inOrder.past, htaken.dated.inOrder.order⟩ rfl
    | host m =>
      rw [hevent] at hc'
      have hheld := hnow.takeEvent hq hevent
      refine hboot _ (hheld.discard ?_) hpc hlive'
      obtain ⟨-, hseen, hjobs⟩ := hheld.dated.held e.token e.stamp rfl
      refine hc'.over_of_absent hseen ?_ ?_ hjobs
      · rw [show ((s.withCore s.now.2).withCore { (s.withCore s.now.2).toCore with queue := rest }).pc
          = .boot from hpc]
        exact Multiset.notMem_zero _
      · show e.token ∉ (s.withCore s.now.2).live.map LiveRun.token
        rw [hlive']
        exact List.not_mem_nil

theorem createStep_onTime {j : CallJob} (hpc : s.pc = .create j) (h : OnTime s)
    (hP : s.script.Passes Passing.Prompt) : OnTime (s.createStep j) := by
  have hserves : Serves none 0 s := by
    have hserves := h.serves (by rw [hpc]; rfl)
    rwa [hpc] at hserves
  unfold createStep
  split
  · exact Serves.onTime_plain (s := goto _ _) ⟨hserves.dated, hserves.accounted⟩ rfl rfl
      (Or.inr (Or.inr (Or.inl ⟨j, rfl⟩)))
  · refine .over ?_ rfl
    exact hserves.dated.inOrder.flows (Core.Runs.finishJob _ _ _ _ _ hP).1

/-! ### Out of service -/

theorem inOrder_conclude (h : s.toCore.InOrder) (hP : s.script.Passes Passing.Prompt)
    (l : LiveRun) (result : RunResult) (tainted : Bool) :
    (s.conclude l result tainted).toCore.InOrder :=
  h.flows (Core.Runs.serving.concludeRun s.toCore l result tainted trivial hP).1

theorem brokenStep_onTime {e : RunError} (hpc : s.pc = .broken e) (h : OnTime s)
    (hP : s.script.Passes Passing.Prompt) : OnTime (s.brokenStep e) := by
  obtain ⟨hflows, hspends⟩ := Core.Runs.now s.toCore hP
  have hnow := h.inOrder.flows hflows
  have hP' : s.now.2.script.Passes Passing.Prompt := hP.rest hspends
  have hbroken : ∀ c : Core, c.InOrder → OnTime (s.withCore c) := by
    intro c hc
    refine .over hc ?_
    change s.pc.isServing = false
    rw [hpc]
    rfl
  unfold brokenStep
  dsimp only
  split
  · split
    · exact .over ⟨hnow.past, hnow.order⟩ rfl
    · exact hbroken _ hnow
  · next m rest hq =>
    split
    · next j hj =>
      refine hbroken _ ?_
      have hpopped : Core.InOrder { s.now.2 with queue := rest } := ⟨hnow.past, hnow.order⟩
      exact hpopped.flows
        (Core.Runs.finishJob { s.now.2 with queue := rest } j (.error e) true (prefixFailed e) hP').1
    · exact hbroken _ ⟨hnow.past, hnow.order⟩

theorem closeStep_onTime (hpc : s.pc = .closing) (h : OnTime s)
    (hP : s.script.Passes Passing.Prompt) : OnTime s.closeStep := by
  unfold closeStep
  split
  · exact .over ⟨h.inOrder.past, h.inOrder.order⟩ rfl
  · next l rest hlive =>
    refine .over ?_ (by change s.pc.isServing = false; rw [hpc]; rfl)
    have hrest : Core.InOrder { s.toCore with live := rest } :=
      ⟨h.inOrder.past, h.inOrder.order⟩
    obtain ⟨hflows, hspends⟩ := Core.Runs.serving.runFor
      (TurnM.quiet_boundaryClose.mono fun _ _ => Op.Quiet.flagged)
      (s.withCore { s.toCore with live := rest }) l hP
    exact inOrder_conclude (hrest.flows hflows) (hP.rest hspends) _ _ _

theorem taintStep_onTime (hpc : s.pc = .taint) (h : OnTime s)
    (hP : s.script.Passes Passing.Prompt) : OnTime s.taintStep := by
  unfold taintStep
  split
  · exact .over ⟨h.inOrder.past, h.inOrder.order⟩ rfl
  · next l rest hlive =>
    refine .over ?_ (by change s.pc.isServing = false; rw [hpc]; rfl)
    have hrest : Core.InOrder { s.toCore with live := rest } :=
      ⟨h.inOrder.past, h.inOrder.order⟩
    exact inOrder_conclude (s := s.withCore { s.toCore with live := rest }) hrest hP _ _ _

theorem drainStep_onTime (hpc : s.pc = .drain) (h : OnTime s)
    (hP : s.script.Passes Passing.Prompt) : OnTime (s.withCore s.now.2).drainStep := by
  obtain ⟨hflows, hspends⟩ := Core.Runs.now s.toCore hP
  have hnow := h.inOrder.flows hflows
  have hP' : s.now.2.script.Passes Passing.Prompt := hP.rest hspends
  have hdrain : s.pc.isServing = false := by
    rw [hpc]
    rfl
  unfold drainStep
  split
  · exact .over hnow rfl
  · next m rest hq =>
    dsimp only
    split
    · next j hj =>
      refine .over ?_ hdrain
      have hpopped : Core.InOrder { s.now.2 with queue := rest } := ⟨hnow.past, hnow.order⟩
      exact hpopped.flows (Core.Runs.finishJob { s.now.2 with queue := rest } j _ _ _ hP').1
    · exact .over ⟨hnow.past, hnow.order⟩ hdrain

/-! ### The wait -/

theorem receive_onTime {e : RoutedEvent} {rest : List RoutedEvent} (hpc : s.pc = .wait)
    (h : Serves none 0 s) (hq : s.queue = e :: rest) :
    OnTime ((s.withCore { s.toCore with queue := rest }).receive e) := by
  unfold receive
  cases hevent : e.event with
  | retire =>
    have htaken := (h.take hq fun m hm => by rw [hevent] at hm; cases hm).release
    have hserves : Serves none 0 { s.withCore { s.toCore with queue := rest } with retired := true } :=
      ⟨htaken.dated, htaken.accounted⟩
    have hwait : Inst.pc { s.withCore { s.toCore with queue := rest } with retired := true } =
      .wait := hpc
    exact hserves.onTime_plain (by rw [hwait]; rfl) (by rw [hwait]; rfl) (Or.inl hwait)
  | job j =>
    have htaken := h.take hq fun m hm => by rw [hevent] at hm; cases hm
    exact Serves.onTime (s := goto _ _) ⟨htaken.dated, htaken.accounted⟩ rfl rfl trivial
  | host m =>
    have hheld := h.takeEvent hq hevent
    exact Serves.onTime (s := goto _ _) ⟨hheld.dated, hheld.accounted⟩ rfl rfl trivial

/-- The wait ended by its timeout, and nothing came before the cutoff was read. -/
theorem timedOut_onTime (h : Serves none 0 s) (hP : s.script.Passes Passing.Prompt)
    (hq : s.queue = []) (hgap : (s.script.clocks.head?.getD []).any Passing.isArrival = false) :
    OnTime s.timedOut := by
  have hnow : Serves none 0 (s.withCore s.now.2) := h.runs hP (.now _) rfl
  have hempty : (s.withCore s.now.2).queue = [] := (Core.passAll_queue hgap _).trans hq
  have hexpired := hnow.expire hempty
  exact Serves.onTime (s := s.timedOut) ⟨hexpired.dated, hexpired.accounted⟩ rfl rfl trivial

theorem waitStep_onTime (hpc : s.pc = .wait) (h : OnTime s)
    (hP : s.script.Passes Passing.Prompt)
    (hgap : (s.script.clocks[2]?.getD []).any Passing.isArrival = false) : OnTime s.waitStep := by
  have hserves : Serves none 0 s := by
    have hserves := h.serves (by rw [hpc]; rfl)
    rwa [hpc] at hserves
  unfold waitStep
  dsimp only
  split
  · exact .over ⟨h.inOrder.past, h.inOrder.order⟩ rfl
  · have hpeek : Serves none 0 s.peekValidDeadline.2 := ⟨hserves.dated, hserves.accounted⟩
    obtain ⟨hflows₁, hspends₁⟩ := Core.Runs.now s.peekValidDeadline.2.toCore hP
    obtain ⟨hflows₂, hspends₂⟩ := Core.Runs.now s.peekValidDeadline.2.now.2 (hP.rest hspends₁)
    have hhead : s.peekValidDeadline.2.now.2.now.2.script.clocks.head? = s.script.clocks[2]? := by
      have htwice : s.peekValidDeadline.2.now.2.now.2.script.clocks = s.script.clocks.tail.tail := by
        rw [Core.now_clocks, Core.now_clocks]
        rfl
      rw [htwice, List.head?_eq_getElem?, List.getElem?_tail, List.getElem?_tail]
    generalize hs : s.peekValidDeadline.2.withCore s.peekValidDeadline.2.now.2.now.2 = s₁
    have hserves₁ : Serves none 0 s₁ := hs ▸ hpeek.flows (hflows₁.trans hflows₂) rfl
    have hP₁ : s₁.script.Passes Passing.Prompt := hs ▸ (hP.rest hspends₁).rest hspends₂
    have hgap₁ : (s₁.script.clocks.head?.getD []).any Passing.isArrival = false := by
      rw [← hs]
      change (s.peekValidDeadline.2.now.2.now.2.script.clocks.head?.getD []).any _ = false
      rw [hhead]
      exact hgap
    have hpc₁ : s₁.pc = .wait := by
      rw [← hs]
      exact hpc
    have hwait : OnTime s₁ :=
      hserves₁.onTime_plain (by rw [hpc₁]; rfl) (by rw [hpc₁]; rfl) (Or.inl hpc₁)
    unfold wake
    split
    · next e rest hq => exact receive_onTime hpc₁ hserves₁ hq
    · next hq =>
      split
      · exact .over hserves₁.dated.inOrder rfl
      · split
        · exact hwait
        · split
          · exact timedOut_onTime hserves₁ hP₁ hq hgap₁
          · exact hwait

/-! ### The sweep -/

/-- Where the sweep goes on. -/
theorem Serves.onTime_sweep {next : After} (h : Serves hand cutoff s) (hhand : next.held = hand)
    (hpc : s.pc = .sweep cutoff next) : OnTime s := by
  refine h.onTime (by rw [hpc]; exact hhand) (by rw [hpc]; rfl) ?_
  unfold Swept
  rw [hpc]
  trivial

/-- Acting on a deadline up to the cutoff and entering its run. -/
theorem actOn_serves {l : LiveRun} {w due : Nat} (h : Serves hand cutoff s)
    (hopen : l.token ∉ releasedTokens s.log ∧ l.token ∉ s.lost) (hle : due ≤ cutoff)
    (hP : s.script.Passes Passing.Prompt) :
    Serves hand cutoff (s.actOn l w due).2 ∧
      (s.actOn l w due).2.script.Passes Passing.Prompt := by
  have hacted := h.act hopen hle
  have hr := Core.Runs.serving.beginTurn (s.withCore (s.note (.acted l.token due))) l w
  exact ⟨hacted.runs hP hr rfl, hP.rest (hr hP).2⟩

theorem sweepTurn_onTime {next : After} {due : Nat} {l : LiveRun} {p : TurnM ScanOutcome}
    (hp : p.Uses Op.Flagged) (h : Serves hand cutoff s) (hhand : next.held = hand)
    (hopen : l.token ∉ releasedTokens s.log ∧ l.token ∉ s.lost) (hle : due ≤ cutoff)
    (hP : s.script.Passes Passing.Prompt) : OnTime (s.sweepTurn cutoff next due l p) := by
  obtain ⟨hacted, hP'⟩ := actOn_serves (l := l) (w := due) h hopen hle hP
  have hturn : Serves hand cutoff (s.sweepTurn cutoff next due l p) :=
    hacted.runs hP' (Core.Runs.serving.takeTurn hp _ _ _) rfl
  exact hturn.onTime hhand rfl trivial

theorem sweepWall_onTime {next : After} {surfaced due : Nat} {l : LiveRun}
    (hpc : s.pc = .sweep cutoff next) (h : Serves hand cutoff s) (hhand : next.held = hand)
    (hopen : l.token ∉ releasedTokens s.log ∧ l.token ∉ s.lost) (hle : due ≤ cutoff)
    (hP : s.script.Passes Passing.Prompt) : OnTime (s.sweepWall surfaced due l) := by
  obtain ⟨hacted, hP'⟩ := actOn_serves (l := l) (w := surfaced) h hopen hle hP
  have hwall := hacted.runs hP' (Core.Runs.serving.sweepWall s surfaced due l trivial)
    (sweepWall_lost _ _ _ _)
  exact hwall.onTime_sweep hhand ((sweepWall_pc _ _ _ _).trans hpc)

theorem sweepBoundary_onTime {next : After} {due : Nat} {l : LiveRun}
    (hpc : s.pc = .sweep cutoff next) (h : Serves hand cutoff s) (hhand : next.held = hand)
    (hopen : l.token ∉ releasedTokens s.log ∧ l.token ∉ s.lost) (hle : due ≤ cutoff)
    (hP : s.script.Passes Passing.Prompt) : OnTime (s.sweepBoundary due l) := by
  obtain ⟨hacted, hP'⟩ := actOn_serves (l := l) (w := due) h hopen hle hP
  have hboundary : Serves hand cutoff (s.sweepBoundary due l) :=
    hacted.runs hP' (Core.Runs.serving.sweepBoundary s due l trivial) rfl
  exact hboundary.onTime_sweep hhand hpc

/-- In the post-Result phase an entry that is no timer is the wall or the idle deadline. -/
theorem nextDeadline_grace {l : LiveRun} {d : Nat} (hg : l.rs.phase.isGrace = true)
    (hnext : l.nextDeadline = some d) (htimer : l.earliestTimer ≠ some d) :
    l.graceWallInstant = some d ∨ l.outIdleDeadline = some d := by
  obtain ⟨g, hphase⟩ := RunPhase.isGrace_iff.mp hg
  have hinstant : l.deadlineInstant = LiveRun.sooner l.graceWallInstant l.outIdleDeadline := by
    unfold LiveRun.deadlineInstant
    rw [hphase]
  obtain ⟨hcases, -⟩ := LiveRun.sooner_eq_some hnext
  obtain hboundary | hdue := hcases
  · rw [hinstant] at hboundary
    exact (LiveRun.sooner_eq_some hboundary).1
  · exact absurd hdue htimer

theorem sweepGrace_onTime {next : After} {surfaced : Nat} {l : LiveRun}
    (hpc : s.pc = .sweep cutoff next) (h : Serves hand cutoff s) (hhand : next.held = hand)
    (hopen : l.token ∉ releasedTokens s.log ∧ l.token ∉ s.lost) (hle : surfaced ≤ cutoff)
    (hg : l.rs.phase.isGrace = true) (hnext : l.nextDeadline = some surfaced)
    (htimer : l.earliestTimer ≠ some surfaced)
    (hlate : ∀ d, l.outIdleDeadline = some d → d ≤ s.now.1 → d ≤ cutoff)
    (hP : s.script.Passes Passing.Prompt) : OnTime (s.sweepGrace cutoff next surfaced l) := by
  obtain ⟨hflows, hspends⟩ := Core.Runs.now s.toCore hP
  have hnow : Serves hand cutoff (s.withCore s.now.2) := h.flows hflows rfl
  have hP' : s.now.2.script.Passes Passing.Prompt := hP.rest hspends
  have hreached : cutoff ≤ s.now.1 := hnow.dated.clock
  have hopen' : l.token ∉ releasedTokens (s.withCore s.now.2).log ∧
      l.token ∉ (s.withCore s.now.2).lost := by
    obtain ⟨noted, hlog, hturn⟩ := (Core.Frame.now s.toCore).log
    rw [show (s.withCore s.now.2).log = noted ++ s.log from hlog, releasedTokens_append_ofTurn hturn]
    exact hopen
  unfold sweepGrace
  dsimp only
  split
  · next d hidle =>
    obtain ⟨hd, hdue⟩ := Option.filter_eq_some_iff.mp hidle
    exact sweepTurn_onTime (TurnM.formed_streamIdleTurn TurnM.formed_flagged) hnow hhand hopen'
      (hlate d hd (by simpa using hdue)) hP'
  · next hidle =>
    split
    · next d hwall =>
      obtain ⟨hd, -⟩ := Option.filter_eq_some_iff.mp hwall
      -- the entry that surfaced is the wall: the idle deadline would be due
      have hsurfaced : l.graceWallInstant = some surfaced := by
        refine (nextDeadline_grace hg hnext htimer).resolve_right ?_
        intro heq
        have hdue := Option.filter_eq_none_iff.mp hidle surfaced heq
        simp at hdue
        omega
      rw [hsurfaced, Option.some.injEq] at hd
      exact sweepWall_onTime hpc hnow hhand hopen' (hd ▸ hle) hP'
    · have hqueued : Serves hand cutoff ((s.withCore s.now.2).queueDeadline l) := by
        refine ⟨?_, ?_⟩
        · rw [queueDeadline_toCore]
          exact hnow.dated
        · rw [queueDeadline_toCore, queueDeadline_lost]
          exact hnow.accounted
      exact hqueued.onTime_sweep hhand ((queueDeadline_pc _ _).trans hpc)

/-- The sweep meets a run of the post-Result phase whose idle deadline is past by the clock, and
not by the cutoff. -/
def idlesLate (s : Inst) (now : Nat) : Bool :=
  match s.pc with
  | .sweep cutoff _ =>
    s.peekValidDeadline.1.any fun k => decide (k.deadline ≤ cutoff) &&
      (s.findRun k.token).any fun l =>
        l.rs.phase.isGrace && decide (l.earliestTimer ≠ some k.deadline) &&
          l.outIdleDeadline.any fun d => decide (cutoff < d) && decide (d ≤ now)
  | _ => false

theorem le_cutoff_of_idlesLate {next : After} {k : DeadlineKey} {l : LiveRun}
    (hpc : s.pc = .sweep cutoff next) (hlate : s.idlesLate s.now.1 = false)
    (htop : s.peekValidDeadline.1 = some k) (hle : k.deadline ≤ cutoff)
    (hfind : s.findRun k.token = some l) (hg : l.rs.phase.isGrace = true)
    (htimer : l.earliestTimer ≠ some k.deadline) {d : Nat} (hd : l.outIdleDeadline = some d)
    (hdue : d ≤ s.now.1) : d ≤ cutoff := by
  unfold idlesLate at hlate
  rw [hpc] at hlate
  dsimp only at hlate
  rw [htop, Option.any_some, hfind, Option.any_some, hd, Option.any_some] at hlate
  by_contra hgt
  simp [hle, hg, htimer, hdue] at hlate
  omega

theorem sweepPass_onTime {next : After} (hpc : s.pc = .sweep cutoff next) (hc : Conserved s)
    (hready : Ready s) (h : OnTime s) (hP : s.script.Passes Passing.Prompt)
    (hlate : s.idlesLate s.now.1 = false) : OnTime (s.sweepPass cutoff next) := by
  have hn := hc.live_nodup
  have hserves : Serves next.held cutoff s := by
    have hserves := h.serves (by rw [hpc]; rfl)
    rwa [hpc] at hserves
  -- the sweep is over: no live run has a deadline up to the cutoff
  have hdone : (∀ l ∈ s.live, ∀ d, l.nextDeadline = some d → cutoff < d) →
      OnTime (s.peekValidDeadline.2.goto next.pc) := by
    intro hclear
    cases next with
    | top =>
      exact Serves.onTime_plain (s := goto _ _) (Serves.release ⟨hserves.dated, hserves.accounted⟩)
        rfl rfl (Or.inl rfl)
    | dispatch j =>
      exact Serves.onTime_plain (s := goto _ _) (Serves.release ⟨hserves.dated, hserves.accounted⟩)
        rfl rfl (Or.inr (Or.inr (Or.inl ⟨j, rfl⟩)))
    | deliver token msg stamp =>
      have hstamp : stamp = cutoff := (hserves.dated.held token stamp rfl).1
      subst hstamp
      exact Serves.onTime (s := goto _ _) ⟨hserves.dated, hserves.accounted⟩ rfl rfl hclear
  unfold sweepPass
  dsimp only
  split
  · next hnone =>
    refine hdone ?_
    intro l hl d hd
    rw [peek_none hn hready.2 hnone hl] at hd
    cases hd
  · next k hk =>
    split
    · next hgt =>
      refine hdone ?_
      intro l hl d hd
      exact hgt.trans_le (peek_least hn hready.2 hk hl hd)
    · next hle =>
      have hle : k.deadline ≤ cutoff := Nat.not_lt.mp hle
      obtain ⟨l, hl, hfind, htok, hnext⟩ := peek_live hk
      rw [show s.peekValidDeadline.2.findRun k.token = some l from hfind]
      dsimp only
      have hopen := hc.live_open hl
      generalize hpopped : { s.peekValidDeadline.2 with deadlines :=
        s.peekValidDeadline.2.deadlines.pop } = s₁
      have hserves₁ : Serves next.held cutoff s₁ := by
        rw [← hpopped]
        exact ⟨hserves.dated, hserves.accounted⟩
      have hopen₁ : l.token ∉ releasedTokens s₁.log ∧ l.token ∉ s₁.lost := by
        rw [← hpopped]
        exact hopen
      have hP₁ : s₁.script.Passes Passing.Prompt := by
        rw [← hpopped]
        exact hP
      have hpc₁ : s₁.pc = .sweep cutoff next := by
        rw [← hpopped]
        exact hpc
      have hnow : s₁.now.1 = s.now.1 := by
        rw [← hpopped]
        rfl
      unfold sweepRun
      split
      · exact sweepTurn_onTime (TurnM.formed_timerTurn TurnM.formed_flagged) hserves₁ rfl hopen₁ hle
          hP₁
      · next htimer =>
        split
        · next hg =>
          refine sweepGrace_onTime hpc₁ hserves₁ rfl hopen₁ hle hg hnext htimer ?_ hP₁
          intro d hd hdue
          rw [hnow] at hdue
          exact le_cutoff_of_idlesLate hpc hlate hk hle hfind hg htimer hd hdue
        · exact sweepBoundary_onTime hpc₁ hserves₁ rfl hopen₁ hle hP₁

/-! ### Turns -/

theorem dispatchJob_onTime {j : CallJob} (hpc : s.pc = .dispatch j) (h : OnTime s)
    (hP : s.script.Passes Passing.Prompt) : OnTime (s.dispatchJob j) := by
  have hserves : Serves none 0 s := by
    have hserves := h.serves (by rw [hpc]; rfl)
    rwa [hpc] at hserves
  have hlost : (s.dispatchJob j).lost = s.lost := by
    unfold dispatchJob beginStart
    rfl
  have hturn : Serves none 0 (s.dispatchJob j) := hserves.runs hP (Core.Runs.serving.dispatchJob s j) hlost
  exact hturn.onTime_plain rfl rfl (Or.inr (Or.inr (Or.inr ⟨_, _, _, rfl⟩)))

theorem deliverEvent_onTime {token stamp : Nat} {msg : Inbound}
    (hpc : s.pc = .deliver token msg stamp) (hc : Conserved s) (h : OnTime s)
    (hP : s.script.Passes Passing.Prompt) : OnTime (s.deliverEvent token msg stamp) := by
  have hserves : Serves (some (token, stamp)) stamp s := by
    have hserves := h.serves (by rw [hpc]; rfl)
    rwa [hpc] at hserves
  unfold deliverEvent
  split
  · next hnone =>
    have hover : token ∈ releasedTokens s.log ∨ token ∈ s.lost := by
      obtain ⟨-, hseen, hjobs⟩ := hserves.dated.held token stamp rfl
      refine hc.over_of_absent hseen ?_ ?_ hjobs
      · rw [hpc]
        exact Multiset.notMem_zero _
      · intro hlive
        obtain ⟨l, hl, htoken⟩ := List.mem_map.mp hlive
        have hne := List.find?_eq_none.mp hnone l hl
        simp [htoken] at hne
    have hdropped := hserves.discard hover
    exact Serves.onTime_plain (s := goto _ _) ⟨hdropped.dated, hdropped.accounted⟩ rfl rfl
      (Or.inl rfl)
  · next l hfind =>
    have hl : l ∈ s.live := List.mem_of_find?_eq_some hfind
    have hdue : ∀ d, l.nextDeadline = some d → stamp < d := by
      have hswept := h.swept
      unfold Swept at hswept
      rw [hpc] at hswept
      exact hswept l hl
    have hdelivered := hserves.deliver hdue
    have hturn := hdelivered.runs hP
      (Core.Runs.serving.beginThenTake (TurnM.formed_handleLoopEvent TurnM.formed_flagged msg)
        (s.withCore (s.note (.delivered token stamp l.nextDeadline))) (.event l.nextDeadline) l
        stamp) rfl
    exact hturn.onTime_plain rfl rfl (Or.inr (Or.inr (Or.inr ⟨_, _, _, rfl⟩)))

theorem concludeTurn_onTime {kind : TurnKind} {l : LiveRun} {o : ScanOutcome}
    (hpc : s.pc = .turned kind l o) (h : OnTime s) (hP : s.script.Passes Passing.Prompt) :
    OnTime (s.concludeTurn kind l o) := by
  have hserves : Serves s.pc.held s.pc.cutoff s := h.serves (by rw [hpc]; rfl)
  have hruns := Core.Runs.serving.concludeTurn s kind l o trivial
  have hlost : s.instanceTainted.1 = false → (s.concludeTurn kind l o).lost = s.lost := by
    intro htaint
    unfold concludeTurn
    rw [if_neg (by rw [htaint]; exact Bool.false_ne_true)]
    change (drainTouchedTimers _).lost = _
    rw [drainTouchedTimers_lost, settleOwner_lost]
    rfl
  cases htaint : s.instanceTainted.1 with
  | true =>
    refine .over (h.inOrder.flows (hruns hP).1) ?_
    unfold concludeTurn
    rw [if_pos htaint]
    rfl
  | false =>
    have hconcluded : Serves s.pc.held s.pc.cutoff (s.concludeTurn kind l o) :=
      hserves.runs hP hruns (hlost htaint)
    have hresumed : (s.concludeTurn kind l o).pc = TurnKind.resume kind := by
      unfold concludeTurn
      rw [if_neg (by rw [htaint]; exact Bool.false_ne_true)]
      rfl
    rw [hpc] at hconcluded
    cases kind with
    | start =>
      exact hconcluded.onTime_plain (by rw [hresumed]; rfl) (by rw [hresumed]; rfl) (Or.inl hresumed)
    | event queued =>
      exact hconcluded.onTime_plain (by rw [hresumed]; rfl) (by rw [hresumed]; rfl) (Or.inl hresumed)
    | swept cutoff next => exact hconcluded.onTime_sweep rfl hresumed

/-! ### Every run -/

/-- An event enters the channel between the end of the wait and the reading of the cutoff. -/
def arrivesInGap (s : Inst) (script : Script) : Bool :=
  match s.pc with
  | .wait => (script.clocks[2]?.getD []).any Passing.isArrival
  | _ => false

/-- An event is sent as soon as it is stamped, none enters before a cutoff that is later than it,
and no idle deadline is acted on that the cutoff does not let through. -/
structure Punctual (s : Inst) (script : Script) : Prop where
  prompt : script.Passes Passing.Prompt
  gap : s.arrivesInGap script = false
  idle : s.idlesLate (s.load script).now.1 = false

instance decidablePunctual (s : Inst) (script : Script) : Decidable (s.Punctual script) :=
  decidable_of_iff (script.Passes Passing.Prompt ∧ s.arrivesInGap script = false ∧
    s.idlesLate (s.load script).now.1 = false)
    ⟨fun h => ⟨h.1, h.2.1, h.2.2⟩, fun h => ⟨h.prompt, h.gap, h.idle⟩⟩

theorem advance_onTime (hb : Booked s) (h : OnTime s) (hP : s.script.Passes Passing.Prompt)
    (hgap : s.arrivesInGap s.script = false) (hlate : s.idlesLate s.now.1 = false) :
    OnTime s.advance := by
  have hc := hb.conserved
  have hc' := hc.step (advance_stepMoves s)
  have hcomplete := hb.complete
  unfold Complete at hcomplete
  unfold advance at hc' ⊢
  split
  · next hpc =>
    rw [hpc] at hc'
    exact bootStep_onTime hpc h hc' hP
  · next hpc => exact createStep_onTime hpc h hP
  · next hpc => exact brokenStep_onTime hpc h hP
  · next hpc =>
    unfold arrivesInGap at hgap
    rw [hpc] at hgap
    exact waitStep_onTime hpc h hP hgap
  · next hpc =>
    rw [hpc] at hcomplete
    exact sweepPass_onTime hpc hc hcomplete h hP hlate
  · next hpc => exact dispatchJob_onTime hpc h hP
  · next hpc => exact deliverEvent_onTime hpc hc h hP
  · next hpc => exact concludeTurn_onTime hpc h hP
  · next hpc => exact closeStep_onTime hpc h hP
  · next hpc => exact taintStep_onTime hpc h hP
  · next hpc => exact drainStep_onTime hpc h hP
  · have hnow := h.inOrder.flows (Core.Runs.now s.toCore hP).1
    exact .over ⟨hnow.past, hnow.order⟩ rfl
  · exact h

theorem OnTime.load (h : OnTime s) (script : Script) : OnTime (s.load script) where
  inOrder := ⟨h.inOrder.past, h.inOrder.order⟩
  serves := fun hserving =>
    have hserves := h.serves hserving
    ⟨⟨hserves.dated.clock, hserves.dated.stamps, hserves.dated.sorted, hserves.dated.jobFirst,
      hserves.dated.hosts, hserves.dated.held, hserves.dated.acted, hserves.dated.inOrder.past,
      hserves.dated.inOrder.order⟩,
      hserves.accounted⟩
  swept := h.swept

theorem new_onTime (clock : Nat) : OnTime (Inst.new clock) := by
  have hempty : (Inst.new clock).toCore.InOrder := by
    refine ⟨?_, trivial⟩
    intro token deadline hacted
    exact absurd hacted List.not_mem_nil
  refine ⟨hempty, fun _ => ⟨?_, ?_⟩, rfl⟩
  · constructor
    · exact Nat.zero_le _
    · intro e he
      exact absurd he List.not_mem_nil
    · exact List.Pairwise.nil
    · exact List.Pairwise.nil
    · intro e he
      exact absurd he List.not_mem_nil
    · intro token stamp heq
      cases heq
    · intro token deadline hacted
      exact absurd hacted List.not_mem_nil
    · exact hempty
  · intro token _ _ stamp
    exact (pendingEvents_none [] token stamp).symm

/-- A call with a waitUntil wall. -/
def streamingJob (token graceMs : Nat) : CallJob where
  token := token
  limits := ⟨0, 0, 0, graceMs⟩
  entry := .prefixExport
  call := true
  epilogue := some token
  link := true

/-- The call registers a promise that stays pending, and returns a streamed body. -/
def returnsStream (token : Nat) : List Slice :=
  [Slice.idle, Slice.idle, Slice.idle, Slice.idle,
    { Slice.idle with acts := [.waitUntil token .pending], completion := .promise .fulfilled },
    Slice.idle, { Slice.idle with acts := [.registerOut] }]

/-- The wall of the run is at 5 ms and its idle deadline at 10 s.  The host grants credit at 6 ms,
and the loop gets to its sweep this much later. -/
def grantedThenDelayed (delayMs : Nat) : List Script :=
  [waiting [.arrive 1 (.job (streamingJob 1 5)) 0], Script.silent, running (returnsStream 1),
    Script.silent,
    { Script.silent with
      clocks := [[], [.pass (fromMillis 6), .arrive 1 (.host (.streamPull 1 1024)) 0]] },
    waiting [.pass (fromMillis delayMs)]]

end Inst

end Iso4
