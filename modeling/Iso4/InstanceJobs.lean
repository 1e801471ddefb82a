/-
What an instance takes in, and how it answers (`serve_instance` and `taint_sweep` of
`crates/core/src/v8/instance.rs`, `instance_main` of `crates/core/src/warm.rs`).

`Q` says which messages may come through the channel.

* `Inst.step_holds` — then every job the instance has in hand came through it, and each release
  comes with one final message;
* `Inst.advance_lost` — while the instance is in service a step drops no job, if it keeps to
  `Inst.DropsNone`;
* `Inst.advance_emptied` — when its thread is gone, no run is live and the channel is empty.
-/
import Iso4.Deadlines
import Iso4.LoopParts

namespace Iso4

open Program Execution

/-! ### Final messages -/

/-- A message that ends a run.  The flags of an early `Result` are not zero. -/
def Outbound.isFinal : Outbound → Bool
  | .result (.success _ flags) => flags == 0
  | .result (.failure _ _) => true
  | .runComplete _ => true
  | _ => false

/-- A final message of the run that its link took. -/
def Event.isFinal (token : Nat) : Event → Bool
  | .sent token' msg => token' == token && msg.isFinal
  | _ => false

/-- A final message of the run that its link refused. -/
def Event.isRefusal (token : Nat) : Event → Bool
  | .dropped token' msg => token' == token && msg.isFinal
  | _ => false

def finals (token : Nat) (log : List Event) : Nat := log.countP (Event.isFinal token)

def refusals (token : Nat) (log : List Event) : Nat := log.countP (Event.isRefusal token)

/-- Each release comes with at most one final message, and with one if the link refuses none. -/
def Answered (log : List Event) : Prop :=
  ∀ token, finals token log ≤ (releasedTokens log).count token ∧
    (releasedTokens log).count token ≤ finals token log + refusals token log

/-- Releases and final messages, sent or refused. -/
def Event.isEnding : Event → Bool
  | .released _ _ => true
  | .sent _ msg => msg.isFinal
  | .dropped _ msg => msg.isFinal
  | _ => false

theorem finals_append (token : Nat) (noted log : List Event) :
    finals token (noted ++ log) = finals token noted + finals token log := List.countP_append

theorem refusals_append (token : Nat) (noted log : List Event) :
    refusals token (noted ++ log) = refusals token noted + refusals token log :=
  List.countP_append

/-- Events that end no run. -/
theorem ends_none {log : List Event} (h : ∀ e ∈ log, e.isEnding = false) (token : Nat) :
    finals token log = 0 ∧ refusals token log = 0 ∧ releasedTokens log = [] := by
  refine ⟨List.countP_eq_zero.mpr ?_, List.countP_eq_zero.mpr ?_, List.filterMap_eq_nil_iff.mpr ?_⟩
  · intro e he hfinal
    have hplain := h e he
    cases e with
    | sent token' msg =>
      have hmsg : msg.isFinal = false := hplain
      rw [(Bool.and_eq_true_iff.mp hfinal).2] at hmsg
      cases hmsg
    | _ => cases hfinal
  · intro e he hrefused
    have hplain := h e he
    cases e with
    | dropped token' msg =>
      have hmsg : msg.isFinal = false := hplain
      rw [(Bool.and_eq_true_iff.mp hrefused).2] at hmsg
      cases hmsg
    | _ => cases hrefused
  · intro e he
    have hplain := h e he
    cases e with
    | released token' tainted => cases hplain
    | _ => rfl

theorem answered_nil : Answered [] := fun _ => ⟨Nat.le_refl _, Nat.zero_le _⟩

theorem Answered.append {noted log : List Event} (hn : Answered noted) (h : Answered log) :
    Answered (noted ++ log) := by
  intro token
  have hnoted := hn token
  have hlog := h token
  rw [finals_append, refusals_append, releasedTokens_append, List.count_append]
  omega

theorem answered_of_isEnding {noted : List Event} (hn : ∀ e ∈ noted, e.isEnding = false) :
    Answered noted := by
  intro token
  obtain ⟨hfinals, hrefusals, hreleased⟩ := ends_none hn token
  rw [hfinals, hrefusals, hreleased]
  exact ⟨Nat.le_refl _, Nat.le_refl _⟩

theorem completionMessage_final (result : RunResult) (failed : Bool) :
    (Core.completionMessage result failed).isFinal = true := by
  unfold Core.completionMessage
  split
  · split
    · split
      · rfl
      · rfl
    · rfl
  · rfl

theorem minimalCompletion_final (msg : Outbound) : (Core.minimalCompletion msg).isFinal = true := by
  unfold Core.minimalCompletion
  split
  · rfl
  · rfl

theorem Outbound.IsFrame.isFinal {msg : Outbound} (h : msg.IsFrame) : msg.isFinal = false := by
  cases msg with
  | result completion => exact h.elim
  | runComplete report => exact h.elim
  | _ => rfl

/-- What a completion hands to the link: one message, or a refused one and the minimal one. -/
inductive Core.Attempts (token : Nat) : List Event → Prop
  | sent {msg : Outbound} (hm : msg.isFinal = true) : Attempts token [.sent token msg]
  | dropped {msg : Outbound} (hm : msg.isFinal = true) : Attempts token [.dropped token msg]
  | sentAgain {msg msg' : Outbound} (hm : msg.isFinal = true) (hm' : msg'.isFinal = true) :
    Attempts token [.sent token msg', .dropped token msg]
  | droppedAgain {msg msg' : Outbound} (hm : msg.isFinal = true) (hm' : msg'.isFinal = true) :
    Attempts token [.dropped token msg', .dropped token msg]

namespace Core

theorem Attempts.released {token : Nat} {attempts : List Event} (h : Attempts token attempts) :
    releasedTokens attempts = [] := by
  cases h <;> rfl

theorem Attempts.answered {token : Nat} {attempts : List Event} (h : Attempts token attempts)
    (tainted : Bool) : Answered (attempts ++ [.released token tainted]) := by
  intro token'
  by_cases htoken : token = token'
  · subst htoken
    cases h with
    | sent hm => simp [finals, refusals, releasedTokens, Event.isFinal, Event.isRefusal, hm]
    | dropped hm => simp [finals, refusals, releasedTokens, Event.isFinal, Event.isRefusal, hm]
    | sentAgain hm hm' =>
      simp [finals, refusals, releasedTokens, Event.isFinal, Event.isRefusal, hm, hm']
    | droppedAgain hm hm' =>
      simp [finals, refusals, releasedTokens, Event.isFinal, Event.isRefusal, hm, hm']
  · cases h <;>
      simp [finals, refusals, releasedTokens, Event.isFinal, Event.isRefusal, htoken]

theorem sendCompletion_log (c : Core) (token : Nat) {msg : Outbound} (hm : msg.isFinal = true) :
    ∃ attempts, (c.sendCompletion token msg).log = attempts ++ c.log ∧ Attempts token attempts := by
  have hsend : ∀ (c : Core) {msg : Outbound}, msg.isFinal = true →
      ∃ e, (c.send token msg).2.log = e :: c.log ∧ (e = .sent token msg ∨ e = .dropped token msg) ∧
        ((c.send token msg).1 ≠ .ok → e = .dropped token msg) := by
    intro c msg hm
    unfold Core.send
    dsimp only
    split
    · next hok => exact ⟨_, rfl, Or.inl rfl, fun hnot => absurd hok hnot⟩
    · exact ⟨_, rfl, Or.inr rfl, fun _ => rfl⟩
  obtain ⟨e, hlog, he, hrefused⟩ := hsend c hm
  unfold Core.sendCompletion
  split
  · next hlarge =>
    -- too large for the host: the minimal completion goes out in its place
    have hm' := minimalCompletion_final msg
    obtain ⟨e', hlog', he', -⟩ := hsend (c.send token msg).2 hm'
    refine ⟨[e', .dropped token msg], ?_, ?_⟩
    · rw [hlog', hlog, hrefused (by rw [hlarge]; exact SendResult.noConfusion)]
      rfl
    · obtain rfl | rfl := he'
      · exact .sentAgain hm hm'
      · exact .droppedAgain hm hm'
  · refine ⟨[e], hlog, ?_⟩
    obtain rfl | rfl := he
    · exact .sent hm
    · exact .dropped hm

end Core

/-! ### What comes through the channel -/

/-- Only what `Q` lets through arrives. -/
def Passing.Brings (Q : RunEvent → Prop) : Passing → Prop
  | .pass _ => True
  | .arrive _ event _ => Q event

instance Passing.decidableBrings (Q : RunEvent → Prop) [DecidablePred Q] :
    DecidablePred (Passing.Brings Q)
  | .pass _ => isTrue trivial
  | .arrive _ event _ => inferInstanceAs (Decidable (Q event))

/-- The channel and the history go on. -/
structure Core.Takes (Q : RunEvent → Prop) (c c' : Core) : Prop where
  queue : ∃ new, c'.queue = c.queue ++ new ∧ ∀ e ∈ new, Q e.event
  seen : ∀ token ∈ c'.seen, token ∈ c.seen ∨ ∃ j, Q (.job j) ∧ j.token = token
  log : ∃ noted, c'.log = noted ++ c.log ∧ ∀ e ∈ noted, e.isEnding = false

namespace Core.Takes

variable {Q : RunEvent → Prop} {c c' c'' : Core}

theorem of_eq (hqueue : c'.queue = c.queue) (hseen : c'.seen = c.seen) (hlog : c'.log = c.log) :
    Takes Q c c' where
  queue := ⟨[], by rw [hqueue, List.append_nil], by simp⟩
  seen := fun _ ht => Or.inl (hseen ▸ ht)
  log := ⟨[], hlog, by simp⟩

theorem refl (c : Core) : Takes Q c c := of_eq rfl rfl rfl

theorem trans (h : Takes Q c c') (h' : Takes Q c' c'') : Takes Q c c'' where
  queue := by
    obtain ⟨new, hqueue, hnew⟩ := h.queue
    obtain ⟨new', hqueue', hnew'⟩ := h'.queue
    refine ⟨new ++ new', by rw [hqueue', hqueue, List.append_assoc], ?_⟩
    intro e he
    exact (List.mem_append.mp he).elim (hnew e) (hnew' e)
  seen := by
    intro token ht
    obtain ht | hj := h'.seen token ht
    · exact h.seen token ht
    · exact Or.inr hj
  log := by
    obtain ⟨noted, hlog, hnoted⟩ := h.log
    obtain ⟨noted', hlog', hnoted'⟩ := h'.log
    refine ⟨noted' ++ noted, by rw [hlog', hlog, List.append_assoc], ?_⟩
    intro e he
    exact (List.mem_append.mp he).elim (hnoted' e) (hnoted e)

theorem note {e : Event} (he : e.isEnding = false) (c : Core) : Takes Q c (c.note e) where
  queue := (refl c).queue
  seen := (refl c).seen
  log := ⟨[e], rfl, fun _ he' => (List.mem_singleton.mp he') ▸ he⟩

theorem send (c : Core) (token : Nat) {msg : Outbound} (hm : msg.isFinal = false) :
    Takes Q c (c.send token msg).2 := by
  have hpop : Takes Q c c.popSend := of_eq rfl rfl rfl
  refine hpop.trans ?_
  unfold Core.send
  dsimp only
  split
  · exact note (e := .sent token msg) hm _
  · exact note (e := .dropped token msg) hm _

theorem arrive (c : Core) (token : Nat) {event : RunEvent} (hQ : Q event) (lag : Nat) :
    Takes Q c (c.arrive token event lag) := by
  have hone : ∀ stamp token', ∀ e ∈ [RoutedEvent.mk token' event stamp], Q e.event := by
    intro stamp token' e he
    rw [List.mem_singleton.mp he]
    exact hQ
  cases event with
  | job j =>
    rw [Core.arrive]
    by_cases hseen : j.token ∈ c.seen
    · -- a token is sent once
      rw [if_pos hseen]
      exact refl c
    · rw [if_neg hseen]
      refine ⟨⟨[_], rfl, hone _ _⟩, ?_, ⟨[], rfl, by simp⟩⟩
      intro token' ht
      obtain rfl | ht := List.mem_cons.mp ht
      · exact Or.inr ⟨j, hQ, rfl⟩
      · exact Or.inl ht
  | host m =>
    rw [Core.arrive]
    split
    · exact ⟨⟨[_], rfl, hone _ _⟩, fun _ ht => Or.inl ht, ⟨[_], rfl, by simp [Event.isEnding]⟩⟩
    · exact refl c
  | retire =>
    rw [Core.arrive]
    exact ⟨⟨[_], rfl, hone _ _⟩, fun _ ht => Or.inl ht, ⟨[], rfl, by simp⟩⟩

end Core.Takes

theorem Core.closed_takes (Q : RunEvent → Prop) :
    Core.Closed (Passing.Brings Q) (fun _ => True) (Core.Takes Q) where
  trans := .trans
  quiet := fun _ hqueue hseen hlog _ _ _ => .of_eq hqueue hseen hlog
  spend := fun _ _ _ => .of_eq rfl rfl rfl
  pass := by
    intro c p hp
    cases p with
    | pass d => exact .of_eq rfl rfl rfl
    | arrive token event lag => exact .arrive c token hp lag
  kill := fun _ _ => .of_eq rfl rfl rfl
  sent := fun c token _ _ hm => .send c token hm.isFinal

/-! ### What the instance has -/

structure Core.Holds (Q : RunEvent → Prop) (c : Core) : Prop where
  queue : ∀ e ∈ c.queue, Q e.event
  live : ∀ l ∈ c.live, Q (.job l.job)
  seen : ∀ token ∈ c.seen, ∃ j, Q (.job j) ∧ j.token = token
  answered : Answered c.log

theorem Core.Holds.mono {Q Q' : RunEvent → Prop} {c : Core} (h : c.Holds Q)
    (hQ : ∀ e, Q e → Q' e) : c.Holds Q' where
  queue := fun e he => hQ _ (h.queue e he)
  live := fun l hl => hQ _ (h.live l hl)
  seen := fun token ht => (h.seen token ht).imp fun _ hj => ⟨hQ _ hj.1, hj.2⟩
  answered := h.answered

/-- Channel and history go on, and the live runs are the same. -/
theorem Core.Holds.takes {Q : RunEvent → Prop} {c c' : Core} (h : c.Holds Q)
    (ht : Core.Takes Q c c') (hlive : ∀ l' ∈ c'.live, ∃ l ∈ c.live, l'.job = l.job) :
    c'.Holds Q where
  queue := by
    obtain ⟨new, hqueue, hnew⟩ := ht.queue
    intro e he
    rw [hqueue] at he
    exact (List.mem_append.mp he).elim (h.queue e) (hnew e)
  live := by
    intro l' hl'
    obtain ⟨l, hl, hjob⟩ := hlive l' hl'
    exact hjob.symm ▸ h.live l hl
  seen := by
    intro token htoken
    exact (ht.seen token htoken).elim (h.seen token) id
  answered := by
    obtain ⟨noted, hlog, hnoted⟩ := ht.log
    rw [hlog]
    exact (answered_of_isEnding hnoted).append h.answered

/-- While only what `Q` lets through arrives, the history goes on and what the instance has stays
within `Q`. -/
def Core.Keeps (Q : RunEvent → Prop) (c c' : Core) : Prop :=
  c.script.Passes (Passing.Brings Q) →
    Spends c c' ∧ c.log <:+ c'.log ∧ (c.Holds Q → c'.Holds Q)

namespace Core.Keeps

variable {Q : RunEvent → Prop} {c c' c'' : Core}

theorem trans (h : Keeps Q c c') (h' : Keeps Q c' c'') : Keeps Q c c'' := by
  intro hP
  obtain ⟨hspends, hlog, hholds⟩ := h hP
  obtain ⟨hspends', hlog', hholds'⟩ := h' (hP.rest hspends)
  exact ⟨hspends.trans hspends', hlog.trans hlog', fun hc => hholds' (hholds hc)⟩

theorem of_takes (ht : c.script.Passes (Passing.Brings Q) → Takes Q c c') (hs : Spends c c')
    (hlive : ∀ l' ∈ c'.live, ∃ l ∈ c.live, l'.job = l.job) : Keeps Q c c' := by
  intro hP
  obtain ⟨noted, hlog, -⟩ := (ht hP).log
  exact ⟨hs, ⟨noted, hlog.symm⟩, fun hc => hc.takes (ht hP) hlive⟩

/-- The live runs are those before. -/
theorem sameJobs (h : c'.live = c.live) : ∀ l' ∈ c'.live, ∃ l ∈ c.live, l'.job = l.job :=
  fun l' hl' => ⟨l', h ▸ hl', rfl⟩

theorem note {e : Event} (he : e.isEnding = false) (c : Core) : Keeps Q c (c.note e) :=
  of_takes (fun _ => .note he c) (.refl c) (sameJobs rfl)

theorem now (c : Core) : Keeps Q c c.now.2 :=
  of_takes (fun hP => (closed_takes Q).now hP) (.now c) (sameJobs (Still.now c).live)

theorem sendCompletion_rest (c : Core) (token : Nat) (msg : Outbound) :
    Spends c (c.sendCompletion token msg) ∧ (c.sendCompletion token msg).queue = c.queue ∧
      (c.sendCompletion token msg).live = c.live ∧ (c.sendCompletion token msg).seen = c.seen := by
  have hsend : ∀ (c : Core) (msg : Outbound), Spends c (c.send token msg).2 ∧
      (c.send token msg).2.queue = c.queue ∧ (c.send token msg).2.live = c.live ∧
        (c.send token msg).2.seen = c.seen := fun c msg => ⟨Spends.popSend c, rfl, rfl, rfl⟩
  unfold Core.sendCompletion
  split
  · obtain ⟨hs, hq, hl, hseen⟩ := hsend c msg
    obtain ⟨hs', hq', hl', hseen'⟩ := hsend (c.send token msg).2 (minimalCompletion msg)
    exact ⟨hs.trans hs', hq'.trans hq, hl'.trans hl, hseen'.trans hseen⟩
  · exact hsend c msg

/-- A job with a link is finished: its release and its final message. -/
theorem finishJob_log (c : Core) (job : CallJob) (result : RunResult) (tainted failed : Bool)
    (hlink : job.link = true) :
    ∃ noted, (c.finishJob job result tainted failed).log = noted ++ c.log ∧
      releasedTokens noted = [job.token] ∧ Answered noted := by
  obtain ⟨attempts, hlog, hattempts⟩ := sendCompletion_log
    (((c.note (.concluded job.token result)).note (.finished job.token)).note
      (.released job.token tainted)) job.token (completionMessage_final result failed)
  refine ⟨attempts ++ [.released job.token tainted] ++
    [.finished job.token, .concluded job.token result], ?_, ?_, ?_⟩
  · unfold Core.finishJob
    rw [if_pos hlink]
    dsimp only
    rw [hlog]
    simp [Core.note]
  · rw [releasedTokens_append, releasedTokens_append, hattempts.released]
    rfl
  · exact (hattempts.answered tainted).append (answered_of_isEnding (by simp [Event.isEnding]))

theorem finishJob (c : Core) (job : CallJob) (result : RunResult) (tainted failed : Bool)
    (hlink : job.link = true) : Keeps Q c (c.finishJob job result tainted failed) := by
  intro hP
  obtain ⟨noted, hlog, -, hnoted⟩ := finishJob_log c job result tainted failed hlink
  have hrest : Spends c (c.finishJob job result tainted failed) ∧
      (c.finishJob job result tainted failed).queue = c.queue ∧
      (c.finishJob job result tainted failed).live = c.live ∧
      (c.finishJob job result tainted failed).seen = c.seen := by
    unfold Core.finishJob
    rw [if_pos hlink]
    exact sendCompletion_rest (((c.note (.concluded job.token result)).note
      (.finished job.token)).note (.released job.token tainted)) job.token
      (completionMessage result failed)
  obtain ⟨hspends, hqueue, hlive, hseen⟩ := hrest
  refine ⟨hspends, ⟨noted, hlog.symm⟩, fun hc => ⟨?_, ?_, ?_, ?_⟩⟩
  · rw [hqueue]
    exact hc.queue
  · rw [hlive]
    exact hc.live
  · rw [hseen]
    exact hc.seen
  · rw [hlog]
    exact hnoted.append hc.answered

end Core.Keeps

/-- Turn code keeps within `Q`. -/
theorem Turn.takes_handle {Q : RunEvent → Prop} (γ : Type) (o : Op γ) (t : Turn)
    (ho : Op.Flagged γ o) (hP : t.script.Passes (Passing.Brings Q)) :
    Core.Takes Q t.toCore (Turn.handle γ o t).2.toCore := by
  refine core_handle_flagged (Core.closed_takes Q) (fun _ => .of_eq rfl rfl rfl)
    (fun _ => .of_eq rfl rfl rfl) ?_ γ o t ho hP
  intro c token exports flags hflags
  exact .send c token (beq_eq_false_iff_ne.mpr hflags)

theorem Core.Keeps.runTurn {Q : RunEvent → Prop} {α : Type} (c : Core) (l : LiveRun)
    {p : TurnM α} (hp : p.Uses Op.Flagged) : Keeps Q c (c.runTurn l p).2.toCore := by
  have hrel : c.script.Passes (Passing.Brings Q) →
      Takes Q c (c.runTurn l p).2.toCore ∧ Spends c (c.runTurn l p).2.toCore := by
    refine hp.run_rel (R := fun t t' : Turn => t.script.Passes (Passing.Brings Q) →
      Takes Q t.toCore t'.toCore ∧ Spends t.toCore t'.toCore) ?_ ?_ ?_
      { toCore := c, owner := l }
    · exact fun t _ => ⟨.refl _, .refl _⟩
    · intro t t' t'' h h' hP
      obtain ⟨htakes, hspends⟩ := h hP
      obtain ⟨htakes', hspends'⟩ := h' (hP.rest hspends)
      exact ⟨htakes.trans htakes', hspends.trans hspends'⟩
    · exact fun γ o t ho hP => ⟨Turn.takes_handle γ o t ho hP, Turn.spends_handle γ o t⟩
  intro hP
  refine of_takes (fun hP => (hrel hP).1) (hrel hP).2 ?_ hP
  intro l' hl'
  obtain ⟨i, hi, rfl⟩ := List.getElem_of_mem hl'
  have hframe := (Core.runTurn_frame c l p).live
  have hlen := hframe.length_eq
  exact ⟨c.live[i], List.getElem_mem _, (hframe.get (by omega) hi).job⟩

/-- What the loop does around turn code keeps within `Q`, when the jobs it finishes have a link. -/
theorem Core.Keeps.serving (Q : RunEvent → Prop) :
    Serving (fun j => Q (.job j) ∧ j.link = true) (Keeps Q) where
  trans := .trans
  quiet := fun _ hqueue hseen hlive hlog hscript =>
    of_takes (fun _ => .of_eq hqueue hseen hlog) (Script.Rest.of_eq hscript) (sameJobs hlive)
  now := .now
  isTerminating := fun c =>
    of_takes (fun _ => (closed_takes Q).isTerminating c) (closed_spends.isTerminating c)
      (sameJobs rfl)
  runTurn := fun c l _ hp => .runTurn c l hp
  noteTurn := fun c _ => .note rfl c
  noteTaint := fun c _ => .note rfl c
  takeRun := fun c token => of_takes (fun _ => .of_eq rfl rfl rfl) (.refl c)
    fun l' hl' => ⟨l', List.mem_of_mem_eraseP hl', rfl⟩
  park := by
    intro c l hl _
    refine ⟨.refl c, List.suffix_refl _, fun hc => { hc with live := ?_ }⟩
    intro l' hl'
    obtain hl' | hl' := List.mem_append.mp hl'
    · exact hc.live l' hl'
    · rw [List.mem_singleton.mp hl']
      exact hl.1
  finishJob := fun c job result tainted failed hj => .finishJob c job result tainted failed hj.2

/-! ### Jobs in hand -/

def After.jobs : After → List CallJob
  | .dispatch j => [j]
  | _ => []

def TurnKind.jobs : TurnKind → List CallJob
  | .swept _ next => next.jobs
  | _ => []

/-- The jobs in the hands of the owner thread. -/
def Pc.jobs : Pc → List CallJob
  | .create j => [j]
  | .sweep _ next => next.jobs
  | .dispatch j => [j]
  | .turned kind l _ => l.job :: kind.jobs
  | _ => []

/-- Where no run is live. -/
def Pc.liveless : Pc → Bool
  | .boot => true
  | .create _ => true
  | .broken _ => true
  | .drain => true
  | .exiting => true
  | .gone => true
  | _ => false

theorem After.jobs_pc (next : After) : next.pc.jobs = next.jobs := by
  cases next with
  | top => rfl
  | dispatch j => rfl
  | deliver token msg stamp => rfl

theorem TurnKind.jobs_resume (kind : TurnKind) : (Inst.TurnKind.resume kind).jobs = kind.jobs := by
  cases kind with
  | start => rfl
  | event queued => rfl
  | swept cutoff next => rfl

namespace Inst

variable {Q : RunEvent → Prop} {s s' s'' : Inst}

/-- Everything the instance has came through the channel. -/
structure Holds (Q : RunEvent → Prop) (s : Inst) : Prop where
  core : s.toCore.Holds Q
  hand : ∀ j ∈ s.pc.jobs, Q (.job j)
  retired : s.retired = true → Q .retire

theorem Holds.mono {Q' : RunEvent → Prop} (h : s.Holds Q) (hQ : ∀ e, Q e → Q' e) : s.Holds Q' :=
  ⟨h.core.mono hQ, fun j hj => hQ _ (h.hand j hj), fun hr => hQ _ (h.retired hr)⟩

/-- One part of a step. -/
structure Kept (Q : RunEvent → Prop) (s s' : Inst) : Prop where
  holds : s'.Holds Q
  log : s.log <:+ s'.log
  passes : s'.script.Passes (Passing.Brings Q)

theorem Kept.trans (h : Kept Q s s') (h' : Kept Q s' s'') : Kept Q s s'' :=
  ⟨h'.holds, h.log.trans h'.log, h'.passes⟩

theorem Holds.keeps (h : s.Holds Q) (hP : s.script.Passes (Passing.Brings Q))
    (hk : Core.Keeps Q s.toCore s'.toCore) (hhand : ∀ j ∈ s'.pc.jobs, Q (.job j))
    (hretired : s'.retired = true → Q .retire) : Kept Q s s' := by
  obtain ⟨hspends, hlog, hholds⟩ := hk hP
  exact ⟨⟨hholds h.core, hhand, hretired⟩, hlog, hP.rest hspends⟩

/-- A reading of the clock. -/
theorem Holds.now (h : s.Holds Q) (hP : s.script.Passes (Passing.Brings Q)) :
    Kept Q s (s.withCore s.now.2) := h.keeps hP (.now _) h.hand h.retired

/-- Messages leave the channel. -/
theorem keeps_rest {c : Core} {rest : List RoutedEvent} (hrest : rest ⊆ c.queue) :
    Core.Keeps Q c { c with queue := rest } :=
  fun _ => ⟨.refl _, List.suffix_refl _,
    fun hc => { hc with queue := fun e he => hc.queue e (hrest he) }⟩

theorem Holds.rest (h : s.Holds Q) (hP : s.script.Passes (Passing.Brings Q)) {e : RoutedEvent}
    {rest : List RoutedEvent} (hq : s.queue = e :: rest) :
    Kept Q s (s.withCore { s.toCore with queue := rest }) :=
  h.keeps hP (keeps_rest (hq ▸ List.subset_cons_self _ _)) h.hand h.retired

theorem Holds.head (h : s.Holds Q) {e : RoutedEvent} {rest : List RoutedEvent}
    (hq : s.queue = e :: rest) : Q e.event := h.core.queue e (hq ▸ List.mem_cons_self)

/-- The channel is dropped. -/
theorem Holds.exit (h : s.Holds Q) (hP : s.script.Passes (Passing.Brings Q)) : Kept Q s s.exit :=
  h.keeps hP (keeps_rest (List.nil_subset _)) (fun _ hj => absurd hj List.not_mem_nil) h.retired

/-- The thread goes on elsewhere with the same core. -/
theorem Holds.goto (h : s.Holds Q) (hP : s.script.Passes (Passing.Brings Q)) {pc : Pc}
    (hhand : ∀ j ∈ pc.jobs, Q (.job j)) : Kept Q s (s.goto pc) :=
  h.keeps hP ((Core.Keeps.serving Q).refl _) hhand h.retired

/-! ### Each step -/

theorem bootStep_kept (h : s.Holds Q) (hP : s.script.Passes (Passing.Brings Q)) :
    Kept Q s s.bootStep := by
  have hnow := h.now hP
  unfold bootStep
  dsimp only
  split
  · split
    · exact hnow.trans (hnow.holds.exit hnow.passes)
    · exact hnow
  · next e rest hq =>
    have he := hnow.holds.head hq
    have hrest := hnow.trans (hnow.holds.rest hnow.passes hq)
    split
    · next j hj =>
      refine hrest.trans (hrest.holds.goto hrest.passes ?_)
      intro j' hj'
      obtain rfl := List.mem_singleton.mp hj'
      exact hj ▸ he
    · exact hrest.trans (hrest.holds.exit hrest.passes)
    · exact hrest

/-- The first live run is taken out. -/
theorem Holds.restLive (h : s.Holds Q) (hP : s.script.Passes (Passing.Brings Q)) {l : LiveRun}
    {rest : List LiveRun} (hl : s.live = l :: rest) :
    Kept Q s (s.withCore { s.toCore with live := rest }) ∧ Q (.job l.job) := by
  refine ⟨h.keeps hP ?_ h.hand h.retired, h.core.live l (hl ▸ List.mem_cons_self)⟩
  refine fun _ => ⟨.refl _, List.suffix_refl _, fun hc => { hc with live := ?_ }⟩
  exact fun l' hl' => hc.live l' (hl ▸ List.mem_cons_of_mem _ hl')

theorem waitStep_kept (h : s.Holds Q)
    (hP : s.script.Passes (Passing.Brings Q)) : Kept Q s s.waitStep := by
  unfold waitStep
  dsimp only
  split
  · exact h.goto hP fun _ hj => absurd hj List.not_mem_nil
  · have hpeek : s.peekValidDeadline.2.Holds Q := ⟨h.core, h.hand, h.retired⟩
    have hread : Kept Q s (s.peekValidDeadline.2.withCore
        s.peekValidDeadline.2.now.2.now.2) :=
      Holds.keeps (s := s) h hP
        ((Core.Keeps.now s.toCore).trans (Core.Keeps.now s.toCore.now.2)) h.hand h.retired
    generalize s.peekValidDeadline.2.withCore s.peekValidDeadline.2.now.2.now.2 = u at hread
    have hnone : ∀ {pc : Pc}, pc.jobs = [] → ∀ j ∈ pc.jobs, Q (.job j) := by
      intro pc hjobs j hj
      rw [hjobs] at hj
      exact absurd hj List.not_mem_nil
    unfold wake
    split
    · next e rest hq =>
      have he := hread.holds.head hq
      have hrest := hread.trans (hread.holds.rest hread.passes hq)
      unfold receive
      split
      · next hretire =>
        refine hrest.trans (hrest.holds.keeps hrest.passes ((Core.Keeps.serving Q).refl _)
          hrest.holds.hand fun _ => ?_)
        exact hretire ▸ he
      · next j hj =>
        refine hrest.trans (hrest.holds.goto hrest.passes ?_)
        intro j' hj'
        obtain rfl := List.mem_singleton.mp hj'
        exact hj ▸ he
      · exact hrest.trans (hrest.holds.goto hrest.passes (hnone rfl))
    · split
      · exact hread.trans (hread.holds.goto hread.passes (hnone rfl))
      · split
        · exact hread
        · split
          · have hnow := hread.trans (hread.holds.now hread.passes)
            exact hnow.trans (hnow.holds.goto hnow.passes (hnone rfl))
          · exact hread

/-- A run is taken out for a deadline. -/
theorem keeps_actOn (s : Inst) (l : LiveRun) (w due : Nat) :
    Core.Keeps Q s.toCore (s.actOn l w due).2.toCore :=
  (Core.Keeps.note rfl _).trans
    ((Core.Keeps.serving Q).beginTurn (s.withCore (s.note (.acted l.token due))) l w)

theorem sweepTurn_kept {cutoff due : Nat} {next : After} {l : LiveRun} {p : TurnM ScanOutcome}
    (hp : p.Uses Op.Flagged) (h : s.Holds Q) (hpc : s.pc = .sweep cutoff next) (hl : Q (.job l.job))
    (hP : s.script.Passes (Passing.Brings Q)) : Kept Q s (s.sweepTurn cutoff next due l p) := by
  refine h.keeps hP ((keeps_actOn s l due due).trans
    ((Core.Keeps.serving Q).takeTurn hp _ _ _)) ?_ h.retired
  intro j hj
  obtain rfl | hj := List.mem_cons.mp hj
  · change Q (.job (((s.actOn l due due).2.withCore _).runFor (s.actOn l due due).1 p).2.1.job)
    rw [runFor_job]
    exact (beginTurn_job _ l due).symm ▸ hl
  · refine h.hand j ?_
    rw [hpc]
    exact hj

theorem dispatchJob_kept {j : CallJob} (h : s.Holds Q) (hpc : s.pc = .dispatch j)
    (hP : s.script.Passes (Passing.Brings Q)) : Kept Q s (s.dispatchJob j) := by
  refine h.keeps hP ((Core.Keeps.serving Q).dispatchJob s j) ?_ h.retired
  -- the new run has the job that was in hand
  intro j' hj'
  obtain rfl := List.mem_singleton.mp hj'
  refine h.hand _ ?_
  rw [hpc]
  change LiveRun.job (LiveRun.leaveTurn _ _) ∈ [j]
  rw [LiveRun.job_leaveTurn]
  change
    (((s.beginStart j).2.withCore _).runFor (s.beginStart j).1 placeholdersThenCall).2.1.job ∈ _
  rw [runFor_job]
  exact List.mem_singleton.mpr rfl

theorem deliverEvent_kept {token stamp : Nat} {msg : Inbound} (h : s.Holds Q)
    (hP : s.script.Passes (Passing.Brings Q)) : Kept Q s (s.deliverEvent token msg stamp) := by
  unfold deliverEvent
  split
  · exact h.goto hP fun _ hj => absurd hj List.not_mem_nil
  · next l hfind =>
    have hl : Q (.job l.job) := h.core.live l (List.mem_of_find?_eq_some hfind)
    refine h.keeps hP ((Core.Keeps.note rfl _).trans ((Core.Keeps.serving Q).beginThenTake
      (TurnM.formed_handleLoopEvent TurnM.formed_flagged msg)
      (s.withCore (s.note (.delivered token stamp l.nextDeadline))) _ l stamp)) ?_ h.retired
    intro j hj
    obtain rfl := List.mem_singleton.mp hj
    change Q (.job (Inst.runFor _ (beginTurn _ l stamp).1 _).2.1.job)
    rw [runFor_job, beginTurn_job]
    exact hl

variable (hlink : ∀ j, Q (.job j) → j.link = true)

include hlink

/-- A job the instance has is finished. -/
theorem Holds.finish (h : s.Holds Q) (hP : s.script.Passes (Passing.Brings Q)) {j : CallJob}
    (hj : Q (.job j)) (result : RunResult) (tainted failed : Bool) :
    Kept Q s (s.withCore (s.finishJob j result tainted failed)) :=
  h.keeps hP (.finishJob _ _ _ _ _ (hlink j hj)) h.hand h.retired

theorem createStep_kept {j : CallJob} (h : s.Holds Q) (hpc : s.pc = .create j)
    (hP : s.script.Passes (Passing.Brings Q)) : Kept Q s (s.createStep j) := by
  have hj : Q (.job j) := h.hand j (by rw [hpc]; exact List.mem_cons_self)
  unfold createStep
  split
  · refine h.goto hP ?_
    intro j' hj'
    rwa [List.mem_singleton.mp hj']
  · next e _ =>
    have hfinished := h.finish hlink hP hj (.error e) true (prefixFailed e)
    exact hfinished.trans
      (hfinished.holds.goto hfinished.passes fun _ hj' => absurd hj' List.not_mem_nil)

theorem brokenStep_kept {e : RunError} (h : s.Holds Q)
    (hP : s.script.Passes (Passing.Brings Q)) : Kept Q s (s.brokenStep e) := by
  have hnow := h.now hP
  unfold brokenStep
  dsimp only
  split
  · split
    · exact hnow.trans (hnow.holds.exit hnow.passes)
    · exact hnow
  · next m rest hq =>
    have hm := hnow.holds.head hq
    have hrest := hnow.trans (hnow.holds.rest hnow.passes hq)
    split
    · next j hj =>
      exact hrest.trans (hrest.holds.finish hlink hrest.passes (hj ▸ hm) _ _ _)
    · exact hrest

theorem drainStep_kept (h : s.Holds Q) (hP : s.script.Passes (Passing.Brings Q)) :
    Kept Q s s.drainStep := by
  unfold drainStep
  split
  · exact h.goto hP fun _ hj => absurd hj List.not_mem_nil
  · next m rest hq =>
    have hm := h.head hq
    have hrest := h.rest hP hq
    dsimp only
    split
    · next j hj =>
      exact hrest.trans (hrest.holds.finish hlink hrest.passes (hj ▸ hm) _ _ _)
    · exact hrest

theorem taintStep_kept (h : s.Holds Q) (hP : s.script.Passes (Passing.Brings Q)) :
    Kept Q s s.taintStep := by
  unfold taintStep
  split
  · exact h.goto hP fun _ hj => absurd hj List.not_mem_nil
  · next l rest hl =>
    obtain ⟨hrest, hj⟩ := h.restLive hP hl
    refine hrest.trans (hrest.holds.keeps hrest.passes ?_ h.hand h.retired)
    exact (Core.Keeps.serving Q).concludeRun _ _ _ _ ⟨hj, hlink _ hj⟩

theorem closeStep_kept (h : s.Holds Q) (hP : s.script.Passes (Passing.Brings Q)) :
    Kept Q s s.closeStep := by
  unfold closeStep
  split
  · exact h.goto hP fun _ hj => absurd hj List.not_mem_nil
  · next l rest hl =>
    obtain ⟨hrest, hj⟩ := h.restLive hP hl
    refine hrest.trans (hrest.holds.keeps hrest.passes ?_ h.hand h.retired)
    refine (Core.Keeps.serving Q).trans ((Core.Keeps.serving Q).runFor
      (TurnM.quiet_boundaryClose.mono fun _ _ => Op.Quiet.flagged) _ _)
      ((Core.Keeps.serving Q).concludeRun _ _ _ _ ?_)
    rw [runFor_job]
    exact ⟨hj, hlink _ hj⟩

theorem sweepPass_kept {cutoff : Nat} {next : After} (h : s.Holds Q)
    (hpc : s.pc = .sweep cutoff next) (hP : s.script.Passes (Passing.Brings Q)) :
    Kept Q s (s.sweepPass cutoff next) := by
  have hnext : ∀ j ∈ next.pc.jobs, Q (.job j) := by
    intro j hj
    refine h.hand j ?_
    rw [hpc]
    rwa [After.jobs_pc] at hj
  have hdone : Kept Q s (s.peekValidDeadline.2.goto next.pc) :=
    h.keeps hP ((Core.Keeps.serving Q).refl _) hnext h.retired
  unfold sweepPass
  dsimp only
  split
  · exact hdone
  · split
    · exact hdone
    · next k _ _ =>
      generalize hpopped : { s.peekValidDeadline.2 with
        deadlines := s.peekValidDeadline.2.deadlines.pop } = u
      have hu : Kept Q s u := by
        rw [← hpopped]
        exact h.keeps hP ((Core.Keeps.serving Q).refl _) h.hand h.retired
      have hpcu : u.pc = .sweep cutoff next := by
        rw [← hpopped]
        exact hpc
      split
      · exact hu
      · next l hfind =>
        have hl : Q (.job l.job) := h.core.live l (List.mem_of_find?_eq_some hfind)
        have hjob : Q (.job l.job) ∧ l.job.link = true := ⟨hl, hlink _ hl⟩
        refine hu.trans ?_
        unfold sweepRun
        split
        · exact sweepTurn_kept (TurnM.formed_timerTurn TurnM.formed_flagged) hu.holds hpcu hl
            hu.passes
        · split
          · have hnow := hu.holds.now hu.passes
            unfold sweepGrace
            dsimp only
            split
            · exact hnow.trans (sweepTurn_kept (TurnM.formed_streamIdleTurn TurnM.formed_flagged)
                hnow.holds hpcu hl hnow.passes)
            · split
              · next d _ =>
                refine hnow.trans (hnow.holds.keeps hnow.passes ?_ ?_ ?_)
                · exact (keeps_actOn _ l _ d).trans
                    ((Core.Keeps.serving Q).sweepWall _ _ d l hjob)
                · rw [sweepWall_pc]
                  exact hnow.holds.hand
                · rw [sweepWall_retired]
                  exact hnow.holds.retired
              · refine hnow.trans (hnow.holds.keeps hnow.passes ?_ ?_ ?_)
                · rw [queueDeadline_toCore]
                  exact (Core.Keeps.serving Q).refl _
                · rw [queueDeadline_pc]
                  exact hnow.holds.hand
                · rw [queueDeadline_retired]
                  exact hnow.holds.retired
          · refine hu.holds.keeps hu.passes ?_ hu.holds.hand hu.holds.retired
            exact (keeps_actOn u l _ _).trans
              ((Core.Keeps.serving Q).sweepBoundary u _ l hjob)

theorem concludeTurn_kept {kind : TurnKind} {l : LiveRun} {o : ScanOutcome} (h : s.Holds Q)
    (hpc : s.pc = .turned kind l o) (hP : s.script.Passes (Passing.Brings Q)) :
    Kept Q s (s.concludeTurn kind l o) := by
  have hjobs : s.pc.jobs = l.job :: kind.jobs := by
    rw [hpc]
    rfl
  have hl : Q (.job l.job) := h.hand _ (by rw [hjobs]; exact List.mem_cons_self)
  refine h.keeps hP ((Core.Keeps.serving Q).concludeTurn s kind l o ⟨hl, hlink _ hl⟩) ?_ ?_
  · intro j hj
    refine h.hand j ?_
    rw [hjobs]
    refine List.mem_cons_of_mem _ ?_
    -- a taint leaves the loop with nothing in hand
    unfold concludeTurn at hj
    split at hj
    · exact absurd hj List.not_mem_nil
    · change j ∈ (TurnKind.resume kind).jobs at hj
      rwa [TurnKind.jobs_resume] at hj
  · rw [concludeTurn_retired]
    exact h.retired

theorem advance_kept (h : s.Holds Q) (hP : s.script.Passes (Passing.Brings Q)) :
    Kept Q s s.advance := by
  unfold advance
  split
  · exact bootStep_kept h hP
  · next hpc => exact createStep_kept hlink h hpc hP
  · exact brokenStep_kept hlink h hP
  · exact waitStep_kept h hP
  · next hpc => exact sweepPass_kept hlink h hpc hP
  · next hpc => exact dispatchJob_kept h hpc hP
  · exact deliverEvent_kept h hP
  · next hpc => exact concludeTurn_kept hlink h hpc hP
  · exact closeStep_kept hlink h hP
  · exact taintStep_kept hlink h hP
  · have hnow := h.now hP
    exact hnow.trans (drainStep_kept hlink hnow.holds hnow.passes)
  · have hnow := h.now hP
    exact hnow.trans (hnow.holds.exit hnow.passes)
  · exact ⟨h, List.suffix_refl _, hP⟩

/-- A step takes in only what comes through the channel, and answers what it releases. -/
theorem step_holds {script : Script} (h : s.Holds Q) (hP : script.Passes (Passing.Brings Q)) :
    (s.step script).Holds Q ∧ s.log <:+ (s.step script).log := by
  have hload : (s.load script).Holds Q :=
    ⟨⟨h.core.queue, h.core.live, h.core.seen, h.core.answered⟩, h.hand, h.retired⟩
  have hkept := advance_kept hlink hload hP
  exact ⟨hkept.holds, hkept.log⟩

/-! ### Dropped jobs -/

omit hlink

theorem Conserved.seen_of_released (h : Conserved s) {token : Nat}
    (ht : token ∈ releasedTokens s.log) : token ∈ s.seen := by
  have hmem : token ∈ (s.seen : Multiset ℕ) := by
    rw [← h.places, Multiset.mem_add, Multiset.mem_add, Core.tokens, Multiset.mem_add]
    exact Or.inl (Or.inr (Or.inr (Multiset.mem_coe.mpr ht)))
  exact Multiset.mem_coe.mp hmem

theorem Conserved.seen_of_lost (h : Conserved s) {token : Nat} (ht : token ∈ s.lost) :
    token ∈ s.seen := by
  have hmem : token ∈ (s.seen : Multiset ℕ) := by
    rw [← h.places, Multiset.mem_add]
    exact Or.inr (Multiset.mem_coe.mpr ht)
  exact Multiset.mem_coe.mp hmem

/-- A job is finished once. -/
theorem Conserved.released_nodup (h : Conserved s) : (releasedTokens s.log).Nodup := by
  have hplaces := Multiset.nodup_add.mp h.places_nodup
  have htokens := (Multiset.nodup_add.mp hplaces.1).2.1
  exact Multiset.coe_nodup.mp (Multiset.nodup_add.mp htokens).2.1

/-- A dropped job is not finished. -/
theorem Conserved.not_released_of_lost (h : Conserved s) {token : Nat} (ht : token ∈ s.lost) :
    token ∉ releasedTokens s.log := by
  intro hreleased
  have hplaces := Multiset.nodup_add.mp h.places_nodup
  refine Multiset.disjoint_left.mp hplaces.2.2 ?_ (Multiset.mem_coe.mpr ht)
  rw [Multiset.mem_add, Core.tokens, Multiset.mem_add]
  exact Or.inr (Or.inr (Multiset.mem_coe.mpr hreleased))

/-- The next step drops no job: none is in the hands of the loop when a turn leaves the instance
tainted, and none is in the channel when the receiver is dropped after the loop. -/
def DropsNone (s : Inst) : Prop :=
  match s.pc with
  | .turned kind _ _ => TurnKind.heldJob kind = [] ∨ s.instanceTainted.1 = false
  | .exiting => jobTokens s.now.2.queue = []
  | _ => True

instance decidableDropsNone (s : Inst) : Decidable s.DropsNone := by
  unfold DropsNone
  split <;> infer_instance

theorem now_hungUp (c : Core) : c.now.2.script.hungUp = c.script.hungUp := by
  have hscript := Core.Spends.passAll_script c.popClock (c.script.clocks.head?.getD [])
  rw [show c.now.2.script = c.popClock.script from hscript]
  rfl

theorem bootStep_lost (h : s.Holds Q) (hP : s.script.Passes (Passing.Brings Q))
    (hretire : ¬ Q .retire) (hhung : s.script.hungUp = false) : s.bootStep.lost = s.lost := by
  have hnow := h.now hP
  have hhung' : (s.withCore s.now.2).script.hungUp = false := (now_hungUp s.toCore).trans hhung
  unfold bootStep
  dsimp only
  split
  · rw [if_neg (by rw [hhung']; exact Bool.false_ne_true)]
    rfl
  · next e rest hq =>
    split
    · rfl
    · -- an instance that serves nobody exits on `Retire`
      next hevent => exact absurd (hevent ▸ hnow.holds.head hq) hretire
    · rfl

theorem brokenStep_lost {e : RunError} (hhung : s.script.hungUp = false) :
    (s.brokenStep e).lost = s.lost := by
  have hhung' : (s.withCore s.now.2).script.hungUp = false := (now_hungUp s.toCore).trans hhung
  unfold brokenStep
  dsimp only
  split
  · rw [if_neg (by rw [hhung']; exact Bool.false_ne_true)]
    rfl
  · split <;> rfl

theorem waitStep_lost (s : Inst) : s.waitStep.lost = s.lost := by
  unfold waitStep
  dsimp only
  split
  · rfl
  · unfold wake receive
    split
    · split <;> rfl
    · split
      · rfl
      · split
        · rfl
        · split <;> rfl

theorem sweepPass_lost (s : Inst) (cutoff : Nat) (next : After) :
    (s.sweepPass cutoff next).lost = s.lost := by
  unfold sweepPass
  dsimp only
  split
  · rfl
  · split
    · rfl
    · split
      · rfl
      · unfold sweepRun
        split
        · rfl
        · split
          · unfold sweepGrace
            dsimp only
            split
            · rfl
            · split
              · exact sweepWall_lost _ _ _ _
              · exact queueDeadline_lost _ _
          · rfl

/-- A turn that leaves the instance untainted, or no job in hand, drops none. -/
theorem concludeTurn_lost_eq {kind : TurnKind} (s : Inst) (l : LiveRun) (o : ScanOutcome)
    (h : TurnKind.heldJob kind = [] ∨ s.instanceTainted.1 = false) :
    (s.concludeTurn kind l o).lost = s.lost := by
  unfold concludeTurn
  split
  · next htainted =>
    obtain hheld | huntainted := h
    · change (drainTouchedTimers _).lost ++ TurnKind.heldJob kind = s.lost
      rw [drainTouchedTimers_lost, settleOwner_lost, hheld, List.append_nil]
      rfl
    · rw [huntainted] at htainted
      cases htainted
  · change (drainTouchedTimers _).lost = s.lost
    rw [drainTouchedTimers_lost, settleOwner_lost]
    rfl

/-- While the instance is neither retired nor hung up, a step that keeps to `DropsNone` drops no
job. -/
theorem advance_lost (h : s.Holds Q) (hP : s.script.Passes (Passing.Brings Q))
    (hretire : ¬ Q .retire) (hhung : s.script.hungUp = false) (hdrops : s.DropsNone) :
    s.advance.lost = s.lost := by
  unfold DropsNone at hdrops
  unfold advance
  split
  · exact bootStep_lost h hP hretire hhung
  · unfold createStep
    split <;> rfl
  · exact brokenStep_lost hhung
  · exact waitStep_lost s
  · exact sweepPass_lost s _ _
  · rfl
  · unfold deliverEvent
    split <;> rfl
  · next hpc =>
    rw [hpc] at hdrops
    exact concludeTurn_lost_eq s _ _ hdrops
  · unfold closeStep
    split <;> rfl
  · unfold taintStep
    split <;> rfl
  · unfold drainStep
    split
    · rfl
    · dsimp only
      split <;> rfl
  · next hpc =>
    rw [hpc] at hdrops
    change s.lost ++ jobTokens s.now.2.queue = s.lost
    rw [hdrops, List.append_nil]
  · rfl

/-- Dropped jobs stay dropped. -/
theorem lost_prefix_advance (s : Inst) : s.lost <+: s.advance.lost := by
  have hexit : ∀ (c : Core), s.lost <+: (s.withCore c).exit.lost := fun _ => List.prefix_append _ _
  unfold advance
  split
  · unfold bootStep
    dsimp only
    split
    · split
      · exact hexit _
      · exact List.prefix_refl _
    · split
      · exact List.prefix_refl _
      · exact hexit { s.now.2 with queue := _ }
      · exact List.prefix_refl _
  · unfold createStep
    split <;> exact List.prefix_refl _
  · unfold brokenStep
    dsimp only
    split
    · split
      · exact hexit _
      · exact List.prefix_refl _
    · split <;> exact List.prefix_refl _
  · exact (waitStep_lost s).symm ▸ List.prefix_refl _
  · exact (sweepPass_lost s _ _).symm ▸ List.prefix_refl _
  · exact List.prefix_refl _
  · unfold deliverEvent
    split <;> exact List.prefix_refl _
  · unfold concludeTurn
    split
    · change s.lost <+: (drainTouchedTimers _).lost ++ _
      rw [drainTouchedTimers_lost, settleOwner_lost]
      exact List.prefix_append _ _
    · change s.lost <+: (drainTouchedTimers _).lost
      rw [drainTouchedTimers_lost, settleOwner_lost]
      exact List.prefix_refl _
  · unfold closeStep
    split <;> exact List.prefix_refl _
  · unfold taintStep
    split <;> exact List.prefix_refl _
  · unfold drainStep
    split
    · exact List.prefix_refl _
    · dsimp only
      split <;> exact List.prefix_refl _
  · exact hexit _
  · exact List.prefix_refl _

/-- A step that does not keep to `DropsNone` drops a job. -/
theorem dropsNone_of_advance (h : s.advance.lost = []) : s.DropsNone := by
  unfold DropsNone
  unfold advance at h
  split
  · next kind l o hpc =>
    rw [hpc] at h
    change (s.concludeTurn kind l o).lost = [] at h
    unfold concludeTurn at h
    split at h
    · exact Or.inl (List.append_eq_nil_iff.mp h).2
    · next huntainted => exact Or.inr (Bool.eq_false_iff.mpr huntainted)
  · next hpc =>
    rw [hpc] at h
    exact (List.append_eq_nil_iff.mp h).2
  · trivial

/-! ### The end of the thread -/

structure Emptied (s : Inst) : Prop where
  live : s.pc.liveless = true → s.live = []
  queue : s.pc = .gone → s.queue = []

/-- The thread ends with no run live. -/
theorem Emptied.exit (h : s.live = []) : Emptied s.exit := ⟨fun _ => h, fun _ => rfl⟩

/-- Still in service. -/
theorem Emptied.serving (h : s.pc.liveless = false) : Emptied s := by
  refine ⟨?_, ?_⟩
  · intro hpc
    rw [h] at hpc
    cases hpc
  · intro hpc
    rw [hpc] at h
    cases h

/-- Before or after service, with the thread still there. -/
theorem Emptied.idle (h : s.live = []) (hpc : s.pc ≠ .gone) : Emptied s :=
  ⟨fun _ => h, fun hgone => absurd hgone hpc⟩

theorem now_live (s : Inst) : (s.withCore s.now.2).live = s.live := (Core.Still.now s.toCore).live

theorem bootStep_emptied (hpc : s.pc = .boot) (h : s.live = []) : Emptied s.bootStep := by
  have hnow : (s.withCore s.now.2).live = [] := (now_live s).trans h
  have hboot : s.pc ≠ .gone := by
    rw [hpc]
    exact Pc.noConfusion
  unfold bootStep
  dsimp only
  split
  · split
    · exact .exit hnow
    · exact .idle hnow hboot
  · split
    · exact .idle hnow Pc.noConfusion
    · exact .exit hnow
    · exact .idle hnow hboot

theorem brokenStep_emptied {e : RunError} (hpc : s.pc = .broken e) (h : s.live = []) :
    Emptied (s.brokenStep e) := by
  have hnow : (s.withCore s.now.2).live = [] := (now_live s).trans h
  have hbroken : s.pc ≠ .gone := by
    rw [hpc]
    exact Pc.noConfusion
  unfold brokenStep
  dsimp only
  split
  · split
    · exact .exit hnow
    · exact .idle hnow hbroken
  · split
    · refine .idle ?_ hbroken
      exact (Core.Still.finishJob _ _ _ _ _).live.trans hnow
    · exact .idle hnow hbroken

theorem drainStep_emptied (hpc : s.pc = .drain) (h : s.live = []) : Emptied s.drainStep := by
  have hdrain : s.pc ≠ .gone := by
    rw [hpc]
    exact Pc.noConfusion
  unfold drainStep
  split
  · exact .idle h Pc.noConfusion
  · dsimp only
    split
    · exact .idle ((Core.Still.finishJob _ _ _ _ _).live.trans h) hdrain
    · exact .idle h hdrain

theorem waitStep_emptied (hpc : s.pc = .wait) : Emptied s.waitStep := by
  have hwait : s.pc.liveless = false := by
    rw [hpc]
    rfl
  unfold waitStep
  dsimp only
  split
  · next hend =>
    rw [Bool.and_eq_true, List.isEmpty_iff] at hend
    exact .idle hend.1 Pc.noConfusion
  · unfold wake receive
    split
    · split
      · exact .serving hwait
      · exact .serving rfl
      · exact .serving rfl
    · split
      · exact .serving rfl
      · split
        · exact .serving hwait
        · split
          · exact .serving rfl
          · exact .serving hwait

theorem sweepPass_emptied {cutoff : Nat} {next : After} (hpc : s.pc = .sweep cutoff next) :
    Emptied (s.sweepPass cutoff next) := by
  have hsweep : s.pc.liveless = false := by
    rw [hpc]
    rfl
  have hnext : next.pc.liveless = false := by
    cases next with
    | top => rfl
    | dispatch j => rfl
    | deliver token msg stamp => rfl
  refine .serving ?_
  unfold sweepPass
  dsimp only
  split
  · exact hnext
  · split
    · exact hnext
    · split
      · exact hsweep
      · unfold sweepRun
        split
        · rfl
        · split
          · unfold sweepGrace
            dsimp only
            split
            · rfl
            · split
              · rw [sweepWall_pc]
                exact hsweep
              · rw [queueDeadline_pc]
                exact hsweep
          · exact hsweep

theorem concludeTurn_emptied {kind : TurnKind} (s : Inst) (l : LiveRun) (o : ScanOutcome) :
    Emptied (s.concludeTurn kind l o) := by
  refine .serving ?_
  unfold concludeTurn
  split
  · rfl
  · change (TurnKind.resume kind).liveless = false
    cases kind with
    | start => rfl
    | event queued => rfl
    | swept cutoff next => rfl

theorem advance_emptied (h : Emptied s) : Emptied s.advance := by
  have hlive := h.live
  unfold advance
  split
  · next hpc => exact bootStep_emptied hpc (hlive (by rw [hpc]; rfl))
  · next hpc =>
    have hempty := hlive (by rw [hpc]; rfl)
    unfold createStep
    split
    · exact .serving rfl
    · exact .idle ((Core.Still.finishJob _ _ _ _ _).live.trans hempty) Pc.noConfusion
  · next hpc => exact brokenStep_emptied hpc (hlive (by rw [hpc]; rfl))
  · next hpc => exact waitStep_emptied hpc
  · next hpc => exact sweepPass_emptied hpc
  · exact .serving rfl
  · unfold deliverEvent
    split <;> exact .serving rfl
  · exact concludeTurn_emptied s _ _
  · next hpc =>
    unfold closeStep
    split
    · next hnil => exact .idle hnil Pc.noConfusion
    · refine .serving ?_
      change s.pc.liveless = false
      rw [hpc]
      rfl
  · next hpc =>
    unfold taintStep
    split
    · next hnil => exact .idle hnil Pc.noConfusion
    · refine .serving ?_
      change s.pc.liveless = false
      rw [hpc]
      rfl
  · next hpc =>
    refine drainStep_emptied (s := s.withCore s.now.2) hpc ?_
    exact (now_live s).trans (hlive (by rw [hpc]; rfl))
  · next hpc => exact .exit ((now_live s).trans (hlive (by rw [hpc]; rfl)))
  · exact h

end Inst

end Iso4
