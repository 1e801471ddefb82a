/-
How far one `drive_out_streams` call gets (`crates/core/src/v8/streams.rs`).

A drive runs up to 32 rounds.  A round visits every stream: it sends backlog,
concludes a settled pull and starts the next one; then a microtask checkpoint
runs.  The loop ends with a round in which no stream made progress, or at the
cap.

`OutBody.workRounds` reads off a stream and its source in which rounds there
is something to do for it: a pull is picked up in the round after its promise
settled, and starts the next pull while credit lasts.

* `drive_quiet_iff` — a drive leaves every stream done, without credit or
  waiting for its source exactly when one of the rounds 1 to 33 has no work;
* `drive_leaves_settled_pull` — a source of empty chunks stalls at the cap.
-/
import Iso4.OutBodies

namespace Iso4

namespace OutBody

/-- The stream is over, waits for host credit or waits for its source. -/
def Quiet (s : OutBody) : Prop :=
  s.done = true ∨ s.credit = 0 ∨ ∃ p, s.pending = some p ∧ p.delay ≠ some 0

/-! ### The rounds that have work -/

/-- The credit and the link's answers left once `data` went out; `none` when
the stream cannot go on, out of credit or refused by the link. -/
def afford (credit : Nat) (sends : List Bool) (data : List UInt8) : Option (Nat × List Bool) :=
  let s := ({ new [] sends with credit := credit, backlog := data } : OutBody).classify.1
  if s.next = .startPull then some (s.credit, s.sends) else none

/-- The rounds in which the answers of a source are picked up, where its next
pull starts in round `r`. -/
def pickUps : Nat → List Bool → Nat → List PullStart → List Nat
  | _, _, _, [] => []
  | _, _, _, .threw _ :: _ => []
  | credit, sends, r, .returned p :: source =>
    match p.delay with
    | none => []
    | some d =>
      (r + max 1 d) :: match p.result.outcome with
        | .ok (some data) =>
          match afford credit sends data with
          | some (credit, sends) => pickUps credit sends (r + max 1 d) source
          | none => []
        | _ => []

/-- The rounds with work for the stream, `passed` rounds into the call. -/
def workFrom (s : OutBody) (passed : Nat) : List Nat :=
  match s.classify with
  | (s, _, sent, next) =>
    (if sent then [passed + 1] else []) ++ match next with
      | .idle => []
      | .startPull => (passed + 1) :: pickUps s.credit s.sends (passed + 1) s.source
      -- As if its pull had been started in the round before.
      | .awaitPending p =>
        pickUps s.credit s.sends passed
          (.returned { p with delay := p.delay.map (· + 1) } :: s.source)

/-- The rounds of a drive call with work for the stream. -/
def workRounds (s : OutBody) : List Nat := s.workFrom 0

theorem pickUps_gt {source : List PullStart} : ∀ {credit : Nat} {sends : List Bool} {r m : Nat},
    m ∈ pickUps credit sends r source → r < m := by
  induction source with
  | nil => simp [pickUps]
  | cons start source ih =>
    intro credit sends r m hm
    cases start with
    | threw message => simp [pickUps] at hm
    | returned p =>
      unfold pickUps at hm
      split at hm
      · cases hm
      · next d _ =>
        rcases List.mem_cons.mp hm with rfl | hm
        · omega
        · split at hm
          · split at hm
            · have := ih hm
              omega
            · cases hm
          · cases hm

/-! ### What a flush depends on -/

/-- Two streams with the same credit, link answers and backlog. -/
structure SameFlow (s t : OutBody) : Prop where
  credit : s.credit = t.credit
  sends : s.sends = t.sends
  backlog : s.backlog = t.backlog
  backlogSent : s.backlogSent = t.backlogSent
  done : s.done = t.done

theorem SameFlow.flushLoop {s t : OutBody} (fuel : Nat) (h : SameFlow s t) :
    SameFlow (flushLoop fuel s).1 (flushLoop fuel t).1 ∧
      (flushLoop fuel s).2.2 = (flushLoop fuel t).2.2 := by
  induction fuel generalizing s t with
  | zero => exact ⟨h, rfl⟩
  | succ fuel ih =>
    unfold OutBody.flushLoop
    rw [h.credit, h.backlog, h.backlogSent]
    split
    · exact ⟨h, rfl⟩
    · have hlen : s.nextLen = t.nextLen := by
        simp only [nextLen, h.credit, h.backlog, h.backlogSent]
      simp only [send, h.sends, hlen]
      cases t.sends.headD true with
      | true =>
        have hrest : SameFlow
            { s with sends := t.sends.tail
                     backlogSent := s.backlogSent + t.nextLen
                     credit := s.credit - t.nextLen }
            { t with sends := t.sends.tail
                     backlogSent := t.backlogSent + t.nextLen
                     credit := t.credit - t.nextLen } :=
          ⟨by simp [h.credit], rfl, h.backlog, by simp [h.backlogSent], h.done⟩
        exact ⟨(ih hrest).1, rfl⟩
      | false =>
        exact ⟨⟨h.credit, rfl, h.backlog, h.backlogSent, rfl⟩, rfl⟩

theorem SameFlow.compact {s t : OutBody} (h : SameFlow s t) : SameFlow s.compact t.compact := by
  unfold OutBody.compact
  rw [h.backlog, h.backlogSent]
  split
  · exact ⟨h.credit, h.sends, rfl, rfl, h.done⟩
  · exact h

theorem SameFlow.classify {s t : OutBody} (h : SameFlow s t) :
    SameFlow s.classify.1 t.classify.1 := by
  have hflush := h.flushLoop (t.backlog.length - t.backlogSent)
  have hs : s.flush = OutBody.flushLoop (t.backlog.length - t.backlogSent) s := by
    rw [flush, h.backlog, h.backlogSent]
  unfold OutBody.classify
  rw [h.done]
  split
  · exact h
  · dsimp only
    rw [hs, show t.flush = OutBody.flushLoop (t.backlog.length - t.backlogSent) t from rfl, hflush.1.done]
    split
    · exact hflush.1
    · exact hflush.1.compact

/-- A flush leaves the pull and the source alone. -/
theorem flushLoop_rest (fuel : Nat) (s : OutBody) :
    (flushLoop fuel s).1.pending = s.pending ∧ (flushLoop fuel s).1.source = s.source := by
  induction fuel generalizing s with
  | zero => exact ⟨rfl, rfl⟩
  | succ fuel ih =>
    unfold flushLoop
    split
    · exact ⟨rfl, rfl⟩
    · simp only [send]
      cases s.sends.headD true with
      | true => exact ih _
      | false => exact ⟨rfl, rfl⟩

theorem compact_rest (s : OutBody) :
    s.compact.pending = s.pending ∧ s.compact.source = s.source := by
  unfold compact
  split <;> exact ⟨rfl, rfl⟩

theorem classify_rest (s : OutBody) :
    s.classify.1.pending = s.pending ∧ s.classify.1.source = s.source := by
  unfold classify
  split
  · exact ⟨rfl, rfl⟩
  · dsimp only
    split
    · exact flushLoop_rest _ s
    · obtain ⟨hp, hs⟩ := compact_rest s.flush.1
      obtain ⟨hp', hs'⟩ := flushLoop_rest (s.backlog.length - s.backlogSent) s
      exact ⟨hp.trans hp', hs.trans hs'⟩

/-- A flush ends with no credit, no backlog or a dead link. -/
theorem flushLoop_stops (fuel : Nat) (s : OutBody) (hfuel : s.backlog.length - s.backlogSent ≤ fuel) :
    (flushLoop fuel s).1.done = true ∨ (flushLoop fuel s).1.credit = 0 ∨
      (flushLoop fuel s).1.backlog.length ≤ (flushLoop fuel s).1.backlogSent := by
  induction fuel generalizing s with
  | zero =>
    refine .inr (.inr ?_)
    show s.backlog.length ≤ s.backlogSent
    omega
  | succ fuel ih =>
    unfold flushLoop
    split
    · next h => exact .inr h
    · next h =>
      rw [not_or, Nat.not_le] at h
      have hlen := nextLen_pos h.1 h.2
      simp only [send]
      cases s.sends.headD true with
      | true =>
        refine ih _ ?_
        simp only
        omega
      | false => exact .inl rfl

/-- The stream is done, out of credit or has no backlog. -/
def Flushed (s : OutBody) : Prop := s.done = true ∨ s.credit = 0 ∨ s.backlog = []

theorem flushed_classify (s : OutBody) : s.classify.1.Flushed := by
  unfold classify
  split
  · next hd => exact .inl hd
  · dsimp only
    split
    · next hd => exact .inl hd
    · have hstop := flushLoop_stops (s.backlog.length - s.backlogSent) s (Nat.le_refl _)
      change s.flush.1.done = true ∨ s.flush.1.credit = 0 ∨
        s.flush.1.backlog.length ≤ s.flush.1.backlogSent at hstop
      unfold compact
      split
      · exact .inr (.inr rfl)
      · next hc =>
        rcases hstop with hd | hcredit | hlen
        · exact .inl hd
        · exact .inr (.inl hcredit)
        · rw [not_and, Decidable.not_not] at hc
          exact .inr (.inr (hc hlen))

/-- Classifying a flushed stream sends nothing. -/
theorem Flushed.classify {s : OutBody} (h : s.Flushed) :
    s.classify.1.credit = s.credit ∧ s.classify.1.sends = s.sends ∧ s.classify.1.done = s.done ∧
      s.classify.2.2.1 = false ∧ s.classify.2.2.2 = s.next := by
  unfold OutBody.classify
  split
  · next hd => exact ⟨rfl, rfl, rfl, rfl, by simp [next, hd]⟩
  · next hd =>
    have hflush : s.flush = (s, [], false) := by
      unfold flush
      cases hfuel : s.backlog.length - s.backlogSent with
      | zero => rfl
      | succ n =>
        unfold flushLoop
        rw [if_pos]
        rcases h with hd' | hc | hb
        · exact absurd hd' hd
        · exact .inl hc
        · rw [hb]
          exact .inr (Nat.zero_le _)
    dsimp only
    rw [hflush, if_neg hd]
    dsimp only
    unfold compact
    split
    · next hc =>
      refine ⟨rfl, rfl, rfl, rfl, ?_⟩
      rcases h with hd' | hcredit | hb
      · exact absurd hd' hd
      · simp [next, hcredit]
      · exact absurd hb hc.2
    · exact ⟨rfl, rfl, rfl, rfl, rfl⟩

/-! ### One visit -/

theorem Flushed.workFrom {s : OutBody} (h : s.Flushed) (passed : Nat) :
    s.workFrom passed = match s.next with
      | .idle => []
      | .startPull => (passed + 1) :: pickUps s.credit s.sends (passed + 1) s.source
      | .awaitPending p =>
        pickUps s.credit s.sends passed
          (.returned { p with delay := p.delay.map (· + 1) } :: s.source) := by
  obtain ⟨hcredit, hsends, -, hsent, hnext⟩ := h.classify
  obtain ⟨-, hsource⟩ := classify_rest s
  unfold OutBody.workFrom
  split
  next t frames sent next heq =>
  rw [heq] at hcredit hsends hsent hnext hsource
  dsimp only at hcredit hsends hsent hnext hsource
  rw [hcredit, hsends, hsent, hnext, hsource]
  rfl

theorem flushed_tick {s : OutBody} (h : s.Flushed) : s.tick.Flushed := by
  unfold tick
  split
  · exact h
  · exact h

/-- A pull that was just started is picked up as its source says. -/
theorem workFrom_awaiting {s : OutBody} {p : Pull} (h : s.Hungry) (hp : s.pending = some p)
    (passed : Nat) :
    s.tick.workFrom passed = pickUps s.credit s.sends passed (.returned p :: s.source) := by
  have hflushed : s.tick.Flushed := flushed_tick (.inr (.inr h.backlog))
  rw [hflushed.workFrom]
  obtain ⟨delay, r⟩ := p
  rcases delay with _ | _ | d
  · have htick : s.tick = s := by simp [tick, hp]
    have hnext : s.next = .awaitPending ⟨none, r⟩ := by
      simp [next, h.isOpen, h.backlog, h.credit, hp]
    rw [htick, hnext]
    rfl
  · have htick : s.tick = s := by simp [tick, hp]
    have hnext : s.next = .awaitPending ⟨some 0, r⟩ := by
      simp [next, h.isOpen, h.backlog, h.credit, hp]
    rw [htick, hnext]
    simp [pickUps]
  · have hnext : s.tick.next = .awaitPending ⟨some d, r⟩ := by
      simp [next, tick, h.isOpen, h.backlog, h.credit, hp]
    rw [hnext]
    simp [tick, hp, pickUps]

theorem done_workFrom {s : OutBody} (h : s.done = true) (passed : Nat) : s.workFrom passed = [] := by
  have hnext : s.next = .idle := by simp [next, h]
  rw [Flushed.workFrom (.inl h), hnext]

/-- Starting a pull is progress, and its answers come as its source says. -/
theorem startPull_work {s : OutBody} (hnext : s.next = .startPull) (progressed : Bool) (passed : Nat) :
    (s.startPull false progressed).2.2 = true ∧ (s.startPull false progressed).1.Flushed ∧
      (s.startPull false progressed).1.tick.workFrom passed =
        pickUps s.credit s.sends passed s.source := by
  have h : s.Hungry := next_hungry (by rw [hnext]; simp)
  unfold startPull
  cases hsource : s.source with
  | nil =>
    refine ⟨rfl, .inr (.inr h.backlog), ?_⟩
    refine (workFrom_awaiting (s := { s with source := [], pending := some ⟨none, .rejected none⟩, yielded := _ })
      ⟨h.isOpen, h.backlog, h.credit⟩ rfl passed).trans ?_
    rfl
  | cons start source =>
    cases start with
    | returned p =>
      refine ⟨rfl, .inr (.inr h.backlog), ?_⟩
      exact workFrom_awaiting (s := { s with source := source, pending := some p, yielded := _ })
        ⟨h.isOpen, h.backlog, h.credit⟩ rfl passed
    | threw message =>
      refine ⟨rfl, .inl rfl, ?_⟩
      rw [done_workFrom]
      · rfl
      · rw [tick_done]
        rfl

/-- What a chunk costs does not depend on the rest of the stream. -/
theorem afford_eq {s : OutBody} (data : List UInt8) (h : s.Hungry) :
    afford s.credit s.sends data =
      let t := (s.settle (.ok (some data))).1.classify.1
      if t.next = .startPull then some (t.credit, t.sends) else none := by
  have hflow : SameFlow (s.settle (.ok (some data))).1
      { new [] s.sends with credit := s.credit, backlog := data } :=
    ⟨rfl, rfl, rfl, rfl, h.isOpen⟩
  have hsame := hflow.classify
  have hpending : (s.settle (.ok (some data))).1.classify.1.pending = none :=
    (classify_rest _).1
  have hpending' : ({ new [] s.sends with credit := s.credit, backlog := data } : OutBody).classify.1.pending
      = none := (classify_rest _).1
  have hnext : ({ new [] s.sends with credit := s.credit, backlog := data } : OutBody).classify.1.next =
      (s.settle (.ok (some data))).1.classify.1.next := by
    unfold next
    rw [hpending, hpending', hsame.done, hsame.backlog, hsame.credit]
  unfold afford
  dsimp only
  rw [hnext, hsame.credit, hsame.sends]

/-- A stream with no pull in flight and nothing to start is idle. -/
theorem next_of_pending_none {s : OutBody} (hp : s.pending = none) (hn : s.next ≠ .startPull) :
    s.next = .idle := by
  unfold next at hn ⊢
  rw [hp] at hn ⊢
  split
  · rfl
  · next hc =>
    rw [if_neg hc] at hn
    exact absurd rfl hn

theorem idle_workFrom {s : OutBody} (hf : s.Flushed) (hn : s.next = .idle) (passed : Nat) :
    s.tick.workFrom passed = [] := by
  have hn' : s.tick.next = .idle := by
    unfold next at hn ⊢
    have hd : s.tick.done = s.done := tick_done s
    have hb : s.tick.backlog = s.backlog ∧ s.tick.credit = s.credit := by
      unfold tick
      split <;> exact ⟨rfl, rfl⟩
    rw [hd, hb.1, hb.2]
    split at hn
    · next hc => rw [if_pos hc]
    · split at hn <;> cases hn
  rw [(flushed_tick hf).workFrom, hn']

/-- A visit makes progress exactly in a round with work for the stream, and
leaves the work of the later rounds. -/
def Visited (s : OutBody) (passed : Nat) (visit : OutBody × List BodyFrame × Bool) : Prop :=
  (visit.2.2 = true ↔ passed + 1 ∈ s.workFrom passed) ∧ visit.1.Flushed ∧
    ∀ m, passed + 1 < m → (m ∈ visit.1.tick.workFrom (passed + 1) ↔ m ∈ s.workFrom passed)

/-- The first round is the only one a flush adds. -/
theorem mem_sent_append (sent : Bool) {k m : Nat} (l : List Nat) (h : k < m) :
    m ∈ (if sent = true then [k] else []) ++ l ↔ m ∈ l := by
  cases sent with
  | false => simp
  | true =>
    have : m ≠ k := by omega
    simp [this]

/-- The driver reads a settled pull and starts the next one. -/
theorem drive_restarts {s t u : OutBody} {frames more : List BodyFrame} {sent sent' : Bool}
    {r : PullResult} (hc : s.classify = (t, frames, sent, .awaitPending ⟨some 0, r⟩))
    (hu : (t.settle r.outcome).1.classify = (u, more, sent', .startPull)) :
    s.drive false = ((u.startPull false true).1,
      frames ++ (t.settle r.outcome).2 ++ more ++ (u.startPull false true).2.1,
      (u.startPull false true).2.2) := by
  unfold drive
  rw [hc]
  dsimp only
  rw [if_neg (by simp), hu]

/-- The driver reads a settled pull that leaves nothing to start. -/
theorem drive_rests {s t u : OutBody} {frames more : List BodyFrame} {sent sent' : Bool}
    {r : PullResult} (hc : s.classify = (t, frames, sent, .awaitPending ⟨some 0, r⟩))
    (hu : (t.settle r.outcome).1.classify = (u, more, sent', .idle)) :
    s.drive false = (u, frames ++ (t.settle r.outcome).2 ++ more, true) := by
  unfold drive
  rw [hc]
  dsimp only
  rw [if_neg (by simp), hu]

/-- The `AwaitPending` arm on a promise that has settled. -/
theorem visited_settled {s t : OutBody} {frames : List BodyFrame} {sent : Bool} {p : Pull}
    (passed : Nat) (hc : s.classify = (t, frames, sent, .awaitPending p)) (hdelay : p.delay = some 0) :
    s.Visited passed (s.drive false) := by
  have hnext : t.next = .awaitPending p := by
    have h := classify_next s
    rw [hc] at h
    exact h.symm
  have ht : t.Hungry := next_hungry (by rw [hnext]; simp)
  obtain ⟨delay, r⟩ := p
  obtain rfl : delay = some 0 := hdelay
  have hwork : s.workFrom passed = (if sent = true then [passed + 1] else []) ++
      (passed + 1) :: match r.outcome with
        | .ok (some data) =>
          match afford t.credit t.sends data with
          | some (credit, sends) => pickUps credit sends (passed + 1) t.source
          | none => []
        | _ => [] := by
    unfold workFrom
    rw [hc]
    simp only [Option.map_some, pickUps, Nat.max_self, Nat.zero_add]
  have hpending : (t.settle r.outcome).1.classify.1.pending = none := by
    rw [(classify_rest _).1]
    cases r.outcome with
    | ok chunk =>
      cases chunk with
      | some data => rfl
      | none => rfl
    | error message => rfl
  have hflushed := flushed_classify (t.settle r.outcome).1
  have hclass := classify_next (t.settle r.outcome).1
  have hsource : (t.settle r.outcome).1.classify.1.source = t.source := by
    rw [(classify_rest _).2]
    cases r.outcome with
    | ok chunk =>
      cases chunk with
      | some data => rfl
      | none => rfl
    | error message => rfl
  rw [Visited, hwork]
  rcases hu : (t.settle r.outcome).1.classify with ⟨u, more, sent', nx⟩
  rw [hu] at hpending hflushed hclass hsource
  dsimp only at hpending hflushed hclass hsource
  by_cases hn : u.next = .startPull
  · -- The chunk left credit: the next pull starts in this round.
    rw [hn] at hclass
    subst hclass
    obtain ⟨hprog, hfl, hwork'⟩ := startPull_work hn true (passed + 1)
    rw [drive_restarts hc hu]
    refine ⟨by simp [hprog], hfl, ?_⟩
    intro m hm
    rw [mem_sent_append _ _ hm, List.mem_cons, or_iff_right (by omega)]
    dsimp only
    rw [hwork', hsource]
    cases hout : r.outcome with
    | ok chunk =>
      cases chunk with
      | some data =>
        have hafford := afford_eq data ht
        rw [hout] at hu
        dsimp only at hafford
        rw [hu] at hafford
        dsimp only at hafford
        rw [if_pos hn] at hafford
        simp only [hafford]
      | none =>
        exfalso
        rw [hout] at hu
        have : (t.settle (.ok none)).1.classify.1.next = .idle := by
          simp [settle, send, OutBody.classify, next]
        rw [hu] at this
        rw [hn] at this
        cases this
    | error message =>
      exfalso
      rw [hout] at hu
      have : (t.settle (.error message)).1.classify.1.next = .idle := by
        simp [settle, send, OutBody.classify, next]
      rw [hu] at this
      rw [hn] at this
      cases this
  · have hidle := next_of_pending_none hpending hn
    rw [hidle] at hclass
    subst hclass
    rw [drive_rests hc hu]
    refine ⟨by simp, hflushed, ?_⟩
    intro m hm
    rw [mem_sent_append _ _ hm, List.mem_cons, or_iff_right (by omega)]
    dsimp only
    rw [idle_workFrom hflushed hidle]
    cases hout : r.outcome with
    | ok chunk =>
      cases chunk with
      | some data =>
        have hafford := afford_eq data ht
        rw [hout] at hu
        dsimp only at hafford
        rw [hu] at hafford
        dsimp only at hafford
        rw [if_neg hn] at hafford
        simp only [hafford]
      | none => rfl
    | error message => rfl

theorem visited_drive (s : OutBody) (passed : Nat) : s.Visited passed (s.drive false) := by
  rcases hc : s.classify with ⟨t, frames, sent, nx⟩
  have hnext : nx = t.next := by
    have h := classify_next s
    rw [hc] at h
    exact h
  have hflushed : t.Flushed := by
    have h := flushed_classify s
    rw [hc] at h
    exact h
  cases nx with
  | idle =>
    have hdrive : s.drive false = (t, frames, sent) := by
      unfold drive
      rw [hc]
    have hwork : s.workFrom passed = if sent = true then [passed + 1] else [] := by
      unfold workFrom
      rw [hc]
      simp
    rw [Visited, hdrive, hwork]
    refine ⟨by cases sent <;> simp, hflushed, ?_⟩
    intro m hm
    rw [idle_workFrom hflushed hnext.symm]
    have := mem_sent_append sent [] hm
    rw [List.append_nil] at this
    exact this.symm
  | startPull =>
    obtain ⟨hprog, hfl, hwork'⟩ := startPull_work hnext.symm sent (passed + 1)
    have hdrive : s.drive false = ((t.startPull false sent).1,
        frames ++ (t.startPull false sent).2.1, (t.startPull false sent).2.2) := by
      unfold drive
      rw [hc]
    have hwork : s.workFrom passed = (if sent = true then [passed + 1] else []) ++
        (passed + 1) :: pickUps t.credit t.sends (passed + 1) t.source := by
      unfold workFrom
      rw [hc]
    rw [Visited, hdrive, hwork]
    refine ⟨by simp [hprog], hfl, ?_⟩
    intro m hm
    rw [mem_sent_append _ _ hm, List.mem_cons, or_iff_right (by omega)]
    dsimp only
    rw [hwork']
  | awaitPending p =>
    by_cases hdelay : p.delay = some 0
    · exact visited_settled passed hc hdelay
    · have ht : t.Hungry := next_hungry (by rw [← hnext]; simp)
      have hp : t.pending = some p := next_await hnext.symm
      have hdrive : s.drive false = (t, frames, sent) := by
        unfold drive
        rw [hc]
        simp [hdelay]
      have hwork : s.workFrom passed = (if sent = true then [passed + 1] else []) ++
          pickUps t.credit t.sends passed
            (.returned { p with delay := p.delay.map (· + 1) } :: t.source) := by
        unfold workFrom
        rw [hc]
      -- What is in flight is picked up later than in this round.
      have hlater : passed + 1 ∉ pickUps t.credit t.sends passed
          (.returned { p with delay := p.delay.map (· + 1) } :: t.source) := by
        obtain ⟨delay, r⟩ := p
        rcases delay with _ | _ | d
        · simp [pickUps]
        · exact absurd rfl hdelay
        · intro hm
          simp only [pickUps, Option.map_some] at hm
          rcases List.mem_cons.mp hm with he | hm
          · omega
          · split at hm
            · split at hm
              · have := pickUps_gt hm
                omega
              · cases hm
            · cases hm
      rw [Visited, hdrive, hwork]
      refine ⟨?_, hflushed, ?_⟩
      · dsimp only
        rw [List.mem_append]
        constructor
        · intro hsent
          exact .inl (by simp [hsent])
        · rintro (hm | hm)
          · by_contra hsent
            simp [hsent] at hm
          · exact absurd hm hlater
      · intro m hm
        rw [mem_sent_append _ _ hm]
        dsimp only
        rw [workFrom_awaiting ht hp]
        obtain ⟨delay, r⟩ := p
        rcases delay with _ | _ | d
        · simp [pickUps]
        · exact absurd rfl hdelay
        · have he : passed + 1 + max 1 (d + 1) = passed + max 1 (d + 1 + 1) := by omega
          simp only [pickUps, Option.map_some, he]

/-! ### Quiet streams -/

/-- A flushed stream is quiet when the next round has no work for it. -/
theorem Flushed.quiet_iff {s : OutBody} (h : s.Flushed) (passed : Nat) :
    s.Quiet ↔ passed + 1 ∉ s.workFrom passed := by
  rw [h.workFrom]
  cases hn : s.next with
  | idle =>
    constructor
    · intro _
      simp
    · intro _
      unfold next at hn
      split at hn
      · next hc =>
        rcases hc with hd | hb | hcredit
        · exact .inl hd
        · rcases h with hd | hcredit | hb'
          · exact .inl hd
          · exact .inr (.inl hcredit)
          · exact absurd hb' hb
        · exact .inr (.inl hcredit)
      · split at hn <;> cases hn
  | startPull =>
    have hs : s.Hungry := next_hungry (by rw [hn]; simp)
    constructor
    · rintro (hd | hc | ⟨p, hp, -⟩)
      · rw [hs.isOpen] at hd
        cases hd
      · exact absurd hc hs.credit
      · rw [next_startPull hn] at hp
        cases hp
    · intro hm
      exact absurd (List.mem_cons_self) hm
  | awaitPending p =>
    have hs : s.Hungry := next_hungry (by rw [hn]; simp)
    have hp := next_await hn
    have hquiet : s.Quiet ↔ p.delay ≠ some 0 := by
      constructor
      · rintro (hd | hc | ⟨q, hq, hdelay⟩)
        · rw [hs.isOpen] at hd
          cases hd
        · exact absurd hc hs.credit
        · rw [hp] at hq
          exact Option.some.inj hq ▸ hdelay
      · intro hdelay
        exact .inr (.inr ⟨p, hp, hdelay⟩)
    rw [hquiet]
    obtain ⟨delay, r⟩ := p
    rcases delay with _ | _ | d
    · simp [pickUps]
    · simp [pickUps]
    · simp only [ne_eq, Option.some.injEq, Nat.add_eq_zero_iff, Nat.one_ne_zero, and_false,
        not_false_eq_true, true_iff, Option.map_some, pickUps]
      intro hm
      rcases List.mem_cons.mp hm with he | hm
      · omega
      · split at hm
        · split at hm
          · have := pickUps_gt hm
            omega
          · cases hm
        · cases hm

/-- A visit without progress leaves the classified stream. -/
theorem drive_noProgress {s : OutBody} (h : (s.drive false).2.2 = false) :
    (s.drive false).1 = s.classify.1 ∧ s.classify.2.2.1 = false := by
  rcases hc : s.classify with ⟨t, frames, sent, nx⟩
  have hnext : nx = t.next := by
    have h := classify_next s
    rw [hc] at h
    exact h
  cases nx with
  | idle =>
    unfold drive at h ⊢
    rw [hc] at h ⊢
    exact ⟨rfl, h⟩
  | startPull =>
    have hprog := (startPull_work hnext.symm sent 0).1
    unfold drive at h
    rw [hc] at h
    simp only at h
    rw [hprog] at h
    cases h
  | awaitPending p =>
    by_cases hdelay : p.delay = some 0
    · have hv := (visited_settled 0 hc hdelay).1
      obtain ⟨delay, r⟩ := p
      obtain rfl : delay = some 0 := hdelay
      rw [h] at hv
      exact absurd (hv.mpr (by unfold workFrom; rw [hc]; simp [pickUps])) (by simp)
    · unfold drive at h ⊢
      rw [hc] at h ⊢
      simp only [ne_eq, hdelay, not_false_eq_true, if_true] at h ⊢
      exact ⟨trivial, h⟩

theorem quiet_of_noProgress {s : OutBody} (h : (s.drive false).2.2 = false) :
    (s.drive false).1.Quiet := by
  obtain ⟨hstate, hsent⟩ := drive_noProgress h
  rw [hstate, (flushed_classify s).quiet_iff 0, (flushed_classify s).workFrom]
  have hv := (visited_drive s 0).1
  rw [h] at hv
  intro hm
  refine absurd (hv.mpr ?_) (by simp)
  unfold workFrom
  rw [show s.classify = (s.classify.1, s.classify.2.1, s.classify.2.2.1, s.classify.2.2.2) from rfl]
  rw [← classify_next s] at hm
  exact List.mem_append_right _ hm

/-- The stream after `n` rounds of visits and checkpoints. -/
def afterRounds (s : OutBody) : Nat → OutBody
  | 0 => s
  | n + 1 => (afterRounds s n |>.drive false).1.tick

theorem workFrom_afterRounds (s : OutBody) (n m : Nat) (h : n < m) :
    m ∈ (s.afterRounds n).workFrom n ↔ m ∈ s.workRounds := by
  induction n generalizing m with
  | zero => exact Iff.rfl
  | succ n ih =>
    rw [← ih m (by omega)]
    exact (visited_drive (s.afterRounds n) n).2.2 m h

/-- The stream makes progress in a round exactly when it has work there. -/
theorem progress_iff (s : OutBody) (n : Nat) :
    ((s.afterRounds n).drive false).2.2 = true ↔ n + 1 ∈ s.workRounds := by
  rw [← workFrom_afterRounds s n (n + 1) (by omega)]
  exact (visited_drive (s.afterRounds n) n).1

theorem quiet_afterRounds_iff (s : OutBody) (n : Nat) :
    (s.afterRounds (n + 1)).Quiet ↔ n + 2 ∉ s.workRounds := by
  have hf : (s.afterRounds (n + 1)).Flushed :=
    flushed_tick (visited_drive (s.afterRounds n) n).2.1
  rw [hf.quiet_iff (n + 1), workFrom_afterRounds s (n + 1) (n + 2) (by omega)]

end OutBody

namespace OutBodies

/-! ### The rounds of a drive -/

/-- A round that is not cut short visits every stream once. -/
theorem driveEach_spec {ids : List Nat} (hids : ids.Nodup) :
    ∀ (w : OutBodies) (progressed : Bool) (flags : List Bool), w.halted = false →
      (w.driveEach ids progressed flags).1.halted = false →
      (∀ id, (w.driveEach ids progressed flags).1.streams id =
        if id ∈ ids then (w.streams id).map fun s => (s.drive false).1 else w.streams id) ∧
      ((w.driveEach ids progressed flags).2.1 = true ↔ progressed = true ∨
        ∃ id ∈ ids, ∃ s, w.streams id = some s ∧ (s.drive false).2.2 = true) := by
  induction ids with
  | nil =>
    intro w progressed flags _ _
    exact ⟨fun id => by simp [driveEach], by simp [driveEach]⟩
  | cons id ids ih =>
    obtain ⟨hid, hids⟩ := List.nodup_cons.mp hids
    intro w progressed flags hlive hend
    cases hs : w.streams id with
    | none =>
      have hrec : w.driveEach (id :: ids) progressed flags = w.driveEach ids progressed flags := by
        rw [driveEach]
        simp [hs]
      rw [hrec] at hend ⊢
      obtain ⟨hstreams, hprog⟩ := ih hids w progressed flags hlive hend
      refine ⟨fun j => ?_, ?_⟩
      · rw [hstreams j]
        by_cases hj : j = id
        · subst hj
          simp [hs]
        · simp [hj]
      · rw [hprog]
        simp [hs]
    | some s =>
      have hterm : flags.headD false = false := by
        by_contra ht
        have ht : flags.headD false = true := by simpa using ht
        rw [driveEach] at hend
        simp only [hs, ht, if_true] at hend
        cases hend
      have hrec : w.driveEach (id :: ids) progressed flags =
          (w.put id (s.drive false).1 (s.drive false).2.1).driveEach ids
            (progressed || (s.drive false).2.2) flags.tail := by
        rw [driveEach]
        simp only [hs, hterm]
        rfl
      rw [hrec] at hend ⊢
      obtain ⟨hstreams, hprog⟩ := ih hids (w.put id (s.drive false).1 (s.drive false).2.1) _ _ hlive hend
      refine ⟨fun j => ?_, ?_⟩
      · rw [hstreams j]
        by_cases hj : j = id
        · subst hj
          simp [hid, put, hs]
        · simp [hj, put]
      · rw [hprog]
        have hother : ∀ j ∈ ids, (w.put id (s.drive false).1 (s.drive false).2.1).streams j =
            w.streams j := by
          intro j hj
          have : j ≠ id := by
            rintro rfl
            exact hid hj
          simp [put, this]
        constructor
        · rintro (h | ⟨j, hj, t, ht, hp⟩)
          · rcases Bool.or_eq_true _ _ ▸ h with h | h
            · exact .inl h
            · exact .inr ⟨id, List.mem_cons_self, s, hs, h⟩
          · rw [hother j hj] at ht
            exact .inr ⟨j, List.mem_cons_of_mem _ hj, t, ht, hp⟩
        · rintro (h | ⟨j, hj, t, ht, hp⟩)
          · exact .inl (by simp [h])
          · rcases List.mem_cons.mp hj with rfl | hj
            · obtain rfl : s = t := Option.some.inj (hs.symm.trans ht)
              exact .inl (by simp [hp])
            · exact .inr ⟨j, hj, t, (hother j hj).trans ht, hp⟩

/-- Some stream of `base` makes progress after `n` rounds. -/
def Busy (base : Nat → Option OutBody) (n : Nat) : Prop :=
  ∃ id s, base id = some s ∧ ((s.afterRounds n).drive false).2.2 = true

/-- A drive that is not cut short ends with the first round without progress,
or at the cap. -/
theorem driveRounds_spec (base : Nat → Option OutBody) (rounds : Nat) :
    ∀ (w : OutBodies) (flags : List Bool) (n : Nat), w.halted = false → w.keys.Nodup →
      (∀ id, id ∈ w.keys ↔ (base id).isSome) →
      (∀ id, w.streams id = (base id).map fun s => s.afterRounds n) →
      (driveRounds rounds w flags).halted = false →
      (∃ i, n ≤ i ∧ i < n + rounds ∧ ¬ Busy base i ∧ ∀ id,
        (driveRounds rounds w flags).streams id =
          (base id).map fun s => ((s.afterRounds i).drive false).1) ∨
      ((∀ i, n ≤ i → i < n + rounds → Busy base i) ∧ ∀ id,
        (driveRounds rounds w flags).streams id = (base id).map fun s => s.afterRounds (n + rounds)) := by
  induction rounds with
  | zero =>
    intro w flags n _ _ _ hbase _
    refine .inr ⟨fun i hi hi' => by omega, ?_⟩
    simpa [driveRounds] using hbase
  | succ rounds ih =>
    intro w flags n hlive hnodup hkeys hbase hend
    rcases hr : w.driveEach w.keys false flags with ⟨w', progressed, flags'⟩
    have hrounds : driveRounds (rounds + 1) w flags =
        if w'.halted ∨ progressed = false then w'
        else if flags'.headD false then { w'.checkpoint with halted := true }
        else driveRounds rounds w'.checkpoint flags'.tail := by
      rw [driveRounds, hr]
    have hlive' : w'.halted = false := by
      by_contra hh
      have hh : w'.halted = true := by simpa using hh
      rw [hrounds, if_pos (.inl hh), hh] at hend
      cases hend
    have hspec := driveEach_spec hnodup w false flags hlive (by rw [hr]; exact hlive')
    have hwkeys : w'.keys = w.keys := by
      have := driveEach_keys w.keys w false flags
      rw [hr] at this
      exact this
    rw [hr] at hspec
    obtain ⟨hstreams, hprog⟩ := hspec
    have hvisited : ∀ id, w'.streams id = (base id).map fun s => ((s.afterRounds n).drive false).1 := by
      intro id
      rw [hstreams id]
      cases hb : base id with
      | none =>
        have hnot : id ∉ w.keys := by rw [hkeys id, hb]; simp
        rw [if_neg hnot, hbase id, hb]
        rfl
      | some s =>
        have hin : id ∈ w.keys := by rw [hkeys id, hb]; rfl
        rw [if_pos hin, hbase id, hb]
        rfl
    have hbusy : progressed = true ↔ Busy base n := by
      rw [hprog]
      constructor
      · rintro (h | ⟨id, -, t, ht, hp⟩)
        · cases h
        · rw [hbase id] at ht
          obtain ⟨s, hs, rfl⟩ := Option.map_eq_some_iff.mp ht
          exact ⟨id, s, hs, hp⟩
      · rintro ⟨id, s, hs, hp⟩
        exact .inr ⟨id, by rw [hkeys id, hs]; rfl, s.afterRounds n, by rw [hbase id, hs]; rfl, hp⟩
    cases hprogressed : progressed with
    | false =>
      have hres : driveRounds (rounds + 1) w flags = w' := by
        rw [hrounds, if_pos (.inr hprogressed)]
      rw [hres]
      refine .inl ⟨n, Nat.le_refl _, by omega, ?_, hvisited⟩
      rw [← hbusy, hprogressed]
      simp
    | true =>
      have hgo : ¬ (w'.halted = true ∨ progressed = false) := by simp [hlive', hprogressed]
      have hflag : flags'.headD false = false := by
        by_contra hf
        have hf : flags'.headD false = true := by simpa using hf
        rw [hrounds, if_neg hgo, if_pos hf] at hend
        cases hend
      have hres : driveRounds (rounds + 1) w flags = driveRounds rounds w'.checkpoint flags'.tail := by
        rw [hrounds, if_neg hgo, hflag]
        rfl
      rw [hres] at hend ⊢
      have hnext : ∀ id, w'.checkpoint.streams id = (base id).map fun s => s.afterRounds (n + 1) := by
        intro id
        simp only [checkpoint, hvisited id, Option.map_map]
        rfl
      have hn : Busy base n := hbusy.mp hprogressed
      rcases ih w'.checkpoint flags'.tail (n + 1) hlive' (by rw [← hwkeys] at hnodup; exact hnodup)
        (by intro id; rw [← hkeys id, ← hwkeys]; rfl) hnext hend with ⟨i, hi, hi', hrest⟩ | ⟨hall, hfin⟩
      · exact .inl ⟨i, by omega, by omega, hrest⟩
      · refine .inr ⟨fun i hi hi' => ?_, ?_⟩
        · rcases Nat.eq_or_lt_of_le hi with rfl | hlt
          · exact hn
          · exact hall i hlt (by omega)
        · rw [show n + (rounds + 1) = n + 1 + rounds by omega]
          exact hfin

theorem busy_iff (base : Nat → Option OutBody) (n : Nat) :
    Busy base n ↔ ∃ id s, base id = some s ∧ n + 1 ∈ s.workRounds := by
  constructor
  · rintro ⟨id, s, hs, hp⟩
    exact ⟨id, s, hs, (s.progress_iff n).mp hp⟩
  · rintro ⟨id, s, hs, hp⟩
    exact ⟨id, s, hs, (s.progress_iff n).mpr hp⟩

end OutBodies

/-- **When a drive leaves nothing to do.**  In every run, a drive that is not
cut short by a terminate leaves each stream done, without host credit or with
an unsettled pull in flight, exactly when in one of the rounds 1 to 33 no
stream has work. -/
theorem drive_quiet_iff (ops : List OutBodyOp) (flags : List Bool)
    (hlive : (Execution.exec OutBodies.step .new ops).halted = false)
    (hend : ((Execution.exec OutBodies.step .new ops).driveOutStreams flags).halted = false) :
    (∀ id s, ((Execution.exec OutBodies.step .new ops).driveOutStreams flags).streams id = some s →
      s.Quiet) ↔
    ∃ r, 1 ≤ r ∧ r ≤ 33 ∧ ∀ id s, (Execution.exec OutBodies.step .new ops).streams id = some s →
      r ∉ s.workRounds := by
  have hw := OutBodies.inv_exec ops
  set w := Execution.exec OutBodies.step .new ops
  have idle : ∀ n, ¬ OutBodies.Busy w.streams n ↔
      ∀ id s, w.streams id = some s → n + 1 ∉ s.workRounds := by
    intro n
    rw [OutBodies.busy_iff]
    push Not
    rfl
  rcases OutBodies.driveRounds_spec w.streams OutBodies.outDriveMaxRounds w flags 0 hlive
    hw.nodup hw.keys (fun id => by simp [OutBody.afterRounds]) hend with
    ⟨i, -, hi, hnot, hres⟩ | ⟨hall, hres⟩
  · -- The loop ended by itself: both sides hold.
    refine iff_of_true ?_ ⟨i + 1, by omega, ?_, (idle i).mp hnot⟩
    · intro id t ht
      rw [OutBodies.driveOutStreams, hres id] at ht
      obtain ⟨s, hs, rfl⟩ := Option.map_eq_some_iff.mp ht
      apply OutBody.quiet_of_noProgress
      by_contra hp
      exact hnot ⟨id, s, hs, by simpa using hp⟩
    · have hcap : OutBodies.outDriveMaxRounds = 32 := rfl
      omega
  · -- The loop ended at the cap: what would come next decides.
    constructor
    · intro hquiet
      refine ⟨33, by omega, by omega, fun id s hs => ?_⟩
      refine (s.quiet_afterRounds_iff 31).mp (hquiet id _ ?_)
      rw [OutBodies.driveOutStreams, hres id, hs]
      rfl
    · rintro ⟨r, hr, hr', hnone⟩ id t ht
      rw [OutBodies.driveOutStreams, hres id] at ht
      obtain ⟨s, hs, rfl⟩ := Option.map_eq_some_iff.mp ht
      have hlast : r = 33 := by
        by_contra hne
        have hbusy := hall (r - 1) (by omega) (by
          have hcap : OutBodies.outDriveMaxRounds = 32 := rfl
          omega)
        refine (idle (r - 1)).mpr ?_ hbusy
        rw [show r - 1 + 1 = r by omega]
        exact hnone
      subst hlast
      exact (s.quiet_afterRounds_iff 31).mpr (hnone id s hs)

/-- A run whose result body ends at once. -/
def emptyBody : List OutBodyOp := [.register [.returned ⟨some 1, .fulfilled .nullish⟩] []]

theorem drive_quiet_emptyBody :
    (Execution.exec OutBodies.step .new emptyBody).halted = false ∧
    ((Execution.exec OutBodies.step .new emptyBody).driveOutStreams []).halted = false ∧
    ∀ id s, ((Execution.exec OutBodies.step .new emptyBody).driveOutStreams []).streams id = some s →
      s.Quiet := by
  refine ⟨rfl, rfl, (drive_quiet_iff emptyBody [] rfl rfl).mpr ⟨3, by omega, by omega, ?_⟩⟩
  intro id s hs
  by_cases hid : id = 1
  · subst hid
    obtain rfl := Option.some.inj hs
    decide
  · have hnone : (Execution.exec OutBodies.step .new emptyBody).streams id = none := by
      simp [emptyBody, OutBodies.step, OutBodies.register, OutBodies.new, hid]
    rw [hnone] at hs
    cases hs

/-- A run whose result body yields forty empty chunks, each in the checkpoint
after its pull. -/
def fortyEmptyChunks : List OutBodyOp :=
  [.register (List.replicate 40 (.returned ⟨some 1, .fulfilled (.bytes [])⟩)) []]

/-- A source that answers with empty chunks is left at the cap with its whole
credit and a settled pull, and the host has nothing to grant credit for. -/
theorem drive_leaves_settled_pull :
    ((Execution.exec OutBodies.step .new fortyEmptyChunks).driveOutStreams []).halted = false ∧
    ((Execution.exec OutBodies.step .new fortyEmptyChunks).driveOutStreams []).frames = [] ∧
    ¬ ∀ id s, ((Execution.exec OutBodies.step .new fortyEmptyChunks).driveOutStreams []).streams id =
      some s → s.Quiet := by
  refine ⟨by decide, by decide, fun hquiet => ?_⟩
  rcases hquiet 1 _ rfl with hd | hc | ⟨p, hp, hdelay⟩
  · exact absurd hd (by decide)
  · exact absurd hc (by decide)
  · obtain rfl := Option.some.inj hp
    exact hdelay (by decide)

end Iso4
